import ErSdk.BoundedBuilder
import ErSdk.RequestArgs

namespace ErSdk.CoapLibraries

open BoundedBuilder

/-- The numbers of the CoAP options. -/
def observe : Nat := 6
def uriPath : Nat := 11
def uriQuery : Nat := 15

abbrev CoapOption := Nat × List UInt8

structure Body where
  token : Option Int
  options : List CoapOption
  payload : List UInt8
  deriving DecidableEq, Repr

def Body.empty : Body := ⟨none, [], []⟩

inductive Part
  | token (t : Int)
  | option (o : CoapOption)
  | payload (p : List UInt8)

def Body.extend (b : Body) : Part → Body
  | .token t => { b with token := some t }
  | .option o => { b with options := b.options ++ [o] }
  | .payload p => { b with payload := p }

/-- Options go in the order of their numbers, and the payload behind them. libcoap takes the token
before all of it. -/
def Body.Takes (tokenFirst : Bool) (b : Body) : Part → Prop
  | .token _ => b.token = none ∧ (tokenFirst → b.options = [] ∧ b.payload = [])
  | .option o => (∀ o' ∈ b.options, o'.1 ≤ o.1) ∧ b.payload = []
  | .payload _ => b.payload = []

inductive MessageType
  | con
  | non
  deriving DecidableEq, Repr

inductive MethodCode
  | get
  | post
  deriving DecidableEq, Repr

structure Header where
  type : MessageType
  code : MethodCode
  mid : Nat
  deriving DecidableEq, Repr

/-- A CoAP library: PDUs of a fixed size, and the header that can be set at any time. -/
structure CoapLibrary (tokenFirst : Bool) (P : Type) extends
    Builder Body.extend (Body.Takes tokenFirst) P where
  init : P
  header : P → Header
  setHeader : P → Header → P
  read_init : read init = .empty
  read_setHeader : ∀ p h, read (setHeader p h) = read p

def msgBufLen : Nat := 128

/-- Picocoap writes the bytes of the PDU to the buffer that it gets. -/
structure Picocoap (P : Type) extends CoapLibrary false P where
  buf : P → List UInt8
  length_buf : ∀ p, (buf p).length ≤ msgBufLen
  capacity_eq : capacity = msgBufLen

/-- libcoap has lists of options, in an order that the caller gives. A node that is NULL is not
inserted. A PDU with fewer options is not larger. -/
structure Libcoap (P : Type) extends CoapLibrary true P where
  coapInsert : (CoapOption → CoapOption → Int) → List CoapOption → Option CoapOption → List CoapOption
  insert_none : ∀ order l, coapInsert order l none = l
  insert_some : ∀ order l o, coapInsert order l (some o) =
    l.takeWhile (fun x => 0 ≤ order o x) ++ o :: l.dropWhile (fun x => 0 ≤ order o x)
  fewer : ∀ {t : Option Int} {l l' : List CoapOption} {payload : List UInt8}, l.Sublist l' →
    size ⟨t, l, payload⟩ ≤ size ⟨t, l', payload⟩

theorem inOrder_options {tokenFirst : Bool} {b : Body} (hpayload : b.payload = [])
    {options : List CoapOption} (hsorted : options.Pairwise (fun o o' => o.1 ≤ o'.1))
    (hbehind : ∀ o ∈ b.options, ∀ o' ∈ options, o.1 ≤ o'.1) {rest : List Part}
    (hrest : InOrder Body.extend (Body.Takes tokenFirst) { b with options := b.options ++ options } rest) :
    InOrder Body.extend (Body.Takes tokenFirst) b (options.map .option ++ rest) := by
  induction options generalizing b with
  | nil =>
      rw [List.append_nil] at hrest
      exact hrest
  | cons o options ih =>
      obtain ⟨hfirst, hsorted⟩ := List.pairwise_cons.mp hsorted
      refine ⟨⟨fun o' ho' => hbehind o' ho' o List.mem_cons_self, hpayload⟩, ih hpayload hsorted ?_ ?_⟩
      · intro o₁ ho₁ o₂ ho₂
        rcases List.mem_append.mp ho₁ with ho₁ | ho₁
        · exact hbehind o₁ ho₁ o₂ (List.mem_cons_of_mem _ ho₂)
        · obtain rfl := List.mem_singleton.mp ho₁
          exact hfirst o₂ ho₂
      · unfold Body.extend
        dsimp only
        rw [List.append_assoc]
        exact hrest

theorem extend_options (b : Body) (options : List CoapOption) (rest : List Part) :
    (options.map Part.option ++ rest).foldl Body.extend b =
      rest.foldl Body.extend { b with options := b.options ++ options } := by
  induction options generalizing b with
  | nil =>
      rw [List.append_nil]
      rfl
  | cons o options ih =>
      refine (ih (b.extend (.option o))).trans ?_
      unfold Body.extend
      dsimp only
      rw [List.append_assoc]
      rfl

/-- What stands in the first byte of an option for a delta or a length. -/
def nibble (n : Nat) : Nat := if n < 13 then n else if n < 269 then 13 else 14

/-- The bytes of it that follow. -/
def extension (n : Nat) : List UInt8 :=
  if n < 13 then []
  else if n < 269 then [UInt8.ofNat (n - 13)]
  else [UInt8.ofNat ((n - 269) / 256), UInt8.ofNat (n - 269)]

/-- The options in their bytes, behind one with the given number. -/
def encodeOptions : Nat → List CoapOption → List UInt8
  | _, [] => []
  | number, (key, value) :: options =>
      UInt8.ofNat (16 * nibble (key - number) + nibble value.length) ::
        (extension (key - number) ++ (extension value.length ++ (value ++ encodeOptions key options)))

def tokenBytes (t : Int) : List UInt8 :=
  (List.range 4).map (fun i => UInt8.ofNat ((t % 2 ^ 32).toNat / 256 ^ i))

def MessageType.number : MessageType → Nat
  | .con => 0
  | .non => 1

def MethodCode.number : MethodCode → Nat
  | .get => 1
  | .post => 2

/-- The bytes of a message. A marker stands before a payload. -/
def encode (h : Header) (b : Body) : List UInt8 :=
  let token := b.token.elim [] tokenBytes
  [UInt8.ofNat (64 + 16 * h.type.number + token.length), UInt8.ofNat h.code.number,
      UInt8.ofNat (h.mid / 256), UInt8.ofNat h.mid] ++
    (token ++ (encodeOptions 0 b.options ++ if b.payload = [] then [] else 255 :: b.payload))

def Body.size (b : Body) : Nat :=
  4 + (b.token.elim [] tokenBytes).length + (encodeOptions 0 b.options).length +
    if b.payload = [] then 0 else b.payload.length + 1

theorem length_encode (h : Header) (b : Body) : (encode h b).length = b.size := by
  unfold encode Body.size
  simp only [List.length_append, List.length_cons, List.length_nil]
  split
  · simp only [List.length_nil]
    omega
  · simp only [List.length_cons]
    omega

theorem length_extension_le (m n : Nat) :
    (extension (m + n)).length ≤ (extension m).length + (extension n).length + 1 := by
  unfold extension
  split_ifs
  all_goals simp only [List.length_cons, List.length_nil]
  all_goals omega

theorem length_extension_mono {m n : Nat} (h : m ≤ n) : (extension m).length ≤ (extension n).length := by
  unfold extension
  split_ifs
  all_goals simp only [List.length_cons, List.length_nil]
  all_goals omega

theorem length_encodeOptions_append (number : Nat) (options : List CoapOption) (o : CoapOption) :
    (encodeOptions number options).length ≤ (encodeOptions number (options ++ [o])).length := by
  induction options generalizing number with
  | nil => exact Nat.zero_le _
  | cons o' options ih =>
      simp only [List.cons_append, encodeOptions, List.length_cons, List.length_append]
      have hrest := ih o'.1
      omega

theorem length_encodeOptions_skip (number key : Nat) (options : List CoapOption) :
    (encodeOptions number options).length ≤
      (encodeOptions key options).length + (extension (key - number)).length + 1 := by
  cases options with
  | nil => exact Nat.zero_le _
  | cons o options =>
      simp only [encodeOptions, List.length_cons, List.length_append]
      have hle := length_extension_le (o.1 - key) (key - number)
      have hmono : (extension (o.1 - number)).length ≤
          (extension (o.1 - key + (key - number))).length := length_extension_mono (by omega)
      omega

theorem length_encodeOptions_sublist {options options' : List CoapOption}
    (h : options.Sublist options') (number : Nat) :
    (encodeOptions number options).length ≤ (encodeOptions number options').length := by
  induction h generalizing number with
  | slnil => exact Nat.le_refl _
  | @cons options options' o h ih =>
      have hskip := length_encodeOptions_skip number o.1 options
      have hrest := ih o.1
      simp only [encodeOptions, List.length_cons, List.length_append]
      omega
  | @cons_cons options options' o h ih =>
      simp only [encodeOptions, List.length_cons, List.length_append]
      have hrest := ih o.1
      omega

theorem Body.size_extend {tokenFirst : Bool} {b : Body} {part : Part} (h : b.Takes tokenFirst part) :
    b.size ≤ (b.extend part).size := by
  unfold Body.size
  cases part with
  | token t =>
      rw [h.1]
      exact Nat.add_le_add_right (Nat.add_le_add_right (Nat.le_add_right 4 _) _) _
  | option o =>
      have hlen := length_encodeOptions_append 0 b.options o
      exact Nat.add_le_add_right (Nat.add_le_add_left hlen _) _
  | payload p =>
      obtain ⟨token, options, payload⟩ := b
      obtain rfl : payload = [] := h
      simp [Body.extend]

/-- A PDU with room behind its header. -/
def Pdu (room : Nat) : Type := { p : Header × Body // p.2.size ≤ 4 + room }

def library (tokenFirst : Bool) (room : Nat) : CoapLibrary tokenFirst (Pdu room) where
  read p := p.1.2
  add p part :=
    if h : (p.1.2.extend part).size ≤ 4 + room then (true, ⟨(p.1.1, p.1.2.extend part), h⟩)
    else (false, p)
  size := Body.size
  capacity := 4 + room
  grows := Body.size_extend
  room := fun _ h => by rw [dif_pos h]
  added := by
    intro p part h
    split at h
    · rename_i hfits
      rw [dif_pos hfits]
    · exact absurd h nofun
  refused := by
    intro p part h
    split at h
    · exact absurd h nofun
    · rename_i hfits
      rw [dif_neg hfits]
  init := ⟨(⟨.con, .get, 0⟩, .empty), Nat.le_add_right 4 room⟩
  header p := p.1.1
  setHeader p h := ⟨(h, p.1.2), p.2⟩
  read_init := rfl
  read_setHeader _ _ := rfl

def picocoap : Picocoap (Pdu 124) where
  toCoapLibrary := library false 124
  buf p := encode p.1.1 p.1.2
  length_buf p := by
    rw [length_encode]
    exact p.2
  capacity_eq := rfl

def libcoap (room : Nat) : Libcoap (Pdu room) where
  toCoapLibrary := library true room
  coapInsert order l
    | none => l
    | some o => l.takeWhile (fun x => 0 ≤ order o x) ++ o :: l.dropWhile (fun x => 0 ≤ order o x)
  insert_none _ _ := rfl
  insert_some _ _ _ := rfl
  fewer h := Nat.add_le_add_right (Nat.add_le_add_left (length_encodeOptions_sublist h 0) _) _

end ErSdk.CoapLibraries
