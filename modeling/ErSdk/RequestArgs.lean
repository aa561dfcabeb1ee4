import ErSdk.Basic

namespace ErSdk.RequestArgs

inductive AppType
  | http
  | coap
  | json
  deriving DecidableEq, Repr

inductive Method
  | write
  | read
  | readWrite
  | subscribe
  | activate
  | listContent
  | downloadContent
  | timestamp
  | ip
  deriving DecidableEq, Repr

def cikLength : Nat := 40

abbrev CikBuffer := Vector UInt8 41

/-- A buffer that starts with the bytes of a list and is zero behind them. -/
def fill (l : List UInt8) : CikBuffer := Vector.ofFn (fun i => l.getD i.val 0)

def strcpy (s : List UInt8) (buffer : CikBuffer) : CikBuffer :=
  fill (s ++ 0 :: buffer.toList.drop (s.length + 1))

/-- memcpy of the first 40 bytes, and a NUL behind them. -/
def copyCik (cik : List UInt8) : CikBuffer := fill (cik.take cikLength)

/-- strncpy to a buffer of zeros. -/
def strncpy (cik : CikBuffer) : CikBuffer := fill ((cString cik.toList).take cikLength)

def checkCik : List UInt8 → Nat → Bool
  | [], _ => false
  | c :: rest, i =>
      if c = 0 then i = cikLength
      else if i ≥ cikLength then false
      else if !isAlnum c then false
      else checkCik rest (i + 1)

def systemIsCikFormatValid (cik : CikBuffer) : Bool := checkCik cik.toList 0

/-- A string of exactly 40 alphanumeric characters. -/
def ValidCik (cik : CikBuffer) : Prop :=
  ∃ s : List UInt8, s.length = cikLength ∧ (∀ c ∈ s, isAlnum c = true) ∧ cik.toList = s ++ [0]

theorem checkCik_iff {l : List UInt8} {i : Nat} :
    checkCik l i = true ↔ ∃ s rest, l = s ++ 0 :: rest ∧ (∀ c ∈ s, isAlnum c = true) ∧
      i + s.length = cikLength := by
  induction l generalizing i with
  | nil => exact iff_of_false nofun (fun ⟨s, rest, h, _⟩ => by cases s <;> cases h)
  | cons c l ih =>
      unfold checkCik
      by_cases hc : c = 0
      · rw [if_pos hc, decide_eq_true_iff]
        constructor
        · rintro rfl
          exact ⟨[], l, by rw [hc]; rfl, nofun, rfl⟩
        · rintro ⟨s, rest, he, hs, hlen⟩
          cases s with
          | nil => exact hlen
          | cons d s =>
              obtain ⟨rfl, -⟩ := List.cons.inj he
              exact absurd (hs c List.mem_cons_self) (by rw [hc]; decide)
      · rw [if_neg hc]
        have hsplit : (∃ s rest, c :: l = s ++ 0 :: rest ∧ (∀ d ∈ s, isAlnum d = true) ∧
            i + s.length = cikLength) ↔ isAlnum c = true ∧ checkCik l (i + 1) = true := by
          rw [ih]
          constructor
          · rintro ⟨s, rest, he, hs, hlen⟩
            cases s with
            | nil => exact absurd (List.cons.inj he).1 hc
            | cons d s =>
                obtain ⟨rfl, rfl⟩ := List.cons.inj he
                rw [List.length_cons] at hlen
                exact ⟨hs c List.mem_cons_self, s, rest, rfl,
                  fun d hd => hs d (List.mem_cons_of_mem _ hd), by omega⟩
          · rintro ⟨hal, s, rest, rfl, hs, hlen⟩
            refine ⟨c :: s, rest, rfl, ?_, by rw [List.length_cons]; omega⟩
            intro d hd
            obtain rfl | hd := List.mem_cons.mp hd
            · exact hal
            · exact hs d hd
        rw [hsplit]
        split
        · rename_i hi
          refine iff_of_false nofun (fun h => ?_)
          obtain ⟨s, rest, -, -, hlen⟩ := ih.mp h.2
          omega
        · cases hal : isAlnum c <;> simp

theorem systemIsCikFormatValid_iff {cik : CikBuffer} :
    systemIsCikFormatValid cik = true ↔ ValidCik cik := by
  have hlen : cik.toList.length = 41 := cik.length_toList
  unfold systemIsCikFormatValid
  rw [checkCik_iff]
  constructor
  · rintro ⟨s, rest, he, hs, hs40⟩
    rw [he, List.length_append, List.length_cons] at hlen
    have hnil : rest = [] := List.eq_nil_of_length_eq_zero (by unfold cikLength at hs40; omega)
    exact ⟨s, by omega, hs, by rw [he, hnil]⟩
  · rintro ⟨s, hs40, hs, he⟩
    exact ⟨s, [], he, hs, by omega⟩

theorem toList_copyCik {cik : List UInt8} (h : cikLength ≤ cik.length) :
    (copyCik cik).toList = cik.take cikLength ++ [0] := by
  have hlen : (cik.take cikLength).length = cikLength := by rw [List.length_take]; omega
  unfold copyCik fill
  rw [Vector.toList_ofFn]
  refine List.ext_getElem (by simp only [List.length_ofFn, List.length_append, hlen]; rfl) (fun i h₁ h₂ => ?_)
  rw [List.getElem_ofFn]
  by_cases hi : i < cikLength
  · rw [List.getElem_append_left (by omega)]
    simp [hlen, hi]
  · rw [List.getElem_append_right (by omega), List.getElem_singleton]
    simp only [List.getD_eq_getElem?_getD]
    rw [List.getElem?_eq_none (by omega)]
    rfl

theorem ValidCik.copy {cik : CikBuffer} (h : ValidCik cik) : ValidCik (copyCik cik.toList) := by
  obtain ⟨s, hlen, hs, he⟩ := h
  refine ⟨s, hlen, hs, ?_⟩
  rw [he, toList_copyCik (by rw [List.length_append]; omega), ← hlen, List.take_left]

/-- The functions a request can call back: one of the application, or one of the
functions that handle a subscription, an activation and the time. -/
inductive Callback
  | none
  | user (f : Nat)
  | onSubscribe
  | onActivate
  | onTimestamp
  deriving DecidableEq, Repr

structure ExoRequestArgs where
  appType : AppType
  callback : Callback
  subscribeUsrCallback : Option Nat
  method : Method
  messageId : Int
  cik : CikBuffer
  aliasName : Option (List UInt8)
  value : Option (List UInt8)
  timeout : Option (List UInt8)
  vendor : Option (List UInt8)
  model : Option (List UInt8)
  sn : Option (List UInt8)
  deriving DecidableEq, Repr

/-- memset of the whole structure to zero. -/
def ExoRequestArgs.zero (method : Method) : ExoRequestArgs :=
  { appType := .http
    callback := .none
    subscribeUsrCallback := none
    method
    messageId := 0
    cik := fill []
    aliasName := none
    value := none
    timeout := none
    vendor := none
    model := none
    sn := none }

/-- What the two pointers of a request of a state machine point to: the object that the
server API has made, named by its address, and the arguments. -/
structure Request where
  object : Nat
  args : ExoRequestArgs
  deriving DecidableEq, Repr

end ErSdk.RequestArgs
