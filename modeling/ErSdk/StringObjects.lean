import ErSdk.CStrings
import ErSdk.Runs
import ErSdk.Strings

namespace ErSdk.StringObjects

open CStrings Runs Error

/-- `struct string_class`. The buffer is the block that it points to, in its allocated length. -/
structure StringClass where
  buffer : Option (List UInt8)
  size : Nat
  bufsize : Nat
  fixedSize : Bool
  deriving DecidableEq, Repr

/-- What the allocations of a call give: NULL, or a block that holds anything. -/
abbrev Supply := Nat → Option (Nat → UInt8)

def newBlock (size : Nat) (fill : Nat → UInt8) : List UInt8 := (List.range size).map fill

/-- A negative size wraps around to one that no allocator has. -/
def malloc (size : Int) (fill : Option (Nat → UInt8)) : Option (List UInt8) :=
  if size < 0 then none else fill.map (newBlock size.toNat)

def realloc (old : List UInt8) (size : Nat) (fill : Option (Nat → UInt8)) : Option (List UInt8) :=
  fill.map (fun fill => (old ++ (newBlock size fill).drop old.length).take size)

/-- An access outside of a block, a pointer that free does not know, or a loop that has not come
to its end. -/
inductive Fault
  | undefined
  | unfinished
  deriving DecidableEq, Repr

/-- The error code, the object, and the number of allocations that were asked for, which stands
beside a fault too. -/
abbrev Outcome := Except (Fault × Nat) (Int × StringClass × Nat)

def allocations : Outcome → Nat
  | .ok (_, _, asked) => asked
  | .error (_, asked) => asked

def filled (init block : List UInt8) : List UInt8 := init ++ 0 :: block.drop (init.length + 1)

/-- `none` for a NULL pointer, which stands for the empty string. -/
def stringNew (initString : Option CText) (supply : Supply) : Except Int StringClass :=
  match supply 0 with
  | none => .error errNoMemory
  | some _ =>
      let text := initString.elim [] CText.text
      let bufsize := text.length + 1 + 256
      match malloc bufsize (supply 1) with
      | none => .error errNoMemory
      | some block => .ok ⟨some (filled text block), text.length, bufsize, false⟩

def stringNewConst (initString : List UInt8) (supply : Supply) : Except Int StringClass :=
  match supply 0 with
  | none => .error errNoMemory
  | some _ =>
      let bufsize := initString.length + 1
      match malloc bufsize (supply 1) with
      | none => .error errNoMemory
      | some block => .ok ⟨some (filled initString block), initString.length, bufsize, true⟩

/-- The chunk and a NUL, behind the content of a block that is large enough for them. -/
def append (str : StringClass) (newChunk : List UInt8) (asked : Nat) : Outcome :=
  match str.buffer.bind (fun block => writeAt block str.size (newChunk ++ [0])) with
  | none => .error (.undefined, asked)
  | some block =>
      .ok (errSuccess, { str with buffer := some block, size := str.size + newChunk.length }, asked)

def stringCatcn (str : StringClass) (newChunk : List UInt8) (supply : Supply) : Outcome :=
  if newChunk.length = 0 then .ok (errSuccess, str, 0)
  else if str.fixedSize then .ok (errFailure, str, 0)
  else if newChunk.length + str.size > str.bufsize - 1 then
    match realloc (str.buffer.getD []) (str.bufsize + newChunk.length) (supply 0) with
    | none => .ok (errNoMemory, str, 1)
    | some block =>
        append { str with buffer := some block, bufsize := str.bufsize + newChunk.length } newChunk 1
  else append str newChunk 0

def stringCatc (str : StringClass) (str2 : CText) (supply : Supply) : Outcome :=
  stringCatcn str str2.text supply

/-- The bytes that are read from the other object must lie in its block. -/
def stringCat (str str2 : StringClass) (supply : Supply) : Outcome :=
  match str2.buffer with
  | none => if str2.size = 0 then stringCatcn str [] supply else .error (.undefined, 0)
  | some block =>
      if str2.size ≤ block.length then stringCatcn str (block.take str2.size) supply
      else .error (.undefined, 0)

def rebuild (block oldstr : List UInt8) (tok : Nat) (substr replacement : List UInt8) :
    Option (List UInt8) := do
  let length := (← cStringAt oldstr 0).length
  let block ← writeAt block 0 (oldstr.take tok)
  let block ← writeAt block tok replacement
  let block ← writeAt block (tok + replacement.length)
    ((oldstr.drop (tok + substr.length)).take (length - substr.length - tok))
  writeAt block (length - substr.length + replacement.length) [0]

/-- The loop of string_replace, with the place of `head` in the buffer. The old block goes to
`free`, which knows it only if the strings have their memory from the C library. -/
def replaceLoop (libcHeap : Bool) (substr replacement : List UInt8) (supply : Supply) :
    Nat → StringClass → Nat → Nat → Outcome
  | 0, _, _, asked => .error (.unfinished, asked)
  | fuel + 1, str, head, asked =>
      match str.buffer with
      | none => .error (.undefined, asked)
      | some oldstr =>
          match (cStringAt oldstr head).map (strstr substr) with
          | none => .error (.undefined, asked)
          | some none => .ok (errSuccess, str, asked)
          | some (some i) =>
              let tok := head + i
              let size : Int := str.size - substr.length + replacement.length
              match malloc (size + 1) (supply asked) with
              | none => .ok (errNoMemory, { str with buffer := none }, asked + 1)
              | some block =>
                  match rebuild block oldstr tok substr replacement with
                  | none => .error (.undefined, asked + 1)
                  | some buffer =>
                      if libcHeap then
                        replaceLoop libcHeap substr replacement supply fuel
                          { str with buffer := some buffer, size := size.toNat,
                                     bufsize := size.toNat + 1 }
                          (tok + replacement.length) (asked + 1)
                      else .error (.undefined, asked + 1)

/-- A NULL pointer for one of the two strings ends the call. -/
def stringReplace (libcHeap : Bool) (fuel : Nat) (str : StringClass)
    (substr replacement : Option CText) (supply : Supply) : Outcome :=
  match substr, replacement with
  | some substr, some replacement =>
      replaceLoop libcHeap substr.text replacement.text supply fuel str 0 0
  | _, _ => .ok (errSuccess, str, 0)

/-- strcmp with the C string that stands in the buffer; `none` if no NUL ends it. -/
def stringIsEqual (str : StringClass) (cstring : CText) : Option Bool :=
  (str.buffer.bind (fun block => cStringAt block 0)).map (fun text => text = cstring.text)

def stringEmpty (str : StringClass) : StringClass := { str with size := 0 }

/-- The C string that the pointer of string_get_cstring points to. -/
def stringGetCstring (str : StringClass) : Option (List UInt8) :=
  str.buffer.bind (fun block => cStringAt block 0)

/-- What the module says of its objects: the four parts agree on the content. -/
def Valid (str : StringClass) (content : List UInt8) : Prop :=
  ∃ block, str.buffer = some block ∧ block.length = str.bufsize ∧ str.size + 1 ≤ str.bufsize ∧
    block.take str.size = content ∧ block[str.size]? = some 0

theorem valid_iff {str : StringClass} {content : List UInt8} : Valid str content ↔
    str.size = content.length ∧ ∃ rest, str.buffer = some (content ++ 0 :: rest) ∧
      str.bufsize = content.length + 1 + rest.length := by
  constructor
  · rintro ⟨block, hb, hlen, hsize, rfl, hnul⟩
    have hlt : str.size < block.length := by omega
    rw [List.getElem?_eq_getElem hlt, Option.some.injEq] at hnul
    refine ⟨by rw [List.length_take]; omega, block.drop (str.size + 1), ?_, ?_⟩
    · rw [hb, ← hnul, List.getElem_cons_drop, List.take_append_drop]
    · rw [List.length_take, List.length_drop]
      omega
  · rintro ⟨hsize, rest, hb, hbufsize⟩
    refine ⟨_, hb, ?_, ?_, ?_, ?_⟩
    · simp only [List.length_append, List.length_cons]
      omega
    · omega
    · rw [hsize, List.take_left]
    · rw [hsize, List.getElem?_append_right (Nat.le_refl _), Nat.sub_self]
      rfl

/-- What every object has, also one that string_empty has left without its terminator. -/
def Sized (str : StringClass) (content : List UInt8) : Prop :=
  ∃ block, str.buffer = some block ∧ block.length = str.bufsize ∧ str.size + 1 ≤ str.bufsize ∧
    block.take str.size = content ∧ 0 ∈ block

theorem Valid.sized {str : StringClass} {content : List UInt8} (h : Valid str content) :
    Sized str content := by
  obtain ⟨block, hb, hlen, hsize, hcontent, hnul⟩ := h
  exact ⟨block, hb, hlen, hsize, hcontent, List.mem_of_getElem? hnul⟩

theorem Valid.cstring {str : StringClass} {content : List UInt8} (h : Valid str content)
    (hnul : 0 ∉ content) : stringGetCstring str = some content := by
  obtain ⟨-, rest, hb, -⟩ := valid_iff.mp h
  have htext := cStringAt_append [] hnul rest
  unfold stringGetCstring
  rw [hb]
  exact htext

theorem Valid.isEqual {str : StringClass} {content : List UInt8} (h : Valid str content)
    (hnul : 0 ∉ content) (c : CText) : stringIsEqual str c = some (decide (content = c.text)) := by
  have hc := h.cstring hnul
  unfold stringGetCstring at hc
  unfold stringIsEqual
  rw [hc]
  rfl

@[simp] theorem length_newBlock (size : Nat) (fill : Nat → UInt8) :
    (newBlock size fill).length = size := by
  simp [newBlock]

theorem length_malloc {size : Int} {fill : Option (Nat → UInt8)} {block : List UInt8}
    (h : malloc size fill = some block) : 0 ≤ size ∧ block.length = size.toNat := by
  unfold malloc at h
  split at h
  · exact absurd h nofun
  · rename_i hsize
    obtain ⟨f, -, rfl⟩ := Option.map_eq_some_iff.mp h
    exact ⟨Int.not_lt.mp hsize, length_newBlock _ _⟩

theorem malloc_none (size : Int) : malloc size none = none := by
  unfold malloc
  split <;> rfl

theorem malloc_granted (size : Int) (hsize : 0 ≤ size) {fill : Option (Nat → UInt8)}
    (h : fill.isSome) : ∃ block, malloc size fill = some block ∧ block.length = size.toNat := by
  obtain ⟨f, rfl⟩ := Option.isSome_iff_exists.mp h
  refine ⟨newBlock size.toNat f, ?_, length_newBlock _ _⟩
  unfold malloc
  rw [if_neg (Int.not_lt.mpr hsize)]
  rfl

theorem valid_filled {init block : List UInt8} {bufsize : Nat} (hlen : block.length = bufsize)
    (hsize : init.length + 1 ≤ bufsize) (fixedSize : Bool) :
    Valid ⟨some (filled init block), init.length, bufsize, fixedSize⟩ init := by
  refine valid_iff.mpr ⟨rfl, _, rfl, ?_⟩
  show bufsize = _
  rw [List.length_drop, hlen]
  omega

theorem append_valid (content rest newChunk : List UInt8) (hroom : newChunk.length + 1 ≤ rest.length)
    (fixedSize : Bool) (asked : Nat) : ∃ buffer,
      append ⟨some (content ++ rest), content.length, content.length + rest.length, fixedSize⟩
        newChunk asked = .ok (errSuccess, ⟨buffer, content.length + newChunk.length,
          content.length + rest.length, fixedSize⟩, asked) ∧
      Valid ⟨buffer, content.length + newChunk.length, content.length + rest.length, fixedSize⟩
        (content ++ newChunk) := by
  have hwrite := writeAt_append content rest (newChunk ++ [0]) rfl
    (by rw [List.length_append]; exact hroom)
  refine ⟨some (content ++ (newChunk ++ [0]) ++ rest.drop (newChunk ++ [0]).length), ?_,
    valid_iff.mpr ⟨?_, rest.drop (newChunk ++ [0]).length, ?_, ?_⟩⟩
  · unfold append
    rw [Option.bind_some, hwrite]
  · show content.length + newChunk.length = _
    rw [List.length_append]
  · simp
  · show content.length + rest.length = _
    rw [List.length_drop, List.length_append, List.length_append, List.length_singleton]
    omega

theorem realloc_grown (old : List UInt8) (size : Nat) (fill : Nat → UInt8) :
    ∃ more, more.length = size ∧ realloc old (old.length + size) (some fill) = some (old ++ more) := by
  refine ⟨(newBlock (old.length + size) fill).drop old.length, by simp, ?_⟩
  rw [realloc, Option.map_some, List.take_of_length_le]
  rw [List.length_append, List.length_drop, length_newBlock, Nat.add_sub_cancel_left]

theorem stringCatcn_refines {str : StringClass} {content : List UInt8} (h : Valid str content)
    (newChunk : List UInt8) (supply : Supply) : ∃ code str' asked content',
      stringCatcn str newChunk supply = .ok (code, str', asked) ∧ Valid str' content' ∧
        Strings.stringCatcn ⟨content, str.bufsize, str.fixedSize⟩ newChunk (supply 0).isSome =
          (code, ⟨content', str'.bufsize, str'.fixedSize⟩) := by
  obtain ⟨hsize, rest, hb, hbufsize⟩ := valid_iff.mp h
  obtain ⟨buffer, size, bufsize, fixedSize⟩ := str
  dsimp only at hsize hb hbufsize
  subst hsize hb
  have hlen : bufsize = content.length + (0 :: rest).length := by
    rw [List.length_cons]
    omega
  subst hlen
  unfold stringCatcn Strings.stringCatcn
  dsimp only
  split
  · exact ⟨_, _, _, _, rfl, h, rfl⟩
  · split
    · exact ⟨_, _, _, _, rfl, h, rfl⟩
    · unfold Strings.grows Strings.StringClass.size
      dsimp only
      split
      · rename_i hgrows
        cases hsupply : supply 0 with
        | none => exact ⟨_, _, _, _, rfl, h, (if_pos hgrows).trans rfl⟩
        | some fill =>
            obtain ⟨more, hmore, hblock⟩ := realloc_grown (content ++ 0 :: rest) newChunk.length fill
            rw [List.length_append, List.append_assoc] at hblock
            obtain ⟨buffer, hrun, hvalid⟩ := append_valid content (0 :: rest ++ more)
              newChunk (by rw [List.length_append, hmore, List.length_cons]; omega) fixedSize 1
            rw [Option.getD_some, hblock]
            rw [List.length_append, hmore, ← Nat.add_assoc] at hrun hvalid
            exact ⟨_, _, _, _, hrun, hvalid, (if_pos hgrows).trans rfl⟩
      · rename_i hgrows
        obtain ⟨buffer, hrun, hvalid⟩ := append_valid content (0 :: rest) newChunk
          (by rw [List.length_cons] at *; omega) fixedSize 0
        exact ⟨_, _, _, _, hrun, hvalid, if_neg hgrows⟩

def concatenated (fixedSize : Bool) (content newChunk : List UInt8) : List UInt8 :=
  if fixedSize then content else content ++ newChunk

theorem granted_content {content content' newChunk : List UInt8} {bufsize bufsize' : Nat}
    {fixedSize fixedSize' : Bool} {code : Int} (h : Strings.stringCatcn ⟨content, bufsize, fixedSize⟩
      newChunk true = (code, ⟨content', bufsize', fixedSize'⟩)) :
    content' = concatenated fixedSize content newChunk := by
  unfold Strings.stringCatcn at h
  unfold concatenated
  split at h
  · rename_i hnil
    cases h
    rw [List.eq_nil_of_length_eq_zero hnil, List.append_nil, ite_self]
  · split at h
    · rename_i hfixed
      cases h
      exact (if_pos hfixed).symm
    · rename_i hfixed
      split at h
      · cases h
        exact (if_neg hfixed).symm
      · cases h
        exact (if_neg hfixed).symm

theorem stringCatcn_valid {str : StringClass} {content : List UInt8} (h : Valid str content)
    (newChunk : List UInt8) {supply : Supply} (hsupply : (supply 0).isSome) :
    ∃ code str' asked, stringCatcn str newChunk supply = .ok (code, str', asked) ∧
      Valid str' (concatenated str.fixedSize content newChunk) := by
  obtain ⟨code, str', asked, content', hrun, hvalid, habstract⟩ :=
    stringCatcn_refines h newChunk supply
  rw [hsupply] at habstract
  rw [granted_content habstract] at hvalid
  exact ⟨code, str', asked, hrun, hvalid⟩

end ErSdk.StringObjects
