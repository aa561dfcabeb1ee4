import ErSdk.HeaderBoundary
import ErSdk.HttpDelivery
import Mathlib.Data.List.Induction

namespace ErSdk.HeaderNumbers

open Pmatch Patterns HttpParser HeaderBoundary HttpDelivery

theorem isDigit_iff {c : UInt8} : isDigit c = true ↔ 48 ≤ c.toNat ∧ c.toNat ≤ 57 := by
  simp [isDigit, UInt8.le_iff_toNat_le]

theorem digitValue_digit {c : UInt8} (h : isDigit c = true) :
    digitValue c = some (c.toNat - 48) := by
  unfold digitValue
  rw [if_pos h]

theorem isDigitOf_digit {base : Nat} {c : UInt8} (h : isDigit c = true) :
    isDigitOf base c = true ↔ c.toNat - 48 < base := by
  simp [isDigitOf, digitValue_digit h]

theorem numberOf_append (base : Nat) (d : List UInt8) (c : UInt8) :
    numberOf base (d ++ [c]) = base * numberOf base d + (digitValue c).getD 0 := by
  simp [numberOf]

theorem octal_le_decimal (d : List UInt8) : numberOf 8 d ≤ decimal d := by
  unfold decimal
  induction d using List.reverseRecOn with
  | nil => exact Nat.le_refl 0
  | append_singleton d c ih =>
      rw [numberOf_append, numberOf_append]
      omega

theorem octal_eq_decimal_iff {d : List UInt8} (hd : d.all isDigit = true) :
    d.all (isDigitOf 8) = true ∧ numberOf 8 d = decimal d ↔ decimal d < 8 := by
  induction d using List.reverseRecOn with
  | nil => exact iff_of_true ⟨rfl, rfl⟩ (by decide)
  | append_singleton d c ih =>
      simp only [List.all_append, List.all_cons, List.all_nil, Bool.and_true, Bool.and_eq_true] at hd ⊢
      obtain ⟨hd, hc⟩ := hd
      have ih := ih hd
      have hle := octal_le_decimal d
      rw [isDigitOf_digit hc]
      unfold decimal at ih hle ⊢
      rw [numberOf_append, numberOf_append, digitValue_digit hc, Option.getD_some]
      constructor
      · rintro ⟨⟨-, hlt⟩, heq⟩
        omega
      · intro hlt
        obtain ⟨hall, -⟩ := ih.mpr (by omega)
        exact ⟨⟨hall, by omega⟩, by omega⟩

/-- The digits are a C integer constant with this value: octal if the first one is 0. -/
def IsConstant (t : List UInt8) (n : Nat) : Prop :=
  if t.head? = some 48 then t.all (isDigitOf 8) = true ∧ numberOf 8 t = n else decimal t = n

instance (t : List UInt8) (n : Nat) : Decidable (IsConstant t n) := by
  unfold IsConstant
  infer_instance

/-- As a C integer constant the digits have the value that they have in base ten. -/
def PlainDecimal (d : List UInt8) : Prop := d.head? ≠ some 48 ∨ decimal d < 8

theorem isConstant_decimal {d : List UInt8} (hd : d.all isDigit = true) :
    IsConstant d (decimal d) ↔ PlainDecimal d := by
  unfold IsConstant PlainDecimal
  by_cases h : d.head? = some 48
  · rw [if_pos h, octal_eq_decimal_iff hd]
    exact ⟨.inr, fun hor => hor.resolve_left (fun hne => hne h)⟩
  · rw [if_neg h]
    exact iff_of_true rfl (.inl h)

section

variable {t : List UInt8} (hne : t ≠ []) (ht : t.all isDigit = true)

include hne ht

theorem radix_digits : radix t = (if t.head? = some 48 then 8 else 10, t) := by
  unfold radix
  split
  · rename_i x d rest
    simp only [List.all_cons, Bool.and_eq_true] at ht
    have hx := isDigit_iff.mp ht.2.1
    have hlower : ¬ toLower x = 120 := by
      rw [toLower, if_neg (by simp [isUpper, UInt8.le_iff_toNat_le]; omega), ← UInt8.toNat_inj]
      exact Nat.ne_of_lt (Nat.lt_of_le_of_lt hx.2 (by decide))
    rw [if_neg (fun h => hlower h.1)]
    rfl
  · rfl
  · rename_i h
    rw [if_neg]
    intro hhead
    obtain ⟨rest, rfl⟩ := List.head?_eq_some_iff.mp hhead
    exact h rest rfl

theorem strtol_digits {base : Nat} (hbase : base = if t.head? = some 48 then 8 else 10) :
    strtol t = (min (numberOf base (t.takeWhile (isDigitOf base)) : Int) (2 ^ 63 - 1),
      t.dropWhile (isDigitOf base)) := by
  have hradix := radix_digits hne ht
  rw [← hbase] at hradix
  obtain ⟨c, hc, hhead⟩ : ∃ c, isDigit c = true ∧ t.head? = some c := by
    obtain ⟨c, rest, rfl⟩ := List.exists_cons_of_ne_nil hne
    exact ⟨c, (List.all_eq_true.mp ht) c List.mem_cons_self, rfl⟩
  obtain ⟨rest, rfl⟩ := List.head?_eq_some_iff.mp hhead
  have hrange := isDigit_iff.mp hc
  have hspace : isSpace c = false := by
    simp [isSpace, ← UInt8.toNat_inj, UInt8.le_iff_toNat_le]
    omega
  have hsign : ¬ c = 45 ∧ ¬ c = 43 := by
    simp only [← UInt8.toNat_inj]
    constructor <;> exact Nat.ne_of_gt (Nat.lt_of_lt_of_le (by decide) hrange.1)
  have hfirst : isDigitOf base c = true := by
    rw [isDigitOf_digit hc, hbase]
    by_cases h48 : c = 48
    · simp [h48]
    · rw [if_neg (by simpa using h48)]
      omega
  simp only [strtol, List.dropWhile_cons, hspace, List.headD_cons, hsign.1, hsign.2, or_self,
    if_false, Bool.false_eq_true, hradix, hfirst, List.takeWhile_cons, if_true, reduceCtorEq]

theorem wholeNumber_of_base {base n : Nat} (hbase : base = if t.head? = some 48 then 8 else 10)
    (hn : n < 2 ^ 31) :
    wholeNumber t = some (n : Int) ↔ t.all (isDigitOf base) = true ∧ numberOf base t = n := by
  have hrest : t.dropWhile (isDigitOf base) = [] ↔ t.all (isDigitOf base) = true := by
    rw [List.dropWhile_eq_nil_iff, List.all_eq_true]
  unfold wholeNumber
  rw [strtol_digits hne ht hbase]
  by_cases hall : t.all (isDigitOf base) = true
  · have htake : t.takeWhile (isDigitOf base) = t :=
      List.takeWhile_eq_self_iff.mpr (List.all_eq_true.mp hall)
    rw [hrest.mpr hall, htake, if_neg (by simp [hne.symm]), Option.some.injEq]
    constructor
    · intro hmin
      exact ⟨hall, by omega⟩
    · rintro ⟨-, rfl⟩
      omega
  · rw [if_pos (.inr (fun hnil => hall (hrest.mp hnil)))]
    exact iff_of_false nofun (fun h => hall h.1)

theorem wholeNumber_iff {n : Nat} (hn : n < 2 ^ 31) :
    wholeNumber t = some (n : Int) ↔ IsConstant t n := by
  rw [wholeNumber_of_base hne ht rfl hn]
  unfold IsConstant
  by_cases h : t.head? = some 48
  · rw [if_pos h, if_pos h]
  · rw [if_neg h, if_neg h, decimal]
    refine and_iff_right (List.all_eq_true.mpr (fun c hc => ?_))
    have hdigit := List.all_eq_true.mp ht c hc
    have hrange := isDigit_iff.mp hdigit
    rw [isDigitOf_digit hdigit]
    omega

theorem wholeNumber_bounds {v : Int} (h : wholeNumber t = some v) :
    0 ≤ v ∧ v < 2 ^ 63 ∧ v ≤ decimal t := by
  have hv := strtol_of_wholeNumber h
  have hdigits := strtol_digits hne ht rfl
  generalize hbase : (if t.head? = some 48 then 8 else 10) = base at hdigits
  have hwhole : t.takeWhile (isDigitOf base) = t := by
    unfold wholeNumber at h
    dsimp only at h
    rw [hdigits] at h
    by_cases hrest : t.dropWhile (isDigitOf base) = []
    · rw [List.takeWhile_eq_self_iff]
      exact List.dropWhile_eq_nil_iff.mp hrest
    · rw [if_pos (.inr hrest)] at h
      exact absurd h nofun
  have hle : numberOf base t ≤ decimal t := by
    by_cases h48 : t.head? = some 48
    · rw [if_pos h48] at hbase
      exact hbase ▸ octal_le_decimal t
    · rw [if_neg h48] at hbase
      exact hbase ▸ Nat.le_refl _
  rw [hdigits, hwhole] at hv
  subst hv
  refine ⟨?_, ?_, ?_⟩ <;> omega

end

theorem digitsAt_digits {l src t : List UInt8} {s : Nat} (h : digitsAt l src s = some t) :
    t ≠ [] ∧ t.all isDigit = true := by
  unfold digitsAt at h
  by_cases hp : l <+: src.drop s ∧ (src.drop (s + l.length)).takeWhile isDigit ≠ []
  · rw [if_pos hp, Option.some.injEq] at h
    subst h
    exact ⟨hp.2, List.all_eq_true.mpr (fun c hc => List.mem_takeWhile_imp hc)⟩
  · rw [if_neg hp] at h
    exact absurd h nofun

theorem digitsAfter_digits {l src t : List UInt8} (h : digitsAfter l src = some t) :
    t ≠ [] ∧ t.all isDigit = true := by
  obtain ⟨s, -, hs⟩ := List.exists_of_findSome?_eq_some h
  exact digitsAt_digits hs

theorem digitsAfter_start {l d rest : List UInt8} {c : UInt8} (hne : d ≠ [])
    (hd : d.all isDigit = true) (hc : isDigit c = false) :
    digitsAfter l (l ++ (d ++ c :: rest)) = some d := by
  have hrun : (d ++ c :: rest).takeWhile isDigit = d := by
    rw [takeWhile_append_cons hc, List.takeWhile_eq_self_iff]
    exact List.all_eq_true.mp hd
  have hat : digitsAt l (l ++ (d ++ c :: rest)) 0 = some d := by
    unfold digitsAt
    rw [List.drop_zero, Nat.zero_add, List.drop_left, hrun,
      if_pos ⟨List.prefix_append l _, hne⟩]
  unfold digitsAfter
  rw [List.range_succ_eq_map, List.findSome?_cons, hat]

/-- The head of a response: the status line, and a header line with the length between
other lines. -/
structure ResponseHead where
  code : List UInt8
  reason : List UInt8
  before : List (List UInt8)
  length : List UInt8
  after : List (List UInt8)
  code_digits : code ≠ [] ∧ code.all isDigit = true
  reason_apart : ∀ c ∈ reason.head?, isDigit c = false
  length_digits : length ≠ [] ∧ length.all isDigit = true
  code_bound : decimal code < 2 ^ 31
  length_bound : decimal length < 2 ^ 31

namespace ResponseHead

variable (h : ResponseHead)

def statusLine : List UInt8 := bytes "HTTP/1.1 " ++ (h.code ++ h.reason)

def lengthLine : List UInt8 := bytes "Content-Length: " ++ h.length

def text : List UInt8 := joinLines ((h.statusLine :: h.before) ++ h.lengthLine :: h.after)

/-- Digits that stand behind the text of the length header before its line, as in a line
X-Content-Length. -/
def earlierLength : Option (List UInt8) :=
  digitsAfter (bytes "Content-Length: ") (joinLines (h.statusLine :: h.before))

end ResponseHead

theorem joinLines_append (l m : List UInt8) (ls ms : List (List UInt8)) :
    joinLines ((l :: ls) ++ m :: ms) = joinLines (l :: ls) ++ (crlf ++ joinLines (m :: ms)) := by
  induction ls generalizing l with
  | nil => rfl
  | cons k ls ih =>
      have hk := ih k
      simp only [List.cons_append, joinLines, List.append_assoc] at hk ⊢
      rw [hk]

theorem joinLines_break (l : List UInt8) (ls : List (List UInt8)) (body : List UInt8) :
    ∃ rest, joinLines (l :: ls) ++ (blankLine ++ body) = l ++ 13 :: rest := by
  cases ls with
  | nil => exact ⟨_, rfl⟩
  | cons m ls => exact ⟨_, List.append_assoc l _ _⟩

namespace ResponseHead

variable (h : ResponseHead) (body : List UInt8)

def stream : List UInt8 := h.text ++ (blankLine ++ body)

theorem digitsAfter_code : digitsAfter (bytes "HTTP/1.1 ") (h.stream body) = some h.code := by
  obtain ⟨rest, hrest⟩ := joinLines_break h.statusLine (h.before ++ h.lengthLine :: h.after) body
  obtain ⟨c, tail, hc, htail⟩ : ∃ c tail, isDigit c = false ∧ h.reason ++ 13 :: rest = c :: tail := by
    cases hr : h.reason with
    | nil => exact ⟨13, rest, by decide, rfl⟩
    | cons c tail => exact ⟨c, _, h.reason_apart c (by rw [hr]; rfl), rfl⟩
  have hstream : h.stream body = bytes "HTTP/1.1 " ++ (h.code ++ c :: tail) := by
    rw [← htail]
    simpa [stream, text, statusLine] using hrest
  rw [hstream]
  exact digitsAfter_start h.code_digits.1 h.code_digits.2 hc

theorem digitsAfter_length : digitsAfter (bytes "Content-Length: ") (h.stream body) =
    h.earlierLength.or (some h.length) := by
  obtain ⟨rest, hrest⟩ := joinLines_break h.lengthLine h.after body
  have hline : digitsAfter (bytes "Content-Length: ") (h.lengthLine ++ 13 :: rest) =
      some h.length := by
    rw [lengthLine, List.append_assoc]
    exact digitsAfter_start h.length_digits.1 h.length_digits.2 (by decide)
  have hstream : h.stream body = joinLines (h.statusLine :: h.before) ++
      13 :: ([] ++ 10 :: (h.lengthLine ++ 13 :: rest)) := by
    rw [stream, text, joinLines_append, ← hrest]
    simp [crlf]
  rw [hstream, digitsAfter_append (by decide) (by decide),
    digitsAfter_append (by decide) (by decide), hline]
  rfl

end ResponseHead

/-- What http_parse_header says of a head, the blank line and a body. -/
def NumbersRead (h : ResponseHead) (body : List UInt8) (alloc : Allocations) : Prop :=
  ∃ g, httpParseHeader (h.stream body) alloc = .ok g ∧ g.found = true ∧
    g.resultCode = some (decimal h.code : Int) ∧ g.contentLength = some (decimal h.length)

/-- The strings get memory, and what is read as a C integer constant is the decimal number of
its header. -/
structure Readable (h : ResponseHead) (alloc : Allocations) : Prop where
  resultStr : alloc.resultStr = true
  contentLengthStr : alloc.contentLengthStr = true
  code : PlainDecimal h.code
  alone : h.earlierLength = none → PlainDecimal h.length
  earlier : ∀ t, h.earlierLength = some t → IsConstant t (decimal h.length)

theorem readHeader_iff {alloc : Allocations} {i : Nat} {c t : List UInt8} {code n : Nat}
    (hc : c ≠ [] ∧ c.all isDigit = true) (hbound : decimal c < 2 ^ 31)
    (ht : t ≠ [] ∧ t.all isDigit = true) (hcode : code < 2 ^ 31) (hn : n < 2 ^ 31) :
    ((readHeader alloc i (some c) (some t)).found = true ∧
      (readHeader alloc i (some c) (some t)).resultCode = some (code : Int) ∧
      (readHeader alloc i (some c) (some t)).contentLength = some n) ↔
    alloc.resultStr = true ∧ alloc.contentLengthStr = true ∧ IsConstant c code ∧ IsConstant t n := by
  rw [← wholeNumber_iff hc.1 hc.2 hcode, ← wholeNumber_iff ht.1 ht.2 hn]
  unfold readHeader
  cases hr : alloc.resultStr with
  | false => simp
  | true =>
      cases hw : wholeNumber c with
      | none => simp [hw]
      | some v =>
          have hv := wholeNumber_bounds hc.1 hc.2 hw
          have h32 : toInt32 v = v := by
            unfold toInt32
            omega
          cases ha : alloc.contentLengthStr with
          | false => simp [hw]
          | true =>
              cases hl : wholeNumber t with
              | none => simp [hw, hl]
              | some u =>
                  have hu := wholeNumber_bounds ht.1 ht.2 hl
                  have hsize : sizeT u = n ↔ u = n := by
                    unfold sizeT
                    omega
                  simp [hw, hl, strtol_of_wholeNumber hw, strtol_of_wholeNumber hl, h32, hsize]

/-- The code and the length are read as they are written exactly when no leading zero makes
one of them octal and no earlier line gives another length. -/
theorem numbers_read_iff (h : ResponseHead) (body : List UInt8) (alloc : Allocations)
    (hsize : (h.stream body).length < 2 ^ 64) :
    NumbersRead h body alloc ↔ Readable h alloc := by
  obtain ⟨i, hi, -⟩ := lastOf_whole body h.text
  have hread := httpParseHeader_eq hsize alloc hi
  rw [h.digitsAfter_code body, h.digitsAfter_length body] at hread
  have hiff {t : List UInt8} (ht : t ≠ [] ∧ t.all isDigit = true)
      (hor : h.earlierLength.or (some h.length) = some t) :
      NumbersRead h body alloc ↔ alloc.resultStr = true ∧ alloc.contentLengthStr = true ∧
        IsConstant h.code (decimal h.code) ∧ IsConstant t (decimal h.length) := by
    rw [hor] at hread
    rw [← readHeader_iff (i := i) h.code_digits h.code_bound ht h.code_bound
      h.length_bound]
    constructor
    · rintro ⟨g, hg, hrest⟩
      obtain rfl := Except.ok.inj (hread.symm.trans hg)
      exact hrest
    · intro hrest
      exact ⟨_, hread, hrest⟩
  cases he : h.earlierLength with
  | none =>
      rw [hiff h.length_digits (by rw [he]; rfl), isConstant_decimal h.code_digits.2,
        isConstant_decimal h.length_digits.2]
      constructor
      · rintro ⟨hr, hl, hcode, hlength⟩
        exact ⟨hr, hl, hcode, fun _ => hlength, fun t ht => absurd (he.symm.trans ht) nofun⟩
      · intro hall
        exact ⟨hall.resultStr, hall.contentLengthStr, hall.code, hall.alone he⟩
  | some t =>
      rw [hiff (digitsAfter_digits he) (by rw [he]; rfl), isConstant_decimal h.code_digits.2]
      constructor
      · rintro ⟨hr, hl, hcode, hlength⟩
        refine ⟨hr, hl, hcode, fun hnone => absurd (he.symm.trans hnone) nofun, fun u hu => ?_⟩
        obtain rfl := Option.some.inj (he.symm.trans hu)
        exact hlength
      · intro hall
        exact ⟨hall.resultStr, hall.contentLengthStr, hall.code, hall.earlier t he⟩

def paddedHead : ResponseHead where
  code := bytes "200"
  reason := bytes " OK"
  before := [bytes "Server: x"]
  length := bytes "010"
  after := []
  code_digits := HttpDelivery.readResponse.code_digits
  reason_apart := by
    intro c hc
    obtain rfl : (32 : UInt8) = c := Option.some.inj hc
    decide
  length_digits := by decide
  code_bound := by decide
  length_bound := by decide

theorem numbers_read_iff_padded : NumbersRead paddedHead [] ⟨true, true⟩ ↔
    Readable paddedHead ⟨true, true⟩ :=
  numbers_read_iff paddedHead [] ⟨true, true⟩ (by decide)

/-- A length of 010 is read as 8. -/
theorem leading_zero_is_octal : ¬ ∀ h : ResponseHead, NumbersRead h [] ⟨true, true⟩ := by
  intro h
  obtain ⟨g, hg, -, -, hlength⟩ := h paddedHead
  have hread : (httpParseHeader (paddedHead.stream []) ⟨true, true⟩).toOption =
      some ⟨true, some 200, some 8, some 51⟩ := by
    decide +kernel
  rw [hg] at hread
  obtain rfl := Option.some.inj hread
  exact absurd hlength (by decide)

end ErSdk.HeaderNumbers
