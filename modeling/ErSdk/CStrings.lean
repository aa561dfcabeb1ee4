import Mathlib.Data.List.Infix
import ErSdk.Basic

namespace ErSdk.CStrings

/-- A C string without its terminator. -/
structure CText where
  text : List UInt8
  noNul : 0 ∉ text
  deriving DecidableEq, Repr

theorem cString_append {text : List UInt8} (h : 0 ∉ text) (rest : List UInt8) :
    cString (text ++ 0 :: rest) = text := by
  have hall : ∀ c ∈ text, decide (c ≠ 0) = true := fun c hc =>
    decide_eq_true (fun he => h (he ▸ hc))
  rw [cString, List.takeWhile_append_of_pos hall, List.takeWhile_cons_of_neg (by decide),
    List.append_nil]

/-- The C string at a place of a block; none if no NUL stands behind it in the block. -/
def cStringAt (block : List UInt8) (place : Nat) : Option (List UInt8) :=
  if place + (cString (block.drop place)).length < block.length then
    some (cString (block.drop place))
  else none

theorem cStringAt_zero {block : List UInt8} (h : 0 ∈ block) :
    ∃ text rest, block = text ++ 0 :: rest ∧ 0 ∉ text ∧ cStringAt block 0 = some text := by
  obtain ⟨text, rest, rfl, hno⟩ := List.eq_append_cons_of_mem h
  exact ⟨text, rest, rfl, hno, by simp [cStringAt, cString_append hno]⟩

theorem cStringAt_append (front : List UInt8) {text : List UInt8} (h : 0 ∉ text)
    (rest : List UInt8) :
    cStringAt (front ++ (text ++ 0 :: rest)) front.length = some text := by
  unfold cStringAt
  rw [List.drop_left, cString_append h, if_pos]
  simp

theorem cStringAt_iff {block : List UInt8} {place : Nat} {text : List UInt8} :
    cStringAt block place = some text ↔
      0 ∉ text ∧ ∀ i, i ≤ text.length → block[place + i]? = (text ++ [0])[i]? := by
  have hdrop : (∀ i, i ≤ text.length → block[place + i]? = (text ++ [0])[i]?) ↔
      ∃ rest, block.drop place = text ++ 0 :: rest := by
    constructor
    · intro h
      have htake : (block.drop place).take (text.length + 1) = text ++ [0] := by
        refine List.ext_getElem? (fun i => ?_)
        rw [List.getElem?_take, List.getElem?_drop]
        split
        · rename_i hi
          exact h i (Nat.lt_succ_iff.mp hi)
        · rename_i hi
          rw [List.getElem?_eq_none (by rw [List.length_append, List.length_singleton]; omega)]
      have hsplit := (List.take_append_drop (text.length + 1) (block.drop place)).symm
      rw [htake, List.append_assoc] at hsplit
      exact ⟨_, hsplit⟩
    · rintro ⟨rest, hrest⟩ i hi
      rw [← List.getElem?_drop, hrest, ← List.singleton_append, ← List.append_assoc,
        List.getElem?_append_left (by rw [List.length_append, List.length_singleton]; omega)]
  rw [hdrop]
  unfold cStringAt
  constructor
  · intro h
    split at h
    · rename_i hlt
      obtain rfl := Option.some.inj h
      have hmem : 0 ∈ block.drop place := by
        by_contra hno
        rw [cString_of_not_mem hno, List.length_drop] at hlt
        omega
      obtain ⟨text, rest, heq, hno⟩ := List.eq_append_cons_of_mem hmem
      rw [heq, cString_append hno]
      exact ⟨hno, rest, rfl⟩
    · exact absurd h nofun
  · rintro ⟨hno, rest, hrest⟩
    have hlen := congrArg List.length hrest
    rw [List.length_drop, List.length_append, List.length_cons] at hlen
    rw [hrest, cString_append hno, if_pos (by omega)]

/-- memcpy into a block; none if the bytes do not fit behind the place. -/
def writeAt (block : List UInt8) (place : Nat) (src : List UInt8) : Option (List UInt8) :=
  if place + src.length ≤ block.length then
    some (block.take place ++ src ++ block.drop (place + src.length))
  else none

theorem writeAt_append (front back src : List UInt8) {place : Nat} (hplace : place = front.length)
    (h : src.length ≤ back.length) :
    writeAt (front ++ back) place src = some (front ++ src ++ back.drop src.length) := by
  subst hplace
  unfold writeAt
  rw [if_pos (by rw [List.length_append]; omega), List.take_left, List.drop_append,
    List.drop_eq_nil_of_le (by omega), List.nil_append, Nat.add_sub_cancel_left]

theorem writeAt_fits {block src : List UInt8} {place : Nat}
    (h : place + src.length ≤ block.length) : ∃ block', writeAt block place src = some block' :=
  ⟨_, if_pos h⟩

theorem length_writeAt {block block' src : List UInt8} {place : Nat}
    (h : writeAt block place src = some block') :
    place + src.length ≤ block.length ∧ block'.length = block.length := by
  unfold writeAt at h
  split at h
  · rename_i hle
    obtain rfl := Option.some.inj h
    refine ⟨hle, ?_⟩
    simp only [List.length_append, List.length_take, List.length_drop]
    omega
  · exact absurd h nofun

theorem getElem?_writeAt {block block' src : List UInt8} {place : Nat}
    (h : writeAt block place src = some block') (i : Nat) :
    block'[i]? = if place ≤ i ∧ i < place + src.length then src[i - place]? else block[i]? := by
  unfold writeAt at h
  split at h
  · rename_i hle
    obtain rfl := Option.some.inj h
    have htake : (block.take place).length = place := by
      rw [List.length_take]
      omega
    split
    · rename_i hi
      rw [List.append_assoc, List.getElem?_append_right (by omega), htake,
        List.getElem?_append_left (by omega)]
    · rename_i hi
      by_cases hlt : i < place
      · rw [List.append_assoc, List.getElem?_append_left (by omega), List.getElem?_take_of_lt hlt]
      · rw [List.getElem?_append_right (by rw [List.length_append]; omega), List.length_append, htake,
          List.getElem?_drop]
        congr 1
        omega
  · exact absurd h nofun

theorem cStringAt_writeAt {block block' text : List UInt8} {place : Nat} (hnul : 0 ∉ text)
    (h : writeAt block place (text ++ [0]) = some block') : cStringAt block' place = some text := by
  refine cStringAt_iff.mpr ⟨hnul, fun i hi => ?_⟩
  rw [getElem?_writeAt h, if_pos (by rw [List.length_append, List.length_singleton]; omega),
    Nat.add_sub_cancel_left]

theorem cStringAt_congr {block block' text : List UInt8} {place : Nat}
    (hsame : ∀ i, place ≤ i → i < place + (text.length + 1) → block'[i]? = block[i]?)
    (h : cStringAt block place = some text) : cStringAt block' place = some text := by
  obtain ⟨hnul, hbytes⟩ := cStringAt_iff.mp h
  refine cStringAt_iff.mpr ⟨hnul, fun i hi => ?_⟩
  rw [hsame (place + i) (by omega) (by omega)]
  exact hbytes i hi

def strstr (word : List UInt8) : List UInt8 → Option Nat
  | [] => if word.isPrefixOf [] then some 0 else none
  | c :: text => if word.isPrefixOf (c :: text) then some 0 else (strstr word text).map (· + 1)

theorem strstr_prefixed {word text : List UInt8} (h : word <+: text) : strstr word text = some 0 := by
  rw [← List.isPrefixOf_iff_prefix] at h
  cases text <;> exact if_pos h

theorem strstr_cons {word text : List UInt8} {c : UInt8} (h : ¬ word <+: c :: text) :
    strstr word (c :: text) = (strstr word text).map (· + 1) := by
  rw [← List.isPrefixOf_iff_prefix] at h
  exact if_neg h

theorem strstr_none_iff {word text : List UInt8} : strstr word text = none ↔ ¬ word <:+: text := by
  induction text with
  | nil =>
      unfold strstr
      rw [List.infix_nil]
      cases word <;> simp
  | cons c text ih =>
      rw [List.infix_cons_iff, not_or, ← ih]
      by_cases h : word <+: c :: text
      · rw [strstr_prefixed h]
        exact iff_of_false nofun (fun hn => hn.1 h)
      · rw [strstr_cons h, Option.map_eq_none_iff, and_iff_right h]

theorem strstr_split {word text : List UInt8} {i : Nat} (h : strstr word text = some i) :
    text = text.take i ++ (word ++ text.drop (i + word.length)) ∧ i + word.length ≤ text.length := by
  induction text generalizing i with
  | nil =>
      unfold strstr at h
      split at h
      · rename_i hw
        obtain rfl := Option.some.inj h
        obtain rfl := List.prefix_nil.mp (List.isPrefixOf_iff_prefix.mp hw)
        exact ⟨rfl, Nat.le_refl _⟩
      · exact absurd h nofun
  | cons c text ih =>
      by_cases hw : word <+: c :: text
      · rw [strstr_prefixed hw] at h
        obtain rfl := Option.some.inj h
        obtain ⟨rest, hrest⟩ := hw
        rw [← hrest]
        simp
      · rw [strstr_cons hw] at h
        obtain ⟨j, hj, rfl⟩ := Option.map_eq_some_iff.mp h
        obtain ⟨hsplit, hle⟩ := ih hj
        constructor
        · rw [List.take_succ_cons, List.cons_append, show j + 1 + word.length = j + word.length + 1 by
            omega, List.drop_succ_cons, ← hsplit]
        · rw [List.length_cons]
          omega

/-- Every occurrence of the word is replaced, from the left, and the search goes on behind it.
The number is that of the bytes that a replaced occurrence still covers. -/
def replaceFrom (word new : List UInt8) : Nat → List UInt8 → List UInt8
  | _, [] => []
  | covered + 1, _ :: text => replaceFrom word new covered text
  | 0, c :: text =>
      if word.isPrefixOf (c :: text) then new ++ replaceFrom word new (word.length - 1) text
      else c :: replaceFrom word new 0 text

def replaceAll (word new text : List UInt8) : List UInt8 := replaceFrom word new 0 text

theorem replaceFrom_covered (word new : List UInt8) (covered : Nat) (text : List UInt8) :
    replaceFrom word new covered text = replaceAll word new (text.drop covered) := by
  induction text generalizing covered with
  | nil => cases covered <;> rfl
  | cons c text ih =>
      cases covered with
      | zero => rfl
      | succ covered => exact ih covered

/-- A text in which the word does not occur stays as it is; otherwise the first occurrence is
replaced, and then those behind it. -/
theorem replaceAll_eq {word : List UInt8} (hword : word ≠ []) (new text : List UInt8) :
    replaceAll word new text =
      match strstr word text with
      | none => text
      | some i => text.take i ++ (new ++ replaceAll word new (text.drop (i + word.length))) := by
  induction text with
  | nil =>
      cases word with
      | nil => exact absurd rfl hword
      | cons => rfl
  | cons c text ih =>
      by_cases hw : word <+: c :: text
      · rw [strstr_prefixed hw]
        obtain ⟨d, rest, rfl⟩ := List.exists_cons_of_ne_nil hword
        rw [← List.isPrefixOf_iff_prefix] at hw
        show replaceFrom _ _ 0 _ = _
        unfold replaceFrom
        rw [if_pos hw, replaceFrom_covered]
        simp
      · rw [strstr_cons hw]
        rw [← List.isPrefixOf_iff_prefix] at hw
        have hstep : replaceAll word new (c :: text) = c :: replaceAll word new text := if_neg hw
        rw [hstep, ih]
        cases strstr word text with
        | none => rfl
        | some i =>
            dsimp only [Option.map_some]
            rw [List.take_succ_cons, show i + 1 + word.length = i + word.length + 1 by omega,
              List.drop_succ_cons]
            rfl

example : replaceAll (bytes "aa") (bytes "aab") (bytes "xaaaaay") = bytes "xaabaabay" := by decide

end ErSdk.CStrings
