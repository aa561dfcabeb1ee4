import ErSdk.PatternItems
import Mathlib.Tactic.SplitIfs

namespace ErSdk.PlainSearch

open Pmatch Patterns PatternItems

section

variable (src : List UInt8)

/-- The place of a byte among the `n` bytes from `s1` on, counted from there. -/
def memchr (s1 : Nat) (c : UInt8) (n : Nat) : Except Fault (Option Nat) :=
  if s1 + n ≤ src.length then .ok (((src.drop s1).take n).idxOf? c) else .error .subject

def memcmp (s1 : Nat) (s2 : List UInt8) (n : Nat) : Except Fault Bool :=
  if s1 + n ≤ src.length then .ok ((src.drop s1).take n = s2.take n) else .error .subject

/-- The loop of lmemfind, with `l2` one less than the length of `s2`. -/
def lmemfindLoop (s2 : List UInt8) (l2 : Nat) (s1 l1 : Nat) : Except Fault (Option Nat) :=
  if _h : 0 < l1 then
    memchr src s1 (s2.headD 0) l1 >>= fun found =>
      match found with
      | none => .ok none
      | some i =>
          memcmp src (s1 + i + 1) s2.tail l2 >>= fun equal =>
            if equal then .ok (some (s1 + i)) else lmemfindLoop s2 l2 (s1 + i + 1) (l1 - (i + 1))
  else .ok none
termination_by l1

/-- The subject is given by the place `s1` in it and the `l1` bytes from there on. -/
def lmemfind (s1 l1 : Nat) (s2 : List UInt8) (l2 : Nat) : Except Fault (Option Nat) :=
  if l2 = 0 then .ok (some s1)
  else if l2 > l1 then .ok none
  else lmemfindLoop src s2 (l2 - 1) s1 (l1 - (l2 - 1))

/-- The search by matching at each position, as str_find makes it. -/
def matcherLoop (p : List UInt8) (initPos : Int) : Except Fault (Option MatchState) :=
  let init := clampInit initPos src.length
  let anchor := p.headD 0 = 94
  matchFrom src (if anchor then p.tail else p) anchor (src.length + 1 - init) init

def occurs (p : List UInt8) (i : Nat) : Bool := p.isPrefixOf (src.drop i)

end

section

variable {src : List UInt8} {c : UInt8} {q p : List UInt8}

theorem occurs_cons (c : UInt8) (q : List UInt8) (i : Nat) : occurs src (c :: q) i = true ↔
    src[i]? = some c ∧ occurs src q (i + 1) = true := by
  rw [occurs, occurs, ← any_getElem?_eq]
  refine and_congr_left (fun _ => ?_)
  cases src[i]? with
  | none => exact iff_of_false nofun nofun
  | some x =>
      rw [Option.any_some, decide_eq_true_iff, Option.some.injEq]
      exact eq_comm

theorem memchr_eq {s1 n : Nat} (h : s1 + n ≤ src.length) (c : UInt8) :
    memchr src s1 c n = .ok (((src.drop s1).take n).idxOf? c) := if_pos h

theorem memcmp_eq {s1 : Nat} (h : s1 + q.length ≤ src.length) :
    memcmp src s1 q q.length = .ok (occurs src q s1) := by
  rw [memcmp, if_pos h, List.take_length]
  refine congrArg Except.ok ?_
  rw [Bool.eq_iff_iff, decide_eq_true_iff, occurs, List.isPrefixOf_iff_prefix,
    List.prefix_iff_eq_take, eq_comm]

theorem not_occurs_of_memchr {s1 n i : Nat} (h : c ∉ (src.drop s1).take n) (hi : i ∈ List.range' s1 n) :
    occurs src (c :: q) i = false := by
  rw [List.mem_range'_1] at hi
  rw [← Bool.not_eq_true, occurs_cons]
  rintro ⟨hget, -⟩
  apply h
  refine List.mem_of_getElem? (i := i - s1) ?_
  rw [List.getElem?_take_of_lt (by omega), List.getElem?_drop, Nat.add_sub_cancel' hi.1]
  exact hget

theorem lmemfindLoop_eq {s1 l1 : Nat} (h : s1 + l1 + q.length ≤ src.length) :
    lmemfindLoop src (c :: q) q.length s1 l1 =
      .ok ((List.range' s1 l1).find? (occurs src (c :: q))) := by
  induction l1 using Nat.strongRecOn generalizing s1 with
  | ind l1 ih =>
      rw [lmemfindLoop]
      by_cases hl : 0 < l1
      · have hhead : (c :: q).headD 0 = c := rfl
        rw [dif_pos hl, memchr_eq (by omega), hhead]
        cases hfound : ((src.drop s1).take l1).idxOf? c with
        | none =>
            have hnone : (List.range' s1 l1).find? (occurs src (c :: q)) = none := by
              apply List.find?_eq_none.mpr
              intro i hi
              rw [not_occurs_of_memchr (List.idxOf?_eq_none_iff.mp hfound) hi]
              exact Bool.false_ne_true
            rw [hnone]
            rfl
        | some i =>
            obtain ⟨hi, hget, hbefore⟩ := List.idxOf?_eq_some_iff.mp hfound
            have hil : i < l1 := Nat.lt_of_lt_of_le hi (List.length_take_le _ _)
            have hsrc : src[s1 + i]? = some c := by
              rw [List.getElem_take, List.getElem_drop] at hget
              exact List.getElem?_eq_some_iff.mpr ⟨by omega, hget⟩
            have hskip : (List.range' s1 i).find? (occurs src (c :: q)) = none := by
              apply List.find?_eq_none.mpr
              intro k hk
              have hmem : c ∉ (src.drop s1).take i := by
                intro hmem
                obtain ⟨j, hj, hjc⟩ := List.getElem_of_mem hmem
                rw [List.getElem_take] at hjc
                have hji : j < i := Nat.lt_of_lt_of_le hj (List.length_take_le _ _)
                apply hbefore j hji
                rw [List.getElem_take]
                exact hjc
              rw [not_occurs_of_memchr hmem hk]
              exact Bool.false_ne_true
            have hsplit : List.range' s1 l1 =
                List.range' s1 i ++ (s1 + i) :: List.range' (s1 + i + 1) (l1 - (i + 1)) := by
              rw [← List.range'_succ, List.range'_append_1]
              congr 1
              omega
            rw [hsplit, List.find?_append, hskip, Option.none_or, List.find?_cons]
            have hcmp := @memcmp_eq src q (s1 + i + 1) (by omega)
            have hcand : occurs src (c :: q) (s1 + i) = occurs src q (s1 + i + 1) := by
              rw [Bool.eq_iff_iff, occurs_cons, hsrc]
              simp
            change (memcmp src (s1 + i + 1) q q.length >>= fun equal => if equal = true then _ else _) = _
            rw [hcmp, hcand]
            cases hoccurs : occurs src q (s1 + i + 1) with
            | true => rfl
            | false => exact ih (l1 - (i + 1)) (by omega) (by omega)
      · obtain rfl := Nat.eq_zero_of_not_pos hl
        rw [dif_neg hl]
        rfl

theorem lmemfind_eq {s1 l1 : Nat} (h : s1 + l1 ≤ src.length) (p : List UInt8) :
    lmemfind src s1 l1 p p.length =
      .ok ((List.range' s1 (l1 + 1 - p.length)).find? (occurs src p)) := by
  rw [lmemfind]
  cases p with
  | nil =>
      have hfirst : occurs src [] s1 = true := by
        rw [occurs, List.isPrefixOf_nil_left]
      rw [List.length_nil, if_pos rfl, Nat.sub_zero, List.range'_succ, List.find?_cons, hfirst]
  | cons c q =>
      rw [List.length_cons, if_neg (Nat.succ_ne_zero _), Nat.succ_sub_one]
      split_ifs with hlong
      · have hzero : l1 + 1 - (q.length + 1) = 0 := by omega
        rw [hzero]
        rfl
      · rw [lmemfindLoop_eq (by omega), Nat.add_sub_add_right]

theorem matchPattern_plain (hplain : ∀ c ∈ p, c ∉ specials) (hclose : 41 ∉ p) (s : Nat) :
    matchPattern src (p.length + 1) p ⟨[]⟩ s =
      outcome ⟨[]⟩ (if occurs src p s then some (s + p.length, ⟨[]⟩) else none) := by
  have hescape : escape p = p := by
    clear hclose
    induction p with
    | nil => rfl
    | cons c p ih =>
        rw [escape, if_neg (hplain c List.mem_cons_self),
          ih (fun d hd => hplain d (List.mem_cons_of_mem c hd))]
  have h := @matchPattern_escape src p [] hclose rfl 1 ⟨[]⟩ s
  rw [hescape, List.append_nil, Nat.add_comm 1] at h
  rw [h, occurs]
  split <;> rfl

theorem not_anchor (hplain : ∀ c ∈ p, c ∉ specials) : p.headD 0 ≠ 94 := by
  cases p with
  | nil => decide
  | cons c p =>
      intro h
      exact hplain c List.mem_cons_self (by rw [show c = 94 from h]; decide)

theorem matcherLoop_eq (hplain : ∀ c ∈ p, c ∉ specials) (hclose : 41 ∉ p) (initPos : Int) :
    matcherLoop src p initPos =
      .ok ((List.range' (clampInit initPos src.length)
          (src.length + 1 - clampInit initPos src.length)).findSome?
        (fun i => if occurs src p i then some ⟨[]⟩ else none)) := by
  have hanchor := not_anchor hplain
  rw [matcherLoop]
  simp only [hanchor, if_false, decide_false]
  rw [matchFrom_findSome (matchPattern_plain hplain hclose)]
  refine congrArg Except.ok (congrArg (List.findSome? · _) (funext (fun i => ?_)))
  split <;> rfl

theorem occurs_le {i : Nat} (h : occurs src p i = true) (hi : i ≤ src.length) :
    i + p.length ≤ src.length := by
  have hle := (List.isPrefixOf_iff_prefix.mp h).length_le
  rw [List.length_drop] at hle
  omega

/-- A text with nothing in it that the matcher takes for more than itself. -/
structure PlainText (p : List UInt8) : Prop where
  nul : 0 ∉ p
  close : 41 ∉ p
  special : ∀ c ∈ p, c ∉ specials

/-- The plain search and the matcher find the same texts: those that occur from the start on. -/
theorem plain_search_iff (hp : PlainText p) (src : List UInt8) (initPos : Int) :
    ∃ o r, lmemfind src (clampInit initPos src.length)
        (src.length - clampInit initPos src.length) p p.length = .ok o ∧
      matcherLoop src p initPos = .ok r ∧ (o.isSome ↔ r.isSome) ∧
      (o.isSome ↔ ∃ i, clampInit initPos src.length ≤ i ∧ i ≤ src.length ∧ p <+: src.drop i) := by
  have hinit := clampInit_le initPos src.length
  have hfound : ((List.range' (clampInit initPos src.length)
      (src.length - clampInit initPos src.length + 1 - p.length)).find? (occurs src p)).isSome ↔
      ∃ i, clampInit initPos src.length ≤ i ∧ i ≤ src.length ∧ p <+: src.drop i := by
    rw [List.find?_isSome]
    constructor
    · rintro ⟨i, hi, hoccurs⟩
      rw [List.mem_range'_1] at hi
      exact ⟨i, hi.1, by omega, List.isPrefixOf_iff_prefix.mp hoccurs⟩
    · rintro ⟨i, hle, hlen, hprefix⟩
      have hoccurs : occurs src p i = true := List.isPrefixOf_iff_prefix.mpr hprefix
      have hroom := occurs_le hoccurs hlen
      exact ⟨i, List.mem_range'_1.mpr ⟨hle, by omega⟩, hoccurs⟩
  have hmatched : ((List.range' (clampInit initPos src.length)
      (src.length + 1 - clampInit initPos src.length)).findSome?
        (fun i => if occurs src p i then some (⟨[]⟩ : MatchState) else none)).isSome ↔
      ∃ i, clampInit initPos src.length ≤ i ∧ i ≤ src.length ∧ p <+: src.drop i := by
    rw [List.findSome?_isSome_iff]
    constructor
    · rintro ⟨i, hi, hoccurs⟩
      rw [List.mem_range'_1] at hi
      split at hoccurs
      · rename_i hpre
        exact ⟨i, hi.1, by omega, List.isPrefixOf_iff_prefix.mp hpre⟩
      · cases hoccurs
    · rintro ⟨i, hle, hlen, hprefix⟩
      refine ⟨i, List.mem_range'_1.mpr ⟨hle, by omega⟩, ?_⟩
      rw [if_pos (show occurs src p i = true from List.isPrefixOf_iff_prefix.mpr hprefix)]
      rfl
  exact ⟨_, _, lmemfind_eq (by omega) p, matcherLoop_eq hp.special hp.close initPos,
    hfound.trans hmatched.symm, hfound⟩

theorem plain_search_iff_end : ∃ o r,
    lmemfind [97, 97, 98] (clampInit 2 3) (3 - clampInit 2 3) [97, 98] 2 = .ok o ∧
      matcherLoop [97, 97, 98] [97, 98] 2 = .ok r ∧ (o.isSome ↔ r.isSome) ∧
      (o.isSome ↔ ∃ i, clampInit 2 3 ≤ i ∧ i ≤ 3 ∧ [97, 98] <+: List.drop i ([97, 97, 98] : List UInt8)) :=
  plain_search_iff ⟨by decide, by decide,
    List.forall_mem_cons.mpr ⟨by decide, List.forall_mem_singleton.mpr (by decide)⟩⟩ [97, 97, 98] 2

theorem lmemfind_first (p : List UInt8) (s1 : Nat) (h : s1 ≤ src.length) :
    lmemfind src s1 (src.length - s1) p p.length = .ok (Pmatch.lmemfind p s1 (src.drop s1)) := by
  rw [lmemfind_eq (by omega)]
  refine congrArg Except.ok ?_
  induction hn : src.length - s1 generalizing s1 with
  | zero =>
      have hend : src.drop s1 = [] := List.drop_eq_nil_of_le (by omega)
      rw [hend, Pmatch.lmemfind]
      cases p with
      | nil => simp [occurs]
      | cons c q => simp
  | succ n ih =>
      have hlt : s1 < src.length := by omega
      have hdrop := List.drop_eq_getElem_cons hlt
      rw [hdrop, Pmatch.lmemfind, ← hdrop]
      change _ = if occurs src p s1 = true then _ else _
      by_cases hp : p.length ≤ n + 1
      · obtain ⟨m, hm⟩ : ∃ m, n + 1 + 1 - p.length = m + 1 := ⟨n + 1 - p.length, by omega⟩
        have hm' : n + 1 - p.length = m := by omega
        rw [hm, List.range'_succ, List.find?_cons]
        cases hoccurs : occurs src p s1 with
        | true => rfl
        | false =>
            rw [if_neg Bool.false_ne_true, ← ih (s1 + 1) hlt (by omega), hm']
      · have hzero : n + 1 + 1 - p.length = 0 := by omega
        have hzero' : n + 1 - p.length = 0 := by omega
        have hoccurs : occurs src p s1 = false := by
          rw [← Bool.not_eq_true]
          intro hocc
          have hroom := occurs_le hocc h
          omega
        rw [hzero, hoccurs, if_neg Bool.false_ne_true, ← ih (s1 + 1) hlt (by omega), hzero']
        rfl

end

end ErSdk.PlainSearch
