import ErSdk.Backtracking
import ErSdk.Patterns

namespace ErSdk.PatternItems

open Pmatch Patterns Backtracking

/-- Matches from several positions, one after the other, until one succeeds. -/
def tryAll (k : MatchState → Nat → Result) : MatchState → List Nat → Result
  | ms, [] => .ok (none, ms)
  | ms, t :: ts => do
      let r ← k ms t
      if r.1.isSome then .ok r else tryAll k r.2 ts

section

variable {k : MatchState → Nat → Result}

theorem ok_of_none {r : Option Nat × MatchState} (h : r.1.isSome = false) :
    (Except.ok r : Result) = .ok (none, r.2) := by
  obtain ⟨o, ms⟩ := r
  cases o with
  | none => rfl
  | some s => cases h

theorem tryAll_one (ms : MatchState) (t : Nat) : tryAll k ms [t] = k ms t := by
  unfold tryAll
  cases hk : k ms t with
  | error e => rfl
  | ok r =>
      change (if r.1.isSome = true then Except.ok r else Except.ok (none, r.2)) = Except.ok r
      cases hr : r.1.isSome with
      | true => rfl
      | false => exact (ok_of_none hr).symm

theorem maxExpand_eq (ms : MatchState) (s n : Nat) :
    maxExpand k ms s n = tryAll k ms ((List.range (n + 1)).reverse.map (s + ·)) := by
  induction n generalizing ms with
  | zero => exact (tryAll_one ms s).symm
  | succ n ih =>
      rw [List.range_succ, List.reverse_append, List.reverse_singleton, List.singleton_append,
        List.map_cons, tryAll, maxExpand]
      refine congrArg (k ms (s + (n + 1)) >>= ·) (funext (fun r => ?_))
      cases hr : r.1.isSome with
      | true => rfl
      | false => exact ih r.2

theorem minExpand_eq {src : List UInt8} (item : UInt8 → Bool) (ms : MatchState) (s : Nat) :
    minExpand k item ms s (src.drop s) =
      tryAll k ms ((List.range (run src item s + 1)).map (s + ·)) := by
  unfold run
  generalize hl : src.drop s = l
  induction l generalizing ms s with
  | nil => exact (tryAll_one ms s).symm
  | cons c rest ih =>
      have hrest : src.drop (s + 1) = rest := by
        rw [← List.drop_drop, hl, List.drop_one, List.tail_cons]
      have hlist (n : Nat) : (List.range (n + 1)).map (s + ·) =
          s :: (List.range n).map (s + 1 + ·) := by
        rw [List.range_succ_eq_map, List.map_cons, List.map_map]
        refine congrArg (s :: ·) (List.map_congr_left (fun i _ => ?_))
        simp only [Function.comp_apply]
        omega
      rw [hlist, tryAll, minExpand]
      refine congrArg (k ms s >>= ·) (funext (fun r => ?_))
      cases hr : r.1.isSome with
      | true => rfl
      | false =>
          by_cases hc : item c = true
          · have hnext := ih r.2 (s + 1) hrest
            rw [List.takeWhile_cons, if_pos hc, if_pos hc, List.length_cons]
            exact hnext
          · rw [List.takeWhile_cons, if_neg hc, if_neg hc]
            rfl

end

def itemMove (p ep : List UInt8) : Move UInt8 :=
  let cls := fun c => singleMatch c p ep
  if ep.headD 0 = 63 then .optional cls
  else if ep.headD 0 = 42 then .star cls
  else if ep.headD 0 = 43 then .plus cls
  else if ep.headD 0 = 45 then .lazy cls
  else .one cls

def itemRest (ep : List UInt8) : List UInt8 := if isRepetition (ep.headD 0) then ep.tail else ep

def Skipped (src p ep : List UInt8) (s : Nat) : Prop :=
  ep.headD 0 = 63 ∧ hit src (fun c => singleMatch c p ep) s = false

instance (src p ep : List UInt8) (s : Nat) : Decidable (Skipped src p ep s) :=
  inferInstanceAs (Decidable (_ ∧ _))

section

variable {src : List UInt8} {k : List UInt8 → MatchState → Nat → Result} {p ep : List UInt8}
  {ms : MatchState} {s : Nat}

theorem itemMove_optional (h : ep.headD 0 = 63) :
    itemMove p ep = .optional (fun c => singleMatch c p ep) := by
  unfold itemMove
  rw [if_pos h]

theorem itemRest_repetition (h : isRepetition (ep.headD 0) = true) : itemRest ep = ep.tail := by
  unfold itemRest
  rw [if_pos h]

theorem itemRest_single (h : isRepetition (ep.headD 0) = false) : itemRest ep = ep := by
  unfold itemRest
  rw [h]
  rfl

theorem itemMove_single (h : isRepetition (ep.headD 0) = false) :
    itemMove p ep = .one (fun c => singleMatch c p ep) := by
  simp only [isRepetition, Bool.or_eq_false_iff, decide_eq_false_iff_not] at h
  obtain ⟨⟨⟨h63, h42⟩, h43⟩, h45⟩ := h
  unfold itemMove
  dsimp only
  rw [if_neg h63, if_neg h42, if_neg h43, if_neg h45]

/-- An optional item that does not match has the rest tried one byte further, whatever that
gives. All other items lead to their choices in turn. -/
theorem matchRepeated_skipped (h : Skipped src p ep s) : matchRepeated src k ms s p ep =
    (k ep.tail ms (s + 1) >>= fun r => k ep.tail r.2 s) := by
  have hm : (src[s]?).any (fun c => singleMatch c p ep) = false := h.2
  unfold matchRepeated
  dsimp only
  rw [if_pos h.1]
  simp only [hm, Bool.false_and, Bool.false_eq_true, if_false]

theorem matchRepeated_choices (h : ¬ Skipped src p ep s) : matchRepeated src k ms s p ep =
    tryAll (k (itemRest ep)) ms (choices src (itemMove p ep) s) := by
  have hhit (cls : UInt8 → Bool) : (src[s]?).any cls = hit src cls s := rfl
  unfold matchRepeated itemMove
  dsimp only
  rw [hhit]
  by_cases h63 : ep.headD 0 = 63
  · have hm : hit src (fun c => singleMatch c p ep) s = true := by
      by_contra hne
      exact h ⟨h63, Bool.eq_false_iff.mpr hne⟩
    rw [if_pos h63, if_pos h63, itemRest_repetition (by rw [h63]; rfl), choices, if_pos hm, tryAll]
    refine congrArg (k ep.tail ms (s + 1) >>= ·) (funext (fun x => ?_))
    rw [tryAll_one, hm, Bool.true_and]
  · rw [if_neg h63, if_neg h63]
    by_cases h42 : ep.headD 0 = 42
    · rw [if_pos h42, if_pos h42, itemRest_repetition (by rw [h42]; rfl), choices, maxExpand_eq]
      rfl
    · rw [if_neg h42, if_neg h42]
      by_cases h43 : ep.headD 0 = 43
      · rw [if_pos h43, if_pos h43, itemRest_repetition (by rw [h43]; rfl), choices]
        split
        · rw [maxExpand_eq]
          rfl
        · rfl
      · rw [if_neg h43, if_neg h43]
        by_cases h45 : ep.headD 0 = 45
        · rw [if_pos h45, if_pos h45, itemRest_repetition (by rw [h45]; rfl), choices, minExpand_eq]
        · have hsingle : isRepetition (ep.headD 0) = false := by
            simp only [isRepetition, h63, h42, h43, h45, decide_false, Bool.or_self]
          rw [if_neg h45, if_neg h45, itemRest_single hsingle, choices]
          split
          · exact (tryAll_one ms (s + 1)).symm
          · rfl

end

theorem readSubject_eq {src : List UInt8} {s : Nat} (hs : s < src.length) :
    readSubject src s = .ok (src.getD s default) := by
  unfold readSubject
  rw [List.getD_eq_getElem?_getD, List.getElem?_eq_getElem hs]
  rfl

/-- The starts that are tried: all up to the end of the subject, or the first one only. -/
def starts (anchor : Bool) (init n : Nat) : List Nat := List.range' init (if anchor then 1 else n)

def tried (src p : List UInt8) (initPos : Int) : List Nat :=
  starts (p.headD 0 = 94) (clampInit initPos src.length)
    (src.length + 1 - clampInit initPos src.length)

theorem clampInit_le (initPos : Int) (n : Nat) : clampInit initPos n ≤ n := by
  unfold clampInit
  dsimp only
  split
  · omega
  · split
    · omega
    · omega

theorem tried_le {src p : List UInt8} {initPos : Int} : ∀ s ∈ tried src p initPos, s ≤ src.length := by
  have hinit := clampInit_le initPos src.length
  intro s hs
  unfold tried starts at hs
  rw [List.mem_range'_1] at hs
  split at hs
  · omega
  · omega

end ErSdk.PatternItems
