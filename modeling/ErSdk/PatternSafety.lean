import ErSdk.PatternSearch

namespace ErSdk.PatternSafety

open Pmatch Backtracking PatternItems PatternTrials PatternAgreement PatternSearch

/-- The search drops no match that has changed the groups. -/
def Calm (src p : List UInt8) (initPos : Int) : Prop :=
  ∀ x, Comes src (patternElements p) (tried src p initPos) x → ¬ Drops src x

section

variable {src p : List UInt8} {explicit : Bool} {initPos : Int}

theorem optionals_patternElements (p : List UInt8) : 2 * optionals (patternElements p) ≤ p.length := by
  unfold patternElements
  dsimp only
  refine (optionals_elements _ _).trans ?_
  split
  · exact (List.tail_suffix p).length_le
  · exact Nat.le_refl _

theorem fit_of_calm (hsize : src.length < 2 ^ 63) (hpat : p.length < 2 ^ 63)
    (hcalm : Calm src p initPos) (t : Nat)
    (ht : Turn src (patternElements p) [] (tried src p initPos) t) :
    Fit src (patternElements p) [] t := by
  have hle := tried_le t ht.mem
  have hoptionals := optionals_patternElements p
  exact ⟨fun x hx => hcalm x ⟨t, ht, hx⟩, Or.inl ⟨hsize, by omega⟩⟩

theorem answers_of_calm (len : Nat) (hsize : src.length < 2 ^ 63) (hpat : p.length < 2 ^ 63)
    (hcalm : ¬ Plain p explicit → Calm src p initPos) (hplain : ¬ Plain p explicit) :
    Answers src (Comes src (patternElements p) (tried src p initPos))
      (report ((firstMatch src (patternElements p) (tried src p initPos)).map stateOf) len)
      (strFind src p explicit initPos len) :=
  strFind_answers (hsize.trans (by decide)) hplain (fit_of_calm hsize hpat (hcalm hplain))

end

end ErSdk.PatternSafety
