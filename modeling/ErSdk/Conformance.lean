import Mathlib.Data.List.Basic

namespace ErSdk.Conformance

variable {σ ε : Type} (next : σ → ε → Option σ)

/-- The state behind a trace, if every event of it is one that is allowed where it comes. -/
def after (s : σ) (trace : List ε) : Option σ := trace.foldlM next s

variable {next} {s t : σ} {trace : List ε}

theorem after_append {more : List ε} :
    after next s (trace ++ more) = (after next s trace).bind (after next · more) :=
  List.foldlM_append

theorem after_concat (h : after next s trace = some t) (e : ε) :
    after next s (trace ++ [e]) = next t e := by
  rw [after_append, h]
  exact bind_pure (next t e)

theorem after_split (more : List ε) {e : ε} (h : after next s (trace ++ e :: more) = some t) :
    ∃ u v, after next s trace = some u ∧ next u e = some v ∧ after next v more = some t := by
  rw [after_append] at h
  obtain ⟨u, hu, h⟩ := Option.bind_eq_some_iff.mp h
  obtain ⟨v, hv, h⟩ := Option.bind_eq_some_iff.mp h
  exact ⟨u, v, hu, hv, h⟩

end ErSdk.Conformance
