import Mathlib.Data.List.Basic

namespace ErSdk.Runs

variable {σ α : Type}

/-- The state after a finite sequence of actions. -/
def run (step : σ → α → σ) (s : σ) (acts : List α) : σ := acts.foldl step s

/-- Every action of the sequence meets the condition in the state it is taken in. -/
def Guarded (step : σ → α → σ) (ok : σ → α → Prop) : σ → List α → Prop
  | _, [] => True
  | s, a :: acts => ok s a ∧ Guarded step ok (step s a) acts

instance decidableGuarded (step : σ → α → σ) (ok : σ → α → Prop) [∀ s a, Decidable (ok s a)] :
    (s : σ) → (acts : List α) → Decidable (Guarded step ok s acts)
  | _, [] => .isTrue trivial
  | s, a :: acts =>
      have := decidableGuarded step ok (step s a) acts
      inferInstanceAs (Decidable (_ ∧ _))

theorem run_append (step : σ → α → σ) (s : σ) (acts more : List α) :
    run step s (acts ++ more) = run step (run step s acts) more := List.foldl_append

theorem Guarded.invariant {step : σ → α → σ} {ok : σ → α → Prop} {P : σ → Prop}
    (hstep : ∀ s a, ok s a → P s → P (step s a)) {s : σ} {acts : List α}
    (h : Guarded step ok s acts) (hs : P s) : P (run step s acts) := by
  induction acts generalizing s with
  | nil => exact hs
  | cons a acts ih => exact ih h.2 (hstep s a h.1 hs)

/-- A condition that decides after each step whether the property still holds
decides it for whole runs, in all the states that they pass through. -/
theorem guarded_iff {step : σ → α → σ} {ok : σ → α → Prop} {P : σ → Prop}
    (hstep : ∀ s a, P s → (P (step s a) ↔ ok s a)) {s : σ} {acts : List α} (hs : P s) :
    Guarded step ok s acts ↔ ∀ n, P (run step s (acts.take n)) := by
  induction acts generalizing s with
  | nil =>
      refine ⟨fun _ n => ?_, fun _ => trivial⟩
      rw [List.take_nil]
      exact hs
  | cons a acts ih =>
      constructor
      · rintro ⟨hok, hrest⟩ n
        have ha := (hstep s a hs).mpr hok
        cases n with
        | zero => exact hs
        | succ n => exact (ih ha).mp hrest n
      · intro h
        have ha : P (step s a) := h 1
        exact ⟨(hstep s a hs).mp ha, (ih ha).mpr (fun n => h (n + 1))⟩

theorem Guarded.append {step : σ → α → σ} {ok : σ → α → Prop} {s : σ} {acts more : List α}
    (h : Guarded step ok s (acts ++ more)) :
    Guarded step ok s acts ∧ Guarded step ok (run step s acts) more := by
  induction acts generalizing s with
  | nil => exact ⟨trivial, h⟩
  | cons a acts ih => exact ⟨⟨h.1, (ih h.2).1⟩, (ih h.2).2⟩

theorem Guarded.take {step : σ → α → σ} {ok : σ → α → Prop} {s : σ} {acts : List α}
    (h : Guarded step ok s acts) (n : Nat) : Guarded step ok s (acts.take n) := by
  induction acts generalizing s n with
  | nil =>
      rw [List.take_nil]
      exact trivial
  | cons a acts ih =>
      cases n with
      | zero => exact trivial
      | succ n => exact ⟨h.1, ih h.2 n⟩

theorem Guarded.and {step : σ → α → σ} {ok ok' : σ → α → Prop} {s : σ} {acts : List α}
    (h : Guarded step ok s acts) (h' : Guarded step ok' s acts) :
    Guarded step (fun s a => ok s a ∧ ok' s a) s acts := by
  induction acts generalizing s with
  | nil => exact trivial
  | cons a acts ih => exact ⟨⟨h.1, h'.1⟩, ih h.2 h'.2⟩

theorem Guarded.always {step : σ → α → σ} {ok : σ → α → Prop} {P : σ → Prop}
    (hstep : ∀ s a, ok s a → P s → P (step s a)) {s : σ} {acts : List α}
    (h : Guarded step ok s acts) (hs : P s) (n : Nat) : P (run step s (acts.take n)) :=
  (h.take n).invariant hstep hs

theorem Guarded.imp {step : σ → α → σ} {ok ok' : σ → α → Prop} {P : σ → Prop}
    (hkeep : ∀ s a, ok s a → P s → P (step s a)) (himp : ∀ s a, P s → ok s a → ok' s a) {s : σ}
    {acts : List α} (h : Guarded step ok s acts) (hs : P s) : Guarded step ok' s acts := by
  induction acts generalizing s with
  | nil => exact trivial
  | cons a acts ih => exact ⟨himp s a hs h.1, ih h.2 (hkeep s a h.1 hs)⟩

/-- The same with an invariant that guarded steps keep, and that tells for each step that is
allowed whether the property holds behind it. -/
theorem Guarded.iff_of_invariant {step : σ → α → σ} {allowed ok : σ → α → Prop} {P Q : σ → Prop}
    (hsound : ∀ s, P s → Q s) (hkeep : ∀ s a, ok s a → P s → P (step s a))
    (hstep : ∀ s a, allowed s a → P s → Q (step s a) → ok s a) {s : σ} {acts : List α}
    (hallowed : Guarded step allowed s acts) (hs : P s) :
    Guarded step ok s acts ↔ ∀ n, Q (run step s (acts.take n)) := by
  refine ⟨fun h n => hsound _ (h.always hkeep hs n), fun h => ?_⟩
  induction acts generalizing s with
  | nil => exact trivial
  | cons a acts ih =>
      have ha : ok s a := hstep s a hallowed.1 hs (h 1)
      exact ⟨ha, ih hallowed.2 (hkeep s a ha hs) (fun n => h (n + 1))⟩

theorem guarded_true (step : σ → α → σ) (s : σ) (acts : List α) :
    Guarded step (fun _ _ => True) s acts := by
  induction acts generalizing s with
  | nil => exact trivial
  | cons a acts ih => exact ⟨trivial, ih _⟩

theorem guarded_iff_of_invariant {step : σ → α → σ} {ok : σ → α → Prop} {P Q : σ → Prop}
    (hsound : ∀ s, P s → Q s) (hkeep : ∀ s a, ok s a → P s → P (step s a))
    (hstep : ∀ s a, P s → Q (step s a) → ok s a) {s : σ} {acts : List α} (hs : P s) :
    Guarded step ok s acts ↔ ∀ n, Q (run step s (acts.take n)) :=
  (guarded_true step s acts).iff_of_invariant hsound hkeep (fun s a _ => hstep s a) hs

theorem invariant {step : σ → α → σ} {P : σ → Prop} (hstep : ∀ s a, P s → P (step s a))
    {s : σ} (acts : List α) (hs : P s) : P (run step s acts) := by
  induction acts generalizing s with
  | nil => exact hs
  | cons a acts ih => exact ih (hstep s a hs)

/-- What the actions of a sequence put out, in their order. -/
def outputs {β : Type} (step : σ → α → σ) (out : σ → α → List β) : σ → List α → List β
  | _, [] => []
  | s, a :: acts => out s a ++ outputs step out (step s a) acts

theorem invariant_outputs {β : Type} {step : σ → α → σ} {out : σ → α → List β}
    {P : List β → σ → Prop} (hstep : ∀ l s a, P l s → P (l ++ out s a) (step s a)) {s : σ}
    (acts : List α) {l : List β} (hs : P l s) : P (l ++ outputs step out s acts) (run step s acts) := by
  induction acts generalizing s l with
  | nil => rwa [outputs, List.append_nil]
  | cons a acts ih =>
      rw [outputs, ← List.append_assoc]
      exact ih (hstep l s a hs)

theorem checked_run {step : σ → α → σ} {checked : σ → α → Option σ} {P : σ → Prop}
    (hstep : ∀ s a, P s → checked s a = some (step s a) ∧ P (step s a)) {s : σ} (acts : List α)
    (hs : P s) : acts.foldlM checked s = some (run step s acts) ∧ P (run step s acts) := by
  induction acts generalizing s with
  | nil => exact ⟨rfl, hs⟩
  | cons a acts ih =>
      obtain ⟨hchecked, hkeep⟩ := hstep s a hs
      rw [List.foldlM_cons, hchecked]
      exact ih hkeep

end ErSdk.Runs
