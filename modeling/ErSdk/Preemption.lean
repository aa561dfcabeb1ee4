import ErSdk.Runs
import Mathlib.Logic.Function.Basic

namespace ErSdk.Preemption

open Runs

variable {ι σ τ α : Type}

/-- Threads that share one processor: what they all see, what each has for itself, and the one
that runs. -/
structure Processor (ι σ τ : Type) where
  shared : σ
  threads : ι → τ
  running : ι

/-- The thread that runs takes its next step, or an interrupt gives the processor away. -/
inductive Act (ι α : Type)
  | run (a : α)
  | switch (i : ι)

section

variable [DecidableEq ι] (masked : σ → Bool) (exec : α → σ → τ → σ × τ)

/-- While interrupts are masked, the thread that runs goes on. -/
def step (s : Processor ι σ τ) : Act ι α → Processor ι σ τ
  | .run a =>
      let r := exec a s.shared (s.threads s.running)
      { s with shared := r.1, threads := Function.update s.threads s.running r.2 }
  | .switch i => if masked s.shared then s else { s with running := i }

/-- The condition for a step of the thread that runs. -/
def Allowed (ok : σ → τ → α → Prop) (s : Processor ι σ τ) : Act ι α → Prop
  | .run a => ok s.shared (s.threads s.running) a
  | .switch _ => True

instance {ok : σ → τ → α → Prop} [∀ s t a, Decidable (ok s t a)] (s : Processor ι σ τ) (a : Act ι α) :
    Decidable (Allowed ok s a) :=
  match a with
  | .run a => inferInstanceAs (Decidable (ok s.shared (s.threads s.running) a))
  | .switch _ => .isTrue trivial

/-- The assertions by which threads can be verified one at a time: what holds of a thread on the
processor, what of one that waits for it, and what of the shared state when interrupts can come. -/
structure Outline (ok : σ → τ → α → Prop) (Runs : σ → τ → Prop) (Waits : τ → Prop) (Free : σ → Prop) :
    Prop where
  exec : ∀ {s t a}, ok s t a → Runs s t → Runs (exec a s t).1 (exec a s t).2
  pause : ∀ {s t}, masked s = false → Runs s t → Free s ∧ Waits t
  resume : ∀ {s t}, masked s = false → Free s → Waits t → Runs s t

structure Sound (Runs : σ → τ → Prop) (Waits : τ → Prop) (s : Processor ι σ τ) : Prop where
  running : Runs s.shared (s.threads s.running)
  waiting : ∀ i, i ≠ s.running → Waits (s.threads i)

variable {masked exec} {ok : σ → τ → α → Prop} {Runs : σ → τ → Prop} {Waits : τ → Prop}
  {Free : σ → Prop} {s : Processor ι σ τ}

theorem Outline.step (h : Outline masked exec ok Runs Waits Free) {a : Act ι α}
    (ha : Allowed ok s a) (hs : Sound Runs Waits s) : Sound Runs Waits (step masked exec s a) := by
  cases a with
  | run a =>
      refine ⟨?_, fun i hi => ?_⟩
      · show Runs _ (Function.update s.threads s.running _ s.running)
        rw [Function.update_self]
        exact h.exec ha hs.running
      · show Waits (Function.update s.threads s.running _ i)
        rw [Function.update_of_ne (show i ≠ s.running from hi)]
        exact hs.waiting i hi
  | switch i =>
      unfold Preemption.step
      dsimp only
      split
      · exact hs
      · rename_i hopen
        obtain ⟨hfree, hwaits⟩ := h.pause (Bool.eq_false_iff.mpr hopen) hs.running
        have hall (j : ι) : Waits (s.threads j) := by
          by_cases hj : j = s.running
          · rw [hj]
            exact hwaits
          · exact hs.waiting j hj
        exact ⟨h.resume (Bool.eq_false_iff.mpr hopen) hfree (hall i), fun j _ => hall j⟩

/-- The next steps of the thread that runs, if no interrupt comes. -/
def solo (exec : α → σ → τ → σ × τ) (a : α) : Nat → σ × τ → σ × τ
  | 0, x => x
  | n + 1, x => solo exec a n (exec a x.1 x.2)

theorem run_solo (masked : σ → Bool) (exec : α → σ → τ → σ × τ) (a : α) (n : Nat) (s : Processor ι σ τ) :
    let t := run (step masked exec) s (List.replicate n (.run a))
    (t.shared, t.threads t.running) = solo exec a n (s.shared, s.threads s.running) ∧
      t.running = s.running := by
  induction n generalizing s with
  | zero => exact ⟨rfl, rfl⟩
  | succ n ih =>
      obtain ⟨hsolo, hrunning⟩ := ih (step masked exec s (.run a))
      refine ⟨hsolo.trans ?_, hrunning⟩
      show solo exec a n (_, Function.update s.threads s.running _ s.running) = _
      rw [Function.update_self]
      rfl

end

end ErSdk.Preemption
