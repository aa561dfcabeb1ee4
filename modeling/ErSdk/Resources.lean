import Mathlib.Data.List.Basic

namespace ErSdk.Resources

variable {ε κ γ : Type}

/-- The resources that are held, of several kinds. The attempts to acquire one are numbered, and an
attempt either gives an error or a resource with its number. -/
structure Pool (ε κ : Type) where
  refusal : Nat → Option ε
  asked : Nat
  live : List (Nat × κ)

namespace Pool

/-- The attempt, with what is done behind its failure and behind its success. -/
def attempt (p : Pool ε κ) (kind : κ) (failed : ε → Pool ε κ → γ) (next : Nat → Pool ε κ → γ) : γ :=
  match p.refusal p.asked with
  | some e => failed e { p with asked := p.asked + 1 }
  | none => next p.asked { p with asked := p.asked + 1, live := (p.asked, kind) :: p.live }

def release (p : Pool ε κ) (id : Nat) : Pool ε κ :=
  { p with live := p.live.eraseP (fun r => r.1 = id) }

/-- The pool behind some attempts, those resources in front that are still held. -/
def after (p : Pool ε κ) (attempts : Nat) (held : List (Nat × κ)) : Pool ε κ :=
  { p with asked := p.asked + attempts, live := held ++ p.live }

theorem attempt_granted {p : Pool ε κ} {n : Nat} (h : p.refusal (p.asked + n) = none)
    (held : List (Nat × κ)) (kind : κ) (failed : ε → Pool ε κ → γ) (next : Nat → Pool ε κ → γ) :
    (p.after n held).attempt kind failed next =
      next (p.asked + n) (p.after (n + 1) ((p.asked + n, kind) :: held)) := by
  have hnone : (p.after n held).refusal (p.after n held).asked = none := h
  unfold attempt
  rw [hnone]
  rfl

def Grants (p : Pool ε κ) (n : Nat) : Prop := ∀ i, i < n → p.refusal (p.asked + i) = none

theorem Grants.le {p : Pool ε κ} {n m : Nat} (h : p.Grants n) (hm : m ≤ n) : p.Grants m :=
  fun i hi => h i (Nat.lt_of_lt_of_le hi hm)

theorem Grants.attempt {p : Pool ε κ} {n m : Nat} (h : p.Grants n) (hm : m < n)
    (held : List (Nat × κ)) (kind : κ) (failed : ε → Pool ε κ → γ) (next : Nat → Pool ε κ → γ) :
    (p.after m held).attempt kind failed next =
      next (p.asked + m) (p.after (m + 1) ((p.asked + m, kind) :: held)) :=
  attempt_granted (h m hm) held kind failed next

end Pool

end ErSdk.Resources
