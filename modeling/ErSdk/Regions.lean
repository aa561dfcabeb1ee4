import Mathlib.Algebra.BigOperators.Group.List.Basic
import Mathlib.Algebra.GroupWithZero.Nat

namespace ErSdk.Regions

/-- The places from `start` on, as many as `size` says. -/
structure Region where
  start : Nat
  size : Nat
  deriving DecidableEq, Repr

def Region.stop (r : Region) : Nat := r.start + r.size

def Region.Inside (r outer : Region) : Prop := outer.start ≤ r.start ∧ r.stop ≤ outer.stop

def Region.Apart (r s : Region) : Prop := r.stop ≤ s.start ∨ s.stop ≤ r.start

theorem Region.Apart.of_inside {r s outer : Region} (h : r.Apart outer) (hs : s.Inside outer) :
    r.Apart s := by
  rcases h with h | h
  · exact .inl (Nat.le_trans h hs.1)
  · exact .inr (Nat.le_trans hs.2 h)

instance (r outer : Region) : Decidable (r.Inside outer) := inferInstanceAs (Decidable (_ ∧ _))

instance (r s : Region) : Decidable (r.Apart s) := inferInstanceAs (Decidable (_ ∨ _))

/-- Regions of the given sizes, each of them at the end of the one before it. -/
def consecutive : Nat → List Nat → List Region
  | _, [] => []
  | start, size :: sizes => ⟨start, size⟩ :: consecutive (start + size) sizes

theorem consecutive_inside {start : Nat} {sizes : List Nat} :
    ∀ r ∈ consecutive start sizes, r.Inside ⟨start, sizes.sum⟩ := by
  induction sizes generalizing start with
  | nil => exact nofun
  | cons size sizes ih =>
      intro r hr
      rw [List.sum_cons]
      unfold Region.Inside Region.stop
      dsimp only
      rcases List.mem_cons.mp hr with rfl | hr
      · dsimp only
        omega
      · have hin := ih r hr
        unfold Region.Inside Region.stop at hin
        dsimp only at hin
        omega

theorem consecutive_apart (start : Nat) (sizes : List Nat) :
    (consecutive start sizes).Pairwise Region.Apart := by
  induction sizes generalizing start with
  | nil => exact .nil
  | cons size sizes ih =>
      exact .cons (fun r hr => .inl (consecutive_inside r hr).1) (ih (start + size))

theorem consecutive_covers {start : Nat} {sizes : List Nat} {place : Nat} (hstart : start ≤ place)
    (hstop : place < start + sizes.sum) :
    ∃ r ∈ consecutive start sizes, r.start ≤ place ∧ place < r.stop := by
  induction sizes generalizing start with
  | nil => exact absurd hstop (Nat.not_lt.mpr hstart)
  | cons size sizes ih =>
      rw [List.sum_cons, ← Nat.add_assoc] at hstop
      by_cases hfirst : place < start + size
      · exact ⟨⟨start, size⟩, List.mem_cons_self, hstart, hfirst⟩
      · obtain ⟨r, hr, hin⟩ := ih (Nat.not_lt.mp hfirst) hstop
        exact ⟨r, List.mem_cons_of_mem _ hr, hin⟩

end ErSdk.Regions
