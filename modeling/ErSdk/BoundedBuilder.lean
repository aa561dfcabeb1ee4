import Mathlib.Data.List.Basic

namespace ErSdk.BoundedBuilder

variable {M Part P : Type} {extend : M → Part → M} {takes : M → Part → Prop}

/-- Messages that grow part by part, in memory of a fixed size. A part for which there is no room is
refused, and then nothing changes. -/
structure Builder (extend : M → Part → M) (takes : M → Part → Prop) (P : Type) where
  read : P → M
  add : P → Part → Bool × P
  size : M → Nat
  capacity : Nat
  grows : ∀ {m part}, takes m part → size m ≤ size (extend m part)
  room : ∀ {p part}, takes (read p) part → size (extend (read p) part) ≤ capacity →
    (add p part).1 = true
  added : ∀ {p part}, (add p part).1 = true → read (add p part).2 = extend (read p) part
  refused : ∀ {p part}, (add p part).1 = false → read (add p part).2 = read p

def InOrder (extend : M → Part → M) (takes : M → Part → Prop) : M → List Part → Prop
  | _, [] => True
  | m, part :: parts => takes m part ∧ InOrder extend takes (extend m part) parts

namespace Builder

variable (b : Builder extend takes P)

/-- The parts are added, and nobody looks at the results. -/
def addAll (p : P) (parts : List Part) : P := parts.foldl (fun p part => (b.add p part).2) p

theorem size_le_extended {m : M} {parts : List Part} (h : InOrder extend takes m parts) :
    b.size m ≤ b.size (parts.foldl extend m) := by
  induction parts generalizing m with
  | nil => exact Nat.le_refl _
  | cons part parts ih => exact Nat.le_trans (b.grows h.1) (ih h.2)

theorem read_addAll {p : P} {parts : List Part} (h : InOrder extend takes (b.read p) parts)
    (hfits : b.size (parts.foldl extend (b.read p)) ≤ b.capacity) :
    b.read (b.addAll p parts) = parts.foldl extend (b.read p) := by
  induction parts generalizing p with
  | nil => rfl
  | cons part parts ih =>
      have hfirst := b.added (b.room h.1 (Nat.le_trans (b.size_le_extended h.2) hfits))
      have hrest := ih (p := (b.add p part).2) (by rw [hfirst]; exact h.2)
        (by rw [hfirst]; exact hfits)
      rw [hfirst] at hrest
      exact hrest

theorem measure_addAll (measure : M → Nat) (hgrows : ∀ m part, measure m ≤ measure (extend m part))
    (hmono : ∀ {m m'} (part), measure m ≤ measure m' → measure (extend m part) ≤ measure (extend m' part))
    {p : P} {m : M} (hstart : measure (b.read p) ≤ measure m) (parts : List Part) :
    measure (b.read (b.addAll p parts)) ≤ measure (parts.foldl extend m) := by
  induction parts generalizing p m with
  | nil => exact hstart
  | cons part parts ih =>
      refine ih (p := (b.add p part).2) (m := extend m part) ?_
      cases hadd : (b.add p part).1 with
      | true =>
          rw [b.added hadd]
          exact hmono part hstart
      | false =>
          rw [b.refused hadd]
          exact Nat.le_trans hstart (hgrows m part)

end Builder

end ErSdk.BoundedBuilder
