import Mathlib.Data.List.Basic
import Mathlib.Data.List.Nodup
import Mathlib.Data.List.Range
import Mathlib.Data.List.Perm.Subperm

namespace ErSdk.Linked

variable {C : Type}

/-- Cells by address. An address is given out once, and a released cell is empty. -/
abbrev Memory (C : Type) := List (Option C)

def fetch (m : Memory C) (a : Nat) : Option C := m[a]?.join

def store (m : Memory C) (a : Nat) (c : C) : Memory C := m.set a (some c)

def allocate (m : Memory C) (c : C) : Memory C := m ++ [some c]

def release (m : Memory C) (a : Nat) : Memory C := m.set a none

theorem lt_of_fetch {m : Memory C} {a : Nat} {c : C} (h : fetch m a = some c) : a < m.length := by
  by_contra hn
  simp [fetch, List.getElem?_eq_none (Nat.le_of_not_gt hn)] at h

theorem fetch_store_self {m : Memory C} {a : Nat} {b : C} (h : fetch m a = some b) (c : C) :
    fetch (store m a c) a = some c := by
  simp [fetch, store, lt_of_fetch h]

theorem fetch_store_ne {m : Memory C} {a b : Nat} (h : b ≠ a) (c : C) :
    fetch (store m a c) b = fetch m b := by
  simp [fetch, store, List.getElem?_set_ne h.symm]

theorem fetch_release_self (m : Memory C) (a : Nat) : fetch (release m a) a = none := by
  by_cases h : a < m.length <;> simp [fetch, release, h]

theorem fetch_release_ne {m : Memory C} {a b : Nat} (h : b ≠ a) :
    fetch (release m a) b = fetch m b := by
  simp [fetch, release, List.getElem?_set_ne h.symm]

theorem fetch_allocate_self (m : Memory C) (c : C) : fetch (allocate m c) m.length = some c := by
  simp [fetch, allocate]

theorem fetch_allocate_of_lt {m : Memory C} {a : Nat} (h : a < m.length) (c : C) :
    fetch (allocate m c) a = fetch m a := by
  simp [fetch, allocate, List.getElem?_append_left h]

theorem fetch_allocate_ne {m : Memory C} {a : Nat} (h : a ≠ m.length) (c : C) :
    fetch (allocate m c) a = fetch m a := by
  rcases Nat.lt_or_gt_of_ne h with hlt | hgt
  · exact fetch_allocate_of_lt hlt c
  · have hnew : (allocate m c).length ≤ a := by
      rw [allocate, List.length_append]
      exact hgt
    rw [fetch, fetch, List.getElem?_eq_none hnew, List.getElem?_eq_none (Nat.le_of_lt hgt)]

theorem store_allocate (m : Memory C) (b c : C) :
    store (allocate m b) m.length c = allocate m c := by
  simp [store, allocate]

@[simp] theorem length_store (m : Memory C) (a : Nat) (c : C) : (store m a c).length = m.length := by
  simp [store]

@[simp] theorem length_release (m : Memory C) (a : Nat) : (release m a).length = m.length := by
  simp [release]

/-- The links lead from the first pointer through these cells to the last pointer. -/
inductive Seg (link : C → Option Nat) (m : Memory C) : Option Nat → List Nat → Option Nat → Prop
  | nil {p} : Seg link m p [] p
  | cons {a c as q} (hc : fetch m a = some c) (h : Seg link m (link c) as q) :
      Seg link m (some a) (a :: as) q

variable {link : C → Option Nat} {m m' : Memory C} {p q : Option Nat} {as : List Nat}

theorem Seg.fetch (h : Seg link m p as q) : ∀ a ∈ as, ∃ c, Linked.fetch m a = some c := by
  induction h with
  | nil => simp
  | cons hc _ ih =>
      intro b hb
      rcases List.mem_cons.mp hb with rfl | hb
      · exact ⟨_, hc⟩
      · exact ih b hb

theorem Seg.relabel {link' : C → Option Nat} (h : Seg link m p as q)
    (hm : ∀ a ∈ as, (Linked.fetch m' a).map link' = (Linked.fetch m a).map link) :
    Seg link' m' p as q := by
  induction h with
  | nil => exact .nil
  | @cons a c as q hc _ ih =>
      have ha := hm a List.mem_cons_self
      rw [hc, Option.map_some] at ha
      obtain ⟨c', hc', hl⟩ := Option.map_eq_some_iff.mp ha
      have hrest := ih (fun b hb => hm b (List.mem_cons_of_mem a hb))
      rw [← hl] at hrest
      exact .cons hc' hrest

theorem Seg.congr (h : Seg link m p as q)
    (hm : ∀ a ∈ as, (Linked.fetch m' a).map link = (Linked.fetch m a).map link) :
    Seg link m' p as q := h.relabel hm

theorem seg_append {bs : List Nat} :
    Seg link m p (as ++ bs) q ↔ ∃ r, Seg link m p as r ∧ Seg link m r bs q := by
  induction as generalizing p with
  | nil =>
      constructor
      · intro h
        exact ⟨p, .nil, h⟩
      · rintro ⟨r, ha, hb⟩
        cases ha
        exact hb
  | cons a as ih =>
      constructor
      · intro h
        cases h with
        | cons hc h =>
            obtain ⟨r, ha, hb⟩ := ih.mp h
            exact ⟨r, .cons hc ha, hb⟩
      · rintro ⟨r, ha, hb⟩
        cases ha with
        | cons hc ha => exact .cons hc (ih.mpr ⟨r, ha, hb⟩)

theorem Seg.lt (h : Seg link m p as q) : ∀ a ∈ as, a < m.length := by
  intro a ha
  obtain ⟨c, hc⟩ := h.fetch a ha
  exact lt_of_fetch hc

theorem Seg.length_le (h : Seg link m p as q) (hn : as.Nodup) : as.length ≤ m.length := by
  have hsub : as ⊆ List.range m.length := fun a ha => List.mem_range.mpr (h.lt a ha)
  have hle := (List.subperm_of_subset hn hsub).length_le
  rwa [List.length_range] at hle

theorem seg_none (h : Seg link m none as q) : as = [] ∧ q = none := by
  cases h
  exact ⟨rfl, rfl⟩

theorem seg_cons {a : Nat} :
    Seg link m p (a :: as) q ↔ p = some a ∧ ∃ c, fetch m a = some c ∧ Seg link m (link c) as q := by
  constructor
  · intro h
    cases h with
    | cons hc h => exact ⟨rfl, _, hc, h⟩
  · rintro ⟨rfl, c, hc, h⟩
    exact .cons hc h

theorem Seg.split {a : Nat} {bs : List Nat} (h : Seg link m p (as ++ a :: bs) q) :
    Seg link m p as (some a) ∧ ∃ c, Linked.fetch m a = some c ∧ Seg link m (link c) bs q := by
  obtain ⟨r, ha, hb⟩ := seg_append.mp h
  obtain ⟨rfl, hc⟩ := seg_cons.mp hb
  exact ⟨ha, hc⟩

theorem Seg.snoc {a b : Nat} {c d : C} (h : Seg link m p (as ++ [a]) q)
    (hc : link c = some b) (hd : link d = none)
    (hsame : ∀ x ∈ as, Linked.fetch m' x = Linked.fetch m x) (ha : Linked.fetch m' a = some c)
    (hnew : Linked.fetch m' b = some d) : Seg link m' p (as ++ [a] ++ [b]) none := by
  have hseg : Seg link m' p as (some a) := h.split.1.congr (fun x hx => by rw [hsame x hx])
  have hlast : Seg link m' (some a) [a, b] none := by
    apply Seg.cons ha
    rw [hc]
    apply Seg.cons hnew
    rw [hd]
    exact .nil
  rw [List.append_assoc]
  exact seg_append.mpr ⟨some a, hseg, hlast⟩

theorem Seg.unlink {a b : Nat} {c d : C} {bs : List Nat} (h : Seg link m p (as ++ a :: b :: bs) q)
    (hb : Linked.fetch m b = some d) (hc : link c = link d) (ha : Linked.fetch m' a = some c)
    (hsame : ∀ x, x ∈ as ∨ x ∈ bs → Linked.fetch m' x = Linked.fetch m x) :
    Seg link m' p (as ++ a :: bs) q := by
  obtain ⟨hseg, e, he, hrest⟩ := h.split
  obtain ⟨-, d', hd', hbs⟩ := seg_cons.mp hrest
  cases hb.symm.trans hd'
  have hbs' : Seg link m' (link c) bs q := by
    rw [hc]
    exact hbs.congr (fun x hx => by rw [hsame x (.inr hx)])
  exact seg_append.mpr ⟨some a, hseg.congr (fun x hx => by rw [hsame x (.inl hx)]), .cons ha hbs'⟩

theorem Seg.cut {a : Nat} (h : Seg link m p as q) (ha : a ∈ as)
    (hsame : ∀ x ∈ as, x ≠ a → (Linked.fetch m' x).map link = (Linked.fetch m x).map link) :
    ∃ bs, Seg link m' p bs (some a) := by
  obtain ⟨bs, cs, rfl, hn⟩ := List.eq_append_cons_of_mem ha
  refine ⟨bs, h.split.1.congr (fun x hx => hsame x (by simp [hx]) ?_)⟩
  rintro rfl
  exact hn hx

end ErSdk.Linked
