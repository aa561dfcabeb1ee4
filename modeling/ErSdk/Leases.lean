import Mathlib.Data.Set.Insert
import Mathlib.Logic.Function.Basic

namespace ErSdk.Leases

variable {ι κ B : Type}

/-- Each entry of the table has a resource of its own, and every other resource in use is lost. -/
structure Leased (table : ι → Option B) (key : B → κ) (used lost : Set κ) : Prop where
  apart : ∀ i j a b, table i = some a → table j = some b → key a = key b → i = j
  uses : ∀ i b, table i = some b → key b ∈ used
  stray : ∀ c ∈ lost, c ∈ used ∧ ∀ i b, table i = some b → key b ≠ c
  held : ∀ c ∈ used, c ∈ lost ∨ ∃ i b, table i = some b ∧ key b = c

variable {table : ι → Option B} {key : B → κ} {used lost : Set κ}

section

variable [DecidableEq ι] {P : ι → B → Prop} {i : ι}

theorem forall_put {b : B} (hb : P i b) (h : ∀ j a, j ≠ i → table j = some a → P j a) :
    ∀ j a, Function.update table i (some b) j = some a → P j a := by
  intro j a hj
  by_cases hji : j = i
  · subst hji
    rw [Function.update_self] at hj
    exact Option.some.inj hj ▸ hb
  · rw [Function.update_of_ne hji] at hj
    exact h j a hji hj

theorem forall_remove (h : ∀ j a, j ≠ i → table j = some a → P j a) :
    ∀ j a, Function.update table i none j = some a → P j a := by
  intro j a hj
  by_cases hji : j = i
  · subst hji
    rw [Function.update_self] at hj
    cases hj
  · rw [Function.update_of_ne hji] at hj
    exact h j a hji hj

theorem map_update {α : Type} {f : Option B → α} {g : ι → α} (h : ∀ j, g j = f (table j)) (b : Option B)
    (j : ι) : Function.update g i (f b) j = f (Function.update table i b j) := by
  by_cases hji : j = i
  · subst hji
    rw [Function.update_self, Function.update_self]
  · rw [Function.update_of_ne hji, Function.update_of_ne hji]
    exact h j

end

theorem leased_empty : Leased (fun _ : ι => (none : Option B)) key ∅ ∅ where
  apart _ _ _ _ h := by cases h
  uses _ _ h := by cases h
  stray _ h := h.elim
  held _ h := h.elim

namespace Leased

theorem unused (h : Leased table key used lost) {c : κ} (hc : c ∉ used) (i : ι) (b : B)
    (hi : table i = some b) : key b ≠ c := by
  rintro rfl
  exact hc (h.uses i b hi)

theorem mem_used_iff (h : Leased table key used lost) (c : κ) :
    c ∈ used ↔ c ∈ lost ∨ ∃ i b, table i = some b ∧ key b = c := by
  constructor
  · exact h.held c
  · rintro (hl | ⟨i, b, hi, rfl⟩)
    · exact (h.stray c hl).1
    · exact h.uses i b hi

theorem lose (h : Leased table key used lost) {c : κ} (hc : c ∉ used) :
    Leased table key (insert c used) (insert c lost) where
  apart := h.apart
  uses i b hi := Set.mem_insert_of_mem c (h.uses i b hi)
  stray d hd := by
    rcases hd with rfl | hd
    · exact ⟨Set.mem_insert d used, h.unused hc⟩
    · exact ⟨Set.mem_insert_of_mem c (h.stray d hd).1, (h.stray d hd).2⟩
  held d hd := by
    rcases hd with rfl | hd
    · exact Or.inl (Set.mem_insert d lost)
    · exact (h.held d hd).imp_left (Set.mem_insert_of_mem c)

variable [DecidableEq ι]

theorem take (h : Leased table key used lost) {i : ι} {b : B} (hi : table i = none)
    (hb : key b ∉ used) :
    Leased (Function.update table i (some b)) key (insert (key b) used) lost where
  apart j k a a' hj hk heq := by
    by_cases hji : j = i <;> by_cases hki : k = i
    · exact hji.trans hki.symm
    · subst hji
      rw [Function.update_self] at hj
      rw [Function.update_of_ne hki] at hk
      obtain rfl := Option.some.inj hj
      exact absurd heq.symm (h.unused hb k a' hk)
    · subst hki
      rw [Function.update_self] at hk
      rw [Function.update_of_ne hji] at hj
      obtain rfl := Option.some.inj hk
      exact absurd heq (h.unused hb j a hj)
    · rw [Function.update_of_ne hji] at hj
      rw [Function.update_of_ne hki] at hk
      exact h.apart j k a a' hj hk heq
  uses := forall_put (Set.mem_insert _ _) fun j a _ hj => Set.mem_insert_of_mem _ (h.uses j a hj)
  stray c hc := by
    refine ⟨Set.mem_insert_of_mem _ (h.stray c hc).1, forall_put ?_ fun j a _ hj =>
      (h.stray c hc).2 j a hj⟩
    rintro rfl
    exact hb (h.stray _ hc).1
  held c hc := by
    rcases hc with rfl | hc
    · exact Or.inr ⟨i, b, Function.update_self .., rfl⟩
    · refine (h.held c hc).imp_right fun ⟨j, a, hj, ha⟩ => ⟨j, a, ?_, ha⟩
      rwa [Function.update_of_ne (by rintro rfl; rw [hi] at hj; cases hj)]

theorem alter (h : Leased table key used lost) {i : ι} {b b' : B} (hi : table i = some b)
    (hb : key b' = key b) : Leased (Function.update table i (some b')) key used lost := by
  have hback : ∀ j a, Function.update table i (some b') j = some a →
      ∃ a', table j = some a' ∧ key a' = key a :=
    forall_put ⟨b, hi, hb.symm⟩ fun _ a _ hj => ⟨a, hj, rfl⟩
  refine ⟨fun j k a a' hj hk heq => ?_, fun j a hj => ?_, fun c hc => ⟨(h.stray c hc).1, fun j a hj => ?_⟩,
    fun c hc => ?_⟩
  · obtain ⟨x, hx, hxa⟩ := hback j a hj
    obtain ⟨y, hy, hya⟩ := hback k a' hk
    exact h.apart j k x y hx hy (hxa.trans (heq.trans hya.symm))
  · obtain ⟨x, hx, hxa⟩ := hback j a hj
    exact hxa ▸ h.uses j x hx
  · obtain ⟨x, hx, hxa⟩ := hback j a hj
    exact hxa ▸ (h.stray c hc).2 j x hx
  · refine (h.held c hc).imp_right fun ⟨j, a, hj, ha⟩ => ?_
    by_cases hji : j = i
    · subst hji
      obtain rfl := Option.some.inj (hi.symm.trans hj)
      exact ⟨j, b', Function.update_self .., hb.trans ha⟩
    · exact ⟨j, a, (Function.update_of_ne hji ..).trans hj, ha⟩

theorem release (h : Leased table key used lost) {i : ι} {b : B} (hi : table i = some b) :
    Leased (Function.update table i none) key (used \ {key b}) lost := by
  have hback : ∀ j a, Function.update table i none j = some a → j ≠ i ∧ table j = some a :=
    forall_remove fun _ _ hji hj => ⟨hji, hj⟩
  refine ⟨fun j k a a' hj hk => h.apart j k a a' (hback j a hj).2 (hback k a' hk).2,
    fun j a hj => ?_, fun c hc => ?_, fun c hc => ?_⟩
  · obtain ⟨hji, hj⟩ := hback j a hj
    exact ⟨h.uses j a hj, fun heq => hji (h.apart j i a b hj hi heq)⟩
  · refine ⟨⟨(h.stray c hc).1, fun heq => (h.stray c hc).2 i b hi heq.symm⟩, fun j a hj => ?_⟩
    exact (h.stray c hc).2 j a (hback j a hj).2
  · refine (h.held c hc.1).imp_right fun ⟨j, a, hj, ha⟩ => ⟨j, a, ?_, ha⟩
    have hji : j ≠ i := by
      rintro rfl
      obtain rfl := Option.some.inj (hi.symm.trans hj)
      exact hc.2 ha.symm
    rwa [Function.update_of_ne hji]

end Leased

end ErSdk.Leases
