import ErSdk.Linked

namespace ErSdk.Linked

variable {C : Type} {next prev : C → Option Nat} {m m' : Memory C} {first last : Option Nat}

theorem seg_head {as : List Nat} (h : Seg next m first as none) : first = as.head? := by
  cases h with
  | nil => rfl
  | cons => rfl

/-- Cells that are linked in both directions. -/
structure TwoWay (next prev : C → Option Nat) (m : Memory C) (first last : Option Nat)
    (as : List Nat) : Prop where
  forward : Seg next m first as none
  backward : Seg prev m last as.reverse none
  nodup : as.Nodup

namespace TwoWay

variable {a b : Nat} {as bs : List Nat}

theorem nil : TwoWay next prev m none none [] := ⟨.nil, .nil, .nil⟩

theorem flip (h : TwoWay next prev m first last as) : TwoWay prev next m last first as.reverse :=
  ⟨h.backward, by rw [List.reverse_reverse]; exact h.forward, List.nodup_reverse.mpr h.nodup⟩

theorem first_eq (h : TwoWay next prev m first last as) : first = as.head? := seg_head h.forward

theorem fetch_first (h : TwoWay next prev m first last (a :: as)) :
    ∃ c, fetch m a = some c ∧ next c = as.head? := by
  obtain ⟨-, c, hc, hrest⟩ := seg_cons.mp h.forward
  exact ⟨c, hc, seg_head hrest⟩

theorem single {c : C} (hc : fetch m a = some c) (hnext : next c = none) (hprev : prev c = none) :
    TwoWay next prev m (some a) (some a) [a] := by
  refine ⟨.cons hc ?_, .cons hc ?_, List.nodup_singleton a⟩
  · rw [hnext]
    exact .nil
  · rw [hprev]
    exact .nil

theorem cons (h : TwoWay next prev m first last (b :: bs)) (ha : a ∉ b :: bs) {c d d' : C}
    (hc : fetch m' a = some c) (hnext : next c = some b) (hprev : prev c = none)
    (hd : fetch m b = some d) (hd' : fetch m' b = some d') (hkeep : next d' = next d)
    (hback : prev d' = some a) (hsame : ∀ x ∈ bs, fetch m' x = fetch m x) :
    TwoWay next prev m' (some a) last (a :: b :: bs) := by
  refine ⟨.cons hc ?_, ?_, List.nodup_cons.mpr ⟨ha, h.nodup⟩⟩
  · obtain ⟨rfl, -⟩ := seg_cons.mp h.forward
    rw [hnext]
    refine h.forward.congr (fun x hx => ?_)
    rcases List.mem_cons.mp hx with rfl | hx
    · rw [hd, hd', Option.map_some, Option.map_some, hkeep]
    · rw [hsame x hx]
  · have hbackward := h.backward
    rw [List.reverse_cons] at hbackward
    rw [List.reverse_cons, List.reverse_cons]
    exact hbackward.snoc hback hprev (fun x hx => hsame x (List.mem_reverse.mp hx)) hd' hc

theorem tail (h : TwoWay next prev m first last (a :: b :: bs)) {d d' : C}
    (hd : fetch m b = some d) (hd' : fetch m' b = some d') (hkeep : next d' = next d)
    (hback : prev d' = none) (hsame : ∀ x ∈ bs, fetch m' x = fetch m x) :
    TwoWay next prev m' (some b) last (b :: bs) := by
  obtain ⟨-, c, -, hrest⟩ := seg_cons.mp h.forward
  obtain ⟨hb, -⟩ := seg_cons.mp hrest
  refine ⟨?_, ?_, (List.nodup_cons.mp h.nodup).2⟩
  · rw [hb] at hrest
    refine hrest.congr (fun x hx => ?_)
    rcases List.mem_cons.mp hx with rfl | hx
    · rw [hd, hd', Option.map_some, Option.map_some, hkeep]
    · rw [hsame x hx]
  · have hbackward := h.backward
    rw [List.reverse_cons, List.reverse_cons, List.append_assoc] at hbackward
    obtain ⟨r, hbs, hends⟩ := seg_append.mp hbackward
    obtain ⟨rfl, -⟩ := seg_cons.mp hends
    rw [List.reverse_cons]
    refine seg_append.mpr ⟨some b, hbs.congr (fun x hx => ?_), .cons hd' ?_⟩
    · rw [hsame x (List.mem_reverse.mp hx)]
    · rw [hback]
      exact .nil

end TwoWay

end ErSdk.Linked
