import ErSdk.CyclicIndex

namespace ErSdk.OverwritingRing

open CyclicIndex

variable {α : Type} {n : Nat}

/-- A ring of cells that are free or hold an element. Nothing but the cells tells how many do. -/
structure CellRing (α : Type) (n : Nat) where
  cells : Vector (Option α) n
  readIndex : Fin n
  writeIndex : Fin n

namespace CellRing

/-- The element goes into the next cell, over the one that may stand there. -/
def push (r : CellRing α n) (a : α) : CellRing α n :=
  { r with cells := r.cells.set r.writeIndex (some a), writeIndex := next r.writeIndex }

def take (r : CellRing α n) : CellRing α n :=
  { r with cells := r.cells.set r.readIndex none, readIndex := next r.readIndex }

def pop (r : CellRing α n) : Option α × CellRing α n :=
  match r.cells.get r.readIndex with
  | none => (none, r)
  | some a => (some a, r.take)

def stored (r : CellRing α n) : Nat := r.cells.toList.countP Option.isSome

def empty (start : Fin n) : CellRing α n := ⟨Vector.replicate n none, start, start⟩

protected theorem ext {r r' : CellRing α n} (hc : ∀ i : Fin n, r.cells.get i = r'.cells.get i)
    (hr : r.readIndex = r'.readIndex) (hw : r.writeIndex = r'.writeIndex) : r = r' := by
  obtain ⟨cells, read, write⟩ := r
  obtain ⟨cells', read', write'⟩ := r'
  obtain rfl : cells = cells' := Vector.ext (fun i hi => hc ⟨i, hi⟩)
  obtain rfl := hr
  obtain rfl := hw
  rfl

theorem push_cells (r : CellRing α n) (a : α) (i : Fin n) :
    (r.push a).cells.get i = if r.writeIndex = i then some a else r.cells.get i := by
  simp only [push, get_eq, Fin.getElem_fin, Vector.getElem_set, Fin.ext_iff]

theorem take_cells (r : CellRing α n) (i : Fin n) :
    r.take.cells.get i = if r.readIndex = i then none else r.cells.get i := by
  simp only [take, get_eq, Fin.getElem_fin, Vector.getElem_set, Fin.ext_iff]

theorem pop_none {r : CellRing α n} (h : r.cells.get r.readIndex = none) : r.pop = (none, r) := by
  unfold pop
  rw [h]

theorem pop_some {r : CellRing α n} {a : α} (h : r.cells.get r.readIndex = some a) :
    r.pop = (some a, r.take) := by
  unfold pop
  rw [h]

theorem pop_fst (r : CellRing α n) : r.pop.1 = r.cells.get r.readIndex := by
  cases h : r.cells.get r.readIndex with
  | none => rw [pop_none h]
  | some a => rw [pop_some h]

theorem stored_le (r : CellRing α n) : r.stored ≤ n := by
  have h := List.countP_le_length (p := Option.isSome) (l := r.cells.toList)
  rw [Vector.length_toList] at h
  exact h

theorem stored_eq_iff (r : CellRing α n) : r.stored = n ↔ ∀ i : Fin n, (r.cells.get i).isSome := by
  have h := List.countP_eq_length (p := Option.isSome) (l := r.cells.toList)
  rw [Vector.length_toList] at h
  rw [stored, h]
  constructor
  · intro hall i
    exact hall _ (by simp [get_eq])
  · intro hall c hc
    obtain ⟨i, hi, rfl⟩ := List.getElem_of_mem hc
    exact hall ⟨i, by simpa using hi⟩

/-- The next push goes to a cell that holds an element. -/
def Overwrites (r : CellRing α n) : Prop := (r.cells.get r.writeIndex).isSome

/-- A pop finds no element, or the ring has room, or the indices meet. -/
def InStep (r : CellRing α n) : Prop :=
  (r.cells.get r.readIndex).isSome → r.stored = n → r.readIndex = r.writeIndex

end CellRing

/-- The ring holds the elements of a list, the oldest one first, from the cell `start` on. -/
structure Holds (r : CellRing α n) (start : Fin n) (l : List α) : Prop where
  cells : window r.cells start n = l.map some ++ List.replicate (n - l.length) none
  write : r.writeIndex = advance start l.length
  read : l.length < n → r.readIndex = start

theorem Holds.empty (start : Fin n) : Holds (CellRing.empty start : CellRing α n) start [] := by
  refine ⟨?_, rfl, fun _ => rfl⟩
  apply List.ext_getElem
  · simp
  · intro i hi _
    rw [getElem_window]
    simp [CellRing.empty]

section

variable {r : CellRing α n} {start : Fin n} {l : List α}

theorem Holds.length_le (h : Holds r start l) : l.length ≤ n := by
  have hlen := congrArg List.length h.cells
  simp only [length_window, List.length_append, List.length_map, List.length_replicate] at hlen
  omega

theorem Holds.stored (h : Holds r start l) : r.stored = l.length := by
  rw [CellRing.stored, ← (window_perm r.cells start).countP_eq, h.cells, List.countP_append,
    List.countP_map]
  simp [List.countP_replicate, Function.comp_def]

theorem Holds.cell (h : Holds r start l) {i : Nat} (hi : i < n) :
    r.cells.get (advance start i) = l[i]? := by
  have hlt : i < (window r.cells start n).length := by simpa using hi
  rw [get_eq, ← getElem_window hlt]
  simp only [h.cells]
  by_cases hil : i < l.length
  · rw [List.getElem_append_left (by simpa using hil), List.getElem_map,
      List.getElem?_eq_getElem hil]
  · rw [List.getElem_append_right (by simpa using hil), List.getElem_replicate,
      List.getElem?_eq_none (Nat.le_of_not_lt hil)]

theorem Holds.overwrites_iff (h : Holds r start l) : r.Overwrites ↔ l.length = n := by
  unfold CellRing.Overwrites
  have hle := h.length_le
  obtain hlt | heq := Nat.lt_or_eq_of_le hle
  · have hcell := h.cell hlt
    simp only [h.write, hcell, List.getElem?_eq_none (Nat.le_refl _)]
    exact iff_of_false nofun (Nat.ne_of_lt hlt)
  · have hpos : 0 < n := Nat.lt_of_le_of_lt (Nat.zero_le _) start.isLt
    have hcell := h.cell hpos
    have hw : r.writeIndex = start := by rw [h.write, heq, advance_round]
    simp only [hw]
    exact iff_of_true (hcell ▸ by simp [heq, hpos]) heq

theorem Holds.push (h : Holds r start l) (a : α) (hlt : l.length < n) :
    Holds (r.push a) start (l ++ [a]) := by
  refine ⟨?_, ?_, fun hl => h.read hlt⟩
  · rw [CellRing.push]
    simp only [h.write]
    rw [window_set_advance _ _ hlt, h.cells, List.set_append_right _ _ (by simp),
      List.length_map, Nat.sub_self, show n - l.length = n - (l ++ [a]).length + 1 by simp; omega,
      List.replicate_succ, List.set_cons_zero]
    simp
  · rw [List.length_append, List.length_singleton, advance_succ, ← h.write]
    rfl

theorem Holds.push_full {b : α} (h : Holds r start (b :: l)) (a : α) (heq : (b :: l).length = n) :
    Holds (r.push a) (next start) (l ++ [a]) := by
  have hw : r.writeIndex = start := by rw [h.write, heq, advance_round]
  have hlen : (l ++ [a]).length = n := by simpa using heq
  refine ⟨?_, ?_, fun hl => absurd hlen (Nat.ne_of_lt hl)⟩
  · have hcells := h.cells
    rw [List.map_cons, List.cons_append] at hcells
    simp only [CellRing.push, hw]
    rw [window_set_next hcells, hlen, heq, Nat.sub_self, List.replicate_zero, List.append_nil,
      List.append_nil, List.map_append]
    rfl
  · rw [hlen, advance_round]
    exact congrArg next hw

theorem Holds.pop_nil (h : Holds r start []) : r.pop = (none, r) := by
  have hpos : 0 < n := Nat.lt_of_le_of_lt (Nat.zero_le _) start.isLt
  have hcell : r.cells.get start = none := h.cell hpos
  apply CellRing.pop_none
  simp only [h.read hpos, hcell]

theorem Holds.pop_cons {b : α} (h : Holds r start (b :: l)) (hstep : r.InStep) :
    ∃ r', r.pop = (some b, r') ∧ Holds r' (next start) l := by
  have hpos : 0 < n := Nat.lt_of_le_of_lt (Nat.zero_le _) start.isLt
  have hlen : l.length + 1 ≤ n := h.length_le
  have hcell : r.cells.get start = some b := h.cell hpos
  have hread : r.readIndex = start := by
    obtain hlt | heq := Nat.lt_or_eq_of_le h.length_le
    · exact h.read hlt
    · have hw : r.writeIndex = start := by rw [h.write, heq, advance_round]
      have hfull := h.stored.trans heq
      exact (hstep (r.stored_eq_iff.mp hfull r.readIndex) hfull).trans hw
  refine ⟨r.take, CellRing.pop_some (by simp only [hread, hcell]), ?_⟩
  · have hcells := h.cells
    rw [List.map_cons, List.cons_append] at hcells
    refine ⟨?_, ?_, fun _ => congrArg next hread⟩
    · simp only [CellRing.take, hread]
      rw [window_set_next hcells, List.append_assoc, List.length_cons,
        show n - l.length = n - (l.length + 1) + 1 by omega, List.replicate_succ']
    · exact h.write

end

theorem CellRing.pop_late {r : CellRing α n} (h : ¬ r.InStep) :
    r.pop.2.Overwrites ∧ r.pop.2.stored < n := by
  unfold CellRing.InStep at h
  obtain ⟨hread, hfull, hne⟩ : (r.cells.get r.readIndex).isSome ∧ r.stored = n ∧
      r.readIndex ≠ r.writeIndex := by tauto
  obtain ⟨b, hb⟩ := Option.isSome_iff_exists.mp hread
  rw [CellRing.pop_some hb]
  constructor
  · show (r.take.cells.get r.writeIndex).isSome
    rw [CellRing.take_cells, if_neg hne]
    exact r.stored_eq_iff.mp hfull r.writeIndex
  · refine Nat.lt_of_le_of_ne (CellRing.stored_le _) (fun heq => ?_)
    have hcell := (CellRing.stored_eq_iff _).mp heq r.readIndex
    rw [CellRing.take_cells, if_pos rfl] at hcell
    exact absurd hcell nofun

end ErSdk.OverwritingRing
