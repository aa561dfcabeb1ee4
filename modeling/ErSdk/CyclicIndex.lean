import Mathlib.Data.List.Rotate
import Mathlib.Data.Nat.ModEq

namespace ErSdk.CyclicIndex

variable {α : Type} {n : Nat}

/-- The next index of a ring of `n` cells. -/
def next (p : Fin n) : Fin n :=
  if h : p.val + 1 = n then ⟨0, Nat.lt_of_le_of_lt (Nat.zero_le _) p.isLt⟩ else ⟨p.val + 1, by omega⟩

/-- The steps that lead from the index `r` to the index `w`. -/
def distance (r w : Fin n) : Nat := if r.val ≤ w.val then w.val - r.val else n - (r.val - w.val)

def window (cells : Vector α n) : Fin n → Nat → List α
  | _, 0 => []
  | p, k + 1 => cells[p] :: window cells (next p) k

theorem get_eq (cells : Vector α n) (p : Fin n) : cells.get p = cells[p] := rfl

theorem next_val (p : Fin n) : (next p).val = if p.val + 1 = n then 0 else p.val + 1 := by
  unfold next
  split <;> rfl

@[simp] theorem next_inj {p q : Fin n} : next p = next q ↔ p = q := by
  constructor
  · intro h
    have hval := congrArg Fin.val h
    rw [next_val, next_val] at hval
    apply Fin.ext
    split_ifs at hval <;> omega
  · rintro rfl
    rfl

theorem distance_lt (r w : Fin n) : distance r w < n := by
  have hr := r.isLt
  have hw := w.isLt
  unfold distance
  split <;> omega

theorem distance_eq_zero {r w : Fin n} : distance r w = 0 ↔ r = w := by
  have hr := r.isLt
  rw [Fin.ext_iff, distance]
  split <;> omega

@[simp] theorem distance_self (r : Fin n) : distance r r = 0 := distance_eq_zero.mpr rfl

theorem distance_next {r w : Fin n} (h : next w ≠ r) : distance r (next w) = distance r w + 1 := by
  have hne : (next w).val ≠ r.val := fun heq => h (Fin.ext heq)
  have hr := r.isLt
  have hw := w.isLt
  rw [next_val] at hne
  rw [distance, distance, next_val]
  split_ifs at hne ⊢ <;> omega

theorem next_distance {r w : Fin n} (h : r ≠ w) : distance (next r) w + 1 = distance r w := by
  have hne : r.val ≠ w.val := fun heq => h (Fin.ext heq)
  have hr := r.isLt
  have hw := w.isLt
  rw [distance, distance, next_val]
  split_ifs <;> omega

@[simp] theorem length_window (cells : Vector α n) (p : Fin n) (k : Nat) :
    (window cells p k).length = k := by
  induction k generalizing p with
  | zero => rfl
  | succ k ih => simp [window, ih]

theorem window_set (cells : Vector α n) (r w : Fin n) (c : α) :
    window (cells.set w c) r (distance r w + 1) = window cells r (distance r w) ++ [c] := by
  induction hk : distance r w generalizing r with
  | zero =>
      obtain rfl := distance_eq_zero.mp hk
      simp [window]
  | succ k ih =>
      have hne : r ≠ w := by
        rintro rfl
        simp at hk
      have hrest : distance (next r) w = k := by
        have h := next_distance hne
        omega
      have hcell : (cells.set w c)[r] = cells[r] := by
        apply Vector.getElem_set_ne
        exact fun heq => hne (Fin.ext heq.symm)
      rw [window, hcell, ih (next r) hrest, window, List.cons_append]

/-- The index `k` steps further. -/
def advance (p : Fin n) : Nat → Fin n
  | 0 => p
  | k + 1 => advance (next p) k

theorem advance_succ (p : Fin n) (k : Nat) : advance p (k + 1) = next (advance p k) := by
  induction k generalizing p with
  | zero => rfl
  | succ k ih => exact ih (next p)

theorem advance_val (p : Fin n) (k : Nat) : (advance p k).val = (p.val + k) % n := by
  have hp := p.isLt
  induction k generalizing p with
  | zero => exact (Nat.mod_eq_of_lt hp).symm
  | succ k ih =>
      rw [advance, ih (next p) (next p).isLt, next_val]
      split
      · rename_i hlast
        rw [Nat.zero_add, show p.val + (k + 1) = k + n by omega, Nat.add_mod_right]
      · rw [Nat.add_assoc, Nat.add_comm 1 k]

@[simp] theorem advance_round (p : Fin n) : advance p n = p := by
  apply Fin.ext
  rw [advance_val, Nat.add_mod_right, Nat.mod_eq_of_lt p.isLt]

theorem advance_inj {p : Fin n} {i j : Nat} (hi : i < n) (hj : j < n) :
    advance p i = advance p j ↔ i = j := by
  constructor
  · intro h
    have hval := congrArg Fin.val h
    rw [advance_val, advance_val] at hval
    have hmod : i ≡ j [MOD n] := Nat.ModEq.add_left_cancel' p.val hval
    exact hmod.eq_of_lt_of_lt hi hj
  · rintro rfl
    rfl

theorem getElem_window {cells : Vector α n} {p : Fin n} {k i : Nat}
    (hi : i < (window cells p k).length) : (window cells p k)[i] = cells[advance p i] := by
  induction k generalizing p i with
  | zero => exact absurd hi (Nat.not_lt_zero i)
  | succ k ih =>
      cases i with
      | zero => rfl
      | succ i => exact ih (Nat.lt_of_succ_lt_succ hi)

theorem window_set_advance (cells : Vector α n) (p : Fin n) {k : Nat} (hk : k < n) (c : α) :
    window (cells.set (advance p k) c) p n = (window cells p n).set k c := by
  apply List.ext_getElem
  · simp
  · intro i hi _
    have hin : i < n := by simpa using hi
    rw [getElem_window, List.getElem_set]
    split
    · rename_i he
      subst he
      exact Vector.getElem_set_self _
    · rename_i hne
      rw [getElem_window]
      apply Vector.getElem_set_ne
      exact fun heq => hne ((advance_inj hk hin).mp (Fin.ext heq))

theorem window_append (cells : Vector α n) (p : Fin n) (k : Nat) :
    window cells p (k + 1) = window cells p k ++ [cells[advance p k]] := by
  induction k generalizing p with
  | zero => rfl
  | succ k ih =>
      rw [window, ih (next p)]
      rfl

theorem window_next (cells : Vector α n) (p : Fin n) :
    cells[p] :: window cells (next p) n = window cells p n ++ [cells[p]] := by
  have h := window_append cells p n
  simp only [advance_round] at h
  exact h

theorem window_set_next {cells : Vector α n} {p : Fin n} {c d : α} {rest : List α}
    (h : window cells p n = d :: rest) : window (cells.set p c) (next p) n = rest ++ [c] := by
  have hpos : 0 < n := Nat.lt_of_le_of_lt (Nat.zero_le _) p.isLt
  have hset : window (cells.set p c) p n = (window cells p n).set 0 c :=
    window_set_advance cells p hpos c
  have hround := window_next (cells.set p c) p
  have hself : (cells.set p c)[p] = c := Vector.getElem_set_self _
  rw [h, List.set_cons_zero] at hset
  rw [hself, hset, List.cons_append] at hround
  exact (List.cons.inj hround).2

theorem window_perm (cells : Vector α n) (p : Fin n) : (window cells p n).Perm cells.toList := by
  have h : window cells p n = cells.toList.rotate p.val := by
    apply List.ext_getElem
    · simp
    · intro i hi _
      rw [getElem_window, List.getElem_rotate]
      simp [advance_val, Nat.add_comm]
  rw [h]
  exact List.rotate_perm _ _

end ErSdk.CyclicIndex
