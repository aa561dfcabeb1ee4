import ErSdk.DictionaryAdd

namespace ErSdk.DictionaryWalk

open Linked LinkedTree Tdictionary DictionaryAdd Error
open ExositeApi (strcmp)

variable {d : DictionaryClass} {t : BinaryTree Nat} {a : Nat}

/-- The nodes that are met from an iterator on until it is NULL. -/
def iterateFrom (d : DictionaryClass) : Nat → Option Nat → Option (List Nat)
  | _, none => some []
  | 0, some _ => none
  | fuel + 1, some a => do
      let it ← dictionaryIterate d (some a)
      let rest ← iterateFrom d fuel it
      some (a :: rest)

def iterated (d : DictionaryClass) : Option (List Nat) := do
  let it ← dictionaryGetIterator d
  iterateFrom d d.heap.length it

theorem child_left {p : Option Nat} (h : d.view.child (.left a) = some p) :
    ∃ node, fetch d.heap a = some node ∧ node.left = p := Option.map_eq_some_iff.mp h

theorem child_right {p : Option Nat} (h : d.view.child (.right a) = some p) :
    ∃ node, fetch d.heap a = some node ∧ node.right = p := Option.map_eq_some_iff.mp h

theorem goLeft_first {k b fuel : Nat} (h : First d.view k a b) (hfuel : k < fuel) :
    goLeft d fuel a = some b := by
  induction h generalizing fuel with
  | here h =>
      obtain ⟨fuel, rfl⟩ := Nat.exists_eq_succ_of_ne_zero (Nat.ne_of_gt hfuel)
      obtain ⟨node, hnode, hleft⟩ := child_left h
      simp [goLeft, hnode, hleft]
  | down h _ ih =>
      obtain ⟨fuel, rfl⟩ := Nat.exists_eq_succ_of_ne_zero (Nat.ne_of_gt (Nat.zero_lt_of_lt hfuel))
      obtain ⟨node, hnode, hleft⟩ := child_left h
      simpa [goLeft, hnode, hleft] using ih (Nat.lt_of_succ_lt_succ hfuel)

theorem getBegin_first {k b fuel : Nat} (h : First d.view k a b) (hfuel : k < fuel) :
    getBegin d fuel (some a) = some (some b) := by
  induction h generalizing fuel with
  | here h =>
      obtain ⟨fuel, rfl⟩ := Nat.exists_eq_succ_of_ne_zero (Nat.ne_of_gt hfuel)
      obtain ⟨node, hnode, hleft⟩ := child_left h
      simp [getBegin, hnode, hleft]
  | down h _ ih =>
      obtain ⟨fuel, rfl⟩ := Nat.exists_eq_succ_of_ne_zero (Nat.ne_of_gt (Nat.zero_lt_of_lt hfuel))
      obtain ⟨node, hnode, hleft⟩ := child_left h
      simpa [getBegin, hnode, hleft] using ih (Nat.lt_of_succ_lt_succ hfuel)

/-- A climb ends at a node that is not the right child of its base, and is not led astray by
its own right child. -/
theorem goUp_out {k fuel : Nat} {p q : Option Nat} (h : Out d.view k a p q) (hfuel : k < fuel) :
    ∃ b node, goUp d fuel a p = some (b, q) ∧ fetch d.heap b = some node ∧
      (q = none ∨ node.right ≠ q) := by
  induction h generalizing fuel with
  | above h =>
      obtain ⟨fuel, rfl⟩ := Nat.exists_eq_succ_of_ne_zero (Nat.ne_of_gt hfuel)
      obtain ⟨node, hnode, -⟩ := child_right h
      exact ⟨_, node, rfl, hnode, .inl rfl⟩
  | found h hp hb hq =>
      obtain ⟨fuel, rfl⟩ := Nat.exists_eq_succ_of_ne_zero (Nat.ne_of_gt hfuel)
      obtain ⟨node, hnode, rfl⟩ := child_right h
      obtain ⟨base, hbase, rfl⟩ := child_right hb
      refine ⟨_, node, ?_, hnode, .inr hp⟩
      simp [goUp, hbase, hq]
  | up hb hp _ ih =>
      obtain ⟨fuel, rfl⟩ := Nat.exists_eq_succ_of_ne_zero (Nat.ne_of_gt (Nat.zero_lt_of_lt hfuel))
      obtain ⟨base, hbase, hright⟩ := child_right hb
      obtain ⟨base', hbase', hparent⟩ := Option.map_eq_some_iff.mp hp
      cases hbase.symm.trans hbase'
      obtain ⟨c, node, hup, hrest⟩ := ih (Nat.lt_of_succ_lt_succ hfuel)
      refine ⟨c, node, ?_, hrest⟩
      simpa [goUp, hbase, hright, hparent] using hup

theorem iterate_next {q : Option Nat} (h : Next d.view d.heap.length a q) :
    dictionaryIterate d (some a) = some q := by
  cases h with
  | inside h hk hfirst =>
      obtain ⟨node, hnode, hright⟩ := child_right h
      simp [dictionaryIterate, hnode, hright, goLeft_first hfirst (Nat.lt_succ_of_le hk)]
  | outside h hp hk hout =>
      obtain ⟨node, hnode, hright⟩ := child_right h
      obtain ⟨node', hnode', hparent⟩ := Option.map_eq_some_iff.mp hp
      cases hnode.symm.trans hnode'
      obtain ⟨b, last, hup, hlast, hbase⟩ := goUp_out hout (Nat.lt_succ_of_le hk)
      simp only [dictionaryIterate, hnode, hright, hparent, hup, hlast, Option.bind_eq_bind,
        Option.bind_some]
      rcases hbase with rfl | hne
      · simp
      · rw [if_pos hne]
        cases q <;> rfl

theorem iterateFrom_walk {p : Option Nat} {as : List Nat} {fuel : Nat}
    (h : Walk (Next d.view d.heap.length) p as none) (hfuel : as.length ≤ fuel) :
    iterateFrom d fuel p = some as := by
  generalize hq : (none : Option Nat) = q at h
  induction h generalizing fuel with
  | nil =>
      subst hq
      cases fuel <;> rfl
  | cons hnext _ ih =>
      obtain ⟨fuel, rfl⟩ := Nat.exists_eq_succ_of_ne_zero (Nat.ne_of_gt (Nat.zero_lt_of_lt hfuel))
      simp [iterateFrom, iterate_next hnext, ih (Nat.le_of_succ_le_succ hfuel) hq]

theorem Tree.begin (h : Tree d t) : dictionaryGetIterator d = some (inorder t).head? := by
  have hroot : d.root = top t := Option.some.inj h.holds.child
  have hheight := h.height_le
  rw [dictionaryGetIterator, hroot]
  cases t with
  | nil => rfl
  | node a l r =>
      obtain ⟨k, b, hk, hfirst, hhead⟩ := h.holds.first
      rw [BinaryTree.height] at hheight
      rw [hhead]
      exact getBegin_first hfirst (by omega)

theorem Tree.iterated (h : Tree d t) : iterated d = some (inorder t) := by
  have hwalk := @Holds.walk _ _ _ d.heap.length 0 none h.holds h.nodup
    (by simpa using h.height_le) (fun a ha => ?_)
  · rw [Option.toList_none, List.append_nil] at hwalk
    simp only [DictionaryWalk.iterated, Tree.begin h, Option.bind_eq_bind, Option.bind_some]
    exact iterateFrom_walk hwalk h.length_le
  · have hroot : top t = d.root := (Option.some.inj h.holds.child).symm
    cases t with
    | nil => cases ha
    | node b l r =>
        cases ha
        exact .above h.holds.2.2.2.child

/-- The iterator of a dictionary that was built by any calls ends, and meets every entry that
was added once and in the order of the keys. -/
theorem iterated_sorted (heap : Memory Node) (calls : List Call) :
    ∃ d history nodes, addAll (dictionaryNew heap) calls = some (d, history) ∧
      history.map Prod.fst = calls ∧ iterated d = some nodes ∧
      (nodes.map (entry d)).Perm (added history) ∧
      (nodes.map (entry d)).Pairwise (fun x y => strcmp x.1 y.1 = .lt) ∧
      ∀ a ∈ nodes, dictionaryGetValue d (some a) = some (entry d a).2 := by
  have hnew : Contains (dictionaryNew heap) (added []) := ⟨.nil, ⟨rfl, trivial⟩, .refl _⟩
  obtain ⟨d, history, hall, hcalls, t, ht, hperm⟩ := addAll_contains calls [] hnew
  refine ⟨d, history, inorder t, hall, hcalls, Tree.iterated ht, hperm, ht.sorted, fun a ha => ?_⟩
  obtain ⟨node, hnode⟩ := fetch_of_mem ht.holds ha
  simp [dictionaryGetValue, hnode, entry_of_fetch hnode]

end ErSdk.DictionaryWalk
