import ErSdk.ExositeRuns
import ErSdk.Tdictionary

namespace ErSdk.DictionaryAdd

open Linked LinkedTree Tdictionary Error
open ExositeApi (strcmp)

variable {d d' : DictionaryClass} {link : Link} {t : BinaryTree Nat} {alloc : Alloc} {fuel : Nat}
  {key : List UInt8} {value : Option Nat}

def turn (d : DictionaryClass) (key : List UInt8) (a : Nat) : Ordering := strcmp key (entry d a).1

def goesLeft (d : DictionaryClass) (key : List UInt8) (a : Nat) : Bool := turn d key a = .lt

def Before (d : DictionaryClass) (a b : Nat) : Prop := strcmp (entry d a).1 (entry d b).1 = .lt

/-- The nodes form a search tree, and each knows its parent. -/
structure Tree (d : DictionaryClass) (t : BinaryTree Nat) : Prop where
  holds : Holds d.view .anchor t
  ordered : Ordered (Before d) t

theorem fetch_of_mem (h : Holds d.view link t) {a : Nat} (ha : a ∈ inorder t) :
    ∃ node, fetch d.heap a = some node := by
  obtain ⟨p, hp⟩ := h.parent a ha
  obtain ⟨node, hnode, -⟩ := Option.map_eq_some_iff.mp hp
  exact ⟨node, hnode⟩

theorem insert_eq (h : Holds d.view link t) (hfuel : t.height < fuel) :
    insert alloc key value fuel d link link.owner =
      match find (turn d key) t with
      | some _ => some (errDuplicate, d)
      | none =>
          let leaf := descend (goesLeft d key) link t
          nodeNew alloc d leaf leaf.owner key value := by
  induction t generalizing link fuel with
  | nil =>
      obtain ⟨fuel, rfl⟩ := Nat.exists_eq_succ_of_ne_zero (Nat.ne_of_gt hfuel)
      rw [Tdictionary.insert, h.child]
      rfl
  | node a l r ihl ihr =>
      obtain ⟨node, hnode⟩ := fetch_of_mem h (a := a) (by simp [inorder])
      obtain ⟨hc, -, hl, hr⟩ := h
      rw [BinaryTree.height] at hfuel
      obtain ⟨fuel, rfl⟩ := Nat.exists_eq_succ_of_ne_zero (Nat.ne_of_gt (Nat.zero_lt_of_lt hfuel))
      have hturn : turn d key a = strcmp key node.key := by rw [turn, entry_of_fetch hnode]
      rw [Tdictionary.insert, hc]
      simp only [Option.bind_eq_bind, Option.bind_some, hnode, find, hturn, descend, goesLeft]
      cases hcmp : strcmp key node.key with
      | eq => rfl
      | lt => exact ihl hl (by omega)
      | gt => exact ihr hr (by omega)

theorem lookup_eq (h : Holds d.view link t) (hfuel : t.height < fuel) :
    lookup d key fuel (top t) = some (find (turn d key) t) := by
  induction t generalizing link fuel with
  | nil =>
      obtain ⟨fuel, rfl⟩ := Nat.exists_eq_succ_of_ne_zero (Nat.ne_of_gt hfuel)
      rfl
  | node a l r ihl ihr =>
      obtain ⟨node, hnode⟩ := fetch_of_mem h (a := a) (by simp [inorder])
      obtain ⟨-, -, hl, hr⟩ := h
      rw [BinaryTree.height] at hfuel
      obtain ⟨fuel, rfl⟩ := Nat.exists_eq_succ_of_ne_zero (Nat.ne_of_gt (Nat.zero_lt_of_lt hfuel))
      have hturn : turn d key a = strcmp key node.key := by rw [turn, entry_of_fetch hnode]
      have hleft : node.left = top l := by
        have hchild := hl.child
        simpa [DictionaryClass.view, hnode] using hchild
      have hright : node.right = top r := by
        have hchild := hr.child
        simpa [DictionaryClass.view, hnode] using hchild
      rw [top, lookup]
      simp only [Option.bind_eq_bind, Option.bind_some, hnode, find, hturn, hleft, hright]
      cases hcmp : strcmp key node.key with
      | eq => rfl
      | lt => exact ihl hl (by omega)
      | gt => exact ihr hr (by omega)

theorem Before.trans {a b c : Nat} (h : Before d a b) (h' : Before d b c) : Before d a c :=
  strcmp_trans h h'

theorem Before.irrefl {a : Nat} (h : Before d a a) : False := by
  rw [Before, strcmp_self] at h
  cases h

theorem Tree.pairwise (h : Tree d t) : (inorder t).Pairwise (Before d) :=
  h.ordered.pairwise (fun _ _ _ hab hbc => hab.trans hbc)

theorem Tree.nodup (h : Tree d t) : (inorder t).Nodup := by
  refine h.pairwise.imp (fun hab heq => ?_)
  subst heq
  exact hab.irrefl

theorem Tree.lt (h : Tree d t) : ∀ a ∈ inorder t, a < d.heap.length := by
  intro a ha
  obtain ⟨node, hnode⟩ := fetch_of_mem h.holds ha
  exact lt_of_fetch hnode

theorem Tree.length_le (h : Tree d t) : (inorder t).length ≤ d.heap.length := by
  have hsub : inorder t ⊆ List.range d.heap.length := fun a ha => List.mem_range.mpr (h.lt a ha)
  have hle := (List.subperm_of_subset h.nodup hsub).length_le
  rwa [List.length_range] at hle

theorem Tree.height_le (h : Tree d t) : t.height ≤ d.heap.length :=
  Nat.le_trans (height_le_length t) h.length_le

theorem Tree.find (h : Tree d t) {a : Nat} (ha : a ∈ inorder t) (hkey : (entry d a).1 = key) :
    find (turn d key) t = some a := by
  subst hkey
  refine h.ordered.find (fun b hb => hb) (fun b hb => strcmp_gt.mpr hb) ha (strcmp_self _)

/-- The keys and values of the nodes in order. -/
def entries (d : DictionaryClass) (t : BinaryTree Nat) : List (List UInt8 × Option Nat) :=
  (inorder t).map (entry d)

theorem Tree.sorted (h : Tree d t) :
    (entries d t).Pairwise (fun x y => strcmp x.1 y.1 = .lt) :=
  List.pairwise_map.mpr h.pairwise

theorem Tree.keys_nodup (h : Tree d t) : ((entries d t).map Prod.fst).Nodup := by
  refine List.pairwise_map.mpr (h.sorted.imp (fun hlt heq => ?_))
  rw [heq, strcmp_self] at hlt
  cases hlt

theorem find_eq_none_iff (h : Tree d t) :
    LinkedTree.find (turn d key) t = none ↔ key ∉ (entries d t).map Prod.fst := by
  constructor
  · intro hnone hmem
    obtain ⟨x, hx, hkey⟩ := List.mem_map.mp hmem
    obtain ⟨a, ha, rfl⟩ := List.mem_map.mp hx
    rw [h.find ha hkey] at hnone
    cases hnone
  · intro hmem
    by_contra hne
    obtain ⟨a, ha⟩ := Option.ne_none_iff_exists'.mp hne
    obtain ⟨ha, heq⟩ := find_some ha
    apply hmem
    rw [strcmp_eq_iff.mp heq]
    exact List.mem_map_of_mem (List.mem_map_of_mem ha)

theorem Tree.lookup (h : Tree d t) (key : List UInt8) :
    dictionaryLookup d key = some (((entries d t).find? (fun x => x.1 = key)).bind Prod.snd) := by
  have htop : d.root = top t := Option.some.inj h.holds.child
  rw [dictionaryLookup, htop, lookup_eq h.holds (Nat.lt_succ_of_le h.height_le)]
  cases hfind : LinkedTree.find (turn d key) t with
  | none =>
      have hnone : (entries d t).find? (fun x => x.1 = key) = none := by
        apply List.find?_eq_none.mpr
        intro x hx hkey
        exact (find_eq_none_iff h).mp hfind (List.mem_map.mpr ⟨x, hx, of_decide_eq_true hkey⟩)
      rw [hnone]
      rfl
  | some a =>
      obtain ⟨ha, heq⟩ := find_some hfind
      obtain ⟨node, hnode⟩ := fetch_of_mem h.holds ha
      have hkey : (entry d a).1 = key := (strcmp_eq_iff.mp heq).symm
      have hfound : (entries d t).find? (fun x => x.1 = key) = some (entry d a) := by
        have hsome : ((entries d t).find? (fun x => x.1 = key)).isSome := by
          rw [List.find?_isSome]
          exact ⟨entry d a, List.mem_map_of_mem ha, decide_eq_true hkey⟩
        obtain ⟨x, hx⟩ := Option.isSome_iff_exists.mp hsome
        obtain ⟨b, hb, rfl⟩ := List.mem_map.mp (List.mem_of_find?_eq_some hx)
        have hmatch := List.find?_some hx
        have hb' := h.find hb (of_decide_eq_true hmatch)
        rw [hx, Option.some.inj (hb'.symm.trans hfind)]
      rw [hfound]
      simp [hnode, entry_of_fetch hnode]

theorem add_eq (h : Tree d t) (name : List UInt8) (value : Option Nat) (alloc : Alloc) :
    dictionaryAdd d name value alloc =
      match LinkedTree.find (turn d name) t with
      | some _ => some (errDuplicate, d)
      | none =>
          let leaf := descend (goesLeft d name) .anchor t
          nodeNew alloc d leaf leaf.owner name value :=
  insert_eq h.holds (Nat.lt_succ_of_le h.height_le)

theorem tree_unchanged (hsame : Unchanged d d') (h : Tree d t) :
    Tree d' t ∧ entries d' t = entries d t := by
  have hentry : ∀ a ∈ inorder t, entry d' a = entry d a := by
    intro a ha
    rw [entry, entry, hsame.nodes a (h.lt a ha)]
  refine ⟨⟨h.holds.congr (congrArg some hsame.root) (fun a ha => ?_), ?_⟩, ?_⟩
  · have hnode := hsame.nodes a (h.lt a ha)
    exact ⟨congrArg (Option.map Node.left) hnode, congrArg (Option.map Node.right) hnode,
      congrArg (Option.map Node.parent) hnode⟩
  · refine h.ordered.imp (fun a ha b hb hab => ?_)
    rw [Before, hentry a ha, hentry b hb]
    exact hab
  · exact List.map_congr_left hentry

theorem child_descend (go : Nat → Bool) (h : Holds d.view link t) :
    d.view.child (descend go link t) = some none := by
  induction t generalizing link with
  | nil => exact h
  | node a l r ihl ihr =>
      rw [descend]
      split
      · exact ihl h.2.2.1
      · exact ihr h.2.2.2

theorem Tree.add (h : Tree d t) {garbage : Node} (hnode : alloc.node = some garbage)
    (hkey : alloc.key = true) (hnew : key ∉ (entries d t).map Prod.fst) (value : Option Nat) :
    ∃ d' t', dictionaryAdd d key value alloc = some (errSuccess, d') ∧ Tree d' t' ∧
      (entries d' t').Perm ((key, value) :: entries d t) := by
  have hfind := (find_eq_none_iff h).mpr hnew
  have hleaf := child_descend (goesLeft d key) h.holds
  obtain ⟨d', hmade, hattached, hentry, hothers⟩ := nodeNew_success hnode hkey hleaf key value
  have hfresh : d.heap.length ∉ inorder t := fun hmem => Nat.lt_irrefl _ (h.lt _ hmem)
  have hsame : ∀ a ∈ inorder t, entry d' a = entry d a := by
    intro a ha
    exact hothers a (Nat.ne_of_lt (h.lt a ha))
  have hperm := perm_insertLeaf (goesLeft d key) d.heap.length t
  refine ⟨d', insertLeaf (goesLeft d key) d.heap.length t, ?_, ⟨?_, ?_⟩, ?_⟩
  · rw [add_eq h, hfind]
    exact hmade
  · exact h.holds.attach h.nodup hfresh nofun (fun _ _ => nofun) hattached
  · have hord : Ordered (Before d') t := by
      refine h.ordered.imp (fun a ha b hb hab => ?_)
      rw [Before, hsame a ha, hsame b hb]
      exact hab
    refine hord.insertLeaf (fun a ha hgo => ?_) (fun a ha hgo => ?_)
    · rw [Before, hentry, hsame a ha]
      exact of_decide_eq_true hgo
    · rw [Before, hentry, hsame a ha, ← strcmp_gt]
      cases hcmp : strcmp key (entry d a).1 with
      | lt => exact absurd hcmp (of_decide_eq_false hgo)
      | eq =>
          refine absurd ?_ hnew
          rw [strcmp_eq_iff.mp hcmp]
          exact List.mem_map_of_mem (List.mem_map_of_mem ha)
      | gt => rfl
  · have hmap := hperm.map (entry d')
    rw [List.map_cons, hentry, List.map_congr_left hsame] at hmap
    exact hmap

theorem place_sorted {new : List UInt8 × Option Nat} {map : ExositeApi.Dictionary (Option Nat)}
    (h : map.Pairwise (fun x y => strcmp x.1 y.1 = .lt)) (hnew : new.1 ∉ map.map Prod.fst) :
    (ExositeApi.place new map).Pairwise (fun x y => strcmp x.1 y.1 = .lt) := by
  induction map with
  | nil => exact List.pairwise_singleton _ _
  | cons entry map ih =>
      obtain ⟨hhead, hrest⟩ := List.pairwise_cons.mp h
      rw [List.map_cons, List.mem_cons, not_or] at hnew
      obtain ⟨hne, hnew⟩ := hnew
      rw [ExositeApi.place]
      split
      · rename_i hlt
        refine List.pairwise_cons.mpr ⟨fun x hx => ?_, h⟩
        rcases List.mem_cons.mp hx with rfl | hx
        · exact hlt
        · exact strcmp_trans hlt (hhead x hx)
      · rename_i hlt
        refine List.pairwise_cons.mpr ⟨fun x hx => ?_, ih hrest hnew⟩
        rcases List.mem_cons.mp ((ExositeRuns.place_perm new map).mem_iff.mp hx) with rfl | hx
        · rw [← strcmp_gt]
          cases hcmp : strcmp x.1 entry.1 with
          | lt => exact absurd hcmp hlt
          | eq => exact absurd (strcmp_eq_iff.mp hcmp) hne
          | gt => rfl
        · exact hhead x hx

theorem Tree.outcomes (h : Tree d t) (name : List UInt8) (value : Option Nat) (alloc : Alloc) :
    (name ∈ (entries d t).map Prod.fst ∧
      dictionaryAdd d name value alloc = some (errDuplicate, d)) ∨
    (name ∉ (entries d t).map Prod.fst ∧ (alloc.node = none ∨ alloc.key = false) ∧
      ∃ d', dictionaryAdd d name value alloc = some (errNoMemory, d') ∧ Unchanged d d') ∨
    (name ∉ (entries d t).map Prod.fst ∧ ¬ (alloc.node = none ∨ alloc.key = false) ∧
      ∃ d' t', dictionaryAdd d name value alloc = some (errSuccess, d') ∧ Tree d' t' ∧
        (entries d' t').Perm ((name, value) :: entries d t)) := by
  have hfind := @find_eq_none_iff d t name h
  by_cases hmem : name ∈ (entries d t).map Prod.fst
  · obtain ⟨a, ha⟩ := Option.ne_none_iff_exists'.mp (fun hnone => hfind.mp hnone hmem)
    refine .inl ⟨hmem, ?_⟩
    rw [add_eq h, ha]
  · by_cases hfails : alloc.node = none ∨ alloc.key = false
    · let leaf := descend (goesLeft d name) .anchor t
      obtain ⟨d', hd', hsame⟩ := nodeNew_failure hfails d leaf leaf.owner name value
      refine .inr (.inl ⟨hmem, hfails, d', ?_, hsame⟩)
      rw [add_eq h, hfind.mpr hmem]
      exact hd'
    · obtain ⟨garbage, hnode⟩ := Option.ne_none_iff_exists'.mp (fun h => hfails (.inl h))
      have hkey : alloc.key = true := by
        rw [← Bool.not_eq_false]
        exact fun h => hfails (.inr h)
      exact .inr (.inr ⟨hmem, hfails, h.add hnode hkey hmem value⟩)

/-- The nodes in order are the sorted list that stands for the dictionary elsewhere: a
successful add inserts the entry into the list, and every other one leaves it. -/
theorem Tree.insert (h : Tree d t) (name : List UInt8) (value : Option Nat) (alloc : Alloc) :
    ∃ error d' t', dictionaryAdd d name value alloc = some (error, d') ∧ Tree d' t' ∧
      (error = errDuplicate ↔ ExositeApi.insert name value (entries d t) = none) ∧
      (error = errSuccess → ExositeApi.insert name value (entries d t) = some (entries d' t')) ∧
      (error ≠ errSuccess → entries d' t' = entries d t) := by
  have hany : (entries d t).any (fun entry => entry.1 = name) = true ↔
      name ∈ (entries d t).map Prod.fst := by
    simp [List.any_eq_true]
  have hinsert : name ∉ (entries d t).map Prod.fst → ExositeApi.insert name value (entries d t) =
      some (ExositeApi.place (name, value) (entries d t)) := by
    intro hmem
    rw [ExositeApi.insert, if_neg (fun hin => hmem (hany.mp hin))]
  rcases h.outcomes name value alloc with ⟨hmem, hadd⟩ | ⟨hmem, -, d', hadd, hsame⟩ |
    ⟨hmem, -, d', t', hadd, ht', hperm⟩
  · refine ⟨errDuplicate, d, t, hadd, h, ?_, fun heq => absurd heq (by decide), fun _ => rfl⟩
    rw [ExositeApi.insert, if_pos (hany.mpr hmem)]
    exact iff_of_true rfl rfl
  · obtain ⟨ht', hentries⟩ := tree_unchanged hsame h
    refine ⟨errNoMemory, d', t, hadd, ht', ?_, fun heq => absurd heq (by decide), fun _ => hentries⟩
    rw [hinsert hmem]
    exact iff_of_false (by decide) nofun
  · have hplace : entries d' t' = ExositeApi.place (name, value) (entries d t) := by
      apply List.Perm.eq_of_pairwise _ ht'.sorted (place_sorted h.sorted hmem)
      · exact hperm.trans (ExositeRuns.place_perm (name, value) (entries d t)).symm
      · intro x y _ _ hxy hyx
        rw [← strcmp_gt, hxy] at hyx
        cases hyx
    refine ⟨errSuccess, d', t', hadd, ht', ?_, fun _ => ?_, fun hne => absurd rfl hne⟩
    · rw [hinsert hmem]
      exact iff_of_false (by decide) nofun
    · rw [hinsert hmem, hplace]

structure Call where
  name : List UInt8
  value : Option Nat
  alloc : Alloc

def addAll : DictionaryClass → List Call → Option (DictionaryClass × List (Call × Int))
  | d, [] => some (d, [])
  | d, c :: calls => do
      let r ← dictionaryAdd d c.name c.value c.alloc
      let rest ← addAll r.2 calls
      some (rest.1, (c, r.1) :: rest.2)

def added (history : List (Call × Int)) : List (List UInt8 × Option Nat) :=
  (history.filter (fun x => x.2 = errSuccess)).map (fun x => (x.1.name, x.1.value))

/-- What a call does to a dictionary in which these entries were added. -/
def Answered (d : DictionaryClass) (present : List (List UInt8 × Option Nat)) (c : Call) : Prop :=
  ∃ error d', dictionaryAdd d c.name c.value c.alloc = some (error, d') ∧
    if c.name ∈ present.map Prod.fst then
      error = errDuplicate ∧ Unchanged d d' ∧ ∀ k, dictionaryLookup d' k = dictionaryLookup d k
    else if c.alloc.node = none ∨ c.alloc.key = false then
      error = errNoMemory ∧ Unchanged d d' ∧ ∀ k, dictionaryLookup d' k = dictionaryLookup d k
    else error = errSuccess

/-- The dictionary after some calls: a search tree with linked parents and distinct keys, that
looks up what was added, and how it answers the next call. -/
structure Sound (d : DictionaryClass) (history : List (Call × Int)) : Prop where
  tree : ∃ t, Tree d t ∧ ((entries d t).map Prod.fst).Nodup
  once : ∀ k, ((added history).filter (fun x => x.1 = k)).length ≤ 1
  lookup : ∀ k, dictionaryLookup d k =
    some (((added history).find? (fun x => x.1 = k)).bind Prod.snd)
  answer : ∀ c, Answered d (added history) c

/-- The tree holds exactly these entries. -/
def Contains (d : DictionaryClass) (present : List (List UInt8 × Option Nat)) : Prop :=
  ∃ t, Tree d t ∧ (entries d t).Perm present

theorem lookup_unchanged (hsame : Unchanged d d') (h : Tree d t) (k : List UInt8) :
    dictionaryLookup d' k = dictionaryLookup d k := by
  obtain ⟨htree, hentries⟩ := tree_unchanged hsame h
  rw [htree.lookup, h.lookup, hentries]

theorem Contains.nodup {present : List (List UInt8 × Option Nat)} (h : Contains d present) :
    (present.map Prod.fst).Nodup := by
  obtain ⟨t, ht, hperm⟩ := h
  exact (hperm.map Prod.fst).nodup_iff.mp ht.keys_nodup

theorem Contains.add {present : List (List UInt8 × Option Nat)} (h : Contains d present) (c : Call) :
    Answered d present c ∧ ∃ error d', dictionaryAdd d c.name c.value c.alloc = some (error, d') ∧
      Contains d' (present ++ added [(c, error)]) := by
  obtain ⟨t, ht, hperm⟩ := h
  have hmem : c.name ∈ present.map Prod.fst ↔ c.name ∈ (entries d t).map Prod.fst :=
    (hperm.map Prod.fst).mem_iff.symm
  have hfailed (error : Int) (herror : error ≠ errSuccess) : added [(c, error)] = [] := by
    simp [added, herror]
  rcases ht.outcomes c.name c.value c.alloc with ⟨hin, hadd⟩ | ⟨hin, hfails, d', hadd, hsame⟩ |
    ⟨hin, hfails, d', t', hadd, ht', hnew⟩
  · refine ⟨⟨errDuplicate, d, hadd, ?_⟩, errDuplicate, d, hadd, t, ht, ?_⟩
    · rw [if_pos (hmem.mpr hin)]
      exact ⟨rfl, .refl d, fun _ => rfl⟩
    · rwa [hfailed _ (by decide), List.append_nil]
  · obtain ⟨ht', hentries⟩ := tree_unchanged hsame ht
    refine ⟨⟨errNoMemory, d', hadd, ?_⟩, errNoMemory, d', hadd, t, ht', ?_⟩
    · rw [if_neg (fun h => hin (hmem.mp h)), if_pos hfails]
      exact ⟨rfl, hsame, fun k => lookup_unchanged hsame ht k⟩
    · rwa [hfailed _ (by decide), List.append_nil, hentries]
  · refine ⟨⟨errSuccess, d', hadd, ?_⟩, errSuccess, d', hadd, t', ht', ?_⟩
    · rw [if_neg (fun h => hin (hmem.mp h)), if_neg hfails]
    · have happend : present ++ added [(c, errSuccess)] = present ++ [(c.name, c.value)] := rfl
      rw [happend]
      exact (hnew.trans (hperm.cons _)).trans (List.perm_append_singleton _ _).symm

theorem find?_of_perm {l l' : List (List UInt8 × Option Nat)} (hperm : l.Perm l')
    (hnodup : (l.map Prod.fst).Nodup) (k : List UInt8) :
    l.find? (fun x => x.1 = k) = l'.find? (fun x => x.1 = k) ∧
      (l'.filter (fun x => x.1 = k)).length ≤ 1 := by
  have hle : (l.filter (fun x => x.1 = k)).length ≤ 1 := by
    have hcount := List.nodup_iff_count_le_one.mp hnodup k
    rw [List.count, List.countP_map, List.countP_eq_length_filter] at hcount
    simpa only [Function.comp_def, beq_eq_decide] using hcount
  have hfilter := hperm.filter (fun x => x.1 = k)
  refine ⟨?_, hfilter.length_eq ▸ hle⟩
  rw [← List.head?_filter, ← List.head?_filter]
  cases hl : l.filter (fun x => x.1 = k) with
  | nil =>
      rw [hl] at hfilter
      rw [hfilter.nil_eq.symm]
  | cons x rest =>
      rw [hl] at hle hfilter
      obtain rfl : rest = [] := List.eq_nil_of_length_eq_zero (Nat.le_zero.mp (Nat.le_of_succ_le_succ hle))
      rw [List.singleton_perm.mp hfilter]

theorem Contains.sound {history : List (Call × Int)} (h : Contains d (added history)) :
    Sound d history := by
  obtain ⟨t, ht, hperm⟩ := h
  have hfind := find?_of_perm hperm ht.keys_nodup
  refine ⟨⟨t, ht, ht.keys_nodup⟩, fun k => (hfind k).2, fun k => ?_, fun c => ?_⟩
  · rw [ht.lookup, (hfind k).1]
  · exact (Contains.add ⟨t, ht, hperm⟩ c).1

theorem addAll_contains (calls : List Call) (past : List (Call × Int))
    (h : Contains d (added past)) : ∃ d' history, addAll d calls = some (d', history) ∧
      history.map Prod.fst = calls ∧ Contains d' (added (past ++ history)) := by
  induction calls generalizing d past with
  | nil => exact ⟨d, [], rfl, rfl, by rwa [List.append_nil]⟩
  | cons c calls ih =>
      obtain ⟨-, error, d₁, hadd, h₁⟩ := h.add c
      have hpast : added (past ++ [(c, error)]) = added past ++ added [(c, error)] := by
        rw [added, List.filter_append, List.map_append]
        rfl
      rw [← hpast] at h₁
      obtain ⟨d', history, hall, hcalls, h'⟩ := ih (past ++ [(c, error)]) h₁
      refine ⟨d', (c, error) :: history, ?_, by rw [List.map_cons, hcalls], ?_⟩
      · simp only [addAll, hadd, hall, Option.bind_eq_bind, Option.bind_some]
      · rwa [List.append_assoc] at h'

/-- Whatever is added to a new dictionary, and whichever allocations fail, every call returns
and leaves a sound dictionary. -/
theorem dictionary_sound (heap : Memory Node) (calls : List Call) :
    ∃ d history, addAll (dictionaryNew heap) calls = some (d, history) ∧
      history.map Prod.fst = calls ∧ Sound d history := by
  have hnew : Contains (dictionaryNew heap) (added []) := ⟨.nil, ⟨rfl, trivial⟩, .refl _⟩
  obtain ⟨d, history, hall, hcalls, h⟩ := addAll_contains calls [] hnew
  exact ⟨d, history, hall, hcalls, h.sound⟩

end ErSdk.DictionaryAdd
