import Mathlib.Data.List.Nodup
import Mathlib.Data.List.Perm.Basic
import Mathlib.Data.Tree.Basic

namespace ErSdk.LinkedTree

open BinaryTree

variable {α : Type}

/-- Where a pointer to a node stands: in the owner of the tree or in a node. -/
inductive Link
  | anchor
  | left (a : Nat)
  | right (a : Nat)
  deriving DecidableEq

def Link.owner : Link → Option Nat
  | .anchor => none
  | .left a => some a
  | .right a => some a

/-- What is read through the links and the parent pointers of a memory; nothing is read in a
node that is not there. -/
structure View where
  child : Link → Option (Option Nat)
  parent : Nat → Option (Option Nat)

def inorder : BinaryTree α → List α
  | .nil => []
  | .node a l r => inorder l ++ a :: inorder r

def top : BinaryTree α → Option α
  | .nil => none
  | .node a _ _ => some a

/-- Behind the link stands this tree of nodes, each of which knows its parent. -/
def Holds (v : View) : Link → BinaryTree Nat → Prop
  | link, .nil => v.child link = some none
  | link, .node a l r =>
      v.child link = some (some a) ∧ v.parent a = some link.owner ∧ Holds v (.left a) l ∧
        Holds v (.right a) r

variable {v v' : View} {link : Link} {t l r : BinaryTree Nat} {a n : Nat}

theorem Holds.child (h : Holds v link t) : v.child link = some (top t) := by
  cases t with
  | nil => exact h
  | node a l r => exact h.1

theorem Holds.congr (h : Holds v link t) (hlink : v'.child link = v.child link)
    (hin : ∀ a ∈ inorder t, v'.child (.left a) = v.child (.left a) ∧
      v'.child (.right a) = v.child (.right a) ∧ v'.parent a = v.parent a) : Holds v' link t := by
  induction t generalizing link with
  | nil => exact hlink.trans h
  | node a l r ihl ihr =>
      obtain ⟨hc, hp, hl, hr⟩ := h
      obtain ⟨hleft, hright, hparent⟩ := hin a (by simp [inorder])
      refine ⟨hlink.trans hc, hparent.trans hp, ihl hl hleft ?_, ihr hr hright ?_⟩
      · intro b hb
        exact hin b (by simp [inorder, hb])
      · intro b hb
        exact hin b (by simp [inorder, hb])

theorem Holds.parent (h : Holds v link t) : ∀ a ∈ inorder t, ∃ p, v.parent a = some p := by
  induction t generalizing link with
  | nil => simp [inorder]
  | node a l r ihl ihr =>
      obtain ⟨-, hp, hl, hr⟩ := h
      intro b hb
      simp only [inorder, List.mem_append, List.mem_cons] at hb
      rcases hb with hb | rfl | hb
      · exact ihl hl b hb
      · exact ⟨_, hp⟩
      · exact ihr hr b hb

theorem length_inorder (t : BinaryTree α) : (inorder t).length = t.numNodes := by
  induction t with
  | nil => rfl
  | node a l r ihl ihr =>
      simp only [inorder, List.length_append, List.length_cons, ihl, ihr, numNodes]
      omega

theorem height_le_length (t : BinaryTree α) : t.height ≤ (inorder t).length := by
  rw [length_inorder]
  exact height_le_numNodes t

theorem nodup_node {a : α} {l r : BinaryTree α} (h : (inorder (.node a l r)).Nodup) :
    (inorder l).Nodup ∧ (inorder r).Nodup ∧ a ∉ inorder l ∧ a ∉ inorder r ∧
      ∀ b ∈ inorder l, b ∉ inorder r := by
  obtain ⟨hl, hr, hdisjoint⟩ := List.nodup_append'.mp h
  obtain ⟨har, hr⟩ := List.nodup_cons.mp hr
  refine ⟨hl, hr, fun hal => ?_, har, fun b hbl hbr => ?_⟩
  · exact hdisjoint hal List.mem_cons_self
  · exact hdisjoint hbl (List.mem_cons_of_mem a hbr)

theorem mem_of_top {t : BinaryTree α} {a : α} (h : top t = some a) : a ∈ inorder t := by
  cases t with
  | nil => cases h
  | node b l r =>
      cases h
      simp [inorder]

section Insertion

/-- The empty link at which a descent ends that turns left where it is told to. -/
def descend (go : Nat → Bool) : Link → BinaryTree Nat → Link
  | link, .nil => link
  | _, .node a l r => if go a then descend go (.left a) l else descend go (.right a) r

def insertLeaf (go : α → Bool) (n : α) : BinaryTree α → BinaryTree α
  | .nil => .node n .nil .nil
  | .node a l r =>
      if go a then .node a (insertLeaf go n l) r else .node a l (insertLeaf go n r)

/-- A new node is linked in at an empty link; the rest is as before. -/
structure Attached (v v' : View) (link : Link) (n : Nat) : Prop where
  child : v'.child link = some (some n)
  left : v'.child (.left n) = some none
  right : v'.child (.right n) = some none
  parent : v'.parent n = some link.owner
  others : ∀ k, k ≠ link → k.owner ≠ some n → v'.child k = v.child k
  parents : ∀ a, a ≠ n → v'.parent a = v.parent a

theorem descend_owner (go : Nat → Bool) (link : Link) (t : BinaryTree Nat) :
    descend go link t = link ∨ ∃ b ∈ inorder t, (descend go link t).owner = some b := by
  induction t generalizing link with
  | nil => exact .inl rfl
  | node a l r ihl ihr =>
      right
      rw [descend]
      split
      · rcases ihl (.left a) with h | ⟨b, hb, ho⟩
        · exact ⟨a, by simp [inorder], by rw [h]; rfl⟩
        · exact ⟨b, by simp [inorder, hb], ho⟩
      · rcases ihr (.right a) with h | ⟨b, hb, ho⟩
        · exact ⟨a, by simp [inorder], by rw [h]; rfl⟩
        · exact ⟨b, by simp [inorder, hb], ho⟩

theorem ne_descend {go : Nat → Bool} {k : Link} (hne : k ≠ link)
    (howner : ∀ b ∈ inorder t, k.owner ≠ some b) : k ≠ descend go link t := by
  rintro rfl
  rcases descend_owner go link t with h | ⟨b, hb, ho⟩
  · exact hne h
  · exact howner b hb ho

theorem Holds.attach_other {go : Nat → Bool} {k : Link} {s : BinaryTree Nat} (h : Holds v k s)
    (ha : Attached v v' (descend go link t) n) (hk : k ≠ link) (hkt : ∀ b ∈ inorder t, k.owner ≠ some b) (hkn : k.owner ≠ some n)
    (hst : ∀ b ∈ inorder s, b ∉ inorder t) (hs : ∀ b ∈ inorder s, link.owner ≠ some b)
    (hn : n ∉ inorder s) : Holds v' k s := by
  refine h.congr (ha.others k (ne_descend hk hkt) hkn) (fun b hb => ?_)
  have hbn : b ≠ n := by
    rintro rfl
    exact hn hb
  have howner : ∀ j : Link, j.owner = some b → v'.child j = v.child j := by
    intro j hj
    apply ha.others
    · apply ne_descend
      · rintro rfl
        exact hs b hb hj
      · intro c hc hjc
        cases hj.symm.trans hjc
        exact hst b hb hc
    · rw [hj]
      exact fun heq => hbn (Option.some.inj heq)
  exact ⟨howner _ rfl, howner _ rfl, ha.parents b hbn⟩

theorem Holds.attach {go : Nat → Bool} (h : Holds v link t) (hnodup : (inorder t).Nodup)
    (hn : n ∉ inorder t) (hlink : link.owner ≠ some n) (howner : ∀ b ∈ inorder t, link.owner ≠ some b)
    (ha : Attached v v' (descend go link t) n) : Holds v' link (insertLeaf go n t) := by
  induction t generalizing link with
  | nil => exact ⟨ha.child, ha.parent, ha.left, ha.right⟩
  | node a l r ihl ihr =>
      obtain ⟨hc, hp, hl, hr⟩ := h
      obtain ⟨hnl, hnr, hal, har, hlr⟩ := nodup_node hnodup
      simp only [inorder, List.mem_append, List.mem_cons, not_or] at hn
      obtain ⟨hnotl, hna, hnotr⟩ := hn
      have hmem : ∀ b ∈ inorder (.node a l r), link.owner ≠ some b := howner
      have hin (b : Nat) (hb : b ∈ inorder l ∨ b = a ∨ b ∈ inorder r) : link.owner ≠ some b :=
        hmem b (by simpa [inorder] using hb)
      have hleft : ∀ b ∈ inorder l, (some a : Option Nat) ≠ some b := by
        rintro b hb ⟨⟩
        exact hal hb
      have hright : ∀ b ∈ inorder r, (some a : Option Nat) ≠ some b := by
        rintro b hb ⟨⟩
        exact har hb
      have han : (some a : Option Nat) ≠ some n := fun heq => hna (Option.some.inj heq).symm
      have hnelink : ∀ k : Link, k.owner = some a → link ≠ k := by
        rintro k hk rfl
        exact hin a (.inr (.inl rfl)) hk
      rw [descend] at ha
      rw [insertLeaf]
      split_ifs at ha ⊢ with hgo
      · have hk : link ≠ descend go (.left a) l :=
          ne_descend (hnelink _ rfl) (fun b hb => hin b (.inl hb))
        refine ⟨(ha.others link hk hlink).trans hc, (ha.parents a (fun h => hna h.symm)).trans hp,
          ihl hl hnl hnotl han hleft ha, ?_⟩
        exact hr.attach_other ha Link.noConfusion hleft han (fun b hb hbl => hlr b hbl hb) hright hnotr
      · have hk : link ≠ descend go (.right a) r :=
          ne_descend (hnelink _ rfl) (fun b hb => hin b (.inr (.inr hb)))
        refine ⟨(ha.others link hk hlink).trans hc, (ha.parents a (fun h => hna h.symm)).trans hp,
          ?_, ihr hr hnr hnotr han hright ha⟩
        exact hl.attach_other ha Link.noConfusion hright han hlr hleft hnotl

theorem perm_insertLeaf (go : α → Bool) (n : α) (t : BinaryTree α) :
    (inorder (insertLeaf go n t)).Perm (n :: inorder t) := by
  induction t with
  | nil => exact .refl _
  | node a l r ihl ihr =>
      rw [insertLeaf]
      split
      · exact ihl.append_right _
      · have hmid := (ihr.cons a).append_left (inorder l)
        have hswap := (List.Perm.swap n a (inorder r)).append_left (inorder l)
        exact (hmid.trans hswap).trans List.perm_middle

end Insertion

section Order

variable {before : α → α → Prop}

/-- Every node stands between the nodes on its left and those on its right. -/
def Ordered (before : α → α → Prop) : BinaryTree α → Prop
  | .nil => True
  | .node a l r =>
      (∀ b ∈ inorder l, before b a) ∧ (∀ b ∈ inorder r, before a b) ∧ Ordered before l ∧
        Ordered before r

theorem Ordered.insertLeaf {go : α → Bool} {n : α} {t : BinaryTree α} (h : Ordered before t)
    (hleft : ∀ a ∈ inorder t, go a = true → before n a)
    (hright : ∀ a ∈ inorder t, go a = false → before a n) : Ordered before (insertLeaf go n t) := by
  induction t with
  | nil => simp [LinkedTree.insertLeaf, Ordered, inorder]
  | node a l r ihl ihr =>
      obtain ⟨hl, hr, hol, hor⟩ := h
      have ha : a ∈ inorder (.node a l r) := by simp [inorder]
      have hinl : ∀ b ∈ inorder l, b ∈ inorder (.node a l r) := fun b hb => by simp [inorder, hb]
      have hinr : ∀ b ∈ inorder r, b ∈ inorder (.node a l r) := fun b hb => by simp [inorder, hb]
      rw [LinkedTree.insertLeaf]
      split_ifs with hgo
      · refine ⟨fun b hb => ?_, hr, ?_, hor⟩
        · rcases List.mem_cons.mp ((perm_insertLeaf go n l).mem_iff.mp hb) with rfl | hb
          · exact hleft a ha hgo
          · exact hl b hb
        · exact ihl hol (fun b hb => hleft b (hinl b hb)) (fun b hb => hright b (hinl b hb))
      · refine ⟨hl, fun b hb => ?_, hol, ?_⟩
        · rcases List.mem_cons.mp ((perm_insertLeaf go n r).mem_iff.mp hb) with rfl | hb
          · exact hright a ha (Bool.not_eq_true _ ▸ hgo)
          · exact hr b hb
        · exact ihr hor (fun b hb => hleft b (hinr b hb)) (fun b hb => hright b (hinr b hb))

theorem Ordered.pairwise (htrans : ∀ a b c, before a b → before b c → before a c)
    {t : BinaryTree α} (h : Ordered before t) : (inorder t).Pairwise before := by
  induction t with
  | nil => exact .nil
  | node a l r ihl ihr =>
      obtain ⟨hl, hr, hol, hor⟩ := h
      refine List.pairwise_append.mpr ⟨ihl hol, List.pairwise_cons.mpr ⟨hr, ihr hor⟩, ?_⟩
      intro b hb c hc
      rcases List.mem_cons.mp hc with rfl | hc
      · exact hl b hb
      · exact htrans b a c (hl b hb) (hr c hc)

theorem Ordered.imp {after : α → α → Prop} {t : BinaryTree α}
    (himp : ∀ a ∈ inorder t, ∀ b ∈ inorder t, before a b → after a b) (h : Ordered before t) :
    Ordered after t := by
  induction t with
  | nil => trivial
  | node a l r ihl ihr =>
      obtain ⟨hl, hr, hol, hor⟩ := h
      have ha : a ∈ inorder (.node a l r) := by simp [inorder]
      have hinl : ∀ b ∈ inorder l, b ∈ inorder (.node a l r) := fun b hb => by simp [inorder, hb]
      have hinr : ∀ b ∈ inorder r, b ∈ inorder (.node a l r) := fun b hb => by simp [inorder, hb]
      refine ⟨fun b hb => ?_, fun b hb => ?_, ihl ?_ hol, ihr ?_ hor⟩
      · exact himp b (hinl b hb) a ha (hl b hb)
      · exact himp a ha b (hinr b hb) (hr b hb)
      · exact fun b hb c hc => himp b (hinl b hb) c (hinl c hc)
      · exact fun b hb c hc => himp b (hinr b hb) c (hinr c hc)

/-- A search that is told at each node where to go on. -/
def find (cmp : α → Ordering) : BinaryTree α → Option α
  | .nil => none
  | .node a l r =>
      match cmp a with
      | .eq => some a
      | .lt => find cmp l
      | .gt => find cmp r

theorem find_some {cmp : α → Ordering} {t : BinaryTree α} {a : α} (h : find cmp t = some a) :
    a ∈ inorder t ∧ cmp a = .eq := by
  induction t with
  | nil => cases h
  | node b l r ihl ihr =>
      rw [find] at h
      split at h
      · rename_i hb
        cases h
        exact ⟨by simp [inorder], hb⟩
      · obtain ⟨ha, heq⟩ := ihl h
        exact ⟨by simp [inorder, ha], heq⟩
      · obtain ⟨ha, heq⟩ := ihr h
        exact ⟨by simp [inorder, ha], heq⟩

theorem Ordered.find {cmp : α → Ordering} {t : BinaryTree α} {a : α} (h : Ordered before t)
    (hlt : ∀ b, before a b → cmp b = .lt) (hgt : ∀ b, before b a → cmp b = .gt)
    (ha : a ∈ inorder t) (heq : cmp a = .eq) : find cmp t = some a := by
  induction t with
  | nil => cases ha
  | node b l r ihl ihr =>
      obtain ⟨hl, hr, hol, hor⟩ := h
      simp only [inorder, List.mem_append, List.mem_cons] at ha
      rw [LinkedTree.find]
      rcases ha with ha | rfl | ha
      · rw [hlt b (hl a ha)]
        exact ihl hol ha
      · rw [heq]
      · rw [hgt b (hr a ha)]
        exact ihr hor ha

end Order

section Iteration

/-- So many steps to the left lead from a node to the first one of its subtree. -/
inductive First (v : View) : Nat → Nat → Nat → Prop
  | here {a : Nat} (h : v.child (.left a) = some none) : First v 0 a a
  | down {k a b c : Nat} (h : v.child (.left a) = some (some b)) (hrest : First v k b c) :
      First v (k + 1) a c

/-- Where a climb ends that leaves right children behind: at the parent of a left child, or
above the whole tree. -/
inductive Out (v : View) : Nat → Nat → Option Nat → Option Nat → Prop
  | above {a : Nat} {p : Option Nat} (h : v.child (.right a) = some p) : Out v 0 a none none
  | found {a b : Nat} {p q : Option Nat} (h : v.child (.right a) = some p) (hp : p ≠ some b)
      (hb : v.child (.right b) = some q) (hq : q ≠ some a) : Out v 0 a (some b) (some b)
  | up {k a b : Nat} {p q : Option Nat} (hb : v.child (.right b) = some (some a)) (hp : v.parent b = some p)
      (hrest : Out v k b p q) : Out v (k + 1) a (some b) q

/-- The node after another one, found in at most so many steps. -/
inductive Next (v : View) (bound : Nat) : Nat → Option Nat → Prop
  | inside {k a b c : Nat} (h : v.child (.right a) = some (some b)) (hk : k ≤ bound)
      (hfirst : First v k b c) : Next v bound a (some c)
  | outside {k a : Nat} {p q : Option Nat} (h : v.child (.right a) = some none)
      (hp : v.parent a = some p) (hk : k ≤ bound) (hout : Out v k a p q) : Next v bound a q

/-- Following the relation from the first pointer one meets these nodes and then the last
pointer. -/
inductive Walk (next : Nat → Option Nat → Prop) : Option Nat → List Nat → Option Nat → Prop
  | nil {p : Option Nat} : Walk next p [] p
  | cons {a : Nat} {p q : Option Nat} {as : List Nat} (h : next a p) (hrest : Walk next p as q) : Walk next (some a) (a :: as) q

theorem Walk.append {next : Nat → Option Nat → Prop} {p q s : Option Nat} {as bs : List Nat}
    (h : Walk next p as q) (hrest : Walk next q bs s) : Walk next p (as ++ bs) s := by
  induction h with
  | nil => exact hrest
  | cons h _ ih => exact .cons h (ih hrest)

theorem Holds.first (h : Holds v link (.node a l r)) :
    ∃ k b, k ≤ l.height ∧ First v k a b ∧ (inorder (.node a l r)).head? = some b := by
  induction l generalizing link a r with
  | nil => exact ⟨0, a, Nat.le_refl _, .here h.2.2.1, rfl⟩
  | node b l' r' ihl =>
      obtain ⟨-, -, hl, -⟩ := h
      obtain ⟨k, c, hk, hfirst, hhead⟩ := ihl hl
      refine ⟨k + 1, c, ?_, .down hl.1 hfirst, ?_⟩
      · rw [height]
        omega
      · rw [inorder, List.head?_append, hhead]
        rfl

theorem head?_inorder {a : α} (l r : BinaryTree α) (rest : List α) :
    (inorder (.node a l r) ++ rest).head? = (inorder l ++ [a]).head? := by
  simp [inorder]

theorem Holds.walk {bound k : Nat} {q : Option Nat} (h : Holds v link t)
    (hnodup : (inorder t).Nodup) (hbound : k + t.height ≤ bound)
    (hout : ∀ a, top t = some a → Out v k a link.owner q) :
    Walk (Next v bound) (inorder t ++ q.toList).head? (inorder t) q := by
  induction t generalizing link k q with
  | nil => cases q <;> exact .nil
  | node a l r ihl ihr =>
      obtain ⟨hc, hp, hl, hr⟩ := h
      obtain ⟨hnl, hnr, hal, har, hlr⟩ := nodup_node hnodup
      rw [height] at hbound
      have hleft : Walk (Next v bound) (inorder l ++ [a]).head? (inorder l) (some a) := by
        refine ihl (k := 0) (q := some a) hl hnl (by omega) (fun b hb => ?_)
        cases l with
        | nil => cases hb
        | node c l' r' =>
            cases hb
            refine .found hl.2.2.2.child (fun htop => hal ?_) hr.child (fun htop => ?_)
            · have hmem := mem_of_top htop
              simp [inorder, hmem]
            · exact hlr b (by simp [inorder]) (mem_of_top htop)
      have hright : Walk (Next v bound) (inorder r ++ q.toList).head? (inorder r) q :=
        ihr hr hnr (k := k + 1) (by omega) (fun b hb => .up (hb ▸ hr.child) hp (hout a rfl))
      have hnext : Next v bound a (inorder r ++ q.toList).head? := by
        cases r with
        | nil =>
            have hq : (inorder (.nil : BinaryTree Nat) ++ q.toList).head? = q := by cases q <;> rfl
            rw [hq]
            exact .outside hr hp (by omega) (hout a rfl)
        | node b l' r' =>
            obtain ⟨j, c, hj, hfirst, hhead⟩ := hr.first
            rw [height] at hbound
            rw [List.head?_append, hhead]
            exact .inside hr.1 (by omega) hfirst
      rw [head?_inorder]
      exact hleft.append (.cons hnext hright)

end Iteration

end ErSdk.LinkedTree
