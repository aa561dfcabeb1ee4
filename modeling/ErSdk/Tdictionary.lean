import ErSdk.ExositeApi
import ErSdk.Linked
import ErSdk.LinkedTree

namespace ErSdk.Tdictionary

open Linked LinkedTree Error
open ExositeApi (strcmp)

/-- `struct node`; the copy of the key is part of it. -/
structure Node where
  left : Option Nat
  right : Option Nat
  parent : Option Nat
  key : List UInt8
  value : Option Nat

structure DictionaryClass where
  root : Option Nat
  heap : Memory Node

/-- What a call finds in the heap: the memory of a node, with whatever it holds, and whether
there is room for the copy of the key. -/
structure Alloc where
  node : Option Node
  key : Bool

namespace DictionaryClass

def view (d : DictionaryClass) : View where
  child
    | .anchor => some d.root
    | .left a => (fetch d.heap a).map Node.left
    | .right a => (fetch d.heap a).map Node.right
  parent a := (fetch d.heap a).map Node.parent

/-- A write through a `struct node **`. -/
def write (d : DictionaryClass) : Link → Option Nat → Option DictionaryClass
  | .anchor, p => some { d with root := p }
  | .left a, p =>
      (fetch d.heap a).map (fun node => { d with heap := store d.heap a { node with left := p } })
  | .right a, p =>
      (fetch d.heap a).map (fun node => { d with heap := store d.heap a { node with right := p } })

end DictionaryClass

def dictionaryNew (heap : Memory Node) : DictionaryClass := ⟨none, heap⟩

/-- A node whose key cannot be copied is not freed. -/
def nodeNew (alloc : Alloc) (d : DictionaryClass) (newNode : Link) (parent : Option Nat)
    (key : List UInt8) (value : Option Nat) : Option (Int × DictionaryClass) :=
  match alloc.node with
  | none => some (errNoMemory, d)
  | some garbage =>
      let node := d.heap.length
      let heap := allocate d.heap garbage
      if alloc.key then
        let d := { d with heap := store heap node ⟨none, none, parent, key, value⟩ }
        (d.write newNode (some node)).map (fun d => (errSuccess, d))
      else some (errNoMemory, { d with heap := heap })

/-- Nothing results when the fuel runs out or a pointer does not lead to a node. -/
def insert (alloc : Alloc) (key : List UInt8) (value : Option Nat) :
    Nat → DictionaryClass → Link → Option Nat → Option (Int × DictionaryClass)
  | 0, _, _, _ => none
  | fuel + 1, d, root, parent => do
      match ← d.view.child root with
      | none => nodeNew alloc d root parent key value
      | some a =>
          let node ← fetch d.heap a
          match strcmp key node.key with
          | .eq => some (errDuplicate, d)
          | .lt => insert alloc key value fuel d (.left a) (some a)
          | .gt => insert alloc key value fuel d (.right a) (some a)

def lookup (d : DictionaryClass) (key : List UInt8) : Nat → Option Nat → Option (Option Nat)
  | 0, _ => none
  | _ + 1, none => some none
  | fuel + 1, some tree => do
      let node ← fetch d.heap tree
      match strcmp key node.key with
      | .lt => lookup d key fuel node.left
      | .gt => lookup d key fuel node.right
      | .eq => some (some tree)

def dictionaryLookup (d : DictionaryClass) (key : List UInt8) : Option (Option Nat) := do
  match ← lookup d key (d.heap.length + 1) d.root with
  | none => some none
  | some a => (fetch d.heap a).map Node.value

def dictionaryAdd (d : DictionaryClass) (name : List UInt8) (value : Option Nat) (alloc : Alloc) :
    Option (Int × DictionaryClass) :=
  insert alloc name value (d.heap.length + 1) d .anchor none

def getBegin (d : DictionaryClass) : Nat → Option Nat → Option (Option Nat)
  | 0, _ => none
  | _ + 1, none => some none
  | fuel + 1, some a => do
      let node ← fetch d.heap a
      match node.left with
      | some left => getBegin d fuel (some left)
      | none => some (some a)

def dictionaryGetIterator (d : DictionaryClass) : Option (Option Nat) :=
  getBegin d (d.heap.length + 1) d.root

/-- The first loop of `dictionary_iterate`. -/
def goLeft (d : DictionaryClass) : Nat → Nat → Option Nat
  | 0, _ => none
  | fuel + 1, a => do
      let node ← fetch d.heap a
      match node.left with
      | some left => goLeft d fuel left
      | none => some a

/-- The second loop, with `node` and `base`. -/
def goUp (d : DictionaryClass) : Nat → Nat → Option Nat → Option (Nat × Option Nat)
  | 0, _, _ => none
  | _ + 1, a, none => some (a, none)
  | fuel + 1, a, some b => do
      let base ← fetch d.heap b
      if base.right = some a then goUp d fuel b base.parent else some (a, some b)

def dictionaryIterate (d : DictionaryClass) : Option Nat → Option (Option Nat)
  | none => some none
  | some a => do
      let node ← fetch d.heap a
      match node.right with
      | some right => (goLeft d (d.heap.length + 1) right).map some
      | none =>
          let (a, base) ← goUp d (d.heap.length + 1) a node.parent
          let node ← fetch d.heap a
          let it := if node.right ≠ base then base else some a
          some (if base = none then none else it)

def dictionaryGetValue (d : DictionaryClass) : Option Nat → Option (Option Nat)
  | none => some none
  | some a => (fetch d.heap a).map Node.value

section Comparison

theorem strcmp_eq_compare (s t : List UInt8) : strcmp s t = compare s t := by
  induction s generalizing t with
  | nil => cases t <;> rfl
  | cons c s ih =>
      cases t with
      | nil => rfl
      | cons d t =>
          have hlex : compare (c :: s) (d :: t) = (compare c d).then (compare s t) :=
            List.compareLex_cons_cons
          have hbyte : compare c d = if c < d then .lt else if c = d then .eq else .gt := rfl
          rw [hlex, hbyte, strcmp, ih]
          split_ifs with hlt hgt heq heq
          · rfl
          · exact absurd (heq ▸ hgt) (UInt8.lt_irrefl d)
          · rfl
          · rfl
          · exact absurd (UInt8.le_antisymm (UInt8.not_lt.mp hgt) (UInt8.not_lt.mp hlt)) heq

theorem strcmp_trans {s t u : List UInt8} (h : strcmp s t = .lt) (h' : strcmp t u = .lt) :
    strcmp s u = .lt := by
  rw [strcmp_eq_compare] at *
  exact Std.TransCmp.lt_trans h h'

theorem strcmp_eq_iff {s t : List UInt8} : strcmp s t = .eq ↔ s = t := by
  rw [strcmp_eq_compare]
  exact Std.compare_eq_iff_eq

theorem strcmp_self (s : List UInt8) : strcmp s s = .eq := strcmp_eq_iff.mpr rfl

theorem strcmp_gt {s t : List UInt8} : strcmp s t = .gt ↔ strcmp t s = .lt := by
  rw [strcmp_eq_compare, strcmp_eq_compare]
  exact Std.OrientedCmp.gt_iff_lt

end Comparison

def entry (d : DictionaryClass) (a : Nat) : List UInt8 × Option Nat :=
  ((fetch d.heap a).map (fun node => (node.key, node.value))).getD ([], none)

section Memory

variable {d d' : DictionaryClass} {link : Link} {p q : Option Nat} {a : Nat} {node : Node}

theorem entry_of_fetch (h : fetch d.heap a = some node) : entry d a = (node.key, node.value) := by
  rw [entry, h]
  rfl

theorem write_some (h : d.view.child link = some p) (q : Option Nat) :
    ∃ d', d.write link q = some d' := by
  cases link with
  | anchor => exact ⟨_, rfl⟩
  | left a =>
      obtain ⟨node, hnode, -⟩ := Option.map_eq_some_iff.mp h
      exact ⟨_, by rw [DictionaryClass.write, hnode]; rfl⟩
  | right a =>
      obtain ⟨node, hnode, -⟩ := Option.map_eq_some_iff.mp h
      exact ⟨_, by rw [DictionaryClass.write, hnode]; rfl⟩

/-- What a write through a link changes: what is read there, and nothing else. -/
structure Written (d d' : DictionaryClass) (link : Link) (q : Option Nat) : Prop where
  child : ∀ k, d'.view.child k = if k = link then some q else d.view.child k
  parent : ∀ a, d'.view.parent a = d.view.parent a
  entry : ∀ a, entry d' a = entry d a
  length : d'.heap.length = d.heap.length

theorem stored_cell {β : Type} {m : Memory Node} {new : Node} {a : Nat}
    (h : fetch m a = some node) (f : Node → β) (hf : f new = f node) (b : Nat) :
    (fetch (store m a new) b).map f = (fetch m b).map f := by
  by_cases hb : b = a
  · subst hb
    rw [fetch_store_self h, h, Option.map_some, Option.map_some, hf]
  · rw [fetch_store_ne hb]

theorem written_of_write (h : d.write link q = some d') : Written d d' link q := by
  cases link with
  | anchor =>
      cases h
      refine ⟨fun k => ?_, fun _ => rfl, fun _ => rfl, rfl⟩
      cases k <;> rfl
  | left b =>
      obtain ⟨node, hnode, rfl⟩ := Option.map_eq_some_iff.mp h
      refine ⟨fun k => ?_, stored_cell hnode Node.parent rfl, fun a => ?_, length_store _ _ _⟩
      · cases k with
        | anchor => rfl
        | left c =>
            by_cases hc : c = b
            · subst hc
              rw [if_pos rfl]
              exact congrArg (Option.map Node.left) (fetch_store_self hnode _)
            · rw [if_neg (fun heq => hc (Link.left.inj heq))]
              exact congrArg (Option.map Node.left) (fetch_store_ne hc _)
        | right c =>
            rw [if_neg Link.noConfusion]
            exact stored_cell hnode Node.right (by rfl) c
      · exact congrArg (Option.getD · ([], none)) (stored_cell hnode (fun n => (n.key, n.value)) (by rfl) a)
  | right b =>
      obtain ⟨node, hnode, rfl⟩ := Option.map_eq_some_iff.mp h
      refine ⟨fun k => ?_, stored_cell hnode Node.parent rfl, fun a => ?_, length_store _ _ _⟩
      · cases k with
        | anchor => rfl
        | left c =>
            rw [if_neg Link.noConfusion]
            exact stored_cell hnode Node.left (by rfl) c
        | right c =>
            by_cases hc : c = b
            · subst hc
              rw [if_pos rfl]
              exact congrArg (Option.map Node.right) (fetch_store_self hnode _)
            · rw [if_neg (fun heq => hc (Link.right.inj heq))]
              exact congrArg (Option.map Node.right) (fetch_store_ne hc _)
      · exact congrArg (Option.getD · ([], none)) (stored_cell hnode (fun n => (n.key, n.value)) (by rfl) a)

def extended (d : DictionaryClass) (node : Node) : DictionaryClass :=
  { d with heap := allocate d.heap node }

theorem fetch_extended (d : DictionaryClass) (node : Node) {a : Nat} (h : a ≠ d.heap.length) :
    fetch (extended d node).heap a = fetch d.heap a := fetch_allocate_ne h node

theorem child_extended (d : DictionaryClass) (node : Node) {k : Link}
    (h : k.owner ≠ some d.heap.length) : (extended d node).view.child k = d.view.child k := by
  have hne : ∀ a, k.owner = some a → fetch (extended d node).heap a = fetch d.heap a := by
    intro a ha
    apply fetch_extended
    rintro rfl
    exact h ha
  cases k with
  | anchor => rfl
  | left a => exact congrArg (Option.map Node.left) (hne a rfl)
  | right a => exact congrArg (Option.map Node.right) (hne a rfl)

theorem parent_extended (d : DictionaryClass) (node : Node) {a : Nat} (h : a ≠ d.heap.length) :
    (extended d node).view.parent a = d.view.parent a :=
  congrArg (Option.map Node.parent) (fetch_extended d node h)

theorem entry_extended (d : DictionaryClass) (node : Node) {a : Nat} (h : a ≠ d.heap.length) :
    entry (extended d node) a = entry d a := by
  rw [entry, entry, fetch_extended d node h]

theorem fetch_new (d : DictionaryClass) (node : Node) :
    fetch (extended d node).heap d.heap.length = some node := fetch_allocate_self d.heap node

theorem owner_ne_length (h : d.view.child link = some p) : link.owner ≠ some d.heap.length := by
  have hlt : ∀ a, link.owner = some a → a < d.heap.length := by
    intro a ha
    cases link with
    | anchor => cases ha
    | left b =>
        cases ha
        obtain ⟨node, hnode, -⟩ := Option.map_eq_some_iff.mp h
        exact lt_of_fetch hnode
    | right b =>
        cases ha
        obtain ⟨node, hnode, -⟩ := Option.map_eq_some_iff.mp h
        exact lt_of_fetch hnode
  exact fun heq => Nat.lt_irrefl _ (hlt _ heq)

theorem nodeNew_success {alloc : Alloc} {garbage : Node} (hnode : alloc.node = some garbage)
    (hkey : alloc.key = true) (h : d.view.child link = some p) (key : List UInt8)
    (value : Option Nat) :
    ∃ d', nodeNew alloc d link link.owner key value = some (errSuccess, d') ∧
      Attached d.view d'.view link d.heap.length ∧ entry d' d.heap.length = (key, value) ∧
      (∀ a, a ≠ d.heap.length → entry d' a = entry d a) := by
  let node : Node := ⟨none, none, link.owner, key, value⟩
  have howner := owner_ne_length h
  obtain ⟨d', hd'⟩ := write_some ((child_extended d node howner).trans h) (some d.heap.length)
  have hw := written_of_write hd'
  have hnew := fetch_new d node
  have hlink : ∀ k : Link, k.owner = some d.heap.length → k ≠ link := by
    rintro k hk rfl
    exact howner hk
  refine ⟨d', ?_, ⟨?_, ?_, ?_, ?_, fun k hk hkn => ?_, fun a ha => ?_⟩, ?_, fun a ha => ?_⟩
  · simp only [nodeNew, hnode, hkey, if_true, store_allocate]
    exact congrArg (Option.map fun d => (errSuccess, d)) hd'
  · rw [hw.child, if_pos rfl]
  · rw [hw.child, if_neg (hlink _ rfl)]
    exact congrArg (Option.map Node.left) hnew
  · rw [hw.child, if_neg (hlink _ rfl)]
    exact congrArg (Option.map Node.right) hnew
  · rw [hw.parent]
    exact congrArg (Option.map Node.parent) hnew
  · rw [hw.child, if_neg hk, child_extended d node hkn]
  · rw [hw.parent, parent_extended d node ha]
  · rw [hw.entry]
    exact entry_of_fetch hnew
  · rw [hw.entry, entry_extended d node ha]

/-- A failed call leaves the nodes as they are. -/
structure Unchanged (d d' : DictionaryClass) : Prop where
  root : d'.root = d.root
  nodes : ∀ a < d.heap.length, fetch d'.heap a = fetch d.heap a

theorem Unchanged.refl (d : DictionaryClass) : Unchanged d d := ⟨rfl, fun _ _ => rfl⟩

theorem nodeNew_failure {alloc : Alloc} (h : alloc.node = none ∨ alloc.key = false)
    (d : DictionaryClass) (link : Link) (parent : Option Nat) (key : List UInt8)
    (value : Option Nat) :
    ∃ d', nodeNew alloc d link parent key value = some (errNoMemory, d') ∧ Unchanged d d' := by
  unfold nodeNew
  split
  · exact ⟨d, rfl, rfl, fun _ _ => rfl⟩
  · rename_i garbage hnode
    have hkey : alloc.key = false := h.resolve_left (by simp [hnode])
    refine ⟨extended d garbage, ?_, rfl, fun a ha => ?_⟩
    · simp only [hkey, Bool.false_eq_true, if_false]
      rfl
    · exact fetch_extended d garbage (Nat.ne_of_lt ha)

end Memory

end ErSdk.Tdictionary
