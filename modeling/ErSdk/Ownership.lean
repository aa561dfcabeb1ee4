import ErSdk.Conformance
import Mathlib.Data.List.Induction

namespace ErSdk.Ownership

open Conformance

variable {ι δ : Type}

/-- What can happen to data that has one owner at a time. -/
inductive Use (ι δ : Type)
  | taken (i : ι)
  | worked (i : ι) (f : δ → δ)
  | given (i : ι)

/-- Only the owner works on the data and gives it back, and only data without an owner is taken. -/
def next [DecidableEq ι] : Option ι → Use ι δ → Option (Option ι)
  | none, .taken i => some (some i)
  | some i, .worked j _ => if j = i then some (some i) else none
  | some i, .given j => if j = i then some none else none
  | _, _ => none

/-- What an owner does to the data from taking it to giving it back. -/
structure Block (ι δ : Type) where
  owner : ι
  works : List (δ → δ)

namespace Block

def opened (b : Block ι δ) : List (Use ι δ) := .taken b.owner :: b.works.map (.worked b.owner)

def uses (b : Block ι δ) : List (Use ι δ) := b.opened ++ [.given b.owner]

def effect (b : Block ι δ) (d : δ) : δ := b.works.foldl (fun d f => f d) d

end Block

def applied (d : δ) (uses : List (Use ι δ)) : δ :=
  uses.foldl (fun d u => match u with | .worked _ f => f d | _ => d) d

@[simp] theorem applied_nil (d : δ) : applied d ([] : List (Use ι δ)) = d := rfl

theorem applied_append (d : δ) (uses more : List (Use ι δ)) :
    applied d (uses ++ more) = applied (applied d uses) more := List.foldl_append

theorem applied_opened (d : δ) (b : Block ι δ) : applied d b.opened = b.effect d := by
  unfold Block.opened Block.effect applied
  rw [List.foldl_cons, List.foldl_map]

theorem applied_uses (d : δ) (b : Block ι δ) : applied d b.uses = b.effect d := by
  unfold Block.uses
  rw [applied_append, applied_opened]
  rfl

theorem applied_blocks (d : δ) (blocks : List (Block ι δ)) :
    applied d (blocks.flatMap Block.uses) = blocks.foldl (fun d b => b.effect d) d := by
  induction blocks generalizing d with
  | nil => rfl
  | cons b blocks ih => rw [List.flatMap_cons, applied_append, applied_uses, ih, List.foldl_cons]

theorem works_unique {i j : ι} {works works' : List (δ → δ)} {later later' : List (Use ι δ)}
    (h : works.map (.worked i) ++ .given i :: later = works'.map (.worked j) ++ .given j :: later') :
    i = j ∧ works = works' ∧ later = later' := by
  induction works generalizing works' with
  | nil =>
      cases works' with
      | nil =>
          obtain ⟨hi, hlater⟩ := List.cons.inj h
          exact ⟨Use.given.inj hi, rfl, hlater⟩
      | cons f works' => cases (List.cons.inj h).1
  | cons f works ih =>
      cases works' with
      | nil => cases (List.cons.inj h).1
      | cons g works' =>
          obtain ⟨hf, hrest⟩ := List.cons.inj h
          obtain ⟨-, rfl⟩ := Use.worked.inj hf
          obtain ⟨hij, rfl, hlater⟩ := ih hrest
          exact ⟨hij, rfl, hlater⟩

theorem behind_works {i : ι} {works : List (δ → δ)} {b : Block ι δ} {more earlier later : List (Use ι δ)}
    (h : works.map (.worked i) ++ .given i :: more = earlier ++ b.uses ++ later) :
    ∃ earlier', more = earlier' ++ b.uses ++ later := by
  induction works generalizing earlier with
  | nil =>
      cases earlier with
      | nil => cases (List.cons.inj h).1
      | cons u earlier => exact ⟨earlier, (List.cons.inj h).2⟩
  | cons f works ih =>
      cases earlier with
      | nil => cases (List.cons.inj h).1
      | cons u earlier => exact ih (List.cons.inj h).2

theorem Block.uses_append (b : Block ι δ) (more : List (Use ι δ)) :
    b.uses ++ more = .taken b.owner :: (b.works.map (.worked b.owner) ++ .given b.owner :: more) := by
  simp [Block.uses, Block.opened]

section

variable [DecidableEq ι]

/-- The part of a trace that belongs to the block of the owner, if there is one. -/
def Current (owner : Option ι) (rest : List (Use ι δ)) : Prop :=
  match owner with
  | none => rest = []
  | some i => ∃ works, rest = Block.opened ⟨i, works⟩

theorem Current.next {owner owner' : Option ι} {rest : List (Use ι δ)} {u : Use ι δ}
    (h : Current owner rest) (hu : next owner u = some owner') :
    Current owner' (rest ++ [u]) ∨ owner' = none ∧ ∃ b : Block ι δ, rest ++ [u] = b.uses := by
  cases owner with
  | none =>
      cases u with
      | taken i =>
          obtain rfl := Option.some.inj hu
          obtain rfl : rest = [] := h
          exact .inl ⟨[], rfl⟩
      | worked i f => cases hu
      | given i => cases hu
  | some i =>
      obtain ⟨works, rfl⟩ := h
      cases u with
      | taken j => cases hu
      | worked j f =>
          obtain ⟨rfl, hsome⟩ := Option.ite_none_right_eq_some.mp hu
          obtain rfl := Option.some.inj hsome
          refine .inl ⟨works ++ [f], ?_⟩
          simp [Block.opened]
      | given j =>
          obtain ⟨rfl, hnone⟩ := Option.ite_none_right_eq_some.mp hu
          obtain rfl := Option.some.inj hnone
          exact .inr ⟨rfl, ⟨j, works⟩, rfl⟩

theorem serial {uses : List (Use ι δ)} {owner : Option ι} (h : after next none uses = some owner) :
    ∃ blocks rest, uses = List.flatMap Block.uses blocks ++ rest ∧ Current owner rest := by
  induction uses using List.reverseRecOn generalizing owner with
  | nil =>
      obtain rfl := Option.some.inj h
      exact ⟨[], [], rfl, rfl⟩
  | append_singleton uses u ih =>
      obtain ⟨v, w, hv, hw, hlast⟩ := after_split [] h
      obtain rfl := Option.some.inj hlast
      obtain ⟨blocks, rest, rfl, hrest⟩ := ih hv
      rcases hrest.next hw with hnext | ⟨rfl, b, hb⟩
      · exact ⟨blocks, rest ++ [u], List.append_assoc _ _ _, hnext⟩
      · refine ⟨blocks ++ [b], [], ?_, rfl⟩
        rw [List.flatMap_append, List.flatMap_singleton, List.append_nil, List.append_assoc, hb]

omit [DecidableEq ι] in
theorem mem_blocks (owner : Option ι) {blocks : List (Block ι δ)} {rest : List (Use ι δ)}
    (hrest : Current owner rest) {b : Block ι δ} {earlier later : List (Use ι δ)}
    (h : blocks.flatMap Block.uses ++ rest = earlier ++ b.uses ++ later) : b ∈ blocks := by
  induction blocks generalizing earlier with
  | nil =>
      have hmem : .given b.owner ∈ rest := by
        rw [show rest = earlier ++ b.uses ++ later from h]
        simp [Block.uses]
      cases owner with
      | none =>
          rw [show rest = [] from hrest] at hmem
          cases hmem
      | some i =>
          obtain ⟨works, rfl⟩ := hrest
          simp [Block.opened] at hmem
  | cons c blocks ih =>
      rw [List.flatMap_cons, List.append_assoc, Block.uses_append] at h
      cases earlier with
      | nil =>
          rw [List.nil_append, Block.uses_append] at h
          obtain ⟨howner, hworks⟩ := List.cons.inj h
          obtain ⟨-, hsame, -⟩ := works_unique hworks
          have hbc : b = c := by
            cases b
            cases c
            obtain rfl := Use.taken.inj howner
            obtain rfl : _ = _ := hsame
            rfl
          exact List.mem_cons.mpr (.inl hbc)
      | cons u earlier =>
          obtain ⟨earlier', hmore⟩ := behind_works (List.cons.inj h).2
          exact List.mem_cons_of_mem c (ih hmore)

end

end ErSdk.Ownership
