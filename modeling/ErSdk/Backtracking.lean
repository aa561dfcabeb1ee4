import Mathlib.Data.List.Basic

namespace ErSdk.Backtracking

/-- What a group stands for. It is unfinished as long as it is open. -/
inductive Span
  | unfinished
  | position
  | text (n : Nat)
  deriving DecidableEq, Repr

structure Group where
  start : Nat
  span : Span
  deriving DecidableEq, Repr

def Group.isClosed (g : Group) : Bool := g.span ≠ .unfinished

def Group.isPosition (g : Group) : Bool := g.span = .position

/-- The pieces of a pattern that look at the subject only. -/
inductive Move (α : Type)
  | one (cls : α → Bool)
  | star (cls : α → Bool)
  | plus (cls : α → Bool)
  | lazy (cls : α → Bool)
  | optional (cls : α → Bool)
  | balance (b e : α)
  | frontier (cls : α → Bool)
  | atEnd

/-- A back reference may name no group at all. The last two are what is left of a pattern that
breaks off, in a set or an escape or before the two letters of a balance. -/
inductive Piece (α : Type)
  | move (m : Move α)
  | openGroup
  | position
  | closeGroup
  | back (i : Option Nat)
  | broken
  | unbalanced

def Piece.isMove {α : Type} : Piece α → Bool
  | .openGroup => false
  | .position => false
  | .closeGroup => false
  | _ => true

/-- The groups that a pattern makes, in order; whether each is one of a position. -/
def kinds {α : Type} (ps : List (Piece α)) : List Bool :=
  ps.filterMap (fun p => match p with
    | .openGroup => some false
    | .position => some true
    | _ => none)

def shape (gs : List Group) : List Bool := gs.map Group.isClosed

def lastFalse (closed : List Bool) : Option Nat :=
  (List.range closed.length).reverse.find? (fun i => closed[i]? = some false)

def lastOpen (gs : List Group) : Option Nat := lastFalse (shape gs)

def closeAt (l s : Nat) (gs : List Group) : List Group :=
  gs.modify l (fun g => { g with span := .text (s - g.start) })

/-- The closed group that a back reference names. -/
def named (gs : List Group) (i : Option Nat) : Option Group :=
  (i.bind (gs[·]?)).filter Group.isClosed

def Before (s : Nat) (gs : List Group) : Prop :=
  ∀ g ∈ gs, g.start ≤ s ∧ ∀ n, g.span = .text n → g.start + n ≤ s

theorem Before.mono {gs : List Group} {s t : Nat} (h : Before s gs) (hst : s ≤ t) : Before t gs := by
  intro g hg
  obtain ⟨hstart, hlen⟩ := h g hg
  exact ⟨by omega, fun n hn => by have := hlen n hn; omega⟩

theorem Before.closed {gs : List Group} {s : Nat} (h : Before s gs) (l : Nat) :
    Before s (closeAt l s gs) := by
  intro g hg
  obtain ⟨i, hi⟩ := List.getElem?_of_mem hg
  rw [closeAt, List.getElem?_modify, Option.map_eq_map, Option.map_eq_some_iff] at hi
  obtain ⟨a, ha, heq⟩ := hi
  have hold := h a (List.mem_of_getElem? ha)
  split at heq
  · subst heq
    exact ⟨hold.1, fun n hn => by obtain rfl := Span.text.inj hn; dsimp only; omega⟩
  · subst heq
    exact hold

theorem Before.opened {gs : List Group} {s : Nat} (h : Before s gs) (span : Span)
    (hspan : ∀ n, span ≠ .text n) : Before s (gs ++ [⟨s, span⟩]) := by
  intro g hg
  rcases List.mem_append.mp hg with hg | hg
  · exact h g hg
  · rw [List.mem_singleton.mp hg]
    exact ⟨Nat.le_refl s, fun n hn => absurd hn (hspan n)⟩

section

variable {α : Type} [DecidableEq α] [Inhabited α] (src : List α)

def hit (cls : α → Bool) (s : Nat) : Bool := (src[s]?).any cls

def run (cls : α → Bool) (s : Nat) : Nat := ((src.drop s).takeWhile cls).length

/-- Where the text is balanced that starts behind `depth` opening letters. -/
def balanceEnd (b e : α) : (depth : Nat) → (s : Nat) → List α → Option Nat
  | _, _, [] => none
  | depth, s, c :: rest =>
      if c = e then
        if depth = 1 then some (s + 1) else balanceEnd b e (depth - 1) (s + 1) rest
      else if c = b then balanceEnd b e (depth + 1) (s + 1) rest
      else balanceEnd b e depth (s + 1) rest

/-- The letter before a position; there is the default one before the start and at the end. -/
def before (s : Nat) : α := if s = 0 then default else src.getD (s - 1) default

/-- Where a piece leads from a position, in the order in which that is tried: the longest
repetition first, or the shortest first if it is lazy, and one before none. -/
def choices : Move α → Nat → List Nat
  | .one cls, s => if hit src cls s then [s + 1] else []
  | .star cls, s => (List.range (run src cls s + 1)).reverse.map (s + ·)
  | .plus cls, s =>
      if hit src cls s then (List.range (run src cls (s + 1) + 1)).reverse.map (s + 1 + ·) else []
  | .lazy cls, s => (List.range (run src cls s + 1)).map (s + ·)
  | .optional cls, s => if hit src cls s then [s + 1, s] else [s]
  | .balance b e, s =>
      if src[s]? = some b then (balanceEnd b e 1 (s + 1) (src.drop (s + 1))).toList else []
  | .frontier cls, s =>
      if cls (before src s) = false ∧ cls (src.getD s default) = true then [s] else []
  | .atEnd, s => if s = src.length then [s] else []

/-- The end of a repeated group at a position. Only a text within the subject is repeated. -/
def backEnd (gs : List Group) (i : Option Nat) (s : Nat) : Option Nat :=
  match named gs i with
  | some ⟨start, .text n⟩ =>
      let text := (src.drop start).take n
      if text.length = n ∧ text <+: src.drop s then some (s + n) else none
  | _ => none

/-- All ways to match a pattern from a position, in the order of backtracking. -/
def paths : List (Piece α) → List Group → Nat → List (Nat × List Group)
  | [], gs, s => [(s, gs)]
  | .move m :: r, gs, s => (choices src m s).flatMap (fun t => paths r gs t)
  | .openGroup :: r, gs, s => paths r (gs ++ [⟨s, .unfinished⟩]) s
  | .position :: r, gs, s => paths r (gs ++ [⟨s, .position⟩]) s
  | .closeGroup :: r, gs, s =>
      match lastOpen gs with
      | some l => paths r (closeAt l s gs) s
      | none => []
  | .back i :: r, gs, s =>
      match backEnd src gs i s with
      | some t => paths r gs t
      | none => []
  | .broken :: _, _, _ => []
  | .unbalanced :: _, _, _ => []

def firstPath (ps : List (Piece α)) (gs : List Group) (s : Nat) : Option (Nat × List Group) :=
  (paths src ps gs s).head?

end

/-- Every group is closed and opened in turn, there are at most `max` of them, only closed
groups are repeated, and no piece is broken off. -/
def wellFormed {α : Type} (max : Nat) : List Bool → List (Piece α) → Bool
  | closed, [] => closed.all id
  | closed, .move _ :: r => wellFormed max closed r
  | closed, .openGroup :: r => closed.length < max && wellFormed max (closed ++ [false]) r
  | closed, .position :: r => closed.length < max && wellFormed max (closed ++ [true]) r
  | closed, .closeGroup :: r =>
      match lastFalse closed with
      | some l => wellFormed max (closed.set l true) r
      | none => false
  | closed, .back i :: r => i.bind (closed[·]?) = some true && wellFormed max closed r
  | _, .broken :: _ => false
  | _, .unbalanced :: _ => false

section

variable {α : Type} [DecidableEq α] [Inhabited α] {src : List α} {r : List (Piece α)}
  {gs : List Group} {s : Nat}

theorem firstPath_move (m : Move α) : firstPath src (.move m :: r) gs s =
    (choices src m s).findSome? (firstPath src r gs) := by
  unfold firstPath
  rw [paths, List.head?_flatMap]

theorem firstPath_eq_none : firstPath src r gs s = none ↔ paths src r gs s = [] :=
  List.head?_eq_none_iff

theorem groups_of_moves (hr : r.all Piece.isMove = true) {x : Nat × List Group}
    (h : x ∈ paths src r gs s) : x.2 = gs := by
  induction r generalizing s with
  | nil =>
      rw [List.mem_singleton.mp h]
  | cons p r ih =>
      rw [List.all_cons, Bool.and_eq_true] at hr
      cases p with
      | move m =>
          obtain ⟨t, -, ht⟩ := List.mem_flatMap.mp h
          exact ih hr.2 ht
      | openGroup => cases hr.1
      | position => cases hr.1
      | closeGroup => cases hr.1
      | back i =>
          rw [paths] at h
          split at h
          · exact ih hr.2 h
          · cases h
      | broken => cases h
      | unbalanced => cases h

theorem shape_closeAt (l s : Nat) (gs : List Group) :
    shape (closeAt l s gs) = (shape gs).set l true := by
  unfold shape closeAt
  induction gs generalizing l with
  | nil => simp
  | cons g gs ih =>
      cases l with
      | zero => simp [Group.isClosed]
      | succ l => simpa using ih l

theorem getElem?_of_lastFalse {closed : List Bool} {l : Nat} (h : lastFalse closed = some l) :
    closed[l]? = some false := by
  have hfound := List.find?_some h
  simpa using hfound

omit [DecidableEq α] [Inhabited α] in
theorem hit_lt {cls : α → Bool} (h : hit src cls s = true) : s < src.length := by
  unfold hit at h
  by_contra hle
  rw [List.getElem?_eq_none (by omega)] at h
  cases h

omit [Inhabited α] in
theorem balanceEnd_bounds {b e : α} {depth : Nat} {l : List α} {t : Nat}
    (h : balanceEnd b e depth s l = some t) : s ≤ t ∧ t ≤ s + l.length := by
  induction l generalizing depth s with
  | nil => cases h
  | cons c rest ih =>
      rw [balanceEnd] at h
      rw [List.length_cons]
      split at h
      · split at h
        · obtain rfl := Option.some.inj h
          omega
        · have := ih h
          omega
      · split at h
        · have := ih h
          omega
        · have := ih h
          omega

omit [DecidableEq α] [Inhabited α] in
theorem run_le_max (cls : α → Bool) : s + run src cls s ≤ max s src.length := by
  have hle := (List.takeWhile_prefix cls (l := src.drop s)).length_le
  rw [List.length_drop] at hle
  unfold run
  omega

theorem choices_bounds {m : Move α} {t : Nat} (h : t ∈ choices src m s) :
    s ≤ t ∧ t ≤ max s src.length := by
  cases m with
  | one cls =>
      rw [choices] at h
      split at h
      · rename_i hhit
        have hlt := hit_lt hhit
        rw [List.mem_singleton.mp h]
        omega
      · cases h
  | star cls =>
      rw [choices, List.mem_map] at h
      obtain ⟨i, hi, rfl⟩ := h
      have hrun := @run_le_max _ src s cls
      rw [List.mem_reverse, List.mem_range] at hi
      omega
  | plus cls =>
      rw [choices] at h
      split at h
      · rename_i hhit
        have hlt := hit_lt hhit
        obtain ⟨i, hi, rfl⟩ := List.mem_map.mp h
        have hrun := @run_le_max _ src (s + 1) cls
        rw [List.mem_reverse, List.mem_range] at hi
        omega
      · cases h
  | lazy cls =>
      rw [choices, List.mem_map] at h
      obtain ⟨i, hi, rfl⟩ := h
      have hrun := @run_le_max _ src s cls
      rw [List.mem_range] at hi
      omega
  | optional cls =>
      rw [choices] at h
      split at h
      · rename_i hhit
        have hlt := hit_lt hhit
        rcases List.mem_cons.mp h with rfl | h
        · omega
        · rw [List.mem_singleton.mp h]
          omega
      · rw [List.mem_singleton.mp h]
        omega
  | balance b e =>
      rw [choices] at h
      split at h
      · rename_i hb
        obtain ⟨hlt, -⟩ := List.getElem?_eq_some_iff.mp hb
        have hle := balanceEnd_bounds (Option.mem_toList.mp h)
        rw [List.length_drop] at hle
        omega
      · cases h
  | frontier cls =>
      rw [choices] at h
      split at h
      · rw [List.mem_singleton.mp h]
        omega
      · cases h
  | atEnd =>
      rw [choices] at h
      split at h
      · rw [List.mem_singleton.mp h]
        omega
      · cases h

omit [DecidableEq α] [Inhabited α] in
theorem named_some {i : Option Nat} {g : Group} (h : named gs i = some g) :
    g ∈ gs ∧ g.span ≠ .unfinished := by
  obtain ⟨hget, hclosed⟩ := Option.filter_eq_some_iff.mp h
  obtain ⟨j, -, hj⟩ := Option.bind_eq_some_iff.mp hget
  exact ⟨List.mem_of_getElem? hj, of_decide_eq_true hclosed⟩

omit [Inhabited α] in
theorem backEnd_bounds {i : Option Nat} {t : Nat} (h : backEnd src gs i s = some t) :
    s ≤ t ∧ t ≤ max s src.length := by
  unfold backEnd at h
  split at h
  · rename_i start n hg
    dsimp only at h
    rw [Option.ite_none_right_eq_some] at h
    obtain ⟨⟨hlen, hpre⟩, h⟩ := h
    obtain rfl := Option.some.inj h
    have hle := hpre.length_le
    rw [hlen, List.length_drop] at hle
    omega
  · cases h

theorem bounds_of_paths (hb : Before s gs) (hs : s ≤ src.length) {x : Nat × List Group}
    (h : x ∈ paths src r gs s) : x.1 ≤ src.length ∧ Before x.1 x.2 := by
  induction r generalizing gs s with
  | nil =>
      rw [List.mem_singleton.mp h]
      exact ⟨hs, hb⟩
  | cons p r ih =>
      cases p with
      | move m =>
          obtain ⟨t, ht, hx⟩ := List.mem_flatMap.mp h
          obtain ⟨hle, hmax⟩ := choices_bounds ht
          exact ih (hb.mono hle) (by omega) hx
      | openGroup => exact ih (hb.opened .unfinished nofun) hs h
      | position => exact ih (hb.opened .position nofun) hs h
      | closeGroup =>
          rw [paths] at h
          split at h
          · rename_i l hl
            exact ih (hb.closed l) hs h
          · cases h
      | back i =>
          rw [paths] at h
          split at h
          · rename_i t ht
            obtain ⟨hle, hmax⟩ := backEnd_bounds ht
            exact ih (hb.mono hle) (by omega) h
          · cases h
      | broken => cases h
      | unbalanced => cases h

omit [DecidableEq α] [Inhabited α] in
theorem shape_open (gs : List Group) (s : Nat) :
    shape (gs ++ [⟨s, .unfinished⟩]) = shape gs ++ [false] := List.map_append

omit [DecidableEq α] [Inhabited α] in
theorem shape_position (gs : List Group) (s : Nat) :
    shape (gs ++ [⟨s, .position⟩]) = shape gs ++ [true] := List.map_append

theorem closed_of_paths {max : Nat} (hwf : wellFormed max (shape gs) r = true)
    {x : Nat × List Group} (h : x ∈ paths src r gs s) : ∀ g ∈ x.2, g.span ≠ .unfinished := by
  induction r generalizing gs s with
  | nil =>
      rw [List.mem_singleton.mp h]
      intro g hg
      exact of_decide_eq_true (List.all_eq_true.mp hwf _ (List.mem_map_of_mem hg))
  | cons p r ih =>
      cases p with
      | move m =>
          obtain ⟨t, -, hx⟩ := List.mem_flatMap.mp h
          exact ih hwf hx
      | openGroup =>
          rw [wellFormed, Bool.and_eq_true] at hwf
          exact ih (by rw [shape_open]; exact hwf.2) h
      | position =>
          rw [wellFormed, Bool.and_eq_true] at hwf
          exact ih (by rw [shape_position]; exact hwf.2) h
      | closeGroup =>
          rw [wellFormed] at hwf
          rw [paths, lastOpen] at h
          cases hl : lastFalse (shape gs) with
          | none =>
              rw [hl] at h
              cases h
          | some l =>
              rw [hl] at h hwf
              exact ih (by rw [shape_closeAt]; exact hwf) h
      | back i =>
          rw [wellFormed, Bool.and_eq_true] at hwf
          rw [paths] at h
          split at h
          · exact ih hwf.2 h
          · cases h
      | broken => cases h
      | unbalanced => cases h

theorem isPosition_closeAt {l : Nat} (hl : lastOpen gs = some l) :
    (closeAt l s gs).map Group.isPosition = gs.map Group.isPosition := by
  have hopen := getElem?_of_lastFalse hl
  apply List.ext_getElem?
  intro i
  rw [closeAt, List.getElem?_map, List.getElem?_map, List.getElem?_modify]
  by_cases hi : l = i
  · subst hi
    rw [shape, List.getElem?_map, Option.map_eq_some_iff] at hopen
    obtain ⟨g, hg, hclosed⟩ := hopen
    have hspan : g.span = .unfinished := by simpa [Group.isClosed] using hclosed
    simp [hg, Group.isPosition, hspan]
  · simp [hi]

theorem kinds_of_paths {x : Nat × List Group} (h : x ∈ paths src r gs s) :
    x.2.map Group.isPosition = gs.map Group.isPosition ++ kinds r := by
  induction r generalizing gs s with
  | nil =>
      rw [List.mem_singleton.mp h]
      exact (List.append_nil _).symm
  | cons p r ih =>
      cases p with
      | move m =>
          obtain ⟨t, -, hx⟩ := List.mem_flatMap.mp h
          exact ih hx
      | openGroup =>
          rw [ih h, List.map_append, List.append_assoc]
          rfl
      | position =>
          rw [ih h, List.map_append, List.append_assoc]
          rfl
      | closeGroup =>
          rw [paths] at h
          split at h
          · rename_i l hl
            rw [ih h, isPosition_closeAt hl]
            rfl
          · cases h
      | back i =>
          rw [paths] at h
          split at h
          · exact ih h
          · cases h
      | broken => cases h
      | unbalanced => cases h

end

end ErSdk.Backtracking
