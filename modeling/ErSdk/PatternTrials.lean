import ErSdk.PatternItems

namespace ErSdk.PatternTrials

open Pmatch Patterns Backtracking PatternItems

/-- Where the class of a frontier ends. A sole escape is one without a byte behind it. -/
def frontierEnd (p : List UInt8) : Except Fault (List UInt8) :=
  if p = [lEsc] then .ok [] else classend p

def captureIndex (y : UInt8) : Option Nat := if y = 48 then none else some (y.toNat - 49)

def itemElements (next : List UInt8 → List (Piece UInt8)) (p : List UInt8) : List (Piece UInt8) :=
  match classend p with
  | .ok ep => .move (itemMove p ep) :: next (itemRest ep)
  | .error _ => [.broken]

def escapeElements (next : List UInt8 → List (Piece UInt8)) (q : List UInt8) :
    List (Piece UInt8) :=
  let y := q.headD 0
  if y = 98 then
    match q.tail with
    | b :: e :: r => .move (.balance b e) :: next r
    | _ => [.unbalanced]
  else if y = 102 then
    match frontierEnd q.tail with
    | .ok ep => .move (.frontier (fun c => matchBracketClass c q.tail ep)) :: next ep
    | .error _ => [.broken]
  else if isDigit y then .back (captureIndex y) :: next q.tail
  else itemElements next (lEsc :: q)

/-- The pieces of any pattern, well-formed or not, up to the one it breaks off in. Fuel above the
length of the pattern is never used up. -/
def elements : Nat → List UInt8 → List (Piece UInt8)
  | 0, _ => []
  | _ + 1, [] => []
  | fuel + 1, x :: q =>
      if x = 40 then
        if q.headD 0 = 41 then .position :: elements fuel q.tail
        else .openGroup :: elements fuel q
      else if x = 41 then .closeGroup :: elements fuel q
      else if x = lEsc then escapeElements (elements fuel) q
      else if x = 36 ∧ q = [] then [.move .atEnd]
      else itemElements (elements fuel) (x :: q)

/-- The pieces of a whole pattern, behind the anchor if it starts with one. -/
def patternElements (p : List UInt8) : List (Piece UInt8) :=
  let q := if p.headD 0 = 94 then p.tail else p
  elements (q.length + 1) q

def captureOf (g : Group) : Capture :=
  ⟨g.start, match g.span with
    | .unfinished => capUnfinished
    | .position => capPosition
    | .text n => n⟩

def stateOf (gs : List Group) : MatchState := ⟨gs.map captureOf⟩

/-- A place of a search: the pieces that are left there, and the groups that are made. -/
structure Place where
  rest : List (Piece UInt8)
  groups : List Group
  pos : Nat

section

variable (src : List UInt8)

/-- The turn comes to a position if there is no path from those before it. -/
def Turn (r : List (Piece UInt8)) (gs : List Group) (ts : List Nat) (t : Nat) : Prop :=
  ∃ before after, ts = before ++ t :: after ∧ ∀ u ∈ before, paths src r gs u = []

/-- The places that the search for some pieces tries, in the order of backtracking and up to its
first path. Behind an optional piece that does not match, the rest is tried one byte further,
too. -/
inductive Tried : List (Piece UInt8) → List Group → Nat → Place → Prop
  | here (r : List (Piece UInt8)) (gs : List Group) (s : Nat) : Tried r gs s ⟨r, gs, s⟩
  | move {m : Move UInt8} {r : List (Piece UInt8)} {gs : List Group} {s t : Nat} {x : Place} :
      Turn src r gs (choices src m s) t → Tried r gs t x → Tried (.move m :: r) gs s x
  | skip {cls : UInt8 → Bool} {r : List (Piece UInt8)} {gs : List Group} {s : Nat} {x : Place} :
      hit src cls s = false → Tried r gs (s + 1) x → Tried (.move (.optional cls) :: r) gs s x
  | openGroup {r : List (Piece UInt8)} {gs : List Group} {s : Nat} {x : Place} :
      Tried r (gs ++ [⟨s, .unfinished⟩]) s x → Tried (.openGroup :: r) gs s x
  | position {r : List (Piece UInt8)} {gs : List Group} {s : Nat} {x : Place} :
      Tried r (gs ++ [⟨s, .position⟩]) s x → Tried (.position :: r) gs s x
  | closeGroup {r : List (Piece UInt8)} {gs : List Group} {s l : Nat} {x : Place} :
      lastOpen gs = some l → Tried r (closeAt l s gs) s x → Tried (.closeGroup :: r) gs s x
  | back {i : Option Nat} {r : List (Piece UInt8)} {gs : List Group} {s t : Nat} {x : Place} :
      backEnd src gs i s = some t → Tried r gs t x → Tried (.back i :: r) gs s x

/-- The frontier reads the subject outside its bytes. -/
def FrontierOutside (cls : UInt8 → Bool) (s : Nat) : Prop :=
  src.length < s ∨ s = src.length ∧ cls (before src s) = false

/-- Behind the end of the subject the bytes that are left are, as a size_t, enough for a text; for
the length of a position, too, if it is not far behind. -/
def TextOutside (g : Group) (s : Nat) : Prop :=
  match g.span with
  | .unfinished => False
  | .position => sizeT capPosition ≤ sizeT ((src.length : Int) - s)
  | .text n => n ≠ 0 ∧ src.length < s

/-- What the matcher does wrong at a place. -/
def Stops (x : Place) (f : Fault) : Prop :=
  match x.rest with
  | .move (.balance _ _) :: _ => f = .subject ∧ src.length ≤ x.pos
  | .move (.frontier cls) :: _ => f = .subject ∧ FrontierOutside src cls x.pos
  | .openGroup :: _ => f = .capture ∧ luaMaxcaptures ≤ x.groups.length
  | .position :: _ => f = .capture ∧ luaMaxcaptures ≤ x.groups.length
  | .closeGroup :: _ => f = .capture ∧ lastOpen x.groups = none
  | .back i :: _ =>
      match named x.groups i with
      | none => f = .capture
      | some g => f = .subject ∧ TextOutside src g x.pos
  | .broken :: _ => f = .pattern
  | .unbalanced :: _ => f = .aborted
  | _ => False

/-- A match is dropped that has changed the groups. -/
def Drops (x : Place) : Prop :=
  match x.rest with
  | .move (.optional cls) :: r => hit src cls x.pos = false ∧ r.all Piece.isMove = false ∧
      paths src r x.groups (x.pos + 1) ≠ []
  | _ => False

def found (r : List (Piece UInt8)) (gs : List Group) (s : Nat) : Option (Nat × MatchState) :=
  (firstPath src r gs s).map (fun x => (x.1, stateOf x.2))

end

def optionals (r : List (Piece UInt8)) : Nat :=
  r.countP (fun p => match p with
    | .move (.optional _) => true
    | _ => false)

/-- The search does not leave the subject so far that a difference of positions wraps around. -/
def Small (src : List UInt8) (r : List (Piece UInt8)) (s : Nat) : Prop :=
  src.length < 2 ^ 63 ∧ src.length + 2 * (s - src.length) + 2 * optionals r < 2 ^ 64

/-- The search drops no match, and does not leave the subject, or not far. -/
structure Fit (src : List UInt8) (r : List (Piece UInt8)) (gs : List Group) (s : Nat) : Prop where
  calm : ∀ x, Tried src r gs s x → ¬ Drops src x
  near : Small src r s ∨ ∀ x, Tried src r gs s x → ¬ Stops src x .subject

/-- The places that the search from some starts tries, up to its first path. -/
def Comes (src : List UInt8) (ps : List (Piece UInt8)) (l : List Nat) (x : Place) : Prop :=
  ∃ s, Turn src ps [] l s ∧ Tried src ps [] s x

/-- The groups of the first path from the first start that has one. -/
def firstMatch (src : List UInt8) (ps : List (Piece UInt8)) (l : List Nat) : Option (List Group) :=
  l.findSome? (fun s => (firstPath src ps [] s).map Prod.snd)

section

variable {src : List UInt8} {r : List (Piece UInt8)} {gs : List Backtracking.Group} {s t : Nat}

theorem turn_cons {u : Nat} {ts : List Nat} :
    Turn src r gs (u :: ts) t ↔ t = u ∨ paths src r gs u = [] ∧ Turn src r gs ts t := by
  constructor
  · rintro ⟨before, after, heq, hnone⟩
    cases before with
    | nil => exact Or.inl (List.cons.inj heq).1.symm
    | cons v before =>
        obtain ⟨rfl, hts⟩ := List.cons.inj heq
        obtain ⟨hv, hbefore⟩ := List.forall_mem_cons.mp hnone
        exact Or.inr ⟨hv, before, after, hts, hbefore⟩
  · rintro (rfl | ⟨hu, before, after, rfl, hnone⟩)
    · exact ⟨[], ts, rfl, List.forall_mem_nil _⟩
    · exact ⟨u :: before, after, rfl, List.forall_mem_cons.mpr ⟨hu, hnone⟩⟩

theorem Turn.mem {ts : List Nat} (h : Turn src r gs ts t) : t ∈ ts := by
  obtain ⟨before, after, rfl, -⟩ := h
  exact List.mem_append_right before List.mem_cons_self

theorem found_move (m : Move UInt8) :
    found src (.move m :: r) gs s = (choices src m s).findSome? (found src r gs) := by
  unfold found
  rw [firstPath_move, List.map_findSome?]
  rfl

theorem found_eq_none : found src r gs s = none ↔ paths src r gs s = [] := by
  unfold found
  rw [Option.map_eq_none_iff, firstPath_eq_none]

theorem small_of_le {p : Piece UInt8} (h : Small src (p :: r) s) (hle : t ≤ max s src.length) :
    Small src r t := by
  obtain ⟨hsize, hsmall⟩ := h
  have hcount : optionals r ≤ optionals (p :: r) := (List.sublist_cons_self p r).countP_le
  exact ⟨hsize, by omega⟩

theorem Fit.of_tried {r' : List (Piece UInt8)} {gs' : List Group} (h : Fit src r gs s)
    (htried : ∀ x, Tried src r' gs' t x → Tried src r gs s x)
    (hsmall : Small src r s → Small src r' t) : Fit src r' gs' t :=
  ⟨fun x hx => h.calm x (htried x hx),
    h.near.imp hsmall (fun hnear x hx => hnear x (htried x hx))⟩

theorem Fit.move {m : Move UInt8} (h : Fit src (.move m :: r) gs s)
    (ht : Turn src r gs (choices src m s) t) : Fit src r gs t :=
  h.of_tried (fun _ => .move ht) (fun hs => small_of_le hs (choices_bounds ht.mem).2)

theorem Fit.skip {cls : UInt8 → Bool} (h : Fit src (.move (.optional cls) :: r) gs s)
    (hhit : hit src cls s = false) : Fit src r gs (s + 1) := by
  refine h.of_tried (fun _ => .skip hhit) (fun hs => ⟨hs.1, ?_⟩)
  have hcount : optionals (.move (.optional cls) :: r) = optionals r + 1 :=
    List.countP_cons_of_pos rfl
  have hsmall := hs.2
  omega

theorem Fit.openGroup (h : Fit src (.openGroup :: r) gs s) :
    Fit src r (gs ++ [⟨s, .unfinished⟩]) s :=
  h.of_tried (fun _ => .openGroup) (fun hs => small_of_le hs (Nat.le_max_left s _))

theorem Fit.position (h : Fit src (.position :: r) gs s) :
    Fit src r (gs ++ [⟨s, .position⟩]) s :=
  h.of_tried (fun _ => .position) (fun hs => small_of_le hs (Nat.le_max_left s _))

theorem Fit.closeGroup {l : Nat} (h : Fit src (.closeGroup :: r) gs s) (hl : lastOpen gs = some l) :
    Fit src r (Backtracking.closeAt l s gs) s :=
  h.of_tried (fun _ => .closeGroup hl) (fun hs => small_of_le hs (Nat.le_max_left s _))

theorem Fit.back {i : Option Nat} (h : Fit src (.back i :: r) gs s)
    (ht : backEnd src gs i s = some t) : Fit src r gs t :=
  h.of_tried (fun _ => .back ht) (fun hs => small_of_le hs (backEnd_bounds ht).2)

end

section

variable {p ep : List UInt8}

theorem setEnd_error {f : Fault} (h : setEnd p = .error f) : f = .pattern := by
  fun_induction setEnd p with
  | case1 => exact (Except.error.inj h).symm
  | case2 => exact (Except.error.inj h).symm
  | case3 c hc ih => exact ih h
  | case4 x p hp => cases h
  | case5 x p hp ih => exact ih h
  | case6 c p hc => cases h
  | case7 c x p hc hx ih => exact ih h

theorem classend_error {f : Fault} (h : classend p = .error f) : f = .pattern := by
  cases p with
  | nil => exact (Except.error.inj h).symm
  | cons c p =>
      unfold classend at h
      dsimp only at h
      split at h
      · cases p with
        | nil => exact (Except.error.inj h).symm
        | cons x p => cases h
      · split at h
        · cases p with
          | nil => exact (Except.error.inj h).symm
          | cons x q => exact setEnd_error h
        · cases h

theorem frontierEnd_error {f : Fault} (h : frontierEnd p = .error f) :
    f = .pattern := by
  unfold frontierEnd at h
  split at h
  · cases h
  · exact classend_error h

theorem optional_of_itemMove {cls : UInt8 → Bool} (h : itemMove p ep = .optional cls) :
    ep.headD 0 = 63 ∧ cls = fun c => singleMatch c p ep := by
  unfold itemMove at h
  dsimp only at h
  split_ifs at h with h63
  exact ⟨h63, (Move.optional.inj h).symm⟩

theorem setEnd_suffix (h : setEnd p = .ok ep) : ep <:+ p := by
  fun_induction setEnd p with
  | case1 => cases h
  | case2 => cases h
  | case3 c hc ih => cases h
  | case4 x p hp =>
      obtain rfl := Except.ok.inj h
      exact (List.tail_suffix p).trans (List.suffix_append [_, _] p)
  | case5 x p hp ih => exact (ih h).trans (List.suffix_append [_, _] p)
  | case6 c p hc =>
      obtain rfl := Except.ok.inj h
      exact List.suffix_append [_, _] p
  | case7 c x p hc hx ih => exact (ih h).trans (List.suffix_cons c (x :: p))

theorem classend_suffix {c : UInt8} (h : classend (c :: p) = .ok ep) : ep <:+ p := by
  unfold classend at h
  dsimp only at h
  split at h
  · cases p with
    | nil => cases h
    | cons x p =>
        obtain rfl := Except.ok.inj h
        exact List.suffix_cons x p
  · split at h
    · cases p with
      | nil => cases h
      | cons x q =>
          have hsuffix := setEnd_suffix h
          split at hsuffix
          · exact hsuffix.trans (List.suffix_cons x q)
          · exact hsuffix
    · obtain rfl := Except.ok.inj h
      exact List.suffix_rfl

theorem classend_length (h : classend p = .ok ep) : ep.length < p.length := by
  cases p with
  | nil => cases h
  | cons c p => exact Nat.lt_succ_of_le (classend_suffix h).length_le

theorem itemRest_length (ep : List UInt8) : (itemRest ep).length ≤ ep.length := by
  unfold itemRest
  split
  · exact (List.tail_suffix ep).length_le
  · exact Nat.le_refl _

theorem frontierEnd_length (h : frontierEnd p = .ok ep) : ep.length ≤ p.length := by
  unfold frontierEnd at h
  split at h
  · obtain rfl := Except.ok.inj h
    exact Nat.zero_le _
  · exact (classend_length h).le

theorem optionals_cons {q : Piece UInt8} {r : List (Piece UInt8)}
    (hq : ∀ cls, q ≠ .move (.optional cls)) : optionals (q :: r) = optionals r := by
  refine List.countP_cons_of_neg (fun h => ?_)
  split at h
  · exact hq _ rfl
  · cases h

theorem optionals_item {next : List UInt8 → List (Piece UInt8)} {n : Nat}
    (hnext : ∀ q, q.length < n → 2 * optionals (next q) ≤ q.length) (hp : p.length ≤ n) :
    2 * optionals (itemElements next p) ≤ p.length := by
  unfold itemElements
  cases hend : classend p with
  | error f => exact Nat.zero_le _
  | ok ep =>
      have hlen := classend_length hend
      dsimp only
      by_cases h63 : ep.headD 0 = 63
      · have hcount : optionals (.move (itemMove p ep) :: next (itemRest ep)) =
            optionals (next (itemRest ep)) + 1 := by
          rw [itemMove_optional h63]
          exact List.countP_cons_of_pos rfl
        have htail : (itemRest ep).length + 1 = ep.length := by
          rw [itemRest_repetition (by rw [h63]; rfl)]
          cases ep with
          | nil => cases h63
          | cons x ep => rfl
        have hrest := hnext (itemRest ep) (by omega)
        omega
      · have hrest := itemRest_length ep
        have hle := hnext (itemRest ep) (by omega)
        rw [optionals_cons (fun cls hcls => h63 (optional_of_itemMove (Piece.move.inj hcls)).1)]
        omega

theorem optionals_escape {next : List UInt8 → List (Piece UInt8)} {q : List UInt8} {n : Nat}
    (hnext : ∀ q, q.length < n → 2 * optionals (next q) ≤ q.length) (hq : q.length < n) :
    2 * optionals (escapeElements next q) ≤ q.length + 1 := by
  have htail : q.tail.length ≤ q.length := (List.tail_suffix q).length_le
  unfold escapeElements
  dsimp only
  split
  · split
    · rename_i b e t ht
      have hlen : t.length + 2 = q.tail.length := by rw [ht]; rfl
      have hrest : 2 * optionals (.move (.balance b e) :: next t) ≤ t.length := hnext t (by omega)
      omega
    · exact Nat.zero_le _
  · split
    · split
      · rename_i ep hend
        have hlen := frontierEnd_length hend
        exact (hnext ep (by omega)).trans (by omega)
      · exact Nat.zero_le _
    · split
      · exact (hnext q.tail (by omega)).trans (by omega)
      · exact optionals_item hnext (Nat.succ_le_of_lt hq)

theorem optionals_elements (fuel : Nat) (p : List UInt8) :
    2 * optionals (elements fuel p) ≤ p.length := by
  induction fuel generalizing p with
  | zero => exact Nat.zero_le _
  | succ fuel ih =>
      cases p with
      | nil => exact Nat.le_refl _
      | cons x q =>
          have htail : q.tail.length ≤ q.length := (List.tail_suffix q).length_le
          have hnext : ∀ q' : List UInt8, q'.length < q.length + 1 →
              2 * optionals (elements fuel q') ≤ q'.length := fun q' _ => ih q'
          rw [elements, List.length_cons]
          split
          · split
            · exact (ih q.tail).trans (by omega)
            · exact (ih q).trans (Nat.le_succ _)
          · split
            · exact (ih q).trans (Nat.le_succ _)
            · split
              · exact optionals_escape hnext (Nat.lt_succ_self _)
              · split
                · exact Nat.zero_le _
                · exact optionals_item hnext (Nat.le_refl _)

end

theorem starts_succ (anchor : Bool) (s n : Nat) :
    starts anchor s (n + 1) = s :: if anchor then [] else starts anchor (s + 1) n := by
  cases anchor with
  | true => rfl
  | false => rfl

section

variable {src : List UInt8} {ps : List (Piece UInt8)}

theorem comes_cons {s : Nat} {l : List Nat} {x : Place} : Comes src ps (s :: l) x ↔
    Tried src ps [] s x ∨ paths src ps [] s = [] ∧ Comes src ps l x := by
  constructor
  · rintro ⟨t, ht, hx⟩
    rcases turn_cons.mp ht with rfl | ⟨hnone, ht⟩
    · exact Or.inl hx
    · exact Or.inr ⟨hnone, t, ht, hx⟩
  · rintro (hx | ⟨hnone, t, ht, hx⟩)
    · exact ⟨s, turn_cons.mpr (Or.inl rfl), hx⟩
    · exact ⟨t, turn_cons.mpr (Or.inr ⟨hnone, ht⟩), hx⟩

theorem not_comes_nil {x : Place} : ¬ Comes src ps [] x := by
  rintro ⟨s, ht, -⟩
  cases ht.mem

end

end ErSdk.PatternTrials
