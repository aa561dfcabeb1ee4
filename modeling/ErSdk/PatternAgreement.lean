import ErSdk.PatternTrials

namespace ErSdk.PatternAgreement

open Pmatch Patterns Backtracking PatternItems PatternTrials

/-- A computation that returns has made none of the places' mistakes and has this value, and one
that does not return has come to a place where it makes a mistake. -/
def Answers {β : Type} (src : List UInt8) (P : Place → Prop) (v : β) : Except Fault β → Prop
  | .ok b => (∀ x f, P x → ¬ Stops src x f) ∧ b = v
  | .error f => ∃ x, P x ∧ Stops src x f

section

variable {β γ : Type} {src : List UInt8} {P Q : Place → Prop} {v : β} {w : γ} {e : Except Fault β}

theorem Answers.stop {x : Place} {f : Fault} (hx : P x) (hstop : Stops src x f) :
    Answers src P v (.error f) := ⟨x, hx, hstop⟩

theorem Answers.of (h : Answers src P v e) (hPQ : ∀ x, P x → Q x)
    (hQP : ∀ x, Q x → P x ∨ ∀ f, ¬ Stops src x f) : Answers src Q v e := by
  cases e with
  | error f =>
      obtain ⟨x, hx, hstop⟩ := h
      exact ⟨x, hPQ x hx, hstop⟩
  | ok b =>
      refine ⟨fun x f hx => ?_, h.2⟩
      rcases hQP x hx with hP | hharmless
      · exact h.1 x f hP
      · exact hharmless f

theorem Answers.bind {g : β → Except Fault γ} (h : Answers src P v e) (hg : Answers src Q w (g v)) :
    Answers src (fun x => P x ∨ Q x) w (e >>= g) := by
  cases e with
  | error f =>
      obtain ⟨x, hx, hstop⟩ := h
      exact ⟨x, Or.inl hx, hstop⟩
  | ok b =>
      obtain ⟨hclean, rfl⟩ := h
      change Answers src (fun x => P x ∨ Q x) w (g b)
      cases hb : g b with
      | error f =>
          rw [hb] at hg
          obtain ⟨x, hx, hstop⟩ := hg
          exact ⟨x, Or.inr hx, hstop⟩
      | ok c =>
          rw [hb] at hg
          exact ⟨fun x f hx => hx.elim (hclean x f) (hg.1 x f), hg.2⟩

theorem Answers.map {g : β → Except Fault γ} (h : Answers src P v e) (hg : g v = .ok w) :
    Answers src P w (e >>= g) := by
  cases e with
  | error f => exact h
  | ok b =>
      obtain ⟨hclean, rfl⟩ := h
      change Answers src P w (g b)
      rw [hg]
      exact ⟨hclean, rfl⟩

end

/-- What a match returns that leaves the captures alone when it fails. -/
def returned (ms : MatchState) : Option (Nat × MatchState) → Option Nat × MatchState
  | some r => (some r.1, r.2)
  | none => (none, ms)

/-- A matcher of the rest of a pattern answers as the ordered search for its pieces. -/
def Agrees (src : List UInt8) (k : MatchState → Nat → Result) (r : List (Piece UInt8)) : Prop :=
  ∀ gs s, Before s gs → Fit src r gs s →
    Answers src (Tried src r gs s) (returned (stateOf gs) (found src r gs s)) (k (stateOf gs) s)

section

variable {src : List UInt8} {k : MatchState → Nat → Result} {r : List (Piece UInt8)}
  {gs : List Backtracking.Group} {s t : Nat}

theorem answers_tryAll {ts : List Nat}
    (h : ∀ t, Turn src r gs ts t →
      Answers src (Tried src r gs t) (returned (stateOf gs) (found src r gs t)) (k (stateOf gs) t)) :
    Answers src (fun x => ∃ t, Turn src r gs ts t ∧ Tried src r gs t x)
      (returned (stateOf gs) (ts.findSome? (found src r gs))) (tryAll k (stateOf gs) ts) := by
  induction ts with
  | nil =>
      refine ⟨fun x f hx => ?_, rfl⟩
      obtain ⟨t, ht, -⟩ := hx
      cases ht.mem
  | cons u ts ih =>
      have hfirst := h u (turn_cons.mpr (Or.inl rfl))
      rw [tryAll, List.findSome?_cons]
      cases hf : found src r gs u with
      | some y =>
          rw [hf] at hfirst
          refine Answers.of (hfirst.map ?_) (fun x hx => ?_) (fun x hx => ?_)
          · rfl
          · exact ⟨u, turn_cons.mpr (Or.inl rfl), hx⟩
          · obtain ⟨t, ht, hx⟩ := hx
            rcases turn_cons.mp ht with rfl | ⟨hnone, -⟩
            · exact Or.inl hx
            · rw [found_eq_none.mpr hnone] at hf
              cases hf
      | none =>
          rw [hf] at hfirst
          have hpaths := found_eq_none.mp hf
          have hrest := ih (fun t ht => h t (turn_cons.mpr (Or.inr ⟨hpaths, ht⟩)))
          refine (hfirst.bind hrest).of (fun x hx => ?_) (fun x hx => Or.inl ?_)
          · rcases hx with hx | ⟨t, ht, hx⟩
            · exact ⟨u, turn_cons.mpr (Or.inl rfl), hx⟩
            · exact ⟨t, turn_cons.mpr (Or.inr ⟨hpaths, ht⟩), hx⟩
          · obtain ⟨t, ht, hx⟩ := hx
            rcases turn_cons.mp ht with rfl | ⟨-, ht⟩
            · exact Or.inl hx
            · exact Or.inr ⟨t, ht, hx⟩

theorem Agrees.choices (h : Agrees src k r) {m : Move UInt8} (hb : Before s gs)
    (hfit : Fit src (.move m :: r) gs s) (hstops : ∀ f, ¬ Stops src ⟨.move m :: r, gs, s⟩ f)
    (hskip : ∀ cls, m = .optional cls → hit src cls s = true) :
    Answers src (Tried src (.move m :: r) gs s)
      (returned (stateOf gs) (found src (.move m :: r) gs s))
      (tryAll k (stateOf gs) (choices src m s)) := by
  rw [found_move]
  refine (answers_tryAll (fun t ht => ?_)).of (fun x hx => ?_) (fun x hx => ?_)
  · exact h gs t (hb.mono (choices_bounds ht.mem).1) (hfit.move ht)
  · obtain ⟨t, ht, hx⟩ := hx
    exact .move ht hx
  · cases hx with
    | here => exact Or.inr hstops
    | move ht hx => exact Or.inl ⟨_, ht, hx⟩
    | skip hhit _ =>
        rw [hskip _ rfl] at hhit
        cases hhit

/-- An optional item whose place is taken by another byte: the rest is tried one byte further,
and what that gives is dropped. -/
theorem Agrees.skipped (h : Agrees src k r) {cls : UInt8 → Bool} (hb : Before s gs)
    (hfit : Fit src (.move (.optional cls) :: r) gs s) (hhit : hit src cls s = false) :
    Answers src (Tried src (.move (.optional cls) :: r) gs s)
      (returned (stateOf gs) (found src (.move (.optional cls) :: r) gs s))
      (k (stateOf gs) (s + 1) >>= fun x => k x.2 s) := by
  have hchoices : Backtracking.choices src (.optional cls) s = [s] := by
    rw [Backtracking.choices, if_neg (by rw [hhit]; exact Bool.false_ne_true)]
  have hturn : Turn src r gs (Backtracking.choices src (.optional cls) s) s := by
    rw [hchoices]
    exact turn_cons.mpr (Or.inl rfl)
  have hstate : (returned (stateOf gs) (found src r gs (s + 1))).2 = stateOf gs := by
    cases hf : firstPath src r gs (s + 1) with
    | none =>
        rw [found, hf]
        rfl
    | some y =>
        have hmoves : r.all Piece.isMove = true := by
          by_contra hne
          refine hfit.calm _ (.here _ gs s) ⟨hhit, Bool.eq_false_iff.mpr hne, fun hnone => ?_⟩
          rw [firstPath_eq_none.mpr hnone] at hf
          cases hf
        have hgroups := groups_of_moves hmoves (List.mem_of_head? hf)
        rw [found, hf]
        exact congrArg stateOf hgroups
  have hnext := h gs (s + 1) (hb.mono (Nat.le_succ s)) (hfit.skip hhit)
  have hhere := h gs s hb (hfit.move hturn)
  rw [found_move, hchoices, List.findSome?_singleton]
  refine Answers.of (hnext.bind (Q := Tried src r gs s) ?_) (fun x hx => ?_) (fun x hx => ?_)
  · rw [hstate]
    exact hhere
  · rcases hx with hx | hx
    · exact .skip hhit hx
    · exact .move hturn hx
  · cases hx with
    | here => exact Or.inr (fun _ => id)
    | move ht hx =>
        rw [hchoices] at ht
        obtain rfl := List.mem_singleton.mp ht.mem
        exact Or.inl (Or.inr hx)
    | skip _ hx => exact Or.inl (Or.inl hx)

theorem Agrees.startCapture (h : Agrees src k r) {p : Piece UInt8} {span : Span} {what : Int}
    (hcapture : captureOf ⟨s, span⟩ = ⟨s, what⟩) (hb : Before s (gs ++ [⟨s, span⟩]))
    (hfit : Fit src r (gs ++ [⟨s, span⟩]) s)
    (hstops : ∀ f, Stops src ⟨p :: r, gs, s⟩ f ↔ f = .capture ∧ luaMaxcaptures ≤ gs.length)
    (htried : ∀ x, Tried src (p :: r) gs s x ↔
      x = ⟨p :: r, gs, s⟩ ∨ Tried src r (gs ++ [⟨s, span⟩]) s x)
    (hpaths : paths src (p :: r) gs s = paths src r (gs ++ [⟨s, span⟩]) s) :
    Answers src (Tried src (p :: r) gs s) (returned (stateOf gs) (found src (p :: r) gs s))
      (Pmatch.startCapture k (stateOf gs) s what) := by
  have hlevel : (stateOf gs).level = gs.length := List.length_map _
  have hstate : (⟨(stateOf gs).capture ++ [⟨s, what⟩]⟩ : MatchState) =
      stateOf (gs ++ [⟨s, span⟩]) := by
    rw [← hcapture]
    simp [stateOf]
  have hfound : found src (p :: r) gs s = found src r (gs ++ [⟨s, span⟩]) s := by
    rw [found, found, firstPath, firstPath, hpaths]
  unfold Pmatch.startCapture
  rw [hlevel, hstate, hfound]
  by_cases hmany : luaMaxcaptures ≤ gs.length
  · rw [if_pos hmany]
    exact .stop (.here _ gs s) ((hstops _).mpr ⟨rfl, hmany⟩)
  · rw [if_neg hmany]
    refine Answers.of ((h _ s hb hfit).map ?_) (fun x hx => ?_) (fun x hx => ?_)
    · cases found src r (gs ++ [⟨s, span⟩]) s with
      | some y => rfl
      | none =>
          rw [returned, ← hstate]
          change Except.ok (none, MatchState.mk (List.dropLast _)) = _
          rw [List.dropLast_concat]
          rfl
    · exact (htried x).mpr (Or.inr hx)
    · rcases (htried x).mp hx with rfl | hx
      · exact Or.inr (fun f hstop => hmany ((hstops f).mp hstop).2)
      · exact Or.inl hx

theorem agrees_openGroup (h : Agrees src k r) :
    Agrees src (fun ms s => startCapture k ms s capUnfinished) (.openGroup :: r) := by
  intro gs s hb hfit
  refine h.startCapture rfl (hb.opened .unfinished nofun) hfit.openGroup
    (fun _ => Iff.rfl) (fun x => ⟨fun hx => ?_, ?_⟩) rfl
  · cases hx with
    | here => exact Or.inl rfl
    | openGroup hx => exact Or.inr hx
  · rintro (rfl | hx)
    · exact .here _ gs s
    · exact .openGroup hx

theorem agrees_position (h : Agrees src k r) :
    Agrees src (fun ms s => startCapture k ms s capPosition) (.position :: r) := by
  intro gs s hb hfit
  refine h.startCapture rfl (hb.opened .position nofun) hfit.position
    (fun _ => Iff.rfl) (fun x => ⟨fun hx => ?_, ?_⟩) rfl
  · cases hx with
    | here => exact Or.inl rfl
    | position hx => exact Or.inr hx
  · rintro (rfl | hx)
    · exact .here _ gs s
    · exact .position hx

theorem capture_stateOf (gs : List Backtracking.Group) (i : Nat) :
    (stateOf gs).capture[i]? = (gs[i]?).map captureOf := List.getElem?_map

theorem captureOf_unfinished {g : Backtracking.Group} :
    (captureOf g).len = capUnfinished ↔ g.span = .unfinished := by
  unfold captureOf capUnfinished capPosition
  cases g.span with
  | unfinished => simp
  | position => exact iff_of_false nofun nofun
  | text n =>
      refine iff_of_false ?_ nofun
      dsimp only
      omega

theorem captureToClose_stateOf (gs : List Backtracking.Group) :
    captureToClose (stateOf gs) = lastOpen gs := by
  unfold captureToClose lastOpen lastFalse MatchState.level
  have hlen : (stateOf gs).capture.length = (shape gs).length := by simp [stateOf, shape]
  rw [hlen]
  refine congrArg (fun f => List.find? f _) (funext (fun i => ?_))
  rw [capture_stateOf, shape, List.getElem?_map]
  cases gs[i]? with
  | none => rfl
  | some g =>
      have hiff := captureOf_unfinished (g := g)
      by_cases hg : g.span = .unfinished
      · simp [hiff.mpr hg, Group.isClosed, hg]
      · simp [hg, Group.isClosed, hiff]

theorem setLen_close {l : Nat} {g : Backtracking.Group} (hl : gs[l]? = some g)
    (hstart : g.start ≤ s) :
    (stateOf gs).setLen l ((s : Int) - g.start) = stateOf (closeAt l s gs) := by
  refine congrArg MatchState.mk (List.ext_getElem? (fun i => ?_))
  have hnat : ((s - g.start : Nat) : Int) = (s : Int) - g.start := by omega
  simp only [stateOf, closeAt, List.getElem?_modify, List.getElem?_map]
  by_cases hi : l = i
  · subst hi
    simp [hl, captureOf, hnat]
  · simp [hi]

theorem setLen_open {l : Nat} {g : Backtracking.Group} (hl : gs[l]? = some g)
    (hopen : g.span = .unfinished) :
    (stateOf (closeAt l s gs)).setLen l capUnfinished = stateOf gs := by
  refine congrArg MatchState.mk (List.ext_getElem? (fun i => ?_))
  simp only [stateOf, closeAt, List.getElem?_modify, List.getElem?_map]
  by_cases hi : l = i
  · subst hi
    simp [hl, captureOf, hopen]
  · simp [hi]

theorem open_of_lastOpen {l : Nat} (hl : lastOpen gs = some l) :
    ∃ g, gs[l]? = some g ∧ g.span = .unfinished := by
  have hfalse := getElem?_of_lastFalse hl
  rw [shape, List.getElem?_map, Option.map_eq_some_iff] at hfalse
  obtain ⟨g, hg, hclosed⟩ := hfalse
  exact ⟨g, hg, by simpa [Group.isClosed] using hclosed⟩

theorem agrees_closeGroup (h : Agrees src k r) :
    Agrees src (fun ms s => endCapture k ms s) (.closeGroup :: r) := by
  intro gs s hb hfit
  dsimp only
  unfold endCapture
  rw [captureToClose_stateOf]
  cases hl : lastOpen gs with
  | none => exact .stop (.here _ gs s) ⟨rfl, hl⟩
  | some l =>
      obtain ⟨g, hg, hopen⟩ := open_of_lastOpen hl
      have hclose := setLen_close (s := s) hg (hb g (List.mem_of_getElem? hg)).1
      have hstart : (captureOf g).init = g.start := rfl
      have hfound : found src (.closeGroup :: r) gs s = found src r (closeAt l s gs) s := by
        rw [found, firstPath, paths, hl]
        rfl
      have hrest := h (closeAt l s gs) s (hb.closed l) (hfit.closeGroup hl)
      dsimp only
      rw [capture_stateOf, hg]
      dsimp only [Option.map_some]
      rw [hstart, hclose, hfound]
      refine Answers.of (hrest.map ?_) (fun x => .closeGroup hl) (fun x hx => ?_)
      · cases found src r (closeAt l s gs) s with
        | some y => rfl
        | none => exact congrArg (fun ms => Except.ok (none, ms)) (setLen_open hg hopen)
      · cases hx with
        | here =>
            refine Or.inr (fun f hstop => ?_)
            cases hl.symm.trans hstop.2
        | closeGroup hl' hx =>
            obtain rfl := Option.some.inj (hl.symm.trans hl')
            exact Or.inl hx

theorem isDigit_bounds {y : UInt8} (hy : isDigit y = true) : 48 ≤ y.toNat ∧ y.toNat ≤ 57 := by
  simpa [isDigit, UInt8.le_iff_toNat_le] using hy

theorem checkCapture_stateOf {y : UInt8} (hy : isDigit y = true) :
    checkCapture (stateOf gs) y =
      (captureIndex y).filter (fun i => (gs[i]?).any Group.isClosed) := by
  obtain ⟨hle, -⟩ := isDigit_bounds hy
  unfold checkCapture captureIndex
  dsimp only
  by_cases hzero : y = 48
  · subst hzero
    rfl
  · have hne : y.toNat ≠ 48 := fun heq => hzero (UInt8.toNat_inj.mp heq)
    have hnat : ((y.toNat : Int) - 49).toNat = y.toNat - 49 := by omega
    rw [if_neg (by omega), if_neg hzero, hnat, capture_stateOf]
    cases hg : gs[y.toNat - 49]? with
    | none => simp [Option.filter_some, hg]
    | some g =>
        have hiff := captureOf_unfinished (g := g)
        by_cases hspan : g.span = .unfinished
        · simp [Option.filter_some, hiff.mpr hspan, hg, Group.isClosed, hspan]
        · simp [Option.filter_some, hg, Group.isClosed, hspan, hiff]

/-- The comparison of a back reference with so many bytes of the subject. -/
def compareText (src : List UInt8) (s start len : Nat) : Except Fault (Option Nat) :=
  if sizeT ((src.length : Int) - s) ≥ len then
    if len = 0 then .ok (some s)
    else if s + len ≤ src.length ∧ start + len ≤ src.length then
      if (src.drop start).take len = (src.drop s).take len then .ok (some (s + len))
      else .ok none
    else .error .subject
  else .ok none

theorem matchCapture_named {y : UInt8} (hy : isDigit y = true) :
    matchCapture src (stateOf gs) s y =
      match named gs (captureIndex y) with
      | none => .error .capture
      | some g => compareText src s g.start (sizeT (captureOf g).len) := by
  unfold matchCapture named compareText
  rw [checkCapture_stateOf hy]
  cases captureIndex y with
  | none => rfl
  | some i =>
      cases hg : gs[i]? with
      | none => simp [Option.filter_some, hg]
      | some g =>
          have hinit : (captureOf g).init = g.start := rfl
          cases hclosed : g.isClosed with
          | false => simp [Option.filter_some, hg, hclosed]
          | true => simp [Option.filter_some, hg, hclosed, capture_stateOf, hinit]

theorem sizeT_capPosition : sizeT capPosition = 2 ^ 64 - 2 := rfl

theorem sizeT_behind (hlt : src.length < s) (hnear : s - src.length ≤ 2 ^ 64) :
    sizeT ((src.length : Int) - s) = 2 ^ 64 - (s - src.length) := by
  unfold sizeT
  omega

theorem matchCapture_stateOf (hsize : src.length < 2 ^ 64) {y : UInt8} (hy : isDigit y = true)
    {g : Backtracking.Group} (hb : Before s gs) (hg : named gs (captureIndex y) = some g)
    (hin : ¬ TextOutside src g s) :
    matchCapture src (stateOf gs) s y = .ok (backEnd src gs (captureIndex y) s) := by
  obtain ⟨hmem, hclosed⟩ := named_some hg
  have hbound := (hb g hmem).2
  rw [matchCapture_named hy, backEnd, hg]
  dsimp only
  unfold compareText
  obtain ⟨start, span⟩ := g
  cases span with
  | unfinished => exact absurd rfl hclosed
  | position => exact if_neg hin
  | text n =>
      have hend := hbound n rfl
      dsimp only at hend ⊢
      by_cases hzero : n = 0
      · subst hzero
        simp [captureOf, sizeT]
      · have hs : s ≤ src.length := Nat.not_lt.mp (fun hlt => hin ⟨hzero, hlt⟩)
        have hsub : (src.length : Int) - s = ((src.length - s : Nat) : Int) := by omega
        have hlen : sizeT (captureOf ⟨start, .text n⟩).len = n := sizeT_natCast (by omega)
        have htext : ((src.drop start).take n).length = n := by
          rw [List.length_take, List.length_drop]
          omega
        rw [hsub, sizeT_natCast (by omega), hlen, htext]
        by_cases hroom : src.length - s ≥ n
        · have hiff := @List.prefix_iff_eq_take _ ((src.drop start).take n) (src.drop s)
          rw [htext] at hiff
          rw [if_pos hroom, if_neg hzero, if_pos ⟨by omega, by omega⟩]
          by_cases heq : (src.drop start).take n = (src.drop s).take n
          · rw [if_pos heq, if_pos ⟨rfl, hiff.mpr heq⟩]
          · rw [if_neg heq, if_neg (fun hpre => heq (hiff.mp hpre.2))]
        · rw [if_neg hroom, if_neg (fun hpre => ?_)]
          have hle := hpre.2.length_le
          rw [htext, List.length_drop] at hle
          omega

theorem matchCapture_outside {p : Piece UInt8} (hsmall : Small src (p :: r) s) {y : UInt8}
    (hy : isDigit y = true) {g : Backtracking.Group} (hb : Before s gs)
    (hg : named gs (captureIndex y) = some g) (hout : TextOutside src g s) :
    matchCapture src (stateOf gs) s y = .error .subject := by
  obtain ⟨hmem, hclosed⟩ := named_some hg
  obtain ⟨hsize, hnear⟩ := hsmall
  have hbound := (hb g hmem).2
  rw [matchCapture_named hy, hg]
  dsimp only
  unfold compareText
  obtain ⟨start, span⟩ := g
  cases span with
  | unfinished => exact absurd rfl hclosed
  | position =>
      have hlen : sizeT (captureOf ⟨start, .position⟩).len = 2 ^ 64 - 2 := sizeT_capPosition
      have hlarge : sizeT capPosition ≤ sizeT ((src.length : Int) - s) := hout
      rw [sizeT_capPosition] at hlarge
      rw [hlen, if_pos hlarge, if_neg (by decide), if_neg (by omega)]
  | text n =>
      have hend := hbound n rfl
      obtain ⟨hzero, hlt⟩ := hout
      dsimp only at hend
      have hlen : sizeT (captureOf ⟨start, .text n⟩).len = n := sizeT_natCast (by omega)
      rw [sizeT_behind hlt (by omega), hlen, if_pos (by omega), if_neg hzero, if_neg (by omega)]

theorem agrees_back (hsize : src.length < 2 ^ 64) (h : Agrees src k r) {y : UInt8}
    (hy : isDigit y = true) :
    Agrees src (fun ms s => do
      match ← matchCapture src ms s y with
      | none => .ok (none, ms)
      | some s => k ms s) (.back (captureIndex y) :: r) := by
  intro gs s hb hfit
  dsimp only
  cases hg : named gs (captureIndex y) with
  | none =>
      rw [matchCapture_named hy, hg]
      refine .stop (.here _ gs s) ?_
      unfold Stops
      dsimp only
      rw [hg]
  | some g =>
      have hstops (f : Fault) : Stops src ⟨.back (captureIndex y) :: r, gs, s⟩ f ↔
          f = .subject ∧ TextOutside src g s := by
        unfold Stops
        dsimp only
        rw [hg]
      by_cases hout : TextOutside src g s
      · have hhere := (hstops _).mpr ⟨rfl, hout⟩
        have hsmall := hfit.near.resolve_right (fun hclean => hclean _ (.here _ gs s) hhere)
        rw [matchCapture_outside hsmall hy hb hg hout]
        exact .stop (.here _ gs s) hhere
      · have hclean (f : Fault) : ¬ Stops src ⟨.back (captureIndex y) :: r, gs, s⟩ f :=
          fun hstop => hout ((hstops f).mp hstop).2
        rw [matchCapture_stateOf hsize hy hb hg hout, found, firstPath, paths]
        cases hback : backEnd src gs (captureIndex y) s with
        | none =>
            refine ⟨fun x f hx => ?_, rfl⟩
            cases hx with
            | here => exact hclean f
            | back ht _ =>
                rw [hback] at ht
                cases ht
        | some t =>
            have hrest := h gs t (hb.mono (backEnd_bounds hback).1) (hfit.back hback)
            refine Answers.of hrest (fun x => .back hback) (fun x hx => ?_)
            cases hx with
            | here => exact Or.inr hclean
            | back ht hx =>
                obtain rfl := Option.some.inj (hback.symm.trans ht)
                exact Or.inl hx

theorem balanced_eq {b e : UInt8} {depth s : Nat} (hd : 0 < depth) (l : List UInt8) :
    balanced b e depth s l = balanceEnd b e depth s l := by
  induction l generalizing depth s with
  | nil => rfl
  | cons c rest ih =>
      rw [balanced, balanceEnd]
      by_cases hc : c = e
      · rw [if_pos hc, if_pos hc]
        by_cases h1 : depth = 1
        · rw [if_pos (by omega), if_pos h1]
        · rw [if_neg (by omega), if_neg h1]
          exact ih (by omega)
      · rw [if_neg hc, if_neg hc, ih (by omega), ih hd]

theorem matchBalance_eq {b e : UInt8} (t : List UInt8) {s : Nat} (hs : s < src.length) :
    matchBalance src s (b :: e :: t) =
      .ok (if src[s]? = some b then balanceEnd b e 1 (s + 1) (src.drop (s + 1)) else none) := by
  have hget : src[s]? = some src[s] := List.getElem?_eq_getElem hs
  unfold matchBalance readSubject
  rw [hget]
  change (if src[s] ≠ b then Except.ok none else
    Except.ok (balanced b e 1 (s + 1) (src.drop (s + 1)))) = _
  rw [balanced_eq (by decide)]
  by_cases hc : src[s] = b
  · rw [if_neg (not_not.mpr hc), if_pos (congrArg some hc)]
  · rw [if_pos hc, if_neg (fun heq => hc (Option.some.inj heq))]

theorem readSubject_outside (hs : src.length ≤ s) : readSubject src s = .error .subject := by
  unfold readSubject
  rw [List.getElem?_eq_none hs]

theorem agrees_balance (h : Agrees src k r) {b e : UInt8} (t : List UInt8) :
    Agrees src (fun ms s => do
      match ← matchBalance src s (b :: e :: t) with
      | none => .ok (none, ms)
      | some s => k ms s) (.move (.balance b e) :: r) := by
  intro gs s hb hfit
  dsimp only
  by_cases hs : src.length ≤ s
  · rw [matchBalance, readSubject_outside hs]
    exact .stop (.here _ gs s) ⟨rfl, hs⟩
  · have hanswers := h.choices hb hfit (fun f hstop => hs hstop.2) nofun
    rw [Backtracking.choices] at hanswers
    rw [matchBalance_eq t (Nat.not_le.mp hs)]
    by_cases hc : src[s]? = some b
    · rw [if_pos hc] at hanswers ⊢
      cases hend : balanceEnd b e 1 (s + 1) (src.drop (s + 1)) with
      | none =>
          rw [hend] at hanswers
          exact hanswers
      | some u =>
          rw [hend, Option.toList_some, tryAll_one] at hanswers
          exact hanswers
    · rw [if_neg hc] at hanswers ⊢
      exact hanswers

theorem frontier_rest {p ep : List UInt8} {c : UInt8}
    (hin : matchBracketClass c p ep = true ∨ s < src.length) :
    (if matchBracketClass c p ep = true then Except.ok false
      else readSubject src s >>= fun d => Except.ok (matchBracketClass d p ep)) =
      .ok (decide (matchBracketClass c p ep = false ∧
        matchBracketClass (src.getD s default) p ep = true)) := by
  cases hc : matchBracketClass c p ep with
  | true => simp
  | false =>
      rw [hc] at hin
      rw [readSubject_eq (hin.resolve_left nofun)]
      change Except.ok (matchBracketClass _ p ep) = _
      simp

theorem atFrontier_eq {p ep : List UInt8}
    (hin : ¬ FrontierOutside src (fun c => matchBracketClass c p ep) s) :
    atFrontier src s p ep = .ok (decide (matchBracketClass (before src s) p ep = false ∧
      matchBracketClass (src.getD s default) p ep = true)) := by
  have hle : s ≤ src.length := Nat.not_lt.mp (fun hlt => hin (Or.inl hlt))
  have hclass : matchBracketClass (before src s) p ep = true ∨ s < src.length := by
    rcases Nat.eq_or_lt_of_le hle with heq | hlt
    · refine Or.inl (eq_true_of_ne_false (fun hfalse => hin (Or.inr ⟨heq, hfalse⟩)))
    · exact Or.inr hlt
  rw [← frontier_rest hclass]
  unfold atFrontier before
  by_cases hs : s = 0
  · rw [if_pos hs, if_pos hs]
    rfl
  · rw [if_neg hs, if_neg hs, readSubject_eq (by omega)]
    rfl

theorem atFrontier_outside {p ep : List UInt8}
    (hout : FrontierOutside src (fun c => matchBracketClass c p ep) s) :
    atFrontier src s p ep = .error .subject := by
  unfold atFrontier
  rcases hout with hlt | ⟨heq, hclass⟩
  · rw [if_neg (by omega), readSubject_outside (by omega)]
    rfl
  · unfold before at hclass
    by_cases hs : s = 0
    · rw [if_pos hs] at hclass ⊢
      change (if matchBracketClass default p ep = true then _ else _) = _
      rw [show matchBracketClass default p ep = false from hclass, readSubject_outside (Nat.le_of_eq heq.symm)]
      rfl
    · rw [if_neg hs] at hclass ⊢
      rw [readSubject_eq (by omega), readSubject_outside (Nat.le_of_eq heq.symm)]
      change (if matchBracketClass (src.getD (s - 1) default) p ep = true then _ else _) = _
      rw [show matchBracketClass (src.getD (s - 1) default) p ep = false from hclass]
      rfl

theorem agrees_frontier (h : Agrees src k r) (p ep : List UInt8) :
    Agrees src (fun ms s => do
      if ← atFrontier src s p ep then k ms s else .ok (none, ms))
      (.move (.frontier (fun c => matchBracketClass c p ep)) :: r) := by
  intro gs s hb hfit
  dsimp only
  by_cases hout : FrontierOutside src (fun c => matchBracketClass c p ep) s
  · rw [atFrontier_outside hout]
    exact .stop (.here _ gs s) ⟨rfl, hout⟩
  · have hanswers := h.choices hb hfit (fun f hstop => hout hstop.2) nofun
    rw [Backtracking.choices] at hanswers
    rw [atFrontier_eq hout]
    by_cases hand : matchBracketClass (before src s) p ep = false ∧
        matchBracketClass (src.getD s default) p ep = true
    · rw [if_pos hand, tryAll_one] at hanswers
      rw [decide_eq_true hand]
      exact hanswers
    · rw [if_neg hand] at hanswers
      rw [decide_eq_false hand]
      exact hanswers

theorem agrees_nil : Agrees src (fun ms s => .ok (some s, ms)) [] := by
  intro gs s hb hfit
  refine ⟨fun x f hx => ?_, rfl⟩
  cases hx
  exact id

theorem agrees_atEnd : Agrees src
    (fun ms s => if s = src.length then .ok (some s, ms) else .ok (none, ms)) [.move .atEnd] := by
  intro gs s hb hfit
  have hanswers := agrees_nil.choices hb hfit (fun _ => id) nofun
  rw [Backtracking.choices] at hanswers
  dsimp only
  by_cases hs : s = src.length
  · rw [if_pos hs] at hanswers ⊢
    exact hanswers
  · rw [if_neg hs] at hanswers ⊢
    exact hanswers

theorem agrees_broken : Agrees src (fun _ _ => .error .pattern) [.broken] :=
  fun gs s _ _ => Answers.stop (.here _ gs s) rfl

theorem agrees_unbalanced : Agrees src (fun _ _ => .error .aborted) [.unbalanced] :=
  fun gs s _ _ => Answers.stop (.here _ gs s) rfl

section

variable {k : List UInt8 → MatchState → Nat → Result} {p ep q : List UInt8}

theorem agrees_repeated (h : Agrees src (k (itemRest ep)) r) :
    Agrees src (fun ms s => matchRepeated src k ms s p ep) (.move (itemMove p ep) :: r) := by
  intro gs s hb hfit
  dsimp only
  by_cases hskip : Skipped src p ep s
  · rw [itemRest_repetition (by rw [hskip.1]; rfl)] at h
    rw [itemMove_optional hskip.1] at hfit ⊢
    rw [matchRepeated_skipped hskip]
    exact h.skipped hb hfit hskip.2
  · rw [matchRepeated_choices hskip]
    refine h.choices hb hfit (fun f => ?_) (fun cls hcls => ?_)
    · unfold itemMove
      dsimp only
      split_ifs <;> exact id
    · obtain ⟨h63, rfl⟩ := optional_of_itemMove hcls
      exact eq_true_of_ne_false (fun hhit => hskip ⟨h63, hhit⟩)

theorem agrees_item {next : List UInt8 → List (Piece UInt8)} {n : Nat}
    (hk : ∀ q, q.length < n → Agrees src (k q) (next q)) (hp : p.length ≤ n) :
    Agrees src (fun ms s => matchItem src k ms s p) (itemElements next p) := by
  unfold itemElements matchItem
  cases hend : classend p with
  | error f =>
      obtain rfl := classend_error hend
      exact agrees_broken
  | ok ep =>
      have hlen := classend_length hend
      have hrest := itemRest_length ep
      exact agrees_repeated (hk (itemRest ep) (by omega))

theorem matchEscape_frontier {ms : MatchState} (h : q.headD 0 = 102) :
    matchEscape src k ms s q =
      (frontierEnd q.tail >>= fun ep => do
        if ← atFrontier src s q.tail ep then k ep ms s else .ok (none, ms)) := by
  unfold matchEscape frontierEnd
  dsimp only
  rw [if_neg (by rw [h]; decide), if_pos h]
  split
  · rfl
  · rfl

theorem agrees_escape (hsize : src.length < 2 ^ 64) {next : List UInt8 → List (Piece UInt8)}
    {n : Nat} (hk : ∀ q, q.length < n → Agrees src (k q) (next q)) (hq : q.length < n) :
    Agrees src (fun ms s => matchEscape src k ms s q) (escapeElements next q) := by
  intro gs s
  have htail : q.tail.length ≤ q.length := (List.tail_suffix q).length_le
  unfold escapeElements
  dsimp only
  by_cases h98 : q.headD 0 = 98
  · rw [if_pos h98]
    unfold matchEscape
    dsimp only
    rw [if_pos h98]
    match hqt : q.tail with
    | [] => exact agrees_unbalanced gs s
    | [b] => exact agrees_unbalanced gs s
    | b :: e :: t =>
        have hdrop : q.drop 3 = t := by
          rw [show 3 = 1 + 2 from rfl, ← List.drop_drop, List.drop_one, hqt]
          rfl
        have hlen : t.length + 2 = q.tail.length := by
          rw [hqt]
          rfl
        rw [hdrop]
        exact agrees_balance (hk t (by omega)) t gs s
  · rw [if_neg h98]
    by_cases h102 : q.headD 0 = 102
    · rw [if_pos h102, matchEscape_frontier h102]
      cases hend : frontierEnd q.tail with
      | error f =>
          obtain rfl := frontierEnd_error hend
          exact agrees_broken gs s
      | ok ep =>
          have hlen := frontierEnd_length hend
          exact agrees_frontier (hk ep (by omega)) q.tail ep gs s
    · rw [if_neg h102]
      by_cases hdigit : isDigit (q.headD 0) = true
      · rw [if_pos hdigit]
        unfold matchEscape
        dsimp only
        rw [if_neg h98, if_neg h102, if_pos hdigit]
        exact agrees_back hsize (hk q.tail (by omega)) hdigit gs s
      · rw [if_neg hdigit]
        unfold matchEscape
        dsimp only
        rw [if_neg h98, if_neg h102, if_neg hdigit]
        have hlen : (lEsc :: q).length ≤ n := Nat.succ_le_of_lt hq
        exact agrees_item hk hlen gs s

end

theorem matchPattern_agrees (hsize : src.length < 2 ^ 64) {fuel : Nat} {p : List UInt8}
    (hp : p.length < fuel) : Agrees src (matchPattern src fuel p) (elements fuel p) := by
  induction fuel generalizing p with
  | zero => cases hp
  | succ fuel ih =>
      cases p with
      | nil => exact agrees_nil
      | cons x q =>
          intro gs s
          have hq : q.length < fuel := Nat.lt_of_succ_lt_succ hp
          have htail : q.tail.length < fuel := (List.tail_suffix q).length_le.trans_lt hq
          rw [matchPattern, elements]
          by_cases h40 : x = 40
          · rw [if_pos h40, if_pos h40]
            by_cases h41 : q.headD 0 = 41
            · rw [if_pos h41, if_pos h41]
              exact agrees_position (ih htail) gs s
            · rw [if_neg h41, if_neg h41]
              exact agrees_openGroup (ih hq) gs s
          · rw [if_neg h40, if_neg h40]
            by_cases h41 : x = 41
            · rw [if_pos h41, if_pos h41]
              exact agrees_closeGroup (ih hq) gs s
            · rw [if_neg h41, if_neg h41]
              by_cases hesc : x = lEsc
              · rw [if_pos hesc, if_pos hesc]
                exact agrees_escape hsize (fun _ hlt => ih hlt) hq gs s
              · rw [if_neg hesc, if_neg hesc]
                by_cases hend : x = 36 ∧ q = []
                · rw [if_pos hend, if_pos hend]
                  exact agrees_atEnd gs s
                · rw [if_neg hend, if_neg hend]
                  have hlen : (x :: q).length ≤ fuel := Nat.succ_le_of_lt hq
                  exact agrees_item (fun _ hlt => ih hlt) hlen gs s

theorem matchFrom_answers (hsize : src.length < 2 ^ 64) {p : List UInt8}
    {ps : List (Piece UInt8)} (hps : elements (p.length + 1) p = ps) {anchor : Bool} {n s : Nat}
    (hn : anchor = true → 0 < n) (hfit : ∀ t, Turn src ps [] (starts anchor s n) t → Fit src ps [] t) :
    Answers src (Comes src ps (starts anchor s n))
      ((firstMatch src ps (starts anchor s n)).map stateOf) (matchFrom src p anchor n s) := by
  induction n generalizing s with
  | zero =>
      cases anchor with
      | true => exact absurd (hn rfl) (Nat.lt_irrefl 0)
      | false => exact ⟨fun x f hx => absurd hx not_comes_nil, rfl⟩
  | succ n ih =>
      rw [starts_succ] at hfit ⊢
      have hfirst := matchPattern_agrees hsize (Nat.lt_succ_self p.length) [] s (fun g hg => by cases hg)
        (by rw [hps]; exact hfit s (turn_cons.mpr (Or.inl rfl)))
      rw [hps] at hfirst
      rw [matchFrom, firstMatch, List.findSome?_cons]
      cases hf : firstPath src ps [] s with
      | some y =>
          rw [found, hf] at hfirst
          refine Answers.of (hfirst.map ?_) (fun x hx => ?_) (fun x hx => ?_)
          · rfl
          · exact comes_cons.mpr (Or.inl hx)
          · rcases comes_cons.mp hx with hx | ⟨hnone, -⟩
            · exact Or.inl hx
            · rw [firstPath_eq_none.mpr hnone] at hf
              cases hf
      | none =>
          rw [found, hf] at hfirst
          have hpaths := firstPath_eq_none.mp hf
          cases anchor with
          | true =>
              refine Answers.of (hfirst.map ?_) (fun x hx => ?_) (fun x hx => ?_)
              · rfl
              · exact comes_cons.mpr (Or.inl hx)
              · rcases comes_cons.mp hx with hx | ⟨-, hx⟩
                · exact Or.inl hx
                · exact absurd hx not_comes_nil
          | false =>
              have hrest := @ih (s + 1) (fun h => absurd h Bool.false_ne_true)
                (fun t ht => hfit t (turn_cons.mpr (Or.inr ⟨hpaths, ht⟩)))
              refine Answers.of (hfirst.bind hrest) (fun x hx => ?_) (fun x hx => Or.inl ?_)
              · exact comes_cons.mpr (hx.imp_right (fun hx => ⟨hpaths, hx⟩))
              · exact (comes_cons.mp hx).imp_right And.right

end

/-- str_find makes the plain search. -/
def Plain (p : List UInt8) (explicit : Bool) : Prop := explicit = true ∨ ∀ c ∈ p, c ∉ specials

theorem strFind_of_plain (src : List UInt8) {p : List UInt8} {explicit : Bool}
    (h : Plain p explicit) (initPos : Int) (len : Nat) :
    ∃ found, strFind src p explicit initPos len = .ok ⟨found, none⟩ := by
  have hplain : (explicit || !p.any (fun c => c ∈ specials)) = true := by
    simpa [Plain] using h
  unfold strFind
  dsimp only
  rw [if_pos hplain]
  exact ⟨_, rfl⟩

theorem strFind_answers {src p : List UInt8} (hsize : src.length < 2 ^ 64) {explicit : Bool}
    (hplain : ¬ Plain p explicit) {initPos : Int} {len : Nat}
    (hfit : ∀ t, Turn src (patternElements p) [] (tried src p initPos) t →
      Fit src (patternElements p) [] t) :
    Answers src (Comes src (patternElements p) (tried src p initPos))
      (report ((firstMatch src (patternElements p) (tried src p initPos)).map stateOf) len)
      (strFind src p explicit initPos len) := by
  have hinit := clampInit_le initPos src.length
  have hspecial : ¬ (explicit || !p.any (fun c => c ∈ specials)) = true := by
    simpa [Plain] using hplain
  have hfrom := matchFrom_answers hsize (p := if p.headD 0 = 94 then p.tail else p) rfl
    (fun _ => by omega) hfit
  unfold strFind
  dsimp only
  rw [if_neg hspecial]
  exact hfrom.map rfl

end ErSdk.PatternAgreement
