import ErSdk.PatternAgreement

namespace ErSdk.PatternSearch

open Pmatch Patterns Backtracking PatternItems PatternTrials PatternAgreement

def itemPieces (next : List UInt8 → Option (List (Piece UInt8))) (p : List UInt8) :
    Option (List (Piece UInt8)) :=
  match classend p with
  | .ok ep => (next (itemRest ep)).map (.move (itemMove p ep) :: ·)
  | .error _ => none

def escapePieces (next : List UInt8 → Option (List (Piece UInt8))) (q : List UInt8) :
    Option (List (Piece UInt8)) :=
  let y := q.headD 0
  if y = 98 then
    match q.tail with
    | b :: e :: r => (next r).map (.move (.balance b e) :: ·)
    | _ => none
  else if y = 102 then
    if q.tail.headD 0 = 91 then
      match classend q.tail with
      | .ok ep => (next ep).map (.move (.frontier (fun c => matchBracketClass c q.tail ep)) :: ·)
      | .error _ => none
    else none
  else if isDigit y then (next q.tail).map (.back (captureIndex y) :: ·)
  else itemPieces next (lEsc :: q)

/-- The pieces of a pattern whose sets and escapes are complete. -/
def pieces : Nat → List UInt8 → Option (List (Piece UInt8))
  | 0, _ => none
  | _ + 1, [] => some []
  | fuel + 1, x :: q =>
      if x = 40 then
        if q.headD 0 = 41 then (pieces fuel q.tail).map (.position :: ·)
        else (pieces fuel q).map (.openGroup :: ·)
      else if x = 41 then (pieces fuel q).map (.closeGroup :: ·)
      else if x = lEsc then escapePieces (pieces fuel) q
      else if x = 36 ∧ q = [] then some [.move .atEnd]
      else itemPieces (pieces fuel) (x :: q)

/-- The pieces of a whole pattern, behind the anchor if it starts with one. -/
def patternPieces (p : List UInt8) : Option (List (Piece UInt8)) :=
  let q := if p.headD 0 = 94 then p.tail else p
  pieces (q.length + 1) q

structure WellFormed (p : List UInt8) (ps : List (Piece UInt8)) : Prop where
  pieces : patternPieces p = some ps
  groups : wellFormed luaMaxcaptures [] ps = true

/-- The search does not leave the subject and drops no match. -/
def Undisturbed (src : List UInt8) (ps : List (Piece UInt8)) (l : List Nat) : Prop :=
  ∀ x, Comes src ps l x → ¬ Stops src x .subject ∧ ¬ Drops src x

def textOf (g : Group) : StringCapture :=
  ⟨g.start, match g.span with
    | .text n => n
    | _ => 0⟩

/-- str_find returns the groups of the first path, and only those. -/
def FindsFirst (src p : List UInt8) (ps : List (Piece UInt8)) (initPos : Int) (len : Nat) : Prop :=
  strFind src p false initPos len =
    .ok ⟨(firstMatch src ps (tried src p initPos)).isSome,
      (firstMatch src ps (tried src p initPos)).map (fun gs => gs.map textOf)⟩

section

variable {next : List UInt8 → Option (List (Piece UInt8))}
  {next' : List UInt8 → List (Piece UInt8)}

theorem itemElements_of_pieces (hnext : ∀ q ps, next q = some ps → next' q = ps) {p : List UInt8}
    {ps : List (Piece UInt8)} (h : itemPieces next p = some ps) : itemElements next' p = ps := by
  unfold itemPieces at h
  unfold itemElements
  cases hend : classend p with
  | ok ep =>
      rw [hend] at h
      obtain ⟨r, hr, rfl⟩ := Option.map_eq_some_iff.mp h
      exact congrArg (_ :: ·) (hnext _ _ hr)
  | error f =>
      rw [hend] at h
      cases h

theorem escapeElements_of_pieces (hnext : ∀ q ps, next q = some ps → next' q = ps) {q : List UInt8}
    {ps : List (Piece UInt8)} (h : escapePieces next q = some ps) :
    escapeElements next' q = ps := by
  unfold escapePieces at h
  unfold escapeElements
  dsimp only at h ⊢
  by_cases h98 : q.headD 0 = 98
  · rw [if_pos h98] at h ⊢
    rcases hq : q.tail with _ | ⟨b, _ | ⟨e, t⟩⟩
    · rw [hq] at h
      cases h
    · rw [hq] at h
      cases h
    · rw [hq] at h
      obtain ⟨r, hr, rfl⟩ := Option.map_eq_some_iff.mp h
      exact congrArg (_ :: ·) (hnext _ _ hr)
  · rw [if_neg h98] at h ⊢
    by_cases h102 : q.headD 0 = 102
    · rw [if_pos h102] at h ⊢
      by_cases h91 : q.tail.headD 0 = 91
      · have hne : q.tail ≠ [lEsc] := by
          intro htail
          rw [htail] at h91
          exact absurd h91 (by decide)
        rw [if_pos h91] at h
        rw [frontierEnd, if_neg hne]
        cases hend : classend q.tail with
        | ok ep =>
            rw [hend] at h
            obtain ⟨r, hr, rfl⟩ := Option.map_eq_some_iff.mp h
            exact congrArg (_ :: ·) (hnext _ _ hr)
        | error f =>
            rw [hend] at h
            cases h
      · rw [if_neg h91] at h
        cases h
    · rw [if_neg h102] at h ⊢
      by_cases hdigit : isDigit (q.headD 0) = true
      · rw [if_pos hdigit] at h ⊢
        obtain ⟨r, hr, rfl⟩ := Option.map_eq_some_iff.mp h
        rw [← hnext _ _ hr]
      · rw [if_neg hdigit] at h ⊢
        exact itemElements_of_pieces hnext h

end

theorem elements_of_pieces {fuel : Nat} {p : List UInt8} {ps : List (Piece UInt8)}
    (h : pieces fuel p = some ps) : elements fuel p = ps := by
  induction fuel generalizing p ps with
  | zero => cases h
  | succ fuel ih =>
      cases p with
      | nil => exact Option.some.inj h
      | cons x q =>
          rw [pieces] at h
          rw [elements]
          by_cases h40 : x = 40
          · rw [if_pos h40] at h ⊢
            by_cases h41 : q.headD 0 = 41
            · rw [if_pos h41] at h ⊢
              obtain ⟨r, hr, rfl⟩ := Option.map_eq_some_iff.mp h
              rw [ih hr]
            · rw [if_neg h41] at h ⊢
              obtain ⟨r, hr, rfl⟩ := Option.map_eq_some_iff.mp h
              rw [ih hr]
          · rw [if_neg h40] at h ⊢
            by_cases h41 : x = 41
            · rw [if_pos h41] at h ⊢
              obtain ⟨r, hr, rfl⟩ := Option.map_eq_some_iff.mp h
              rw [ih hr]
            · rw [if_neg h41] at h ⊢
              by_cases hesc : x = lEsc
              · rw [if_pos hesc] at h ⊢
                exact escapeElements_of_pieces (fun _ _ hr => ih hr) h
              · rw [if_neg hesc] at h ⊢
                by_cases hend : x = 36 ∧ q = []
                · rw [if_pos hend] at h ⊢
                  exact Option.some.inj h
                · rw [if_neg hend] at h ⊢
                  exact itemElements_of_pieces (fun _ _ hr => ih hr) h

theorem patternElements_of_pieces {p : List UInt8} {ps : List (Piece UInt8)}
    (h : patternPieces p = some ps) : patternElements p = ps := elements_of_pieces h

section

variable {src : List UInt8} {r : List (Piece UInt8)} {gs : List Backtracking.Group} {s : Nat}
  {x : Place}

theorem wellFormed_of_tried (hwf : wellFormed luaMaxcaptures (shape gs) r = true)
    (hx : Tried src r gs s x) : wellFormed luaMaxcaptures (shape x.groups) x.rest = true := by
  induction hx with
  | here => exact hwf
  | move _ _ ih => exact ih hwf
  | skip _ _ ih => exact ih hwf
  | openGroup _ ih =>
      rw [wellFormed, Bool.and_eq_true] at hwf
      exact ih (by rw [shape_open]; exact hwf.2)
  | position _ ih =>
      rw [wellFormed, Bool.and_eq_true] at hwf
      exact ih (by rw [shape_position]; exact hwf.2)
  | closeGroup hl _ ih =>
      unfold lastOpen at hl
      rw [wellFormed, hl] at hwf
      exact ih (by rw [shape_closeAt]; exact hwf)
  | back _ _ ih =>
      rw [wellFormed, Bool.and_eq_true] at hwf
      exact ih hwf.2

theorem subject_of_stops {f : Fault} (hwf : wellFormed luaMaxcaptures (shape x.groups) x.rest = true)
    (h : Stops src x f) : f = .subject := by
  obtain ⟨rest, gs, s⟩ := x
  have hlen : (shape gs).length = gs.length := List.length_map _
  unfold Stops at h
  dsimp only at h hwf
  split at h
  · exact h.1
  · exact h.1
  · rw [wellFormed, Bool.and_eq_true, decide_eq_true_iff] at hwf
    omega
  · rw [wellFormed, Bool.and_eq_true, decide_eq_true_iff] at hwf
    omega
  · rw [lastOpen] at h
    rw [wellFormed, h.2] at hwf
    cases hwf
  · rename_i i r
    rw [wellFormed, Bool.and_eq_true, decide_eq_true_iff] at hwf
    split at h
    · rename_i hnone
      obtain ⟨j, rfl, hj⟩ := Option.bind_eq_some_iff.mp hwf.1
      rw [shape, List.getElem?_map, Option.map_eq_some_iff] at hj
      obtain ⟨g, hg, hclosed⟩ := hj
      simp [named, hg, Option.filter_some, hclosed] at hnone
    · exact h.1
  · cases hwf
  · cases hwf
  · cases h

theorem subject_of_comes {l : List Nat} {f : Fault} (hwf : wellFormed luaMaxcaptures [] r = true)
    (hx : Comes src r l x) (h : Stops src x f) : f = .subject := by
  obtain ⟨t, -, hx⟩ := hx
  have hstart : wellFormed luaMaxcaptures (shape []) r = true := hwf
  exact subject_of_stops (wellFormed_of_tried hstart hx) h

/-- No optional piece stands before a group, and nothing looks at a fixed place of the subject. -/
def steady : List (Piece UInt8) → Bool
  | [] => true
  | .move (.optional _) :: r => r.all Piece.isMove && steady r
  | .move (.balance _ _) :: _ => false
  | .move (.frontier _) :: _ => false
  | .back _ :: _ => false
  | _ :: r => steady r

theorem steady_cons {p : Piece UInt8} (h : steady (p :: r) = true) : steady r = true := by
  unfold steady at h
  split at h
  · rename_i heq
    cases heq
  · rename_i heq
    obtain ⟨-, rfl⟩ := List.cons.inj heq
    exact (Bool.and_eq_true_iff.mp h).2
  · cases h
  · cases h
  · cases h
  · rename_i heq
    obtain ⟨-, rfl⟩ := List.cons.inj heq
    exact h

theorem steady_of_tried (h : steady r = true) (hx : Tried src r gs s x) : steady x.rest = true := by
  induction hx with
  | here => exact h
  | move _ _ ih => exact ih (steady_cons h)
  | skip _ _ ih => exact ih (steady_cons h)
  | openGroup _ ih => exact ih (steady_cons h)
  | position _ ih => exact ih (steady_cons h)
  | closeGroup _ _ ih => exact ih (steady_cons h)
  | back _ _ ih => exact ih (steady_cons h)

theorem undisturbed_of_steady {l : List Nat} (h : steady r = true) : Undisturbed src r l := by
  rintro ⟨rest, gs, s⟩ ⟨t, -, hx⟩
  have hrest := steady_of_tried h hx
  unfold Stops Drops
  dsimp only at hrest ⊢
  match rest, hrest with
  | [], _ => exact ⟨id, id⟩
  | .move (.one _) :: _, _ => exact ⟨id, id⟩
  | .move (.star _) :: _, _ => exact ⟨id, id⟩
  | .move (.plus _) :: _, _ => exact ⟨id, id⟩
  | .move (.lazy _) :: _, _ => exact ⟨id, id⟩
  | .move .atEnd :: _, _ => exact ⟨id, id⟩
  | .move (.optional cls) :: r, hrest =>
      refine ⟨id, fun hdrop => ?_⟩
      rw [steady, Bool.and_eq_true, hdrop.2.1] at hrest
      cases hrest.1
  | .openGroup :: _, _ => exact ⟨nofun, id⟩
  | .position :: _, _ => exact ⟨nofun, id⟩
  | .closeGroup :: _, _ => exact ⟨nofun, id⟩
  | .broken :: _, _ => exact ⟨nofun, id⟩
  | .unbalanced :: _, _ => exact ⟨nofun, id⟩

end

section

variable {src p : List UInt8} {ps : List (Piece UInt8)}

theorem firstPath_plain {fuel : Nat} (hplain : ∀ c ∈ p, c ∉ specials) (hps : pieces fuel p = some ps)
    (hwf : wellFormed luaMaxcaptures [] ps = true) {s : Nat} (hpre : p <+: src.drop s) :
    firstPath src ps [] s ≠ none := by
  induction fuel generalizing p ps s with
  | zero => cases hps
  | succ fuel ih =>
      cases p with
      | nil =>
          obtain rfl := Option.some.inj hps
          exact nofun
      | cons x q =>
          obtain ⟨h40, hesc, h36, h46, h91, -⟩ := not_special (hplain x List.mem_cons_self)
          have hq : ∀ c ∈ q, c ∉ specials := fun c hc => hplain c (List.mem_cons_of_mem x hc)
          rw [pieces, if_neg h40] at hps
          by_cases h41 : x = 41
          · rw [if_pos h41] at hps
            obtain ⟨r, -, rfl⟩ := Option.map_eq_some_iff.mp hps
            cases hwf
          · rw [if_neg h41, if_neg hesc, if_neg (fun h => h36 h.1)] at hps
            have hend : classend (x :: q) = .ok q := by
              simp only [classend, hesc, h91, if_false]
            have hnext : isRepetition (q.headD 0) = false := by
              cases q with
              | nil => rfl
              | cons y q => exact (not_special (hq y List.mem_cons_self)).2.2.2.2.2
            unfold itemPieces at hps
            rw [hend] at hps
            dsimp only at hps
            rw [itemMove_single hnext, itemRest_single hnext] at hps
            obtain ⟨r, hr, rfl⟩ := Option.map_eq_some_iff.mp hps
            obtain ⟨t, ht⟩ := hpre
            have hget : src[s]? = some x := by
              rw [← List.head?_drop, ← ht]
              rfl
            have hnextpre : q <+: src.drop (s + 1) := by
              rw [← List.drop_drop, ← ht]
              exact ⟨t, rfl⟩
            have hself : singleMatch x (x :: q) q = true := by
              simp [singleMatch, h46, hesc, h91]
            have hhit : hit src (fun c => singleMatch c (x :: q) q) s = true := by
              unfold hit
              rw [hget]
              exact hself
            rw [firstPath_move, choices, if_pos hhit, List.findSome?_cons]
            have hrest := ih hq hr hwf hnextpre
            cases hf : firstPath src r [] (s + 1) with
            | none => exact absurd hf hrest
            | some y => exact Option.some_ne_none y

theorem lmemfind_some {s i : Nat} {l : List UInt8} (h : lmemfind p s l = some i) :
    ∃ j, j ≤ l.length ∧ p <+: l.drop j := by
  induction l generalizing s with
  | nil =>
      rw [lmemfind, Option.ite_none_right_eq_some] at h
      exact ⟨0, Nat.le_refl _, by rw [h.1]; exact List.nil_prefix⟩
  | cons c rest ih =>
      rw [lmemfind] at h
      split at h
      · rename_i hpre
        exact ⟨0, Nat.zero_le _, List.isPrefixOf_iff_prefix.mp hpre⟩
      · obtain ⟨j, hj, hpre⟩ := ih h
        exact ⟨j + 1, by simpa using hj, hpre⟩

theorem path_of_firstMatch {l : List Nat} {gs : List Backtracking.Group}
    (h : firstMatch src ps l = some gs) : ∃ s ∈ l, ∃ x ∈ paths src ps [] s, x.2 = gs := by
  obtain ⟨s, hs, hpath⟩ := List.exists_of_findSome?_eq_some h
  obtain ⟨x, hx, hgs⟩ := Option.map_eq_some_iff.mp hpath
  exact ⟨s, hs, x, List.mem_of_head? hx, hgs⟩

theorem report_stateOf (hsize : src.length < 2 ^ 64) (hwf : wellFormed luaMaxcaptures [] ps = true)
    (htexts : true ∉ kinds ps) {l : List Nat} (hl : ∀ s ∈ l, s ≤ src.length) {len : Nat}
    (hroom : firstMatch src ps l ≠ none → (kinds ps).length ≤ len) :
    report ((firstMatch src ps l).map stateOf) len =
      ⟨(firstMatch src ps l).isSome, (firstMatch src ps l).map (fun gs => gs.map textOf)⟩ := by
  cases hf : firstMatch src ps l with
  | none => rfl
  | some gs =>
      obtain ⟨s, hs, x, hmem, rfl⟩ := path_of_firstMatch hf
      have hclosed := closed_of_paths hwf hmem
      have hkinds : x.2.map Group.isPosition = kinds ps := kinds_of_paths hmem
      have hlen : x.2.length ≤ len := by
        have hlength := congrArg List.length hkinds
        rw [List.length_map] at hlength
        rw [hlength]
        exact hroom (by rw [hf]; nofun)
      obtain ⟨hend, hbefore⟩ := bounds_of_paths (fun g hg => by cases hg) (hl s hs) hmem
      have hcaptures : pushStringCaptures (stateOf x.2) len = x.2.map textOf := by
        unfold pushStringCaptures stateOf
        rw [List.take_of_length_le (by rw [List.length_map]; exact hlen), List.map_map]
        refine List.map_congr_left (fun g hg => ?_)
        have hbound := (hbefore g hg).2
        cases hspan : g.span with
        | unfinished => exact absurd hspan (hclosed g hg)
        | position =>
            have hkind : g.isPosition ∈ kinds ps := by
              rw [← hkinds]
              exact List.mem_map_of_mem hg
            rw [show g.isPosition = true from decide_eq_true hspan] at hkind
            exact absurd hkind htexts
        | text n =>
            have hn := hbound n hspan
            simp only [Function.comp_apply, captureOf, textOf, hspan]
            rw [sizeT_natCast (by omega)]
      simp only [report, Option.map_some, Option.isSome_some, hcaptures]

theorem strFind_special (hsize : src.length < 2 ^ 64) (hp : WellFormed p ps)
    (htexts : true ∉ kinds ps) {initPos : Int} {len : Nat}
    (hu : Undisturbed src ps (tried src p initPos)) (hspecial : p.any (fun c => c ∈ specials) = true)
    (hroom : firstMatch src ps (tried src p initPos) ≠ none → (kinds ps).length ≤ len) :
    FindsFirst src p ps initPos len := by
  have hplain : ¬ Plain p false := by simpa [Plain] using hspecial
  have hfit (t : Nat) (ht : Turn src ps [] (tried src p initPos) t) : Fit src ps [] t :=
    ⟨fun x hx => (hu x ⟨t, ht, hx⟩).2, Or.inr (fun x hx => (hu x ⟨t, ht, hx⟩).1)⟩
  have hanswers := @strFind_answers src p hsize false hplain initPos len
  rw [patternElements_of_pieces hp.pieces] at hanswers
  have hanswer := hanswers hfit
  rw [report_stateOf hsize hp.groups htexts tried_le hroom] at hanswer
  unfold FindsFirst
  cases hfind : strFind src p false initPos len with
  | error f =>
      rw [hfind] at hanswer
      obtain ⟨x, hx, hstop⟩ := hanswer
      obtain rfl := subject_of_comes hp.groups hx hstop
      exact absurd hstop (hu x hx).1
  | ok r =>
      rw [hfind] at hanswer
      exact congrArg Except.ok hanswer.2

theorem strFind_plain (hp : WellFormed p ps) {initPos : Int} (len : Nat)
    (hplain : p.any (fun c => c ∈ specials) = false)
    (hnone : firstMatch src ps (tried src p initPos) = none) :
    FindsFirst src p ps initPos len := by
  have hbytes : ∀ c ∈ p, c ∉ specials := by simpa using hplain
  have hanchor : p.headD 0 ≠ 94 := by
    cases p with
    | nil => decide
    | cons x q =>
        intro h
        exact hbytes x List.mem_cons_self (by rw [show x = 94 from h]; decide)
  have hpieces : pieces (p.length + 1) p = some ps := by
    have h := hp.pieces
    unfold patternPieces at h
    simpa only [if_neg hanchor] using h
  have hfind : lmemfind p (clampInit initPos src.length)
      (src.drop (clampInit initPos src.length)) = none := by
    refine Option.eq_none_iff_forall_not_mem.mpr (fun i hi => ?_)
    obtain ⟨j, hj, hpre⟩ := lmemfind_some hi
    rw [List.drop_drop] at hpre
    rw [List.length_drop] at hj
    have hinit := clampInit_le initPos src.length
    have htried : clampInit initPos src.length + j ∈ tried src p initPos := by
      unfold tried starts
      rw [List.mem_range'_1]
      simp only [hanchor, decide_false, Bool.false_eq_true, if_false]
      omega
    have hpath := List.findSome?_eq_none_iff.mp hnone _ htried
    exact firstPath_plain hbytes hpieces hp.groups hpre (Option.map_eq_none_iff.mp hpath)
  unfold FindsFirst strFind
  rw [hplain, hnone]
  change Except.ok (⟨(lmemfind p _ _).isSome, none⟩ : Find) = _
  rw [hfind]
  rfl

/-- str_find returns exactly what the first path makes, when nothing disturbs the search. -/
theorem findsFirst_of_undisturbed (hsize : src.length < 2 ^ 64) (hp : WellFormed p ps)
    (htexts : true ∉ kinds ps) {initPos : Int} {len : Nat}
    (hu : Undisturbed src ps (tried src p initPos))
    (hspecial : p.any (fun c => c ∈ specials) = true ∨
      firstMatch src ps (tried src p initPos) = none)
    (hroom : firstMatch src ps (tried src p initPos) ≠ none → (kinds ps).length ≤ len) :
    FindsFirst src p ps initPos len := by
  by_cases hany : p.any (fun c => c ∈ specials) = true
  · exact strFind_special hsize hp htexts hu hany hroom
  · exact strFind_plain hp len (Bool.eq_false_iff.mpr hany) (hspecial.resolve_left hany)

theorem findsFirst_of_undisturbed_pair : FindsFirst (bytes "led=1") (bytes "(%w-)=(%w*)")
    ((patternPieces (bytes "(%w-)=(%w*)")).getD []) 0 10 :=
  findsFirst_of_undisturbed (by decide) ⟨rfl, rfl⟩ (by decide) (undisturbed_of_steady rfl)
    (Or.inl (by decide)) (fun _ => by decide)

/-- The optional letter is not in the subject. The matcher goes on behind its place all the same,
and keeps the group that it makes there. -/
theorem skipped_letter_leaves_group : ¬ ∀ (src p : List UInt8) (ps : List (Piece UInt8))
    (initPos : Int) (len : Nat), src.length < 2 ^ 64 → WellFormed p ps → true ∉ kinds ps →
      (kinds ps).length ≤ len → FindsFirst src p ps initPos len := by
  intro h
  have hfirst := h (bytes "bb") (bytes "a?(b)") _ 0 10 (by decide) ⟨rfl, rfl⟩ (by decide) (by decide)
  have hfind : strFind (bytes "bb") (bytes "a?(b)") false 0 10 =
      .ok ⟨true, some [⟨1, 1⟩, ⟨0, 1⟩]⟩ := rfl
  have hgroups : (firstMatch (bytes "bb") ((patternPieces (bytes "a?(b)")).getD [])
      (tried (bytes "bb") (bytes "a?(b)") 0)).map (fun gs => gs.map textOf) = some [⟨0, 1⟩] := rfl
  have heq := hfind.symm.trans hfirst
  injection heq with heq
  injection heq with _ heq
  exact absurd (heq.trans hgroups) (by decide)

end

end ErSdk.PatternSearch
