import ErSdk.PatternSafety

namespace ErSdk.CaptureBounds

open Pmatch Backtracking PatternItems PatternTrials PatternAgreement PatternSearch PatternSafety

/-- What the callers rely on: there are not more captures than the array takes and the pattern
has, and all of them lie in the subject. -/
structure Usable (src : List UInt8) (ks : List Bool) (len : Nat) (caps : List StringCapture) :
    Prop where
  room : caps.length ≤ len
  number : caps.length ≤ ks.length
  inside : ∀ c ∈ caps, c.init + c.len ≤ src.length

section

variable {src p : List UInt8} {ps : List (Piece UInt8)}

theorem inside_iff (hsize : src.length < 2 ^ 63) {g : Backtracking.Group}
    (hclosed : g.span ≠ .unfinished) (hend : ∀ n, g.span = .text n → g.start + n ≤ src.length) :
    (captureOf g).init + sizeT (captureOf g).len ≤ src.length ↔ g.isPosition = false := by
  obtain ⟨start, span⟩ := g
  cases span with
  | unfinished => exact absurd rfl hclosed
  | position =>
      have hlen : sizeT (captureOf ⟨start, .position⟩).len = 2 ^ 64 - 2 := sizeT_capPosition
      refine iff_of_false ?_ nofun
      rw [hlen]
      omega
  | text n =>
      have hle := hend n rfl
      dsimp only at hle
      have hlen : sizeT (captureOf ⟨start, .text n⟩).len = n := Patterns.sizeT_natCast (by omega)
      refine iff_of_true ?_ rfl
      rw [hlen]
      exact hle

/-- The captures of a path can be used exactly if none of those that are returned is one of a
position. -/
theorem usable_iff (hsize : src.length < 2 ^ 63) {gs : List Backtracking.Group} {ks : List Bool}
    (hclosed : ∀ g ∈ gs, g.span ≠ .unfinished) (hbefore : Before src.length gs)
    (hkinds : gs.map Group.isPosition = ks) (len : Nat) :
    Usable src ks len (pushStringCaptures (stateOf gs) len) ↔ true ∉ ks.take len := by
  have hpush : pushStringCaptures (stateOf gs) len =
      (gs.take len).map (fun g => ⟨(captureOf g).init, sizeT (captureOf g).len⟩) := by
    unfold pushStringCaptures stateOf
    rw [← List.map_take, List.map_map]
    rfl
  have hiff (g : Backtracking.Group) (hg : g ∈ gs.take len) :=
    inside_iff hsize (hclosed g (List.mem_of_mem_take hg)) (fun n hn =>
      (hbefore g (List.mem_of_mem_take hg)).2 n hn)
  subst hkinds
  rw [hpush, ← List.map_take]
  constructor
  · intro husable hmem
    obtain ⟨g, hg, hposition⟩ := List.mem_map.mp hmem
    have hin := (hiff g hg).mp (husable.inside _ (List.mem_map_of_mem hg))
    rw [hposition] at hin
    cases hin
  · intro hnone
    refine ⟨?_, ?_, fun c hc => ?_⟩
    · rw [List.length_map, List.length_take]
      exact Nat.min_le_left len _
    · rw [List.length_map, List.length_map, List.length_take]
      exact Nat.min_le_right len _
    · obtain ⟨g, hg, rfl⟩ := List.mem_map.mp hc
      refine (hiff g hg).mpr (Bool.eq_false_iff.mpr (fun hposition => hnone ?_))
      exact List.mem_map.mpr ⟨g, hg, hposition⟩

theorem usable_of_firstMatch (hsize : src.length < 2 ^ 63)
    (hwf : wellFormed luaMaxcaptures [] ps = true) {l : List Nat} (hl : ∀ s ∈ l, s ≤ src.length)
    {gs : List Backtracking.Group} (hfirst : firstMatch src ps l = some gs) (len : Nat) :
    Usable src (kinds ps) len (pushStringCaptures (stateOf gs) len) ↔
      true ∉ (kinds ps).take len := by
  obtain ⟨s, hs, x, hmem, rfl⟩ := path_of_firstMatch hfirst
  obtain ⟨hend, hbefore⟩ := bounds_of_paths (fun g hg => by cases hg) (hl s hs) hmem
  exact usable_iff hsize (closed_of_paths hwf hmem) (hbefore.mono hend) (kinds_of_paths hmem) len

/-- A search that drops no match returns usable captures, if any, exactly if it makes the plain
search, or if it does not read outside the subject and, where it succeeds, none of the captures
that are returned is one of a position. -/
theorem captures_usable_iff (hsize : src.length < 2 ^ 63) (hpat : p.length < 2 ^ 63)
    (hp : WellFormed p ps) {explicit : Bool} {initPos : Int} {len : Nat}
    (hcalm : ¬ Plain p explicit → Calm src p initPos) :
    (∃ r, strFind src p explicit initPos len = .ok r ∧
      ∀ caps, r = ⟨true, some caps⟩ → Usable src (kinds ps) len caps) ↔
    Plain p explicit ∨
      (∀ x, Comes src ps (tried src p initPos) x → ¬ Stops src x .subject) ∧
      (firstMatch src ps (tried src p initPos) ≠ none → true ∉ (kinds ps).take len) := by
  by_cases hplain : Plain p explicit
  · obtain ⟨found, hfind⟩ := strFind_of_plain src hplain initPos len
    exact iff_of_true ⟨_, hfind, nofun⟩ (Or.inl hplain)
  · have hanswers := answers_of_calm len hsize hpat hcalm hplain
    have hl := @tried_le src p initPos
    rw [patternElements_of_pieces hp.pieces] at hanswers
    rw [or_iff_right hplain]
    constructor
    · rintro ⟨r, hfind, husable⟩
      rw [hfind] at hanswers
      refine ⟨fun x hx => hanswers.1 x _ hx, fun hfirst => ?_⟩
      obtain ⟨gs, hgs⟩ := Option.ne_none_iff_exists'.mp hfirst
      refine (usable_of_firstMatch hsize hp.groups hl hgs len).mp (husable _ ?_)
      rw [hanswers.2, hgs]
      rfl
    · rintro ⟨hinside, hpositions⟩
      cases hfind : strFind src p explicit initPos len with
      | error f =>
          rw [hfind] at hanswers
          obtain ⟨x, hx, hstop⟩ := hanswers
          obtain rfl := subject_of_comes hp.groups hx hstop
          exact absurd hstop (hinside x hx)
      | ok r =>
          rw [hfind] at hanswers
          refine ⟨r, rfl, fun caps hr => ?_⟩
          have hreport := hanswers.2.symm.trans hr
          cases hgs : firstMatch src ps (tried src p initPos) with
          | none =>
              rw [hgs] at hreport
              injection hreport with hfound
              cases hfound
          | some gs =>
              rw [hgs] at hreport
              injection hreport with _ hcaps
              obtain rfl := Option.some.inj hcaps
              exact (usable_of_firstMatch hsize hp.groups hl hgs len).mpr
                (hpositions (by rw [hgs]; nofun))

theorem captures_usable_iff_pair : ∃ r,
    strFind (bytes "led=1") (bytes "(%w-)=(%w*)") false 0 10 = .ok r ∧
      ∀ caps, r = ⟨true, some caps⟩ → Usable (bytes "led=1") [false, false] 10 caps := by
  have hsteady (l : List Nat) : Undisturbed (bytes "led=1") (patternElements (bytes "(%w-)=(%w*)")) l :=
    undisturbed_of_steady rfl
  have hp : WellFormed (bytes "(%w-)=(%w*)") (patternElements (bytes "(%w-)=(%w*)")) := ⟨rfl, rfl⟩
  refine (captures_usable_iff (by decide) (by decide) hp (fun _ x hx => (hsteady _ x hx).2)).mpr
    (Or.inr ⟨fun x hx => (hsteady _ x hx).1, fun _ => by decide⟩)

/-- The length of a captured position is the largest that there is but one; the match that is
dropped behind an optional item leaves a capture more than the pattern has; and a frontier at the
end of the subject reads behind it. -/
theorem position_outside :
    (WellFormed (bytes "()") [.position] ∧
      strFind [] (bytes "()") false 0 10 = .ok ⟨true, some [⟨0, 2 ^ 64 - 2⟩]⟩ ∧
      ¬ Usable [] (kinds (patternElements (bytes "()"))) 10 [⟨0, 2 ^ 64 - 2⟩]) ∧
    (WellFormed (bytes "a?(b)") (patternElements (bytes "a?(b)")) ∧
      strFind (bytes "bb") (bytes "a?(b)") false 0 10 = .ok ⟨true, some [⟨1, 1⟩, ⟨0, 1⟩]⟩ ∧
      ¬ Usable (bytes "bb") (kinds (patternElements (bytes "a?(b)"))) 10 [⟨1, 1⟩, ⟨0, 1⟩]) ∧
    WellFormed (bytes "(a*)%f[^a]") (patternElements (bytes "(a*)%f[^a]")) ∧
      strFind (bytes "aaa") (bytes "(a*)%f[^a]") false 0 10 = .error .subject := by
  refine ⟨⟨⟨rfl, rfl⟩, rfl, fun h => ?_⟩, ⟨⟨rfl, rfl⟩, rfl, fun h => ?_⟩, ⟨rfl, rfl⟩, rfl⟩
  · have hin := h.inside _ List.mem_cons_self
    exact absurd hin (by decide)
  · exact absurd h.number (by decide)

end

end ErSdk.CaptureBounds
