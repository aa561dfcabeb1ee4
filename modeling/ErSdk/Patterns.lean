import ErSdk.Pmatch
import Mathlib.Data.List.Basic

namespace ErSdk.Patterns

open Pmatch

/-- The bytes that repeat the item before them. -/
def isRepetition (c : UInt8) : Bool := c = 63 || c = 42 || c = 43 || c = 45

/-- A pattern for a text: every special byte is escaped. -/
def escape : List UInt8 → List UInt8
  | [] => []
  | c :: l => if c ∈ specials then lEsc :: c :: escape l else c :: escape l

/-- What repeated matching of an item takes from a subject. -/
def runOf (item : UInt8 → Bool) (src : List UInt8) (s : Nat) : Nat :=
  ((src.drop s).takeWhile item).length

variable {src : List UInt8}

theorem specials_plain : ∀ c ∈ specials, matchClass c c = true ∧ classOf (toLower c) = none ∧
    c ≠ 98 ∧ c ≠ 102 ∧ isDigit c = false := by
  decide +kernel

theorem not_special {c : UInt8} (h : c ∉ specials) : c ≠ 40 ∧ c ≠ lEsc ∧ c ≠ 36 ∧ c ≠ 46 ∧
    c ≠ 91 ∧ isRepetition c = false := by
  refine ⟨?_, ?_, ?_, ?_, ?_, ?_⟩ <;>
    first
      | (rintro rfl; exact h (by decide))
      | (simp only [isRepetition, Bool.or_eq_false_iff, decide_eq_false_iff_not]
         refine ⟨⟨⟨?_, ?_⟩, ?_⟩, ?_⟩ <;> (rintro rfl; exact h (by decide)))

theorem matchPattern_item {fuel : Nat} {c : UInt8} {q : List UInt8} {ms : MatchState} {s : Nat}
    (h₁ : c ≠ 40) (h₂ : c ≠ 41) (h₃ : c ≠ lEsc) (h₄ : c ≠ 36) :
    matchPattern src (fuel + 1) (c :: q) ms s =
      matchItem src (matchPattern src fuel) ms s (c :: q) := by
  rw [matchPattern, if_neg h₁, if_neg h₂, if_neg h₃, if_neg (fun h => h₄ h.1)]

theorem matchPattern_escaped {fuel : Nat} {y : UInt8} {q : List UInt8} {ms : MatchState} {s : Nat}
    (h₁ : y ≠ 98) (h₂ : y ≠ 102) (h₃ : isDigit y = false) :
    matchPattern src (fuel + 1) (lEsc :: y :: q) ms s =
      matchItem src (matchPattern src fuel) ms s (lEsc :: y :: q) := by
  rw [matchPattern, if_neg (by decide), if_neg (by decide), if_pos rfl, matchEscape]
  simp only [List.headD_cons, h₁, h₂, h₃, Bool.false_eq_true, if_false]

theorem matchRepeated_single {k : List UInt8 → MatchState → Nat → Result} {ms : MatchState}
    {s : Nat} {p ep : List UInt8} (h : isRepetition (ep.headD 0) = false) :
    matchRepeated src k ms s p ep =
      if (src[s]?).any (fun c => singleMatch c p ep) then k ep ms (s + 1) else .ok (none, ms) := by
  simp only [isRepetition, Bool.or_eq_false_iff, decide_eq_false_iff_not] at h
  obtain ⟨⟨⟨h₁, h₂⟩, h₃⟩, h₄⟩ := h
  unfold matchRepeated
  simp only [h₁, h₂, h₃, h₄, if_false]

theorem any_getElem?_eq {c : UInt8} {s : Nat} {p : List UInt8} :
    ((src[s]?).any (fun x => c = x) = true ∧ p.isPrefixOf (src.drop (s + 1)) = true) ↔
      (c :: p).isPrefixOf (src.drop s) = true := by
  rcases h : src[s]? with - | x
  · have hs := List.getElem?_eq_none_iff.mp h
    rw [List.drop_eq_nil_of_le hs]
    simp
  · obtain ⟨hs, hx⟩ := List.getElem?_eq_some_iff.mp h
    rw [List.drop_eq_getElem_cons hs, hx]
    simp [List.isPrefixOf]

theorem cons_isPrefix_drop {c : UInt8} {s : Nat} :
    [c].isPrefixOf (src.drop s) = true ↔ src[s]? = some c := by
  rw [← any_getElem?_eq]
  rcases src[s]? with - | x
  · simp
  · simp [eq_comm]

theorem matchPattern_escape {l q : List UInt8} (hl : 41 ∉ l) (hq : isRepetition (q.headD 0) = false)
    (fuel : Nat) (ms : MatchState) (s : Nat) :
    matchPattern src (fuel + l.length) (escape l ++ q) ms s =
      if l.isPrefixOf (src.drop s) then matchPattern src fuel q ms (s + l.length)
      else .ok (none, ms) := by
  induction l generalizing s with
  | nil => simp [escape]
  | cons c l ih =>
      have h41 : c ≠ 41 := fun h => hl (h ▸ List.mem_cons_self)
      have hrest : 41 ∉ l := fun h => hl (List.mem_cons_of_mem _ h)
      have hnext : isRepetition ((escape l ++ q).headD 0) = false := by
        cases l with
        | nil => exact hq
        | cons d l =>
            unfold escape
            split
            · rfl
            · rename_i hd
              exact (not_special hd).2.2.2.2.2
      have hstep (p : List UInt8) (hp : ∀ x, singleMatch x p (escape l ++ q) = decide (c = x))
          (hend : classend p = .ok (escape l ++ q)) :
          matchItem src (matchPattern src (fuel + l.length)) ms s p =
            if (c :: l).isPrefixOf (src.drop s) then
              matchPattern src fuel q ms (s + (c :: l).length)
            else .ok (none, ms) := by
        unfold matchItem
        rw [hend]
        show matchRepeated src _ ms s p (escape l ++ q) = _
        rw [matchRepeated_single hnext]
        simp only [hp, ih hrest]
        rw [← ite_and]
        simp only [any_getElem?_eq, List.length_cons]
        rw [show s + 1 + l.length = s + (l.length + 1) by omega]
      rw [List.length_cons, ← Nat.add_assoc]
      unfold escape
      split
      · rename_i hc
        obtain ⟨-, hclass, h98, h102, hdigit⟩ := specials_plain c hc
        rw [List.cons_append, List.cons_append, matchPattern_escaped h98 h102 hdigit]
        refine hstep _ (fun x => ?_) rfl
        show matchClass x c = _
        unfold matchClass
        rw [hclass]
      · rename_i hc
        obtain ⟨h40, hesc, h36, h46, h91, -⟩ := not_special hc
        rw [List.cons_append, matchPattern_item h40 h41 hesc h36]
        refine hstep _ (fun x => ?_) ?_
        · simp only [singleMatch, h46, hesc, h91, if_false]
        · simp only [classend, hesc, h91, if_false]

theorem takeWhile_true (l : List UInt8) : l.takeWhile (fun _ => true) = l := by
  induction l with
  | nil => rfl
  | cons c l ih => rw [List.takeWhile_cons, if_pos rfl, ih]

/-- The last argument up to `n` at which a test succeeds. -/
def lastUpTo (P : Nat → Bool) : Nat → Option Nat
  | 0 => if P 0 then some 0 else none
  | n + 1 => if P (n + 1) then some (n + 1) else lastUpTo P n

theorem lastUpTo_eq_none {P : Nat → Bool} {n : Nat} :
    lastUpTo P n = none ↔ ∀ i ≤ n, P i = false := by
  induction n with
  | zero => simp [lastUpTo]
  | succ n ih =>
      unfold lastUpTo
      split
      · rename_i h
        exact iff_of_false nofun (fun hall => by simp [hall (n + 1) (Nat.le_refl _)] at h)
      · rename_i h
        rw [ih]
        refine ⟨fun hall i hi => ?_, fun hall i hi => hall i (Nat.le_succ_of_le hi)⟩
        obtain rfl | hlt := Nat.eq_or_lt_of_le hi
        · simpa using h
        · exact hall i (Nat.le_of_lt_succ hlt)

theorem lastUpTo_eq_some {P : Nat → Bool} {n i : Nat} :
    lastUpTo P n = some i ↔ i ≤ n ∧ P i = true ∧ ∀ j ≤ n, i < j → P j = false := by
  induction n with
  | zero =>
      unfold lastUpTo
      split
      · rename_i h
        constructor
        · rintro he
          obtain rfl := Option.some.inj he
          exact ⟨Nat.le_refl _, h, fun j hj hlt => absurd hlt (Nat.not_lt.mpr hj)⟩
        · rintro ⟨hi, -, -⟩
          rw [Nat.le_zero.mp hi]
      · rename_i h
        refine iff_of_false nofun ?_
        rintro ⟨hi, hP, -⟩
        rw [Nat.le_zero.mp hi] at hP
        exact h hP
  | succ n ih =>
      unfold lastUpTo
      split
      · rename_i h
        constructor
        · intro he
          obtain rfl := Option.some.inj he
          exact ⟨Nat.le_refl _, h, fun j hj hlt => absurd hlt (Nat.not_lt.mpr hj)⟩
        · rintro ⟨hi, -, hlast⟩
          by_contra hne
          have hlt : i < n + 1 := Nat.lt_of_le_of_ne hi (fun he => hne (he ▸ rfl))
          simp [hlast (n + 1) (Nat.le_refl _) hlt] at h
      · rename_i h
        rw [ih]
        constructor
        · rintro ⟨hi, hP, hlast⟩
          refine ⟨Nat.le_succ_of_le hi, hP, fun j hj hlt => ?_⟩
          obtain rfl | hj := Nat.eq_or_lt_of_le hj
          · simpa using h
          · exact hlast j (Nat.le_of_lt_succ hj) hlt
        · rintro ⟨hi, hP, hlast⟩
          refine ⟨?_, hP, fun j hj hlt => hlast j (Nat.le_succ_of_le hj) hlt⟩
          obtain rfl | hi := Nat.eq_or_lt_of_le hi
          · exact absurd hP h
          · exact Nat.le_of_lt_succ hi

/-- The result of a match that leaves the captures alone when it fails. -/
def outcome (ms : MatchState) : Option (Nat × MatchState) → Result
  | some r => .ok (some r.1, r.2)
  | none => .ok (none, ms)

theorem maxExpand_last {k : MatchState → Nat → Result} {ms : MatchState} {s : Nat}
    {P : Nat → Bool} {f : Nat → Nat × MatchState}
    (hk : ∀ i, k ms (s + i) = outcome ms (if P i then some (f i) else none)) (n : Nat) :
    maxExpand k ms s n = outcome ms ((lastUpTo P n).map f) := by
  induction n with
  | zero =>
      have h := hk 0
      rw [Nat.add_zero] at h
      rw [maxExpand, h, lastUpTo]
      split <;> rfl
  | succ n ih =>
      rw [maxExpand, hk (n + 1), lastUpTo]
      split
      · rfl
      · exact ih

theorem maxExpand_all {k : MatchState → Nat → Result} {ms : MatchState} {s n : Nat}
    {r : Nat × MatchState} (hk : k ms (s + n) = outcome ms (some r)) :
    maxExpand k ms s n = outcome ms (some r) := by
  cases n with
  | zero => exact hk
  | succ n =>
      rw [maxExpand, hk]
      rfl

/-- The lazy repetition stops at the first byte that is no item, if the rest never
matches at an item. -/
theorem minExpand_run {k : MatchState → Nat → Result} {item : UInt8 → Bool} {ms : MatchState}
    {out : Nat → Option (Nat × MatchState)} (hk : ∀ s, k ms s = outcome ms (out s))
    (hout : ∀ s c, src[s]? = some c → item c = true → out s = none) (s : Nat) :
    minExpand k item ms s (src.drop s) = outcome ms (out (s + runOf item src s)) := by
  unfold runOf
  generalize hl : src.drop s = l
  induction l generalizing s with
  | nil => simpa [minExpand] using hk s
  | cons c rest ih =>
      have hc : src[s]? = some c := by
        rw [← List.head?_drop, hl, List.head?_cons]
      have hrest : src.drop (s + 1) = rest := by
        rw [← List.drop_drop, hl, List.drop_one, List.tail_cons]
      rw [minExpand, hk s, List.takeWhile_cons]
      by_cases hi : item c = true
      · rw [hout s c hc hi, if_pos hi, List.length_cons]
        show (if item c then minExpand k item ms (s + 1) rest else _) = _
        rw [if_pos hi, ih (s + 1) hrest, Nat.add_assoc, Nat.add_comm 1]
      · rw [if_neg hi, List.length_nil, Nat.add_zero]
        cases out s with
        | none => exact if_neg hi
        | some r => rfl

theorem captureToClose_append (cs : List Capture) (i : Nat) :
    captureToClose ⟨cs ++ [⟨i, capUnfinished⟩]⟩ = some cs.length := by
  unfold captureToClose MatchState.level
  rw [List.length_append, List.length_singleton, List.range_succ, List.reverse_append]
  simp

theorem setLen_append (cs : List Capture) (c : Capture) (len : Int) :
    (MatchState.mk (cs ++ [c])).setLen cs.length len = ⟨cs ++ [{ c with len }]⟩ := by
  unfold MatchState.setLen
  congr 1
  induction cs with
  | nil => rfl
  | cons d cs ih => simpa using ih

theorem endCapture_open {k : MatchState → Nat → Result} (cs : List Capture) {i s : Nat}
    {o : Option (Nat × MatchState)}
    (hk : k ⟨cs ++ [⟨i, (s : Int) - i⟩]⟩ s = outcome ⟨cs ++ [⟨i, (s : Int) - i⟩]⟩ o) :
    endCapture k ⟨cs ++ [⟨i, capUnfinished⟩]⟩ s = outcome ⟨cs ++ [⟨i, capUnfinished⟩]⟩ o := by
  have hget : (cs ++ [(⟨i, capUnfinished⟩ : Capture)])[cs.length]? = some ⟨i, capUnfinished⟩ := by
    simp
  unfold endCapture
  rw [captureToClose_append]
  dsimp only
  rw [hget]
  dsimp only
  rw [setLen_append, hk]
  cases o with
  | some r => rfl
  | none =>
      show Except.ok (none, MatchState.setLen _ _ _) = _
      rw [setLen_append]
      rfl

theorem startCapture_pop {k : MatchState → Nat → Result} {ms : MatchState} {s : Nat} {what : Int}
    {o : Option (Nat × MatchState)} (hl : ms.level < luaMaxcaptures)
    (hk : k ⟨ms.capture ++ [⟨s, what⟩]⟩ s = outcome ⟨ms.capture ++ [⟨s, what⟩]⟩ o) :
    startCapture k ms s what = outcome ms o := by
  unfold startCapture
  rw [if_neg (Nat.not_le.mpr hl), hk]
  cases o with
  | some r => rfl
  | none =>
      show Except.ok (none, MatchState.mk (List.dropLast _)) = _
      rw [List.dropLast_concat]
      rfl

theorem matchFrom_findSome {p : List UInt8} {out : Nat → Option (Nat × MatchState)}
    (h : ∀ s, matchPattern src (p.length + 1) p ⟨[]⟩ s = outcome ⟨[]⟩ (out s)) (n s : Nat) :
    matchFrom src p false n s = .ok ((List.range' s n).findSome? (fun i => (out i).map Prod.snd)) := by
  induction n generalizing s with
  | zero => rfl
  | succ n ih =>
      rw [matchFrom, h s, List.range'_succ, List.findSome?_cons]
      cases out s with
      | some r => rfl
      | none => exact ih (s + 1)

theorem strFind_findSome {p : List UInt8} {out : Nat → Option (Nat × MatchState)}
    (hspecial : p.any (fun c => c ∈ specials) = true) (hanchor : p.headD 0 ≠ 94)
    (h : ∀ s, matchPattern src (p.length + 1) p ⟨[]⟩ s = outcome ⟨[]⟩ (out s)) (len : Nat) :
    strFind src p false 0 len = .ok (report
      ((List.range (src.length + 1)).findSome? (fun i => (out i).map Prod.snd)) len) := by
  have hinit : clampInit 0 src.length = 0 := rfl
  unfold strFind
  rw [hinit, hspecial]
  simp only [Bool.not_true, Bool.or_self, Bool.false_eq_true, if_false, hanchor, decide_false,
    Nat.sub_zero, matchFrom_findSome h, List.range_eq_range']
  rfl

theorem runOf_succ (item : UInt8 → Bool) (s : Nat) :
    runOf item src s = if (src[s]?).any item then runOf item src (s + 1) + 1 else 0 := by
  unfold runOf
  rcases h : src[s]? with - | c
  · rw [List.drop_eq_nil_of_le (List.getElem?_eq_none_iff.mp h)]
    rfl
  · obtain ⟨hs, hc⟩ := List.getElem?_eq_some_iff.mp h
    rw [List.drop_eq_getElem_cons hs, hc, List.takeWhile_cons]
    simp only [Option.any_some]
    split <;> rfl

section

variable {k : List UInt8 → MatchState → Nat → Result} {ms : MatchState} {s : Nat}
  {p q : List UInt8}

theorem matchRepeated_star :
    matchRepeated src k ms s p (42 :: q) =
      maxExpand (k q) ms s (runOf (fun c => singleMatch c p (42 :: q)) src s) := rfl

theorem matchRepeated_plus :
    matchRepeated src k ms s p (43 :: q) =
      if (src[s]?).any (fun c => singleMatch c p (43 :: q)) then
        maxExpand (k q) ms (s + 1) (runOf (fun c => singleMatch c p (43 :: q)) src (s + 1))
      else .ok (none, ms) := rfl

theorem matchRepeated_minus :
    matchRepeated src k ms s p (45 :: q) =
      minExpand (k q) (fun c => singleMatch c p (45 :: q)) ms s (src.drop s) := rfl

end

theorem captureRun_all {k : MatchState → Nat → Result} {ms : MatchState} {s n : Nat}
    {r : Nat × MatchState}
    (hk : k ⟨ms.capture ++ [⟨s, n⟩]⟩ (s + n) = outcome ⟨ms.capture ++ [⟨s, n⟩]⟩ (some r)) :
    endCapture k ⟨ms.capture ++ [⟨s, capUnfinished⟩]⟩ (s + n) =
      outcome ⟨ms.capture ++ [⟨s, capUnfinished⟩]⟩ (some r) := by
  have hlen : ((s + n : Nat) : Int) - s = n := by omega
  exact endCapture_open _ (by rw [hlen]; exact hk)

theorem matchPattern_digits {fuel : Nat} {ms : MatchState} {s : Nat}
    (hl : ms.level < luaMaxcaptures) :
    matchPattern src (fuel + 4) (bytes "(%d+)") ms s = outcome ms
      (if 0 < runOf isDigit src s then
        some (s + runOf isDigit src s, ⟨ms.capture ++ [⟨s, runOf isDigit src s⟩]⟩)
      else none) := by
  refine startCapture_pop (k := matchPattern src (fuel + 3) (bytes "%d+)")) hl ?_
  refine (matchRepeated_plus (k := matchPattern src (fuel + 2)) (p := bytes "%d+)")
    (q := bytes ")")).trans ?_
  have hitem : (fun c => singleMatch c (bytes "%d+)") (43 :: bytes ")")) = isDigit := rfl
  rw [hitem, runOf_succ isDigit s]
  split
  · rw [if_pos (Nat.succ_pos _)]
    have hs : s + (runOf isDigit src (s + 1) + 1) = s + 1 + runOf isDigit src (s + 1) := by omega
    refine maxExpand_all ?_
    rw [← hs]
    exact captureRun_all (k := matchPattern src (fuel + 1) []) rfl
  · rw [if_neg (Nat.lt_irrefl 0)]
    rfl

theorem matchPattern_word {fuel : Nat} {ms : MatchState} {s : Nat}
    (hl : ms.level < luaMaxcaptures) :
    matchPattern src (fuel + 4) (bytes "(%w*)") ms s = outcome ms
      (some (s + runOf isAlnum src s, ⟨ms.capture ++ [⟨s, runOf isAlnum src s⟩]⟩)) := by
  refine startCapture_pop (k := matchPattern src (fuel + 3) (bytes "%w*)")) hl ?_
  refine (matchRepeated_star (k := matchPattern src (fuel + 2)) (p := bytes "%w*)")
    (q := bytes ")")).trans (maxExpand_all ?_)
  exact captureRun_all (k := matchPattern src (fuel + 1) []) rfl

/-- `(.*)` with a text behind it at the end of a pattern captures all up to the last
occurrence of the text. -/
theorem matchPattern_before {l : List UInt8} (hl : 41 ∉ l) (fuel s : Nat) :
    matchPattern src (fuel + l.length + 5) (bytes "(.*)" ++ escape l) ⟨[]⟩ s = outcome ⟨[]⟩
      ((lastUpTo (fun i => l.isPrefixOf (src.drop (s + i))) (src.length - s)).map
        (fun i => (s + i + l.length, ⟨[⟨s, i⟩]⟩))) := by
  refine startCapture_pop (k := matchPattern src (fuel + l.length + 4) (bytes ".*)" ++ escape l))
    (show (MatchState.mk []).level < luaMaxcaptures by decide) ?_
  refine (matchRepeated_star (k := matchPattern src (fuel + l.length + 3))
    (p := bytes ".*)" ++ escape l) (q := bytes ")" ++ escape l)).trans ?_
  have hrun : runOf (fun c => singleMatch c (bytes ".*)" ++ escape l) (42 :: (bytes ")" ++ escape l)))
      src s = src.length - s := by
    show ((src.drop s).takeWhile (fun _ => true)).length = _
    rw [takeWhile_true, List.length_drop]
  rw [hrun]
  refine maxExpand_last (fun i => ?_) _
  refine endCapture_open (k := matchPattern src (fuel + l.length + 2) (escape l)) [] ?_
  have htext : matchPattern src _ _ _ _ = _ := matchPattern_escape (q := []) hl rfl (fuel + 2)
    ⟨[⟨s, ((s + i : Nat) : Int) - s⟩]⟩ (s + i)
  rw [List.append_nil, Nat.add_right_comm] at htext
  have hlen : ((s + i : Nat) : Int) - s = i := by omega
  rw [List.nil_append, htext, hlen]
  split <;> rfl

theorem matchPattern_pair (s : Nat) :
    matchPattern src 12 (bytes "(%w-)=(%w*)") ⟨[]⟩ s = outcome ⟨[]⟩
      (let n := runOf isAlnum src s
        if src[s + n]? = some 61 then
          some (s + n + 1 + runOf isAlnum src (s + n + 1),
            ⟨[⟨s, n⟩, ⟨s + n + 1, runOf isAlnum src (s + n + 1)⟩]⟩)
        else none) := by
  let out (i : Nat) : Option (Nat × MatchState) :=
    if src[i]? = some 61 then
      some (i + 1 + runOf isAlnum src (i + 1),
        ⟨[⟨s, (i : Int) - s⟩, ⟨i + 1, runOf isAlnum src (i + 1)⟩]⟩)
    else none
  refine startCapture_pop (k := matchPattern src 11 (bytes "%w-)=(%w*)"))
    (show (MatchState.mk []).level < luaMaxcaptures by decide) ?_
  refine (matchRepeated_minus (k := matchPattern src 10) (p := bytes "%w-)=(%w*)")
    (q := bytes ")=(%w*)")).trans ?_
  refine (minExpand_run (fun i => (?_ : _ = outcome _ (out i))) (fun i c hc hw => ?_) s).trans ?_
  · refine endCapture_open (k := matchPattern src 9 (bytes "=(%w*)")) [] ?_
    have htext : matchPattern src _ _ _ _ = _ := matchPattern_escape (l := [61])
      (q := bytes "(%w*)") (by decide) rfl 8 ⟨[⟨s, (i : Int) - s⟩]⟩ i
    refine htext.trans ?_
    simp only [out]
    by_cases he : src[i]? = some 61
    · rw [if_pos (cons_isPrefix_drop.mpr he), if_pos he]
      exact matchPattern_word (show 1 < luaMaxcaptures by decide)
    · rw [if_neg (fun h => he (cons_isPrefix_drop.mp h)), if_neg he]
      rfl
  · refine if_neg (fun he => ?_)
    obtain rfl : c = 61 := Option.some.inj (hc.symm.trans he)
    exact absurd hw (by decide)
  · have hlen : ((s + runOf isAlnum src s : Nat) : Int) - s = runOf isAlnum src s := by omega
    simp only [out]
    rw [show (fun c => singleMatch c (bytes "%w-)=(%w*)") (45 :: bytes ")=(%w*)")) = isAlnum from rfl,
      hlen]

theorem sizeT_natCast {n : Nat} (h : n < 2 ^ 64) : sizeT n = n := by
  unfold sizeT
  omega

theorem runOf_le (item : UInt8 → Bool) (s : Nat) : runOf item src s ≤ src.length := by
  unfold runOf
  have h₁ := (List.takeWhile_sublist item (l := src.drop s)).length_le
  have h₂ := List.length_drop (i := s) (l := src)
  omega

/-- Where `(.*)` and a text find their last match, if anywhere. -/
def lastOf (l src : List UInt8) : Option Nat :=
  lastUpTo (fun i => l.isPrefixOf (src.drop i)) src.length

theorem length_escape (l : List UInt8) : l.length ≤ (escape l).length := by
  induction l with
  | nil => exact Nat.le_refl _
  | cons c l ih =>
      unfold escape
      split <;> simp only [List.length_cons] <;> omega

def made (cs : List StringCapture) : MatchState := ⟨cs.map (fun c => ⟨c.init, c.len⟩)⟩

theorem report_made {cs : List StringCapture} {len : Nat} (hl : cs.length ≤ len)
    (hn : ∀ c ∈ cs, c.len < 2 ^ 64) : report (some (made cs)) len = ⟨true, some cs⟩ := by
  have hcs : pushStringCaptures (made cs) len = cs := by
    unfold pushStringCaptures made
    rw [List.take_of_length_le (by simpa using hl), List.map_map]
    refine (List.map_congr_left (fun c hc => ?_)).trans (List.map_id cs)
    simp only [Function.comp_apply, sizeT_natCast (hn c hc)]
    rfl
  simp only [report, Option.isSome_some, Option.map_some, hcs]

theorem report_findSome {f : Nat → Option (List StringCapture)} {l : List Nat} {len : Nat}
    (h : ∀ s cs, f s = some cs → cs.length ≤ len ∧ ∀ c ∈ cs, c.len < 2 ^ 64) :
    report (l.findSome? (fun s => (f s).map made)) len =
      ⟨(l.findSome? f).isSome, l.findSome? f⟩ := by
  have hcomp : (fun s => (f s).map made) = Option.map made ∘ f := rfl
  rw [hcomp, ← List.map_findSome?]
  cases hf : l.findSome? f with
  | none => rfl
  | some cs =>
      obtain ⟨s, -, hs⟩ := List.exists_of_findSome?_eq_some hf
      obtain ⟨hl, hn⟩ := h s cs hs
      exact report_made hl hn

theorem find_before {l : List UInt8} (hl : 41 ∉ l) (hsize : src.length < 2 ^ 64) (len : Nat) :
    strFind src (bytes "(.*)" ++ escape l) false 0 (len + 1) =
      .ok ⟨(lastOf l src).isSome, (lastOf l src).map (fun i => [⟨0, i⟩])⟩ := by
  obtain ⟨fuel, hfuel⟩ := Nat.exists_eq_add_of_le (length_escape l)
  have hp : (bytes "(.*)" ++ escape l).length + 1 = fuel + l.length + 5 := by
    rw [List.length_append, hfuel, show (bytes "(.*)").length = 4 from rfl]
    omega
  let out (s : Nat) : Option (Nat × MatchState) :=
    (lastUpTo (fun i => l.isPrefixOf (src.drop (s + i))) (src.length - s)).map
      (fun i => (s + i + l.length, ⟨[⟨s, i⟩]⟩))
  have hanchor : (bytes "(.*)" ++ escape l).headD 0 ≠ 94 := show (40 : UInt8) ≠ 94 by decide
  have hfrom (s : Nat) : matchPattern src ((bytes "(.*)" ++ escape l).length + 1)
      (bytes "(.*)" ++ escape l) ⟨[]⟩ s = outcome ⟨[]⟩ (out s) := by
    rw [hp]
    exact matchPattern_before hl fuel s
  rw [strFind_findSome rfl hanchor hfrom]
  have hzero : out 0 = (lastOf l src).map (fun i => (0 + i + l.length, ⟨[⟨0, i⟩]⟩)) := by
    simp only [out, lastOf, Nat.zero_add, Nat.sub_zero]
  cases h : lastOf l src with
  | some i =>
      obtain ⟨hi, -, -⟩ := lastUpTo_eq_some.mp h
      rw [List.range_succ_eq_map, List.findSome?_cons, hzero, h]
      exact congrArg Except.ok (report_made (show [(⟨0, i⟩ : StringCapture)].length ≤ len + 1 by simp)
        (by simpa using Nat.lt_of_le_of_lt hi hsize))
  | none =>
      have hnone := lastUpTo_eq_none.mp h
      have hall : (List.range (src.length + 1)).findSome? (fun s => (out s).map Prod.snd) = none := by
        rw [List.findSome?_eq_none_iff]
        intro s hs
        have hout : lastUpTo (fun i => l.isPrefixOf (src.drop (s + i))) (src.length - s) = none := by
          refine lastUpTo_eq_none.mpr (fun i hi => hnone (s + i) ?_)
          have := List.mem_range.mp hs
          omega
        simp only [out, hout, Option.map_none]
      rw [hall]
      rfl

/-- The number that directly follows a text at `s`. -/
def numberAt (l src : List UInt8) (s : Nat) : Option (List StringCapture) :=
  if l.isPrefixOf (src.drop s) && 0 < runOf isDigit src (s + l.length) then
    some [⟨s + l.length, runOf isDigit src (s + l.length)⟩]
  else none

/-- The first number that directly follows a text. -/
def numberAfter (l src : List UInt8) : Option (List StringCapture) :=
  (List.range (src.length + 1)).findSome? (numberAt l src)

theorem find_number {l : List UInt8} (hl : 41 ∉ l) (hsize : src.length < 2 ^ 64) (len : Nat) :
    strFind src (escape l ++ bytes "(%d+)") false 0 (len + 1) =
      .ok ⟨(numberAfter l src).isSome, numberAfter l src⟩ := by
  obtain ⟨fuel, hfuel⟩ := Nat.exists_eq_add_of_le (length_escape l)
  have hp : (escape l ++ bytes "(%d+)").length + 1 = fuel + 2 + 4 + l.length := by
    rw [List.length_append, hfuel, show (bytes "(%d+)").length = 5 from rfl]
    omega
  have hspecial : (escape l ++ bytes "(%d+)").any (fun c => c ∈ specials) = true := by
    rw [List.any_append]
    exact Bool.or_eq_true_iff.mpr (.inr rfl)
  have hanchor : (escape l ++ bytes "(%d+)").headD 0 ≠ 94 := by
    cases l with
    | nil => decide
    | cons c l =>
        unfold escape
        split
        · exact show lEsc ≠ 94 by decide
        · rename_i hc
          rintro rfl
          exact hc (by decide)
  let e (s : Nat) : Nat := s + l.length + runOf isDigit src (s + l.length)
  have hfrom (s : Nat) : matchPattern src ((escape l ++ bytes "(%d+)").length + 1)
      (escape l ++ bytes "(%d+)") ⟨[]⟩ s =
        outcome ⟨[]⟩ ((numberAt l src s).map (fun cs => (e s, made cs))) := by
    rw [hp, matchPattern_escape hl (by decide)]
    unfold numberAt
    by_cases hpre : l.isPrefixOf (src.drop s) = true
    · rw [if_pos hpre, matchPattern_digits (by decide), hpre]
      simp only [Bool.true_and, decide_eq_true_eq]
      split <;> rfl
    · rw [if_neg hpre, if_neg (fun h => hpre (Bool.and_eq_true_iff.mp h).1)]
      rfl
  rw [strFind_findSome hspecial hanchor hfrom]
  simp only [Option.map_map, Function.comp_def]
  refine congrArg Except.ok (report_findSome (f := numberAt l src) (fun s cs hs => ?_))
  unfold numberAt at hs
  split at hs
  · obtain rfl := Option.some.inj hs
    exact ⟨by simp, by simpa using Nat.lt_of_le_of_lt (runOf_le _ _) hsize⟩
  · exact absurd hs nofun

/-- The captures of `(%w-)=(%w*)` at `s`: a word, perhaps empty, that an equality sign
follows, and the word behind the sign. -/
def pairAt (src : List UInt8) (s : Nat) : Option (List StringCapture) :=
  let n := runOf isAlnum src s
  if src[s + n]? = some 61 then some [⟨s, n⟩, ⟨s + n + 1, runOf isAlnum src (s + n + 1)⟩]
  else none

def firstPair (src : List UInt8) : Option (List StringCapture) :=
  (List.range (src.length + 1)).findSome? (pairAt src)

theorem find_pair (hsize : src.length < 2 ^ 64) (len : Nat) :
    strFind src (bytes "(%w-)=(%w*)") false 0 (len + 2) =
      .ok ⟨(firstPair src).isSome, firstPair src⟩ := by
  let e (s : Nat) : Nat := s + runOf isAlnum src s + 1 + runOf isAlnum src (s + runOf isAlnum src s + 1)
  have hfrom (s : Nat) : matchPattern src ((bytes "(%w-)=(%w*)").length + 1)
      (bytes "(%w-)=(%w*)") ⟨[]⟩ s =
        outcome ⟨[]⟩ ((pairAt src s).map (fun cs => (e s, made cs))) := by
    refine (matchPattern_pair s).trans ?_
    simp only [pairAt]
    split <;> rfl
  rw [strFind_findSome rfl (by decide) hfrom]
  simp only [Option.map_map, Function.comp_def]
  refine congrArg Except.ok (report_findSome (f := pairAt src) (fun s cs hs => ?_))
  simp only [pairAt] at hs
  split at hs
  · obtain rfl := Option.some.inj hs
    have hle (i : Nat) : runOf isAlnum src i < 2 ^ 64 := Nat.lt_of_le_of_lt (runOf_le _ i) hsize
    exact ⟨by simp, by simpa using ⟨hle _, hle _⟩⟩
  · exact absurd hs nofun

theorem find_word (hsize : src.length < 2 ^ 64) (len : Nat) :
    strFind src (bytes "(%w*)") false 0 (len + 1) = .ok ⟨true, some [⟨0, runOf isAlnum src 0⟩]⟩ := by
  have hfrom (s : Nat) : matchPattern src ((bytes "(%w*)").length + 1) (bytes "(%w*)") ⟨[]⟩ s =
      outcome ⟨[]⟩ (some (s + runOf isAlnum src s, made [⟨s, runOf isAlnum src s⟩])) :=
    matchPattern_word (show (MatchState.mk []).level < luaMaxcaptures by decide)
  rw [strFind_findSome rfl (by decide) hfrom, List.range_succ_eq_map, List.findSome?_cons]
  exact congrArg Except.ok (report_made
    (show [(⟨0, runOf isAlnum src 0⟩ : StringCapture)].length ≤ len + 1 by simp)
    (by simpa using Nat.lt_of_le_of_lt (runOf_le _ _) hsize))

end ErSdk.Patterns
