import ErSdk.HttpParser

namespace ErSdk.HeaderBoundary

open Pmatch Patterns HttpParser

theorem prefix_append_cons {l x y : List UInt8} {c : UInt8} (hc : c ∉ l) :
    l <+: x ++ c :: y ↔ l <+: x := by
  constructor
  · intro h
    rcases List.prefix_or_prefix_of_prefix h (List.prefix_append x (c :: y)) with hlx | hxl
    · exact hlx
    · obtain ⟨t, rfl⟩ := hxl
      cases t with
      | nil => simp
      | cons d t =>
          rw [List.prefix_append_right_inj, List.cons_prefix_cons] at h
          obtain ⟨rfl, -⟩ := h
          simp at hc
  · intro h
    exact h.trans (List.prefix_append x (c :: y))

theorem takeWhile_append_cons {p : UInt8 → Bool} {c : UInt8} (hc : p c = false) (x y : List UInt8) :
    (x ++ c :: y).takeWhile p = x.takeWhile p := by
  induction x with
  | nil => simp [hc]
  | cons d x ih =>
      cases hd : p d with
      | false => simp [hd]
      | true => simp [hd, ih]

theorem findSome?_congr {α β : Type} {f g : α → Option β} {l : List α}
    (h : ∀ a ∈ l, f a = g a) : l.findSome? f = l.findSome? g := by
  induction l with
  | nil => rfl
  | cons a l ih =>
      rw [List.findSome?_cons, List.findSome?_cons, h a List.mem_cons_self,
        ih (fun b hb => h b (List.mem_cons_of_mem a hb))]

/-- The digits that directly follow a text at `s`. -/
def digitsAt (l src : List UInt8) (s : Nat) : Option (List UInt8) :=
  if l <+: src.drop s ∧ (src.drop (s + l.length)).takeWhile isDigit ≠ [] then
    some ((src.drop (s + l.length)).takeWhile isDigit)
  else none

/-- The first digits that directly follow a text. -/
def digitsAfter (l src : List UInt8) : Option (List UInt8) :=
  (List.range (src.length + 1)).findSome? (digitsAt l src)

theorem numberAt_text (l src : List UInt8) (s : Nat) :
    (numberAt l src s).map (fun cs => firstText src ⟨true, some cs⟩) = digitsAt l src s := by
  have hrun : (src.drop (s + l.length)).take (runOf isDigit src (s + l.length)) =
      (src.drop (s + l.length)).takeWhile isDigit :=
    (List.prefix_iff_eq_take.mp (List.takeWhile_prefix isDigit)).symm
  have hzero : 0 ∉ (src.drop (s + l.length)).takeWhile isDigit := by
    intro h
    exact absurd (List.mem_takeWhile_imp h) (by decide)
  have hiff : (l.isPrefixOf (src.drop s) && decide (0 < runOf isDigit src (s + l.length))) = true ↔
      l <+: src.drop s ∧ (src.drop (s + l.length)).takeWhile isDigit ≠ [] := by
    rw [Bool.and_eq_true, List.isPrefixOf_iff_prefix, decide_eq_true_iff]
    exact and_congr_right (fun _ => List.length_pos_iff)
  unfold numberAt digitsAt
  simp only [hiff]
  by_cases h : l <+: src.drop s ∧ (src.drop (s + l.length)).takeWhile isDigit ≠ []
  · rw [if_pos h, if_pos h]
    simp only [Option.map_some, firstText, hrun, cString_of_not_mem hzero]
  · rw [if_neg h, if_neg h]
    rfl

theorem numberAfter_text (l src : List UInt8) :
    (numberAfter l src).map (fun cs => firstText src ⟨true, some cs⟩) = digitsAfter l src := by
  unfold numberAfter digitsAfter
  rw [List.map_findSome?]
  refine congrArg (fun f => List.findSome? f _) (funext (fun s => ?_))
  exact numberAt_text l src s

section

variable {l x y : List UInt8} {c : UInt8}

theorem digitsAt_before (hl : c ∉ l) (hc : isDigit c = false) {s : Nat} (hs : s ≤ x.length) :
    digitsAt l (x ++ c :: y) s = digitsAt l x s := by
  have hpre : l <+: (x ++ c :: y).drop s ↔ l <+: x.drop s := by
    rw [List.drop_append_of_le_length hs]
    exact prefix_append_cons hl
  unfold digitsAt
  simp only [hpre]
  by_cases h : l <+: x.drop s
  · have hle := h.length_le
    rw [List.length_drop] at hle
    rw [List.drop_append_of_le_length (by omega), takeWhile_append_cons hc]
  · rw [if_neg (fun hand => h hand.1), if_neg (fun hand => h hand.1)]

theorem drop_behind (x y : List UInt8) (c : UInt8) (s : Nat) :
    (x ++ c :: y).drop (x.length + 1 + s) = y.drop s := by
  rw [List.drop_append, List.drop_of_length_le (by omega)]
  have hs : x.length + 1 + s - x.length = s + 1 := by omega
  rw [hs, List.drop_succ_cons, List.nil_append]

theorem digitsAt_behind (l x y : List UInt8) (c : UInt8) (s : Nat) :
    digitsAt l (x ++ c :: y) (x.length + 1 + s) = digitsAt l y s := by
  unfold digitsAt
  rw [drop_behind, Nat.add_assoc (x.length + 1), drop_behind]

theorem digitsAfter_append (hl : c ∉ l) (hc : isDigit c = false) :
    digitsAfter l (x ++ c :: y) = (digitsAfter l x).or (digitsAfter l y) := by
  have hlen : (x ++ c :: y).length + 1 = (x.length + 1) + (y.length + 1) := by
    rw [List.length_append, List.length_cons]
    omega
  unfold digitsAfter
  rw [hlen, List.range_add, List.findSome?_append]
  have hx : (List.range (x.length + 1)).findSome? (digitsAt l (x ++ c :: y)) =
      (List.range (x.length + 1)).findSome? (digitsAt l x) := by
    refine findSome?_congr (fun s hs => ?_)
    exact digitsAt_before hl hc (Nat.le_of_lt_succ (List.mem_range.mp hs))
  have hy : ((List.range (y.length + 1)).map (x.length + 1 + ·)).findSome?
      (digitsAt l (x ++ c :: y)) = (List.range (y.length + 1)).findSome? (digitsAt l y) := by
    rw [List.findSome?_map]
    refine congrArg (fun f => List.findSome? f _) (funext (fun s => ?_))
    exact digitsAt_behind l x y c s
  rw [hx, hy]

end

/-- What is returned for a blank line at `i` and the digits of the code and the length. -/
def readHeader (alloc : Allocations) (i : Nat) (code length : Option (List UInt8)) : Header :=
  match code with
  | none => ⟨false, none, none, some (i + 4)⟩
  | some c =>
      if alloc.resultStr = false then ⟨false, none, none, some (i + 4)⟩
      else if wholeNumber c = none then ⟨false, some (toInt32 (strtol c).1), none, some (i + 4)⟩
      else match length with
        | none => ⟨false, some (toInt32 (strtol c).1), none, some (i + 4)⟩
        | some n =>
            if alloc.contentLengthStr = false then
              ⟨false, some (toInt32 (strtol c).1), none, some (i + 4)⟩
            else ⟨(wholeNumber n).isSome, some (toInt32 (strtol c).1), some (sizeT (strtol n).1),
              some (i + 4)⟩

section

variable {buffer : List UInt8} (hsize : buffer.length < 2 ^ 64) (alloc : Allocations)

include hsize

theorem parseResultCode_eq (i : Nat) :
    parseResultCode buffer alloc ⟨true, none, none, some (i + 4)⟩ =
      .ok (readHeader alloc i (digitsAfter (bytes "HTTP/1.1 ") buffer)
        (digitsAfter (bytes "Content-Length: ") buffer)) := by
  have hcode := find_number (l := bytes "HTTP/1.1 ") (by decide) hsize 9
  have hlength := find_number (l := bytes "Content-Length: ") (by decide) hsize 9
  have hctext := numberAfter_text (bytes "HTTP/1.1 ") buffer
  have hltext := numberAfter_text (bytes "Content-Length: ") buffer
  unfold parseResultCode parseContentLength
  rw [httpHeaderPattern_eq, packetLengthPattern_eq, hcode, hlength, ← hctext, ← hltext]
  cases hc : numberAfter (bytes "HTTP/1.1 ") buffer with
  | none => rfl
  | some cs =>
      cases hr : alloc.resultStr with
      | false => simp [readHeader, hr, ok_bind]
      | true =>
          by_cases hw : wholeNumber (firstText buffer ⟨true, some cs⟩) = none
          · simp [readHeader, hr, hw, ok_bind, Header.withCode]
          · cases hl : numberAfter (bytes "Content-Length: ") buffer with
            | none => simp [readHeader, hr, hw, ok_bind, Header.withCode]
            | some ls =>
                cases ha : alloc.contentLengthStr with
                | false => simp [readHeader, hr, hw, ha, ok_bind, Header.withCode]
                | true => simp [readHeader, hr, hw, ha, ok_bind, Header.withCode]

theorem httpParseHeader_eq {i : Nat} (hi : lastOf blankLine buffer = some i) :
    httpParseHeader buffer alloc =
      .ok (readHeader alloc i (digitsAfter (bytes "HTTP/1.1 ") buffer)
        (digitsAfter (bytes "Content-Length: ") buffer)) := by
  have hfind := find_before (l := blankLine) (by decide) hsize 9
  unfold httpParseHeader
  rw [packetEndPattern_eq, hfind, hi]
  exact parseResultCode_eq hsize alloc i

end

/-- A blank line that ends in the body, also one that the end of the header is part of. -/
def BlankIn (body : List UInt8) : Prop := ∃ i, 0 < i ∧ blankLine <+: (blankLine ++ body).drop i

section

variable {head : List UInt8} (body : List UInt8)

theorem lastOf_head (h : ∀ i, blankLine <+: (head ++ blankLine).drop i → i = head.length) :
    lastOf blankLine (head ++ blankLine) = some head.length := by
  refine lastUpTo_eq_some.mpr ⟨by simp, ?_, fun j _ hj => ?_⟩
  · rw [List.drop_left]
    exact List.isPrefixOf_iff_prefix.mpr List.prefix_rfl
  · rw [Bool.eq_false_iff, ne_eq, List.isPrefixOf_iff_prefix]
    intro hpre
    have := h j hpre
    omega

theorem lastOf_whole (head : List UInt8) :
    ∃ i, lastOf blankLine (head ++ (blankLine ++ body)) = some i ∧
      (i = head.length ↔ ¬ BlankIn body) := by
  have hat : blankLine <+: (head ++ (blankLine ++ body)).drop head.length := by
    rw [List.drop_left]
    exact List.prefix_append _ _
  cases hlast : lastOf blankLine (head ++ (blankLine ++ body)) with
  | none =>
      have hnone := lastUpTo_eq_none.mp hlast head.length (by simp)
      rw [Bool.eq_false_iff, ne_eq, List.isPrefixOf_iff_prefix] at hnone
      exact absurd hat hnone
  | some i =>
      obtain ⟨hi, hpre, hlater⟩ := lastUpTo_eq_some.mp hlast
      rw [List.isPrefixOf_iff_prefix] at hpre
      refine ⟨i, rfl, ?_⟩
      have hle : head.length ≤ i := by
        by_contra hlt
        have hfalse := hlater head.length (by simp) (by omega)
        rw [Bool.eq_false_iff, ne_eq, List.isPrefixOf_iff_prefix] at hfalse
        exact hfalse hat
      have hdrop (k : Nat) : (head ++ (blankLine ++ body)).drop (head.length + k) =
          (blankLine ++ body).drop k := by
        rw [List.drop_append, List.drop_of_length_le (by omega), List.nil_append]
        exact congrArg (fun n => List.drop n _) (by omega)
      constructor
      · rintro rfl ⟨k, hk, hblank⟩
        have hbound : head.length + k ≤ (head ++ (blankLine ++ body)).length := by
          have hlen := hblank.length_le
          have h4 : blankLine.length = 4 := rfl
          simp only [List.length_drop, List.length_append] at hlen ⊢
          omega
        have hfalse := hlater (head.length + k) hbound (by omega)
        rw [hdrop, Bool.eq_false_iff, ne_eq, List.isPrefixOf_iff_prefix] at hfalse
        exact hfalse hblank
      · intro hnot
        by_contra hne
        refine hnot ⟨i - head.length, by omega, ?_⟩
        rw [← hdrop, Nat.add_sub_cancel' hle]
        exact hpre

theorem digitsAfter_head {l : List UInt8} (hl : 13 ∉ l) (hnone : digitsAfter l [10, 13, 10] = none) :
    digitsAfter l (head ++ blankLine) = digitsAfter l head := by
  have htext : head ++ blankLine = head ++ 13 :: [10, 13, 10] := rfl
  rw [htext, digitsAfter_append hl (by decide), hnone, Option.or_none]

theorem digitsAfter_whole {l : List UInt8} (hl : 13 ∉ l ∧ 10 ∉ l)
    (hnone : digitsAfter l [10, 13] = none) :
    digitsAfter l (head ++ (blankLine ++ body)) = (digitsAfter l head).or (digitsAfter l body) := by
  have htext : head ++ (blankLine ++ body) = head ++ 13 :: ([10, 13] ++ 10 :: body) := rfl
  rw [htext, digitsAfter_append hl.1 (by decide), digitsAfter_append hl.2 (by decide), hnone,
    Option.none_or]

/-- The number that directly follows a text is a whole C integer. -/
def WholeIn (l s : List UInt8) : Prop := ∃ t, digitsAfter l s = some t ∧ wholeNumber t ≠ none

/-- What is read from a header with a body behind it, compared with the header alone. -/
def SameHeader (head body : List UInt8) (alloc : Allocations) : Prop :=
  ∃ g h, httpParseHeader (head ++ (blankLine ++ body)) alloc = .ok g ∧
    httpParseHeader (head ++ blankLine) alloc = .ok h ∧
    g.found = h.found ∧ g.resultCode = h.resultCode ∧ g.contentLength = h.contentLength ∧
    (g.found = true → g.payloadIndex = some (head.length + 4))

/-- The body has nothing that the searches of the header can take. -/
structure Separate (head body : List UInt8) (alloc : Allocations) : Prop where
  code : alloc.resultStr = true → digitsAfter (bytes "HTTP/1.1 ") head = none →
    digitsAfter (bytes "HTTP/1.1 ") body = none
  length : alloc.resultStr = true → alloc.contentLengthStr = true →
    WholeIn (bytes "HTTP/1.1 ") head → digitsAfter (bytes "Content-Length: ") head = none →
    digitsAfter (bytes "Content-Length: ") body = none
  blank : alloc.resultStr = true → alloc.contentLengthStr = true →
    WholeIn (bytes "HTTP/1.1 ") head → WholeIn (bytes "Content-Length: ") head → ¬ BlankIn body

/-- The fields that readHeader gives with a body agree with those without it. -/
def SameRead (alloc : Allocations) (i j : Nat) (c c' n n' : Option (List UInt8)) : Prop :=
  let g := readHeader alloc i (c.or c') (n.or n')
  let h := readHeader alloc j c n
  g.found = h.found ∧ g.resultCode = h.resultCode ∧ g.contentLength = h.contentLength ∧
    (g.found = true → g.payloadIndex = some (j + 4))

theorem sameRead_iff (alloc : Allocations) (i j : Nat) (c c' n n' : Option (List UInt8)) :
    SameRead alloc i j c c' n n' ↔
      (alloc.resultStr = true → c = none → c' = none) ∧
      (alloc.resultStr = true → alloc.contentLengthStr = true →
        (∃ t, c = some t ∧ wholeNumber t ≠ none) → n = none → n' = none) ∧
      (alloc.resultStr = true → alloc.contentLengthStr = true →
        (∃ t, c = some t ∧ wholeNumber t ≠ none) → (∃ t, n = some t ∧ wholeNumber t ≠ none) →
        i = j) := by
  unfold SameRead readHeader
  cases hr : alloc.resultStr with
  | false => cases c <;> cases c' <;> simp
  | true =>
      cases c with
      | none =>
          cases c' with
          | none => simp
          | some c' =>
              refine iff_of_false ?_ (fun h => absurd (h.1 rfl rfl) nofun)
              rintro ⟨-, hcode, -⟩
              by_cases hw : wholeNumber c' = none
              · simp [hw] at hcode
              · generalize n.or n' = m at hcode
                cases m with
                | none => simp [hw] at hcode
                | some m => cases ha : alloc.contentLengthStr <;> simp [hw, ha] at hcode
      | some c =>
          by_cases hw : wholeNumber c = none
          · simp [hw]
          · cases ha : alloc.contentLengthStr with
            | false => cases n <;> cases n' <;> simp [hw]
            | true =>
                cases n with
                | none => cases n' <;> simp [hw]
                | some n =>
                    cases hn : wholeNumber n with
                    | none => simp [hw, hn]
                    | some v => simp [hw, hn]

/-- Nothing that is read from a header changes with the body behind it, and the payload index is
the one behind the blank line, exactly when the body has nothing that a search can take. -/
theorem same_header_iff {head body : List UInt8}
    (honly : ∀ i, blankLine <+: (head ++ blankLine).drop i → i = head.length)
    (hsize : (head ++ (blankLine ++ body)).length < 2 ^ 64) (alloc : Allocations) :
    SameHeader head body alloc ↔ Separate head body alloc := by
  obtain ⟨i, hi, hblank⟩ := lastOf_whole body head
  have hsize' : (head ++ blankLine).length < 2 ^ 64 := by
    simp only [List.length_append] at hsize ⊢
    omega
  have hwhole := httpParseHeader_eq hsize alloc hi
  have halone := httpParseHeader_eq hsize' alloc (lastOf_head honly)
  rw [digitsAfter_whole body (by decide) (by decide),
    digitsAfter_whole body (by decide) (by decide)] at hwhole
  rw [digitsAfter_head (by decide) (by decide),
    digitsAfter_head (by decide) (by decide)] at halone
  have hsame : SameHeader head body alloc ↔ SameRead alloc i head.length
      (digitsAfter (bytes "HTTP/1.1 ") head) (digitsAfter (bytes "HTTP/1.1 ") body)
      (digitsAfter (bytes "Content-Length: ") head) (digitsAfter (bytes "Content-Length: ") body) := by
    constructor
    · rintro ⟨g, h, hg, hh, hrest⟩
      obtain rfl := Except.ok.inj (hwhole.symm.trans hg)
      obtain rfl := Except.ok.inj (halone.symm.trans hh)
      exact hrest
    · intro h
      exact ⟨_, _, hwhole, halone, h⟩
  rw [hsame, sameRead_iff, hblank]
  constructor
  · rintro ⟨hc, hn, hb⟩
    exact ⟨hc, hn, hb⟩
  · rintro ⟨hc, hn, hb⟩
    exact ⟨hc, hn, hb⟩

end

def okHead : List UInt8 := bytes "HTTP/1.1 200 OK\r\nContent-Length: 5"

theorem okHead_only {i : Nat} (h : blankLine <+: (okHead ++ blankLine).drop i) :
    i = okHead.length := by
  have hall : ∀ i < 38, blankLine.isPrefixOf ((okHead ++ blankLine).drop i) = true →
      i = okHead.length := by
    decide
  have hlen := h.length_le
  have h38 : (okHead ++ blankLine).length = 38 := by decide
  rw [List.length_drop, h38, show blankLine.length = 4 from rfl] at hlen
  exact hall i (by omega) (List.isPrefixOf_iff_prefix.mpr h)

theorem same_header_iff_hello : SameHeader okHead (bytes "hello") ⟨true, true⟩ ↔
    Separate okHead (bytes "hello") ⟨true, true⟩ :=
  same_header_iff (fun _ => okHead_only) (by decide) ⟨true, true⟩

/-- A body that starts with a blank line moves the payload behind it. -/
theorem blank_body_moves_payload : ¬ ∀ head body alloc,
    (∀ i, blankLine <+: (head ++ blankLine).drop i → i = head.length) →
    (head ++ (blankLine ++ body)).length < 2 ^ 64 → SameHeader head body alloc := by
  intro h
  obtain ⟨g, -, hg, -, -, -, -, hindex⟩ := h okHead (bytes "\r\n\r\nx") ⟨true, true⟩
    (fun _ => okHead_only) (by decide)
  have hread : (httpParseHeader (okHead ++ (blankLine ++ bytes "\r\n\r\nx")) ⟨true, true⟩).toOption =
      some ⟨true, some 200, some 5, some (okHead.length + 8)⟩ := by
    decide +kernel
  rw [hg] at hread
  obtain rfl := Option.some.inj hread
  have hsame := Option.some.inj (hindex rfl)
  omega

end ErSdk.HeaderBoundary
