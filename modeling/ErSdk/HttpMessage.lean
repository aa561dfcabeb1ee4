import ErSdk.Basic
import Mathlib.Data.List.DropRight

namespace ErSdk.HttpMessage

def isHexDigit (c : UInt8) : Bool := isDigit c || (65 ≤ c && c ≤ 70) || (97 ≤ c && c ≤ 102)

def hexValue (c : UInt8) : UInt8 :=
  if isDigit c then c - 48 else if c ≤ 70 then c - 55 else c - 87

def isTchar (c : UInt8) : Bool := isAlnum c || (bytes "!#$%&'*+-.^_|~").contains c || c = 96

def isOws (c : UInt8) : Bool := c = 32 || c = 9

/-- The bytes of a field value: visible ones, those above ASCII, blanks and tabs. -/
def isFieldByte (c : UInt8) : Bool := (32 ≤ c && c ≤ 126) || 128 ≤ c || c = 9

/-- The bytes that stand for themselves in the query of a request target. -/
def isQueryByte (c : UInt8) : Bool := isAlnum c || (bytes "-._~!$&'()*+,;=:@/?").contains c

/-- A request as the grammar of HTTP/1.1 reads it. -/
structure Message where
  method : List UInt8
  path : List UInt8
  query : Option (List UInt8)
  headers : List (List UInt8 × List UInt8)
  body : List UInt8
  deriving DecidableEq

/-- The text before the first line break, and what follows it. -/
def splitLine : List UInt8 → Option (List UInt8 × List UInt8)
  | [] => none
  | c :: s =>
      if c = 13 ∧ s.head? = some 10 then some ([], s.tail)
      else (splitLine s).map (fun p => (c :: p.1, p.2))

/-- Bytes that are allowed, and percent signs with two hexadecimal digits. -/
def wellEncoded : List UInt8 → Bool
  | [] => true
  | 37 :: a :: b :: s => isHexDigit a && isHexDigit b && wellEncoded s
  | c :: s => isQueryByte c && wellEncoded s

def parseTarget (target : List UInt8) : Option (List UInt8 × Option (List UInt8)) :=
  let path := target.takeWhile (· ≠ 63)
  let query := match target.dropWhile (· ≠ 63) with
    | [] => none
    | _ :: query => some query
  if path.head? = some 47 ∧ wellEncoded path ∧ wellEncoded (query.getD []) then some (path, query)
  else none

def parseRequestLine (line : List UInt8) :
    Option (List UInt8 × List UInt8 × Option (List UInt8)) :=
  let method := line.takeWhile (· ≠ 32)
  let rest := (line.dropWhile (· ≠ 32)).drop 1
  if method ≠ [] ∧ method.all isTchar ∧ rest.dropWhile (· ≠ 32) = bytes " HTTP/1.1" then
    (parseTarget (rest.takeWhile (· ≠ 32))).map (fun t => (method, t))
  else none

def trim (s : List UInt8) : List UInt8 := (s.dropWhile isOws).rdropWhile isOws

def parseHeader (line : List UInt8) : Option (List UInt8 × List UInt8) :=
  let name := line.takeWhile (· ≠ 58)
  match line.dropWhile (· ≠ 58) with
  | [] => none
  | _ :: value =>
      if name ≠ [] ∧ name.all isTchar ∧ value.all isFieldByte then some (name, trim value) else none

def parseHeaders : Nat → List UInt8 → Option (List (List UInt8 × List UInt8) × List UInt8)
  | 0, _ => none
  | fuel + 1, s => do
      let (line, rest) ← splitLine s
      if line = [] then some ([], rest) else
        let header ← parseHeader line
        let (headers, body) ← parseHeaders fuel rest
        some (header :: headers, body)

def lower (c : UInt8) : UInt8 := if isUpper c then c + 32 else c

def isLength (h : List UInt8 × List UInt8) : Bool := h.1.map lower = bytes "content-length"

def decimalValue (s : List UInt8) : Nat := s.foldl (fun n c => 10 * n + (c.toNat - 48)) 0

/-- The length of the body: none without a Content-Length, and no two of them. -/
def bodyLength (headers : List (List UInt8 × List UInt8)) : Option Nat :=
  match headers.filter isLength with
  | [] => some 0
  | [h] => if h.2 ≠ [] ∧ h.2.all isDigit then some (decimalValue h.2) else none
  | _ => none

/-- Reads a text as exactly one request. -/
def parseMessage (s : List UInt8) : Option Message := do
  let (line, rest) ← splitLine s
  let (method, path, query) ← parseRequestLine line
  let (headers, body) ← parseHeaders rest.length rest
  let length ← bodyLength headers
  if body.length = length then some ⟨method, path, query, headers, body⟩ else none

def percentDecode : List UInt8 → List UInt8
  | [] => []
  | 37 :: a :: b :: s =>
      if isHexDigit a && isHexDigit b then (16 * hexValue a + hexValue b) :: percentDecode s
      else 37 :: percentDecode (a :: b :: s)
  | c :: s => (if c = 43 then 32 else c) :: percentDecode s

def pairOf (s : List UInt8) : List UInt8 × List UInt8 :=
  (percentDecode (s.takeWhile (· ≠ 61)), percentDecode ((s.dropWhile (· ≠ 61)).drop 1))

/-- The pairs of an application/x-www-form-urlencoded text. -/
def formPairs (s : List UInt8) : List (List UInt8 × List UInt8) :=
  ((s.splitOn 38).filter (· ≠ [])).map pairOf

/-- What a request with a form in its query or its body says. The length of the body is no
part of it. -/
structure Form where
  method : List UInt8
  path : List UInt8
  headers : List (List UInt8 × List UInt8)
  pairs : List (List UInt8 × List UInt8)
  deriving DecidableEq

def Message.form (m : Message) : Form where
  method := m.method
  path := m.path
  headers := m.headers.filter (fun h => !isLength h)
  pairs := (m.query.map formPairs).getD [] ++ formPairs m.body

def parseForm (s : List UInt8) : Option Form := (parseMessage s).map Message.form

/-- No plus sign, and no percent sign that two hexadecimal digits follow. -/
def Plain : List UInt8 → Prop
  | [] => True
  | c :: s => c ≠ 43 ∧ (c = 37 → (s.takeWhile isHexDigit).length < 2) ∧ Plain s

theorem length_percentDecode_le (s : List UInt8) : (percentDecode s).length ≤ s.length := by
  induction s using percentDecode.induct with
  | case1 => simp [percentDecode]
  | case2 a b s h ih =>
      rw [percentDecode, if_pos h]
      simp only [List.length_cons]
      omega
  | case3 a b s h ih =>
      rw [percentDecode, if_neg h]
      simpa using ih
  | case4 c s hc ih =>
      rw [percentDecode]
      · simpa using ih
      · exact hc

theorem percentDecode_eq_self_iff (s : List UInt8) : percentDecode s = s ↔ Plain s := by
  induction s using percentDecode.induct with
  | case1 => simp [percentDecode, Plain]
  | case2 a b s h ih =>
      rw [percentDecode, if_pos h]
      constructor
      · intro heq
        have hlen := congrArg List.length heq
        have hle := length_percentDecode_le s
        simp only [List.length_cons] at hlen
        omega
      · rintro ⟨-, hp, -⟩
        rw [Bool.and_eq_true] at h
        have hlt := hp rfl
        simp only [List.takeWhile_cons, h.1, h.2, if_true, List.length_cons] at hlt
        omega
  | case3 a b s h ih =>
      rw [percentDecode, if_neg h, List.cons_inj_right, ih]
      have hlt : ((a :: b :: s).takeWhile isHexDigit).length < 2 := by
        rw [Bool.and_eq_true, not_and] at h
        by_cases ha : isHexDigit a = true
        · simp [ha, h ha]
        · simp [ha]
      constructor
      · intro hplain
        exact ⟨by decide, fun _ => hlt, hplain⟩
      · rintro ⟨-, -, hplain⟩
        exact hplain
  | case4 c s hc ih =>
      rw [percentDecode]
      · by_cases hplus : c = 43
        · subst hplus
          refine iff_of_false ?_ (fun hp => hp.1 rfl)
          intro heq
          exact absurd (List.cons.inj heq).1 (by decide)
        · rw [if_neg hplus, List.cons_inj_right, ih]
          constructor
          · intro hplain
            refine ⟨hplus, ?_, hplain⟩
            rintro rfl
            match s with
            | [] => simp
            | [a] => by_cases ha : isHexDigit a = true <;> simp [ha]
            | a :: b :: s => exact absurd rfl (hc a b s rfl)
          · rintro ⟨-, -, hplain⟩
            exact hplain
      · exact hc

theorem formPairs_append (s t : List UInt8) :
    formPairs (s ++ 38 :: t) = formPairs s ++ formPairs t := by
  unfold formPairs
  rw [List.splitOn_append_cons_of_beq s t (by decide), List.filter_append, List.map_append]

theorem formPairs_piece {s : List UInt8} (h : 38 ∉ s) (hs : s ≠ []) : formPairs s = [pairOf s] := by
  simp [formPairs, List.splitOn_eq_singleton h, hs]

theorem formPairs_nil : formPairs [] = [] := by
  simp [formPairs]

def weight (pairs : List (List UInt8 × List UInt8)) : Nat :=
  (pairs.map (fun p => p.1.length + p.2.length)).sum

theorem weight_append (x y : List (List UInt8 × List UInt8)) :
    weight (x ++ y) = weight x + weight y := by
  simp [weight]

theorem weight_pairOf (s : List UInt8) :
    weight [pairOf s] + (if 61 ∈ s then 1 else 0) ≤ s.length := by
  have hname := length_percentDecode_le (s.takeWhile (· ≠ 61))
  have hvalue := length_percentDecode_le ((s.dropWhile (· ≠ 61)).drop 1)
  have hsplit := congrArg List.length (List.takeWhile_append_dropWhile (p := (· ≠ (61 : UInt8))) (l := s))
  rw [List.length_append] at hsplit
  rw [List.length_drop] at hvalue
  simp only [weight, pairOf, List.map_cons, List.map_nil, List.sum_cons, List.sum_nil]
  split
  · rename_i hmem
    have hne : s.dropWhile (· ≠ 61) ≠ [] := by
      intro hnil
      rw [List.dropWhile_eq_nil_iff] at hnil
      simpa using hnil 61 hmem
    have hpos := List.length_pos_iff.mpr hne
    omega
  · omega

theorem weight_formPairs (s : List UInt8) :
    weight (formPairs s) + s.count 38 + (if 38 ∉ s ∧ 61 ∈ s then 1 else 0) ≤ s.length := by
  induction hn : s.length using Nat.strong_induction_on generalizing s with
  | _ n ih =>
      by_cases hmem : 38 ∈ s
      · obtain ⟨x, y, rfl⟩ := List.append_of_mem hmem
        simp only [List.length_append, List.length_cons] at hn
        have hx := ih x.length (by omega) x rfl
        have hy := ih y.length (by omega) y rfl
        rw [formPairs_append, weight_append, List.count_append, List.count_cons_self]
        rw [if_neg (by simp)]
        omega
      · rw [List.count_eq_zero_of_not_mem hmem]
        by_cases hs : s = []
        · subst hs
          simp [formPairs_nil, weight]
        · rw [formPairs_piece hmem hs]
          have h := weight_pairOf s
          simp only [hmem, not_false_eq_true, true_and]
          omega

theorem not_mem_of_takeWhile_eq {n v : List UInt8} {c : UInt8}
    (h : n.length ≤ ((n ++ c :: v).takeWhile (· ≠ c)).length) : c ∉ n := by
  intro hc
  obtain ⟨x, y, rfl, hx⟩ := List.eq_append_cons_of_mem hc
  rw [List.append_assoc, List.cons_append, List.takeWhile_append_of_pos] at h
  · simp only [List.takeWhile_cons, ne_eq, not_true_eq_false, decide_false, Bool.false_eq_true,
      if_false, List.length_append, List.length_cons, List.append_nil] at h
    omega
  · intro d hd
    refine decide_eq_true ?_
    rintro rfl
    exact hx hd

theorem takeWhile_name {n v : List UInt8} {c : UInt8} (h : c ∉ n) :
    (n ++ c :: v).takeWhile (· ≠ c) = n ∧ (n ++ c :: v).dropWhile (· ≠ c) = c :: v := by
  have hn : ∀ d ∈ n, decide (d ≠ c) = true := by
    intro d hd
    refine decide_eq_true ?_
    rintro rfl
    exact h hd
  rw [List.takeWhile_append_of_pos hn, List.dropWhile_append_of_pos hn]
  simp

theorem formPairs_pair_iff (n v : List UInt8) : formPairs (n ++ 61 :: v) = [(n, v)] ↔
    (61 ∉ n ∧ 38 ∉ n ∧ Plain n) ∧ 38 ∉ v ∧ Plain v := by
  have hlen : (n ++ 61 :: v).length = n.length + v.length + 1 := by simp; omega
  constructor
  · intro heq
    have hw := weight_formPairs (n ++ 61 :: v)
    rw [heq] at hw
    have hweight : weight [(n, v)] = n.length + v.length := by simp [weight]
    by_cases hamp : 38 ∈ n ++ 61 :: v
    · obtain ⟨x, y, hxy⟩ := List.append_of_mem hamp
      have hx := weight_formPairs x
      have hy := weight_formPairs y
      have hsum := congrArg List.length hxy
      rw [hlen] at hsum
      simp only [List.length_append, List.length_cons] at hsum
      rw [hxy, formPairs_append] at heq
      have hweights : weight (formPairs x) + weight (formPairs y) = n.length + v.length := by
        rw [← weight_append, heq, hweight]
      have hnone : 61 ∉ x ∧ 61 ∉ y := by
        constructor
        · intro hm
          have hpos : 0 < x.count 38 + (if 38 ∉ x ∧ 61 ∈ x then 1 else 0) := by
            by_cases h38 : 38 ∈ x
            · have := List.count_pos_iff.mpr h38
              omega
            · rw [if_pos ⟨h38, hm⟩]
              omega
          omega
        · intro hm
          have hpos : 0 < y.count 38 + (if 38 ∉ y ∧ 61 ∈ y then 1 else 0) := by
            by_cases h38 : 38 ∈ y
            · have := List.count_pos_iff.mpr h38
              omega
            · rw [if_pos ⟨h38, hm⟩]
              omega
          omega
      have hmem : 61 ∈ x ++ 38 :: y := by
        rw [← hxy]
        simp
      simp [hnone.1, hnone.2] at hmem
    · rw [formPairs_piece hamp (by simp)] at heq
      obtain ⟨hname, hvalue⟩ := Prod.mk.inj (List.cons.inj heq).1
      have hle := length_percentDecode_le ((n ++ 61 :: v).takeWhile (· ≠ 61))
      rw [hname] at hle
      have heqn : 61 ∉ n := not_mem_of_takeWhile_eq hle
      obtain ⟨ht, hd⟩ := takeWhile_name (v := v) heqn
      rw [ht, percentDecode_eq_self_iff] at hname
      rw [hd, List.drop_one, List.tail_cons, percentDecode_eq_self_iff] at hvalue
      simp only [List.mem_append, List.mem_cons, not_or] at hamp
      exact ⟨⟨heqn, hamp.1, hname⟩, hamp.2.2, hvalue⟩
  · rintro ⟨⟨heqn, hampn, hn⟩, hampv, hv⟩
    have hamp : 38 ∉ n ++ 61 :: v := by
      simp [hampn, hampv]
    obtain ⟨ht, hd⟩ := takeWhile_name (v := v) heqn
    rw [formPairs_piece hamp (by simp), pairOf, ht, hd, List.drop_one, List.tail_cons,
      (percentDecode_eq_self_iff n).mpr hn, (percentDecode_eq_self_iff v).mpr hv]

theorem formPairs_name_iff (n : List UInt8) : formPairs n = [(n, [])] ↔
    n ≠ [] ∧ 61 ∉ n ∧ 38 ∉ n ∧ Plain n := by
  constructor
  · intro heq
    have hw := weight_formPairs n
    have hweight : weight [(n, ([] : List UInt8))] = n.length := by simp [weight]
    rw [heq, hweight] at hw
    have hamp : 38 ∉ n := by
      intro hm
      have := List.count_pos_iff.mpr hm
      omega
    have heqn : 61 ∉ n := by
      intro hm
      rw [if_pos ⟨hamp, hm⟩] at hw
      omega
    have hne : n ≠ [] := by
      rintro rfl
      rw [formPairs_nil] at heq
      cases heq
    have hall : n.takeWhile (· ≠ 61) = n := by
      refine List.takeWhile_eq_self_iff.mpr (fun c hc => decide_eq_true ?_)
      rintro rfl
      exact heqn hc
    rw [formPairs_piece hamp hne, pairOf, hall] at heq
    have hname := (Prod.mk.inj (List.cons.inj heq).1).1
    exact ⟨hne, heqn, hamp, (percentDecode_eq_self_iff n).mp hname⟩
  · rintro ⟨hne, heqn, hamp, hn⟩
    have hall : ∀ c ∈ n, decide (c ≠ 61) = true := by
      intro c hc
      refine decide_eq_true ?_
      rintro rfl
      exact heqn hc
    rw [formPairs_piece hamp hne, pairOf, List.takeWhile_eq_self_iff.mpr hall,
      List.dropWhile_eq_nil_iff.mpr hall, (percentDecode_eq_self_iff n).mpr hn]
    rfl

theorem formPairs_ne_nil {s : List UInt8} (h : 61 ∈ s) : formPairs s ≠ [] := by
  induction hn : s.length using Nat.strong_induction_on generalizing s with
  | _ n ih =>
      by_cases hmem : 38 ∈ s
      · obtain ⟨x, y, rfl⟩ := List.append_of_mem hmem
        simp only [List.length_append, List.length_cons] at hn
        rw [formPairs_append, ne_eq, List.append_eq_nil_iff, not_and_or]
        rcases List.mem_append.mp h with hx | hy
        · exact .inl (ih x.length (by omega) hx rfl)
        · have hy : 61 ∈ y := by simpa using hy
          exact .inr (ih y.length (by omega) hy rfl)
      · rw [formPairs_piece hmem (List.ne_nil_of_mem h)]
        exact List.cons_ne_nil _ _

theorem formPairs_three_iff {x y z : List UInt8} {a b c : List UInt8 × List UInt8}
    (hx : 61 ∈ x) (hy : 61 ∈ y) (hz : 61 ∈ z) :
    formPairs (x ++ 38 :: (y ++ 38 :: z)) = [a, b, c] ↔
      formPairs x = [a] ∧ formPairs y = [b] ∧ formPairs z = [c] := by
  rw [formPairs_append, formPairs_append]
  have hx := formPairs_ne_nil hx
  have hy := formPairs_ne_nil hy
  have hz := formPairs_ne_nil hz
  constructor
  · intro heq
    have hlen := congrArg List.length heq
    simp only [List.length_append, List.length_cons, List.length_nil] at hlen
    have h1 := List.length_pos_iff.mpr hx
    have h2 := List.length_pos_iff.mpr hy
    have h3 := List.length_pos_iff.mpr hz
    obtain ⟨p, hp⟩ := List.length_eq_one_iff.mp (show (formPairs x).length = 1 by omega)
    obtain ⟨q, hq⟩ := List.length_eq_one_iff.mp (show (formPairs y).length = 1 by omega)
    obtain ⟨r, hr⟩ := List.length_eq_one_iff.mp (show (formPairs z).length = 1 by omega)
    rw [hp, hq, hr] at heq ⊢
    simpa using heq
  · rintro ⟨h1, h2, h3⟩
    rw [h1, h2, h3]
    rfl

def crlf : List UInt8 := [13, 10]

theorem splitLine_crlf (s : List UInt8) : splitLine (crlf ++ s) = some ([], s) := by
  simp [crlf, splitLine]

theorem splitLine_line {l : List UInt8} (h : 13 ∉ l) (s : List UInt8) :
    splitLine (l ++ (crlf ++ s)) = some (l, s) := by
  induction l with
  | nil => exact splitLine_crlf s
  | cons c l ih =>
      have hc : c ≠ 13 := by
        rintro rfl
        simp at h
      have hrest := ih (fun hm => h (List.mem_cons_of_mem c hm))
      simp [splitLine, hc, hrest]

theorem splitLine_le {x l r s : List UInt8} (h : splitLine (x ++ (crlf ++ s)) = some (l, r)) :
    (x = l ∧ r = s) ∨ ∃ y, x = l ++ 13 :: y := by
  induction x generalizing l with
  | nil =>
      rw [List.nil_append, splitLine_crlf] at h
      obtain ⟨rfl, rfl⟩ := Prod.mk.inj (Option.some.inj h)
      exact .inl ⟨rfl, rfl⟩
  | cons c x ih =>
      rw [List.cons_append, splitLine] at h
      split at h
      · rename_i hc
        obtain ⟨rfl, -⟩ := Prod.mk.inj (Option.some.inj h)
        exact .inr ⟨x, by rw [hc.1]; rfl⟩
      · obtain ⟨⟨l', r'⟩, hl, heq⟩ := Option.map_eq_some_iff.mp h
        obtain ⟨rfl, rfl⟩ := Prod.mk.inj heq
        rcases ih hl with ⟨rfl, rfl⟩ | ⟨y, rfl⟩
        · exact .inl ⟨rfl, rfl⟩
        · exact .inr ⟨y, rfl⟩

theorem splitLine_start {p v l r s : List UInt8} (hp : 13 ∉ p)
    (h : splitLine (p ++ v ++ (crlf ++ s)) = some (l, r)) :
    ∃ w, l = p ++ w ∧ w.length ≤ v.length ∧ (w.length = v.length → w = v ∧ r = s) := by
  rcases splitLine_le h with ⟨rfl, rfl⟩ | ⟨y, hy⟩
  · exact ⟨v, rfl, Nat.le_refl _, fun _ => ⟨rfl, rfl⟩⟩
  · rcases List.append_eq_append_iff.mp hy with ⟨w, rfl, rfl⟩ | ⟨w, rfl, hw⟩
    · refine ⟨w, rfl, by simp, fun hlen => ?_⟩
      simp at hlen
    · cases w with
      | nil => exact ⟨[], by simp, by simp, fun hlen => by
          rw [List.nil_append] at hw
          rw [← hw] at hlen
          simp at hlen⟩
      | cons c w =>
          obtain ⟨rfl, -⟩ := List.cons.inj hw
          simp at hp

/-- A value that is written as it is read: field bytes without blanks at the ends. -/
structure Bare (v : List UInt8) : Prop where
  bytes : ∀ c ∈ v, isFieldByte c = true
  first : ∀ c, v.head? = some c → isOws c = false
  last : ∀ c, v.getLast? = some c → isOws c = false

theorem length_trim_le (v : List UInt8) : (trim v).length ≤ v.length :=
  Nat.le_trans (List.rdropWhile_prefix isOws _).length_le (List.dropWhile_suffix isOws).length_le

theorem trim_eq_self_iff (v : List UInt8) : trim v = v ↔
    (∀ c, v.head? = some c → isOws c = false) ∧ ∀ c, v.getLast? = some c → isOws c = false := by
  have hfirst : v.dropWhile isOws = v ↔ ∀ c, v.head? = some c → isOws c = false := by
    cases v with
    | nil => simp
    | cons c v =>
        rw [List.dropWhile_eq_self_iff]
        simp
  have hlast : v.rdropWhile isOws = v ↔ ∀ c, v.getLast? = some c → isOws c = false := by
    rw [List.rdropWhile_eq_self_iff]
    constructor
    · intro h c hc
      have hne : v ≠ [] := by
        rintro rfl
        cases hc
      have hnot := h hne
      rw [List.getLast?_eq_some_getLast hne] at hc
      rw [Option.some.inj hc] at hnot
      simpa using hnot
    · intro h hne
      have hnot := h _ (List.getLast?_eq_some_getLast hne)
      simp [hnot]
  constructor
  · intro h
    have hle : v.length ≤ (v.dropWhile isOws).length := by
      have hpre := (List.rdropWhile_prefix isOws (v.dropWhile isOws)).length_le
      have hlen := congrArg List.length h
      unfold trim at hlen
      omega
    have hdrop : v.dropWhile isOws = v := (List.dropWhile_suffix isOws).eq_of_length_le hle
    unfold trim at h
    rw [hdrop] at h
    exact ⟨hfirst.mp hdrop, hlast.mp h⟩
  · rintro ⟨h1, h2⟩
    unfold trim
    rw [hfirst.mpr h1, hlast.mpr h2]

theorem trim_blank (v : List UInt8) : trim (32 :: v) = trim v := by
  simp [trim, isOws]

/-- A name that a header line can start with. -/
def GoodName (n : List UInt8) : Prop :=
  n ≠ [] ∧ n.all isTchar = true ∧ 58 ∉ n ∧ 13 ∉ n

instance (n : List UInt8) : Decidable (GoodName n) := inferInstanceAs (Decidable (_ ∧ _))

theorem parseHeader_line {n : List UInt8} (hn : GoodName n) (v : List UInt8) :
    parseHeader (n ++ 58 :: 32 :: v) = if v.all isFieldByte then some (n, trim v) else none := by
  obtain ⟨hne, hall, hcolon, -⟩ := hn
  obtain ⟨ht, hd⟩ := takeWhile_name (v := 32 :: v) hcolon
  have hblank : isFieldByte 32 = true := by decide
  simp only [parseHeader, ht, hd, trim_blank, List.all_cons, hblank, Bool.true_and]
  simp [hne, hall]

def headerLine (h : List UInt8 × List UInt8) : List UInt8 := h.1 ++ 58 :: 32 :: h.2

def headerText (headers : List (List UInt8 × List UInt8)) : List UInt8 :=
  headers.flatMap (fun h => headerLine h ++ crlf)

theorem Bare.no_break {v : List UInt8} (h : Bare v) : 13 ∉ v := by
  intro hm
  exact absurd (h.bytes 13 hm) (by decide)

theorem parseHeader_bare {h : List UInt8 × List UInt8} (hn : GoodName h.1) (hv : Bare h.2) :
    parseHeader (headerLine h) = some h := by
  have hall : h.2.all isFieldByte = true := List.all_eq_true.mpr hv.bytes
  rw [headerLine, parseHeader_line hn, if_pos hall, (trim_eq_self_iff h.2).mpr ⟨hv.first, hv.last⟩]

theorem parseHeaders_cons {h : List UInt8 × List UInt8} (hn : GoodName h.1) (hv : Bare h.2)
    (fuel : Nat) (s : List UInt8) :
    parseHeaders (fuel + 1) (headerLine h ++ (crlf ++ s)) =
      (parseHeaders fuel s).map (fun p => (h :: p.1, p.2)) := by
  have hline : 13 ∉ headerLine h := by
    simp [headerLine, hn.2.2.2, hv.no_break]
  have hne : headerLine h ≠ [] := by
    simp [headerLine, hn.1]
  simp only [parseHeaders, splitLine_line hline, Option.bind_eq_bind, Option.bind_some, if_neg hne,
    parseHeader_bare hn hv]
  cases parseHeaders fuel s <;> rfl

theorem parseHeaders_text {headers : List (List UInt8 × List UInt8)}
    (h : ∀ x ∈ headers, GoodName x.1 ∧ Bare x.2) {fuel : Nat} (hfuel : headers.length < fuel)
    (body : List UInt8) :
    parseHeaders fuel (headerText headers ++ (crlf ++ body)) = some (headers, body) := by
  induction headers generalizing fuel with
  | nil =>
      obtain ⟨fuel, rfl⟩ := Nat.exists_eq_succ_of_ne_zero (Nat.ne_of_gt hfuel)
      simp [headerText, parseHeaders, splitLine_crlf]
  | cons x headers ih =>
      cases fuel with
      | zero => simp at hfuel
      | succ fuel =>
          obtain ⟨hn, hv⟩ := h x List.mem_cons_self
          have hrest := ih (fun y hy => h y (List.mem_cons_of_mem x hy))
            (by simpa using hfuel)
          have htext : headerText (x :: headers) ++ (crlf ++ body) =
              headerLine x ++ (crlf ++ (headerText headers ++ (crlf ++ body))) := by
            simp [headerText]
          rw [htext, parseHeaders_cons hn hv, hrest]
          rfl

theorem bare_of_parseHeaders {headers parsed : List (List UInt8 × List UInt8)}
    (hn : ∀ x ∈ headers, GoodName x.1 ∧ isLength x = false) {fuel : Nat} {s body : List UInt8}
    (h : parseHeaders fuel (headerText headers ++ s) = some (parsed, body))
    (hkept : headers <+: parsed.filter (fun x => !isLength x)) : ∀ x ∈ headers, Bare x.2 := by
  induction headers generalizing fuel parsed with
  | nil => simp
  | cons x headers ih =>
      obtain ⟨hname, hlength⟩ := hn x List.mem_cons_self
      have htext : headerText (x :: headers) ++ s =
          headerLine x ++ (crlf ++ (headerText headers ++ s)) := by
        simp [headerText]
      rw [htext] at h
      cases fuel with
      | zero => cases h
      | succ fuel =>
      simp only [parseHeaders, Option.bind_eq_bind] at h
      obtain ⟨⟨l, r⟩, hl, h⟩ := Option.bind_eq_some_iff.mp h
      have hstart : headerLine x ++ (crlf ++ (headerText headers ++ s)) =
          (x.1 ++ [58, 32]) ++ x.2 ++ (crlf ++ (headerText headers ++ s)) := by
        simp [headerLine]
      rw [hstart] at hl
      obtain ⟨w, rfl, hle, hwhole⟩ := splitLine_start (by simp [hname.2.2.2]) hl
      rw [if_neg (by simp)] at h
      obtain ⟨header, hheader, h⟩ := Option.bind_eq_some_iff.mp h
      obtain ⟨⟨rest, body'⟩, hrest, h⟩ := Option.bind_eq_some_iff.mp h
      have hline : x.1 ++ [58, 32] ++ w = x.1 ++ 58 :: 32 :: w := by simp
      rw [hline, parseHeader_line hname] at hheader
      split at hheader
      · rename_i hall
        obtain rfl := Option.some.inj hheader
        obtain ⟨rfl, rfl⟩ := Prod.mk.inj (Option.some.inj h)
        have hkeep : isLength (x.1, trim w) = false := hlength
        rw [List.filter_cons_of_pos (by simp [hkeep]), List.cons_prefix_cons] at hkept
        obtain ⟨hx, hkept⟩ := hkept
        have hvalue : x.2 = trim w := congrArg Prod.snd hx
        have hlen := length_trim_le w
        rw [← hvalue] at hlen
        obtain ⟨rfl, rfl⟩ := hwhole (by omega)
        have hbare := (trim_eq_self_iff x.2).mp hvalue.symm
        intro y hy
        rcases List.mem_cons.mp hy with rfl | hy
        · exact ⟨List.all_eq_true.mp hall, hbare.1, hbare.2⟩
        · exact ih (fun z hz => hn z (List.mem_cons_of_mem x hz)) hrest hkept y hy
      · cases hheader

/-- The bytes that headers take at the least, without their line breaks' blanks. -/
def headerBytes (headers : List (List UInt8 × List UInt8)) : Nat :=
  (headers.map (fun h => h.1.length + h.2.length + 3)).sum

theorem length_splitLine {s l r : List UInt8} (h : splitLine s = some (l, r)) :
    s.length = l.length + 2 + r.length := by
  induction s generalizing l with
  | nil => cases h
  | cons c s ih =>
      rw [splitLine] at h
      split at h
      · rename_i hc
        obtain ⟨rfl, rfl⟩ := Prod.mk.inj (Option.some.inj h)
        cases s with
        | nil => cases hc.2
        | cons d s => simp; omega
      · obtain ⟨⟨l', r'⟩, hl, heq⟩ := Option.map_eq_some_iff.mp h
        obtain ⟨rfl, rfl⟩ := Prod.mk.inj heq
        have hlen := ih hl
        dsimp only at hlen ⊢
        simp only [List.length_cons]
        omega

theorem length_parseHeader {line : List UInt8} {x : List UInt8 × List UInt8}
    (h : parseHeader line = some x) : x.1.length + x.2.length + 1 ≤ line.length := by
  have hsplit := congrArg List.length
    (List.takeWhile_append_dropWhile (p := (· ≠ (58 : UInt8))) (l := line))
  rw [List.length_append] at hsplit
  simp only [parseHeader] at h
  split at h
  · cases h
  · rename_i c value hd
    rw [Option.ite_none_right_eq_some] at h
    obtain rfl := Option.some.inj h.2
    have hle := length_trim_le value
    rw [hd, List.length_cons] at hsplit
    dsimp only
    omega

theorem length_parseHeaders {fuel : Nat} {s body : List UInt8}
    {headers : List (List UInt8 × List UInt8)} (h : parseHeaders fuel s = some (headers, body)) :
    headerBytes headers + 2 + body.length ≤ s.length := by
  induction fuel generalizing s headers with
  | zero => cases h
  | succ fuel ih =>
      simp only [parseHeaders, Option.bind_eq_bind] at h
      obtain ⟨⟨line, rest⟩, hl, h⟩ := Option.bind_eq_some_iff.mp h
      have hlen := length_splitLine hl
      dsimp only at h hlen
      split at h
      · obtain ⟨rfl, rfl⟩ := Prod.mk.inj (Option.some.inj h)
        simp only [headerBytes, List.map_nil, List.sum_nil]
        omega
      · obtain ⟨header, hheader, h⟩ := Option.bind_eq_some_iff.mp h
        obtain ⟨⟨rest', body'⟩, hrest, h⟩ := Option.bind_eq_some_iff.mp h
        obtain ⟨rfl, rfl⟩ := Prod.mk.inj (Option.some.inj h)
        have hhead := length_parseHeader hheader
        have htail := ih hrest
        dsimp only at hhead htail ⊢
        simp only [headerBytes, List.map_cons, List.sum_cons] at htail ⊢
        omega

def decimalText (n : Nat) : List UInt8 := (Nat.toDigits 10 n).map (fun c => c.toNat.toUInt8)

theorem digit_byte {c : Char} (h : c.isDigit = true) :
    isDigit c.toNat.toUInt8 = true ∧ c.toNat.toUInt8.toNat = c.toNat := by
  have hbounds : 48 ≤ c.toNat ∧ c.toNat ≤ 57 := by
    simpa [Char.isDigit, UInt32.le_iff_toNat_le] using h
  have hnat : c.toNat.toUInt8.toNat = c.toNat := by
    simp [Nat.mod_eq_of_lt (show c.toNat < 256 by omega)]
  refine ⟨?_, hnat⟩
  simp only [isDigit, UInt8.le_iff_toNat_le, Bool.and_eq_true, decide_eq_true_eq, hnat]
  exact hbounds

theorem all_digits_decimalText (n : Nat) : (decimalText n).all isDigit = true := by
  rw [decimalText, List.all_map, List.all_eq_true]
  intro c hc
  exact (digit_byte (Nat.isDigit_of_mem_toDigits (by decide) (by decide) hc)).1

theorem decimalText_ne_nil (n : Nat) : decimalText n ≠ [] := by
  simp [decimalText, Nat.toDigits_ne_nil]

theorem length_decimalText_le_iff {n k : Nat} (hk : 0 < k) :
    (decimalText n).length ≤ k ↔ n < 10 ^ k := by
  rw [decimalText, List.length_map]
  exact Nat.length_toDigits_le_iff (by decide) hk

theorem decimalValue_decimalText (n : Nat) : decimalValue (decimalText n) = n := by
  have hfold : ∀ (l : List Char) (i : Nat), (∀ c ∈ l, c.isDigit = true) →
      (l.map (fun c => c.toNat.toUInt8)).foldl (fun n c => 10 * n + (c.toNat - 48)) i =
        Nat.ofDigitChars 10 l i := by
    intro l
    induction l with
    | nil => simp
    | cons c l ih =>
        intro i hl
        have hc := (digit_byte (hl c List.mem_cons_self)).2
        rw [List.map_cons, List.foldl_cons, ih _ (fun d hd => hl d (List.mem_cons_of_mem c hd)),
          Nat.ofDigitChars_cons, hc]
        rfl
  rw [decimalValue, decimalText, hfold _ _ (fun c hc =>
    Nat.isDigit_of_mem_toDigits (by decide) (by decide) hc), Nat.ofDigitChars_ten_toDigits]

theorem decimalValue_lt {s : List UInt8} (h : s.all isDigit = true) :
    decimalValue s < 10 ^ s.length := by
  have hfold : ∀ (l : List UInt8) (i : Nat), (∀ c ∈ l, isDigit c = true) →
      l.foldl (fun n c => 10 * n + (c.toNat - 48)) i < (i + 1) * 10 ^ l.length := by
    intro l
    induction l with
    | nil => simp
    | cons c l ih =>
        intro i hl
        have hc := hl c List.mem_cons_self
        simp only [isDigit, UInt8.le_iff_toNat_le, Bool.and_eq_true, decide_eq_true_eq] at hc
        have h57 : c.toNat ≤ 57 := hc.2
        have hstep := ih (10 * i + (c.toNat - 48)) (fun d hd => hl d (List.mem_cons_of_mem c hd))
        rw [List.foldl_cons, List.length_cons, Nat.pow_succ']
        refine Nat.lt_of_lt_of_le hstep ?_
        rw [← Nat.mul_assoc]
        exact Nat.mul_le_mul_right _ (by omega)
  have hlt := hfold s 0 (List.all_eq_true.mp h)
  rw [Nat.zero_add, Nat.one_mul] at hlt
  exact hlt

theorem wellEncoded_cons {c : UInt8} (hc : c ≠ 37) (s : List UInt8) :
    wellEncoded (c :: s) = (isQueryByte c && wellEncoded s) := by
  rw [wellEncoded]
  rintro a b t rfl
  exact absurd rfl hc

theorem wellEncoded_plain_iff (s : List UInt8) : wellEncoded s = true ∧ Plain s ↔
    ∀ c ∈ s, isQueryByte c = true ∧ c ≠ 43 := by
  induction s with
  | nil => simp [wellEncoded, Plain]
  | cons c s ih =>
      by_cases hc : c = 37
      · subst hc
        refine iff_of_false ?_ (fun h => absurd (h 37 List.mem_cons_self).1 (by decide))
        rintro ⟨henc, -, hplain, -⟩
        have hlt := hplain rfl
        match s with
        | [] => exact absurd henc (by decide)
        | [a] =>
            have hfalse : wellEncoded [37, a] = (isQueryByte 37 && wellEncoded [a]) := rfl
            rw [hfalse] at henc
            exact absurd (Bool.and_eq_true _ _ ▸ henc).1 (by decide)
        | a :: b :: s =>
            rw [wellEncoded, Bool.and_eq_true, Bool.and_eq_true] at henc
            simp only [List.takeWhile_cons, henc.1.1, henc.1.2, if_true, List.length_cons] at hlt
            omega
      · rw [wellEncoded_cons hc, Bool.and_eq_true, Plain]
        constructor
        · rintro ⟨⟨hq, henc⟩, hplus, -, hplain⟩ d hd
          rcases List.mem_cons.mp hd with rfl | hd
          · exact ⟨hq, hplus⟩
          · exact ih.mp ⟨henc, hplain⟩ d hd
        · intro h
          obtain ⟨hq, hplus⟩ := h c List.mem_cons_self
          obtain ⟨henc, hplain⟩ := ih.mpr (fun d hd => h d (List.mem_cons_of_mem c hd))
          exact ⟨⟨hq, henc⟩, hplus, fun heq => absurd heq hc, hplain⟩

theorem parseTarget_query {path query : List UInt8} (hp : 63 ∉ path) (hslash : path.head? = some 47)
    (henc : wellEncoded path = true) (hq : wellEncoded query = true) :
    parseTarget (path ++ 63 :: query) = some (path, some query) := by
  obtain ⟨ht, hd⟩ := takeWhile_name (v := query) hp
  simp only [parseTarget, ht, hd]
  exact if_pos ⟨hslash, henc, hq⟩

theorem parseTarget_some {target path : List UInt8} {query : Option (List UInt8)}
    (h : parseTarget target = some (path, query)) :
    wellEncoded (query.getD []) = true ∧ target = path ++ (query.map (63 :: ·)).getD [] := by
  simp only [parseTarget, Option.ite_none_right_eq_some] at h
  obtain ⟨hok, h⟩ := h
  have hsplit := List.takeWhile_append_dropWhile (p := (· ≠ (63 : UInt8))) (l := target)
  obtain ⟨rfl, rfl⟩ := Prod.mk.inj (Option.some.inj h)
  refine ⟨hok.2.2, ?_⟩
  cases hd : target.dropWhile (· ≠ 63) with
  | nil =>
      rw [hd] at hsplit
      exact hsplit.symm
  | cons c q =>
      have hc : c = 63 := by
        have hne : target.dropWhile (· ≠ 63) ≠ [] := by
          rw [hd]
          exact List.cons_ne_nil c q
        have hhead := List.head_dropWhile_not (· ≠ (63 : UInt8)) hne
        simp only [hd, List.head_cons] at hhead
        simpa using hhead
      subst hc
      rw [hd] at hsplit
      exact hsplit.symm

def requestLine (method target : List UInt8) : List UInt8 :=
  method ++ 32 :: (target ++ bytes " HTTP/1.1")

theorem parseRequestLine_target {method target : List UInt8} (hne : method ≠ [])
    (hall : method.all isTchar = true) (hm : 32 ∉ method) (ht : 32 ∉ target) :
    parseRequestLine (requestLine method target) =
      (parseTarget target).map (fun t => (method, t)) := by
  have hversion : bytes " HTTP/1.1" = 32 :: bytes "HTTP/1.1" := by decide
  obtain ⟨hm1, hm2⟩ := takeWhile_name (v := target ++ bytes " HTTP/1.1") hm
  have ht12 := takeWhile_name (v := bytes "HTTP/1.1") ht
  rw [← hversion] at ht12
  simp only [parseRequestLine, requestLine, hm1, hm2, List.drop_one, List.tail_cons, ht12.1, ht12.2]
  exact if_pos ⟨hne, hall, trivial⟩

theorem parseRequestLine_some {method w m path : List UInt8} {query : Option (List UInt8)}
    (hm : 32 ∉ method) (h : parseRequestLine (method ++ 32 :: w) = some (m, path, query)) :
    ∃ target, w = target ++ bytes " HTTP/1.1" ∧ parseTarget target = some (path, query) := by
  obtain ⟨hm1, hm2⟩ := takeWhile_name (v := w) hm
  simp only [parseRequestLine, hm1, hm2, List.drop_one, List.tail_cons,
    Option.ite_none_right_eq_some] at h
  obtain ⟨⟨-, -, hversion⟩, h⟩ := h
  obtain ⟨t, ht, heq⟩ := Option.map_eq_some_iff.mp h
  obtain ⟨-, rfl⟩ := Prod.mk.inj heq
  refine ⟨w.takeWhile (· ≠ 32), ?_, ht⟩
  rw [← hversion, List.takeWhile_append_dropWhile]

theorem length_le_headerText (headers : List (List UInt8 × List UInt8)) :
    headers.length ≤ (headerText headers).length := by
  induction headers with
  | nil => simp
  | cons x headers ih =>
      have htext : headerText (x :: headers) = headerLine x ++ crlf ++ headerText headers := by
        simp [headerText]
      rw [htext]
      simp only [List.length_append, List.length_cons, crlf, List.length_nil]
      omega

theorem parseMessage_text {line method path : List UInt8} {query : Option (List UInt8)}
    {headers : List (List UInt8 × List UInt8)} {body : List UInt8} (hl : 13 ∉ line)
    (hline : parseRequestLine line = some (method, path, query))
    (hh : ∀ x ∈ headers, GoodName x.1 ∧ Bare x.2) :
    parseMessage (line ++ (crlf ++ (headerText headers ++ (crlf ++ body)))) =
      (bodyLength headers).bind (fun n =>
        if body.length = n then some ⟨method, path, query, headers, body⟩ else none) := by
  have hfuel : headers.length < (headerText headers ++ (crlf ++ body)).length := by
    have hle := length_le_headerText headers
    simp only [List.length_append, crlf, List.length_cons, List.length_nil]
    omega
  simp only [parseMessage, splitLine_line hl, hline, Option.bind_eq_bind, Option.bind_some,
    parseHeaders_text hh hfuel]

theorem parseMessage_some {s : List UInt8} {m : Message} (h : parseMessage s = some m) :
    ∃ line rest, splitLine s = some (line, rest) ∧
      parseRequestLine line = some (m.method, m.path, m.query) ∧
      parseHeaders rest.length rest = some (m.headers, m.body) ∧
      bodyLength m.headers = some m.body.length := by
  simp only [parseMessage, Option.bind_eq_bind] at h
  obtain ⟨⟨line, rest⟩, hl, h⟩ := Option.bind_eq_some_iff.mp h
  obtain ⟨⟨method, path, query⟩, hline, h⟩ := Option.bind_eq_some_iff.mp h
  obtain ⟨⟨headers, body⟩, hheaders, h⟩ := Option.bind_eq_some_iff.mp h
  obtain ⟨n, hn, h⟩ := Option.bind_eq_some_iff.mp h
  rw [Option.ite_none_right_eq_some] at h
  obtain ⟨rfl, h⟩ := h
  obtain rfl := Option.some.inj h
  exact ⟨line, rest, hl, hline, hheaders, hn⟩

end ErSdk.HttpMessage
