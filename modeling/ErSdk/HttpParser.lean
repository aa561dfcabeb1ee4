import ErSdk.Patterns
import Mathlib.Data.List.TakeWhile

namespace ErSdk.HttpParser

open Pmatch Patterns

/-- The value of a digit or letter in the bases up to 36. -/
def digitValue (c : UInt8) : Option Nat :=
  if isDigit c then some (c.toNat - 48)
  else if isAlpha c then some ((toLower c).toNat - 87)
  else none

def isDigitOf (base : Nat) (c : UInt8) : Bool :=
  match digitValue c with
  | some v => v < base
  | none => false

def numberOf (base : Nat) (digits : List UInt8) : Nat :=
  digits.foldl (fun n c => base * n + (digitValue c).getD 0) 0

/-- The base that strtol finds when it is given base 0, and the digits behind the
prefix. -/
def radix (s : List UInt8) : Nat × List UInt8 :=
  match s with
  | 48 :: x :: d :: rest =>
      if toLower x = 120 ∧ isDigitOf 16 d then (16, d :: rest) else (8, s)
  | 48 :: _ => (8, s)
  | _ => (10, s)

/-- strtol with base 0 on a 64-bit long: the value, and what the end pointer points to.
Without digits the end pointer is the start. -/
def strtol (s : List UInt8) : Int × List UInt8 :=
  let t := s.dropWhile isSpace
  let negative := t.headD 0 = 45
  let t := if t.headD 0 = 45 ∨ t.headD 0 = 43 then t.tail else t
  let r := radix t
  let digits := r.2.takeWhile (isDigitOf r.1)
  if digits = [] then (0, s)
  else
    let value : Int := numberOf r.1 digits
    (if negative then max (-value) (-2 ^ 63) else min value (2 ^ 63 - 1),
      r.2.dropWhile (isDigitOf r.1))

/-- The conversion of a whole string, as it is checked with the end pointer. -/
def wholeNumber (s : List UInt8) : Option Int :=
  let r := strtol s
  if r.2 = s ∨ r.2 ≠ [] then none else some r.1

def toInt32 (n : Int) : Int := (n + 2 ^ 31) % 2 ^ 32 - 2 ^ 31

def packetEndPattern : List UInt8 := bytes "(.*)\r\n\r\n"

def httpHeaderPattern : List UInt8 := bytes "HTTP/1%.1 (%d+)"

def packetLengthPattern : List UInt8 := bytes "Content%-Length: (%d+)"

/-- What http_parse_header returns and what it leaves in its out parameters; `none`
where a parameter is not written. -/
structure Header where
  found : Bool
  resultCode : Option Int
  contentLength : Option Nat
  payloadIndex : Option Nat
  deriving DecidableEq, Repr

/-- The allocations of the two strings of http_parse_header, whether they succeed. -/
structure Allocations where
  resultStr : Bool
  contentLengthStr : Bool
  deriving DecidableEq, Repr

/-- The text of the first capture, up to a NUL in it. -/
def firstText (buffer : List UInt8) (f : Find) : List UInt8 :=
  match f.captures with
  | some (c :: _) => cString ((buffer.drop c.init).take c.len)
  | _ => []

def parseContentLength (buffer : List UInt8) (alloc : Allocations) (h : Header) :
    Except Fault Header := do
  let length ← strFind buffer packetLengthPattern false 0 10
  if !length.found || !alloc.contentLengthStr then .ok { h with found := false }
  else
    .ok { h with
      found := (wholeNumber (firstText buffer length)).isSome
      contentLength := some (sizeT (strtol (firstText buffer length)).1) }

def Header.withCode (h : Header) (found : Bool) (text : List UInt8) : Header :=
  { h with found, resultCode := some (toInt32 (strtol text).1) }

def parseResultCode (buffer : List UInt8) (alloc : Allocations) (h : Header) :
    Except Fault Header := do
  let header ← strFind buffer httpHeaderPattern false 0 10
  if !header.found || !alloc.resultStr then .ok { h with found := false }
  else
    if (wholeNumber (firstText buffer header)).isNone then
      .ok (h.withCode false (firstText buffer header))
    else parseContentLength buffer alloc (h.withCode h.found (firstText buffer header))

def httpParseHeader (buffer : List UInt8) (alloc : Allocations) : Except Fault Header := do
  let packetEnd ← strFind buffer packetEndPattern false 0 10
  match packetEnd.captures with
  | some (c :: _) => parseResultCode buffer alloc ⟨true, none, none, some (c.len + 4)⟩
  | _ => .ok ⟨false, none, none, none⟩

def crlf : List UInt8 := [13, 10]

def blankLine : List UInt8 := crlf ++ crlf

theorem packetEndPattern_eq : packetEndPattern = bytes "(.*)" ++ escape blankLine := by decide

theorem httpHeaderPattern_eq :
    httpHeaderPattern = escape (bytes "HTTP/1.1 ") ++ bytes "(%d+)" := by decide

theorem packetLengthPattern_eq :
    packetLengthPattern = escape (bytes "Content-Length: ") ++ bytes "(%d+)" := by decide

/-- The first number behind a text, as a C integer constant. -/
def numberBehind (l buffer : List UInt8) : Option Int :=
  match numberAfter l buffer with
  | some (c :: _) => wholeNumber ((buffer.drop c.init).take c.len)
  | _ => none

theorem numberAfter_some {l buffer : List UInt8} {cs : List StringCapture}
    (h : numberAfter l buffer = some cs) :
    ∃ c, cs = [c] ∧ 0 ∉ (buffer.drop c.init).take c.len := by
  obtain ⟨s, -, hs⟩ := List.exists_of_findSome?_eq_some h
  unfold numberAt at hs
  split at hs
  · obtain rfl := Option.some.inj hs
    refine ⟨_, rfl, fun h0 => ?_⟩
    simp only [runOf] at h0
    rw [← List.prefix_iff_eq_take.mp (List.takeWhile_prefix _)] at h0
    exact absurd (List.mem_takeWhile_imp h0) (by decide)
  · exact absurd hs nofun

theorem firstText_number {l buffer : List UInt8} {cs : List StringCapture}
    (h : numberAfter l buffer = some cs) :
    wholeNumber (firstText buffer ⟨true, some cs⟩) = numberBehind l buffer := by
  obtain ⟨c, rfl, h0⟩ := numberAfter_some h
  unfold numberBehind
  rw [h]
  exact congrArg wholeNumber (cString_of_not_mem h0)

theorem strtol_of_wholeNumber {s : List UInt8} {n : Int} (h : wholeNumber s = some n) :
    (strtol s).1 = n := by
  unfold wholeNumber at h
  dsimp only at h
  split at h
  · exact absurd h nofun
  · exact Option.some.inj h

theorem ok_bind {α β : Type} (a : α) (f : α → Except Fault β) : (Except.ok a >>= f) = f a := rfl

section

variable {buffer : List UInt8} (hsize : buffer.length < 2 ^ 64) (alloc : Allocations)

include hsize

theorem parseContentLength_cases (h : Header) :
    ∃ g, parseContentLength buffer alloc h = .ok g ∧
      ((g.found = false ∧ ¬ (alloc.contentLengthStr = true ∧
          (numberBehind (bytes "Content-Length: ") buffer).isSome = true)) ∨
        alloc.contentLengthStr = true ∧
          ∃ n, numberBehind (bytes "Content-Length: ") buffer = some n ∧
            g = { h with found := true, contentLength := some (sizeT n) }) := by
  have hfind := find_number (l := bytes "Content-Length: ") (by decide) hsize 9
  unfold parseContentLength
  rw [packetLengthPattern_eq, hfind]
  cases hn : numberAfter (bytes "Content-Length: ") buffer with
  | none =>
      refine ⟨{ h with found := false }, rfl, .inl ⟨rfl, ?_⟩⟩
      simp [numberBehind, hn]
  | some cs =>
      have htext := firstText_number hn
      cases ha : alloc.contentLengthStr with
      | false => exact ⟨{ h with found := false }, rfl, .inl ⟨rfl, nofun⟩⟩
      | true =>
          refine ⟨_, rfl, ?_⟩
          dsimp only [Option.isSome_some]
          rw [htext]
          cases hw : numberBehind (bytes "Content-Length: ") buffer with
          | none => exact .inl ⟨rfl, nofun⟩
          | some n =>
              have hv := strtol_of_wholeNumber (htext.trans hw)
              exact .inr ⟨rfl, n, rfl, by simp [hv]⟩

theorem parseResultCode_cases (h : Header) (hf : h.found = true) :
    ∃ g, parseResultCode buffer alloc h = .ok g ∧
      ((g.found = false ∧ ¬ (alloc.resultStr = true ∧ alloc.contentLengthStr = true ∧
          (numberBehind (bytes "HTTP/1.1 ") buffer).isSome = true ∧
          (numberBehind (bytes "Content-Length: ") buffer).isSome = true)) ∨
        alloc.resultStr = true ∧ alloc.contentLengthStr = true ∧
          ∃ code n, numberBehind (bytes "HTTP/1.1 ") buffer = some code ∧
            numberBehind (bytes "Content-Length: ") buffer = some n ∧
            g = { h with
              resultCode := some (toInt32 code)
              contentLength := some (sizeT n) }) := by
  have hfind := find_number (l := bytes "HTTP/1.1 ") (by decide) hsize 9
  unfold parseResultCode
  rw [httpHeaderPattern_eq, hfind]
  cases hn : numberAfter (bytes "HTTP/1.1 ") buffer with
  | none =>
      refine ⟨{ h with found := false }, rfl, .inl ⟨rfl, ?_⟩⟩
      simp [numberBehind, hn]
  | some cs =>
      have htext := firstText_number hn
      cases ha : alloc.resultStr with
      | false => exact ⟨{ h with found := false }, rfl, .inl ⟨rfl, nofun⟩⟩
      | true =>
          rw [ok_bind, if_neg (by simp)]
          dsimp only [Option.isSome_some]
          cases hw : numberBehind (bytes "HTTP/1.1 ") buffer with
          | none =>
              rw [if_pos (by rw [htext, hw]; rfl)]
              exact ⟨_, rfl, .inl ⟨rfl, nofun⟩⟩
          | some code =>
              have hv := strtol_of_wholeNumber (htext.trans hw)
              rw [if_neg (by rw [htext, hw]; simp)]
              obtain ⟨g, hg, ⟨hgf, hnot⟩ | ⟨hc, n, hlen, he⟩⟩ := parseContentLength_cases hsize alloc
                (h.withCode h.found (firstText buffer ⟨true, some cs⟩))
              · exact ⟨g, hg, .inl ⟨hgf, fun h => hnot ⟨h.2.1, h.2.2.2⟩⟩⟩
              · exact ⟨g, hg, .inr ⟨rfl, hc, code, n, rfl, hlen, by simp [he, Header.withCode, hv, hf]⟩⟩

/-- What http_parse_header reads from a buffer in which it finds a header. -/
structure Parsed (buffer : List UInt8) (alloc : Allocations) (i : Nat) (code n : Int) : Prop where
  resultStr : alloc.resultStr = true
  contentLengthStr : alloc.contentLengthStr = true
  blank : lastOf blankLine buffer = some i
  code : numberBehind (bytes "HTTP/1.1 ") buffer = some code
  length : numberBehind (bytes "Content-Length: ") buffer = some n

theorem httpParseHeader_cases :
    ∃ g, httpParseHeader buffer alloc = .ok g ∧
      ((g.found = false ∧ ∀ i code n, ¬ Parsed buffer alloc i code n) ∨
        ∃ i code n, Parsed buffer alloc i code n ∧
          g = ⟨true, some (toInt32 code), some (sizeT n), some (i + 4)⟩) := by
  have hfind := find_before (l := blankLine) (by decide) hsize 9
  unfold httpParseHeader
  rw [packetEndPattern_eq, hfind]
  cases hl : lastOf blankLine buffer with
  | none =>
      refine ⟨⟨false, none, none, none⟩, rfl, .inl ⟨rfl, fun i code n hp => ?_⟩⟩
      exact absurd (hl.symm.trans hp.blank) nofun
  | some i =>
      obtain ⟨g, hg, ⟨hgf, hnot⟩ | ⟨hr, hc, code, n, hcode, hlen, rfl⟩⟩ :=
        parseResultCode_cases hsize alloc ⟨true, none, none, some (i + 4)⟩ rfl
      · refine ⟨g, hg, .inl ⟨hgf, fun j code n hp => hnot ?_⟩⟩
        exact ⟨hp.resultStr, hp.contentLengthStr, by rw [hp.code]; rfl, by rw [hp.length]; rfl⟩
      · exact ⟨_, hg, .inr ⟨i, code, n, ⟨hr, hc, hl, hcode, hlen⟩, rfl⟩⟩

end

end ErSdk.HttpParser
