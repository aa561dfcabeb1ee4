import ErSdk.HttpDelivery
import ErSdk.RequestRoundTrip

namespace ErSdk.RequestFraming

open HttpMessage HttpRequest Strings RequestArgs RequestRoundTrip Error
open HttpParser (blankLine)
open HttpDelivery (joinLines blank_after_lines)

/-- What a server takes as the body of the first request on a connection, and what it takes
for the next request. -/
def serve (s : List UInt8) : Option (List UInt8 × List UInt8) := do
  let (_, rest) ← splitLine s
  let (headers, body) ← parseHeaders rest.length rest
  let length ← bodyLength headers
  if length ≤ body.length then some (body.take length, body.drop length) else none

/-- The header ends at the first blank line, the content stands behind it and its length in the
only Content-Length header, so that whatever follows on the connection is the next request. -/
structure Framed (request content : List UInt8) : Prop where
  blank : ∃ head, request = head ++ (blankLine ++ content) ∧
    ∀ i, blankLine <+: request.drop i → head.length ≤ i
  length : ∃ line rest headers digits, splitLine request = some (line, rest) ∧
    parseHeaders rest.length rest = some (headers, content) ∧
    headers.filter isLength = [(bytes "Content-Length", digits)] ∧
    digits ≠ [] ∧ digits.all isDigit = true ∧ decimalValue digits = content.length
  next : ∀ next, serve (request ++ next) = some (content, next)

section

variable {line content : List UInt8} {headers : List (List UInt8 × List UInt8)}

theorem headerText_lines (line : List UInt8) (x : List UInt8 × List UInt8)
    (headers : List (List UInt8 × List UInt8)) (s : List UInt8) :
    line ++ (crlf ++ (headerText (x :: headers) ++ (crlf ++ s))) =
      joinLines (line :: (x :: headers).map headerLine) ++ (blankLine ++ s) := by
  induction headers generalizing line x with
  | nil => simp [headerText, joinLines, blankLine, crlf, HttpParser.crlf]
  | cons y headers ih =>
      have h := ih (headerLine x) y
      have htext : headerText (x :: y :: headers) =
          headerLine x ++ (crlf ++ headerText (y :: headers)) := by
        simp [headerText]
      rw [htext]
      simp only [List.map_cons, joinLines, List.append_assoc] at h ⊢
      rw [h]
      rfl

theorem headers_fuel (headers : List (List UInt8 × List UInt8)) (s : List UInt8) :
    headers.length < (headerText headers ++ (crlf ++ s)).length := by
  have hle := length_le_headerText headers
  simp only [List.length_append, crlf, List.length_cons, List.length_nil]
  omega

theorem framed_text_iff (hl : 13 ∉ line) (hne : line ≠ []) (h : Listed headers)
    (hb : ∀ x ∈ headers, Bare x.2) :
    Framed (line ++ (crlf ++ (headerText (headers ++ [lengthHeader content.length]) ++
      (crlf ++ content)))) content ↔ content.length < 10 ^ 15 := by
  have hname : GoodName (lengthHeader content.length).1 := by
    change GoodName (bytes "Content-Length")
    decide
  have hall : ∀ x ∈ headers ++ [lengthHeader content.length], GoodName x.1 ∧ Bare x.2 := by
    intro x hx
    rcases List.mem_append.mp hx with hx | hx
    · exact ⟨(h x hx).1, hb x hx⟩
    · rw [List.mem_singleton.mp hx]
      exact ⟨hname, bare_digits (all_digits_lengthStr content.length)⟩
  have hfilter : (headers ++ [lengthHeader content.length]).filter isLength =
      [lengthHeader content.length] := by
    rw [List.filter_append, (filter_listed h).2]
    simp [isLength_lengthHeader]
  have hparse (s : List UInt8) := parseHeaders_text hall (headers_fuel _ s) s
  constructor
  · intro hf
    obtain ⟨line', rest, hs, digits, hsplit, hheaders, hdigits, -, -, hvalue⟩ := hf.length
    rw [splitLine_line hl] at hsplit
    obtain ⟨rfl, rfl⟩ := Prod.mk.inj (Option.some.inj hsplit)
    rw [hparse] at hheaders
    obtain ⟨rfl, -⟩ := Prod.mk.inj (Option.some.inj hheaders)
    rw [hfilter] at hdigits
    obtain rfl : lengthStr content.length = digits :=
      (Prod.mk.inj (List.cons.inj hdigits).1).2
    exact (decimalValue_lengthStr _).mp hvalue
  · intro hlt
    refine ⟨?_, ⟨line, _, _, lengthStr content.length, splitLine_line hl _, hparse content, hfilter,
      lengthStr_ne_nil _, all_digits_lengthStr _, (decimalValue_lengthStr _).mpr hlt⟩, fun next => ?_⟩
    · obtain ⟨x, hs, hx⟩ := List.exists_cons_of_ne_nil
        (show headers ++ [lengthHeader content.length] ≠ [] by simp)
      rw [hx] at hall ⊢
      rw [headerText_lines]
      refine ⟨_, rfl, fun i hi => blank_after_lines (fun l hmem => ?_) hi⟩
      rcases List.mem_cons.mp hmem with rfl | hmem
      · exact ⟨hne, hl⟩
      · obtain ⟨y, hy, rfl⟩ := List.mem_map.mp hmem
        obtain ⟨hn, hv⟩ := hall y hy
        simp [headerLine, hn.1, hn.2.2.2, hv.no_break]
    · have hstream : line ++ (crlf ++ (headerText (headers ++ [lengthHeader content.length]) ++
          (crlf ++ content))) ++ next = line ++ (crlf ++ (headerText (headers ++
            [lengthHeader content.length]) ++ (crlf ++ (content ++ next)))) := by
        simp only [List.append_assoc]
      have hlength : bodyLength (headers ++ [lengthHeader content.length]) = some content.length := by
        rw [bodyLength_lengthHeader h, (decimalValue_lengthStr _).mpr hlt]
      rw [hstream, serve, splitLine_line hl]
      simp only [Option.bind_eq_bind, Option.bind_some, hparse (content ++ next), hlength]
      simp

end

/-- The form that a write or an activation sends. A string that is NULL has no bytes; no
request is made with it. -/
def formContent (args : ExoRequestArgs) : List UInt8 :=
  match args.method with
  | .activate => activateContent (args.vendor.getD []) (args.model.getD []) (args.sn.getD [])
  | _ => args.aliasName.getD [] ++ 61 :: args.value.getD []

theorem bare_of_alnum {s : List UInt8} (h : ∀ c ∈ s, isAlnum c = true) : Bare s := by
  have hbyte : ∀ c, isAlnum c = true → isFieldByte c = true ∧ isOws c = false := by
    intro c hc
    simp only [isAlnum, isAlpha, isUpper, isLower, isDigit, isFieldByte, isOws,
      UInt8.le_iff_toNat_le, ← UInt8.toNat_inj, Bool.and_eq_true, Bool.or_eq_true,
      Bool.or_eq_false_iff, decide_eq_true_eq, decide_eq_false_iff_not] at hc ⊢
    simp at hc ⊢
    omega
  refine ⟨fun c hc => (hbyte c (h c hc)).1, fun c hc => ?_, fun c hc => ?_⟩
  · exact (hbyte c (h c (List.mem_of_head? hc))).2
  · exact (hbyte c (h c (List.mem_of_getLast? hc))).2

theorem bare_cik {cik : CikBuffer} (h : ValidCik cik) : Bare (cString cik.toList) := by
  obtain ⟨s, -, hs, he⟩ := h
  refine bare_of_alnum (fun c hc => ?_)
  have hne : c ≠ 0 := by simpa using List.mem_takeWhile_imp hc
  have hmem : c ∈ s ++ [0] := he ▸ (List.takeWhile_prefix _).subset hc
  rcases List.mem_append.mp hmem with hmem | hmem
  · exact hs c hmem
  · exact absurd (List.mem_singleton.mp hmem) hne

theorem framed_write_iff {cik : List UInt8} (hcik : Bare cik) (content : List UInt8) :
    Framed (bytes "POST " ++ (dataProceduresUrl ++ (headerCommon ++ (bytes "X-Exosite-CIK: " ++
      (cik ++ (crlfStr ++ contentText content)))))) content ↔ content.length < 10 ^ 15 := by
  have hl := Listed.cons listed_host (.cons (listed_cikHeader cik) (.cons listed_type .nil))
  have hb : ∀ x ∈ [hostHeader, cikHeader cik, typeHeader], Bare x.2 :=
    forall_bare.mpr ⟨bare_host, forall_bare.mpr ⟨hcik, forall_bare.mpr ⟨bare_type, nofun⟩⟩⟩
  have hiff := @framed_text_iff (requestLine (bytes "POST") dataProceduresUrl) content _
    (post_line (by decide)) (by decide) hl hb
  simp only [List.cons_append, List.nil_append, headerText_cons, List.append_assoc] at hiff
  rw [post_eq, cikText_eq, contentText_eq]
  exact hiff

theorem framed_activate_iff (content : List UInt8) :
    Framed (bytes "POST " ++ (activateProcedureUrl ++ (headerCommon ++ contentText content)))
      content ↔ content.length < 10 ^ 15 := by
  have hl := Listed.cons listed_host (.cons listed_type .nil)
  have hb : ∀ x ∈ [hostHeader, typeHeader], Bare x.2 :=
    forall_bare.mpr ⟨bare_host, forall_bare.mpr ⟨bare_type, nofun⟩⟩
  have hiff := @framed_text_iff (requestLine (bytes "POST") activateProcedureUrl) content _
    (post_line (by decide)) (by decide) hl hb
  simp only [List.cons_append, List.nil_append, headerText_cons, List.append_assoc] at hiff
  rw [post_eq, contentText_eq]
  exact hiff

theorem returns_framed {args : ExoRequestArgs}
    (hmethod : args.method = .write ∨ args.method = .activate) (hcik : ValidCik args.cik) :
    Returns (httpRequestNew args) (fun r =>
      Framed r.buffer (formContent args) ↔ (formContent args).length < 10 ^ 15) := by
  refine .bind (returns_newString _) (fun req hreq => ?_)
  unfold httpCreateRequest formContent
  rcases hmethod with hm | hm
  · rw [hm]
    refine (returns_httpCreateWriteRequest _ _ _).mono (fun r hr => ?_)
    obtain ⟨a, v, ha, hv, hr⟩ := hr
    rw [ha, hv, hr, hreq, List.nil_append]
    exact framed_write_iff (bare_cik hcik) _
  · rw [hm]
    refine (returns_httpCreateProvisioningRequest _ _ _).mono (fun r hr => ?_)
    obtain ⟨v, m, s, hv, hm, hs, hr⟩ := hr
    rw [hv, hm, hs, hr, hreq, List.nil_append]
    exact framed_activate_iff _

/-- A write or an activation that is made is framed exactly when the length of its content has
at most 15 digits, for which there is room. -/
theorem framed_iff {args : ExoRequestArgs} {supply supply' : Supply} {request : StringClass}
    (hmethod : args.method = .write ∨ args.method = .activate) (hcik : ValidCik args.cik)
    (hok : httpRequestNew args supply = .ok (request, supply')) :
    Framed request.buffer (formContent args) ↔ (formContent args).length < 10 ^ 15 :=
  returns_framed hmethod hcik supply request supply' hok

theorem framed_iff_led : ∃ request supply',
    httpRequestNew (ledArgs (bytes "\r\n\r\n1")) (fun _ => true) = .ok (request, supply') ∧
    (Framed request.buffer (formContent (ledArgs (bytes "\r\n\r\n1"))) ↔
      (formContent (ledArgs (bytes "\r\n\r\n1"))).length < 10 ^ 15) := by
  obtain ⟨request, supply', hok⟩ := exists_request (ledArgs (bytes "\r\n\r\n1")) (fun _ => true)
    (by decide +kernel)
  exact ⟨request, supply', hok,
    framed_iff (.inl rfl) (systemIsCikFormatValid_iff.mp (by decide +kernel)) hok⟩

section

variable {α β : Type}

/-- With memory for all strings the construction ends well, and its result has the property. -/
def Succeeds (x : Build α) (P : α → Prop) : Prop :=
  ∃ a, x (fun _ => true) = .ok (a, fun _ => true) ∧ P a

theorem Succeeds.bind {x : Build α} {f : α → Build β} {P : α → Prop} {Q : β → Prop}
    (hx : Succeeds x P) (hf : ∀ a, P a → Succeeds (f a) Q) : Succeeds (x >>= f) Q := by
  obtain ⟨a, ha, hp⟩ := hx
  obtain ⟨b, hb, hq⟩ := hf a hp
  refine ⟨b, ?_, hq⟩
  have hbind : (x >>= f) (fun _ => true) = (x (fun _ => true) >>= fun p => f p.1 p.2) := rfl
  rw [hbind, ha]
  exact hb

variable {str req : StringClass} (hstr : str.fixedSize = false) (hreq : req.fixedSize = false)

theorem succeeds_newString (s : List UInt8) :
    Succeeds (newString s) (fun str => str.fixedSize = false) := ⟨_, rfl, rfl⟩

include hstr in
theorem succeeds_stringCatc (s : List UInt8) :
    Succeeds (stringCatc str s) (fun r => r.fixedSize = false) := by
  obtain ⟨r, hcat, hr⟩ : ∃ r, stringCatcn str s true = (errSuccess, r) ∧ r.fixedSize = false := by
    unfold stringCatcn
    by_cases hs : s.length = 0
    · exact ⟨str, if_pos hs, hstr⟩
    · rw [if_neg hs, if_neg (by simp [hstr])]
      by_cases hg : grows str s
      · exact ⟨_, if_pos hg, hstr⟩
      · exact ⟨_, if_neg hg, hstr⟩
  have hrun : stringCatc str s (fun _ => true) =
      (if (stringCatcn str s true).1 = errSuccess then pure (stringCatcn str s true).2
        else throw (.error (stringCatcn str s true).1) : Build StringClass) (fun _ => true) := rfl
  refine ⟨r, ?_, hr⟩
  rw [hrun, hcat]
  rfl

include hstr in
theorem succeeds_catArg (s : List UInt8) :
    Succeeds (catArg str (some s)) (fun r => r.fixedSize = false) := succeeds_stringCatc hstr s

include hreq

theorem succeeds_appendHttpHeaderCommon :
    Succeeds (appendHttpHeaderCommon req) (fun r => r.fixedSize = false) :=
  .bind (succeeds_stringCatc hreq _) (fun _ h => succeeds_stringCatc h _)

theorem succeeds_postHeader :
    Succeeds (appendHttpDataProcHeader req .post (some [])) (fun r => r.fixedSize = false) := by
  refine .bind (succeeds_stringCatc hreq _) (fun r1 h1 => ?_)
  refine .bind (succeeds_stringCatc h1 _) (fun r2 h2 => ?_)
  refine .bind (P := fun r => r.fixedSize = false) ⟨r2, rfl, h2⟩ (fun r3 h3 => ?_)
  refine .bind (succeeds_catArg h3 []) (fun r4 h4 => ?_)
  exact succeeds_appendHttpHeaderCommon h4

theorem succeeds_appendCikStr (cik : List UInt8) :
    Succeeds (appendCikStr req cik) (fun r => r.fixedSize = false) := by
  refine .bind (succeeds_stringCatc hreq _) (fun r1 h1 => ?_)
  refine .bind (succeeds_stringCatc h1 _) (fun r2 h2 => ?_)
  exact succeeds_stringCatc h2 _

theorem succeeds_appendContentStr (content : StringClass) :
    Succeeds (appendContentStr req content) (fun r => r.fixedSize = false) := by
  refine .bind (succeeds_stringCatc hreq _) (fun r1 h1 => ?_)
  refine .bind (succeeds_stringCatc h1 _) (fun r2 h2 => ?_)
  refine .bind (succeeds_stringCatc h2 _) (fun r3 h3 => ?_)
  refine .bind (succeeds_stringCatc h3 _) (fun r4 h4 => ?_)
  refine .bind (succeeds_stringCatc h4 _) (fun r5 h5 => ?_)
  exact succeeds_stringCatc h5 _

theorem succeeds_httpCreateWriteRequest (cik a v : List UInt8) :
    Succeeds (httpCreateWriteRequest req cik (some a) (some v)) (fun r => r.fixedSize = false) := by
  refine .bind (succeeds_postHeader hreq) (fun r1 h1 => ?_)
  refine .bind (succeeds_appendCikStr h1 cik) (fun r2 h2 => ?_)
  refine .bind (succeeds_newString _) (fun c0 hc0 => ?_)
  refine .bind (succeeds_catArg hc0 a) (fun c1 hc1 => ?_)
  refine .bind (succeeds_stringCatc hc1 _) (fun c2 hc2 => ?_)
  refine .bind (succeeds_catArg hc2 v) (fun c3 _ => ?_)
  exact succeeds_appendContentStr h2 c3

end

theorem write_succeeds {args : ExoRequestArgs} {a v : List UInt8} (hm : args.method = .write)
    (ha : args.aliasName = some a) (hv : args.value = some v) :
    ∃ request, httpRequestNew args (fun _ => true) = .ok (request, fun _ => true) := by
  have hnew : Succeeds (httpRequestNew args) (fun r => r.fixedSize = false) := by
    refine .bind (succeeds_newString _) (fun req hreq => ?_)
    unfold httpCreateRequest
    rw [hm, ha, hv]
    exact succeeds_httpCreateWriteRequest hreq _ a v
  obtain ⟨request, hok, -⟩ := hnew
  exact ⟨request, hok⟩

/-- Strings of less than 10 ^ 15 bytes each. -/
def Short (args : ExoRequestArgs) : Prop :=
  ∀ s, some s ∈ [args.aliasName, args.value, args.vendor, args.model, args.sn] → s.length < 10 ^ 15

/-- A write of an empty value to an alias that is as long as a string may be. -/
def longArgs : ExoRequestArgs :=
  { ledArgs [] with aliasName := some (List.replicate (10 ^ 15 - 1) 97) }

theorem length_longContent : (formContent longArgs).length = 10 ^ 15 := by
  have h : formContent longArgs = List.replicate (10 ^ 15 - 1) 97 ++ [61] := rfl
  have hlen := congrArg List.length h
  rw [List.length_append, List.length_replicate, List.length_singleton] at hlen
  exact hlen.trans (Nat.sub_add_cancel (by decide))

theorem short_longArgs : Short longArgs := by
  intro s hs
  have h : [longArgs.aliasName, longArgs.value, longArgs.vendor, longArgs.model, longArgs.sn] =
      [some (List.replicate (10 ^ 15 - 1) 97), some [], none, none, none] := rfl
  rw [h] at hs
  simp only [List.mem_cons, Option.some.injEq, List.not_mem_nil, reduceCtorEq, or_false] at hs
  rcases hs with rfl | rfl
  · rw [List.length_replicate]
    decide
  · decide

/-- The length of the content has 16 digits, of which only 15 are sent. -/
theorem long_alias_breaks_framing : ¬ ∀ args request supply supply',
    (args.method = .write ∨ args.method = .activate) → ValidCik args.cik → Short args →
    httpRequestNew args supply = .ok (request, supply') →
    Framed request.buffer (formContent args) := by
  intro h
  have hcik : ValidCik longArgs.cik := systemIsCikFormatValid_iff.mp (by decide +kernel)
  obtain ⟨request, hok⟩ := @write_succeeds longArgs _ _ rfl rfl rfl
  have hiff := returns_framed (.inl rfl) hcik _ _ _ hok
  have hlt := hiff.mp (h longArgs request _ _ (.inl rfl) hcik short_longArgs hok)
  rw [length_longContent] at hlt
  exact absurd hlt (Nat.lt_irrefl _)

end ErSdk.RequestFraming
