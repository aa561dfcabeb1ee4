import ErSdk.HttpMessage
import ErSdk.HttpRequest

namespace ErSdk.RequestRoundTrip

open HttpMessage HttpRequest Strings RequestArgs

section

variable {method path query body : List UInt8} {headers : List (List UInt8 × List UInt8)}
  {pairs : List (List UInt8 × List UInt8)}

/-- The headers that a client writes: with names of their own, none of them the length. -/
def Listed (headers : List (List UInt8 × List UInt8)) : Prop :=
  ∀ x ∈ headers, GoodName x.1 ∧ isLength x = false

def lengthHeader (n : Nat) : List UInt8 × List UInt8 := (bytes "Content-Length", lengthStr n)

theorem filter_listed (h : Listed headers) :
    headers.filter (fun x => !isLength x) = headers ∧ headers.filter isLength = [] := by
  constructor
  · refine List.filter_eq_self.mpr (fun x hx => ?_)
    simp [(h x hx).2]
  · refine List.filter_eq_nil_iff.mpr (fun x hx => ?_)
    simp [(h x hx).2]

theorem isLength_lengthHeader (n : Nat) : isLength (lengthHeader n) = true := by
  have h : (bytes "Content-Length").map lower = bytes "content-length" := by decide
  simp [isLength, lengthHeader, h]

theorem all_digits_lengthStr (n : Nat) : (lengthStr n).all isDigit = true := by
  have h := List.all_eq_true.mp (all_digits_decimalText n)
  exact List.all_eq_true.mpr (fun c hc => h c (List.mem_of_mem_take hc))

theorem lengthStr_ne_nil (n : Nat) : lengthStr n ≠ [] := by
  have h := List.length_pos_iff.mpr (decimalText_ne_nil n)
  have hlen : (lengthStr n).length = min 15 (decimalText n).length := List.length_take
  intro hnil
  rw [hnil] at hlen
  simp at hlen
  omega

theorem decimalValue_lengthStr (n : Nat) : decimalValue (lengthStr n) = n ↔ n < 10 ^ 15 := by
  constructor
  · intro h
    have hlt := decimalValue_lt (all_digits_lengthStr n)
    have hlen : (lengthStr n).length ≤ 15 := List.length_take_le 15 _
    have hpow : 10 ^ (lengthStr n).length ≤ 10 ^ 15 := Nat.pow_le_pow_right (by decide) hlen
    omega
  · intro h
    have hle := (length_decimalText_le_iff (n := n) (by decide : 0 < 15)).mpr h
    have hwhole : lengthStr n = decimalText n := List.take_of_length_le hle
    rw [hwhole, decimalValue_decimalText]

theorem bare_digits {s : List UInt8} (h : s.all isDigit = true) : Bare s := by
  have hbyte : ∀ c, isDigit c = true → isFieldByte c = true ∧ isOws c = false := by
    intro c hc
    simp only [isDigit, isFieldByte, isOws, UInt8.le_iff_toNat_le, ← UInt8.toNat_inj,
      Bool.and_eq_true, Bool.or_eq_true, Bool.or_eq_false_iff, decide_eq_true_eq,
      decide_eq_false_iff_not] at hc ⊢
    have h48 : 48 ≤ c.toNat := hc.1
    have h57 : c.toNat ≤ 57 := hc.2
    refine ⟨.inl (.inl ⟨?_, ?_⟩), ?_, ?_⟩ <;> simp <;> omega
  have hall := List.all_eq_true.mp h
  refine ⟨fun c hc => (hbyte c (hall c hc)).1, fun c hc => ?_, fun c hc => ?_⟩
  · exact (hbyte c (hall c (List.mem_of_head? hc))).2
  · exact (hbyte c (hall c (List.mem_of_getLast? hc))).2

theorem bodyLength_listed (h : Listed headers) : bodyLength headers = some 0 := by
  unfold bodyLength
  rw [(filter_listed h).2]

theorem bodyLength_lengthHeader (h : Listed headers) (n : Nat) :
    bodyLength (headers ++ [lengthHeader n]) = some (decimalValue (lengthStr n)) := by
  unfold bodyLength
  rw [List.filter_append, (filter_listed h).2]
  simp only [List.filter_cons, isLength_lengthHeader, if_true, List.filter_nil, List.nil_append]
  exact if_pos ⟨lengthStr_ne_nil n, all_digits_lengthStr n⟩

variable (body pairs) in
/-- A form in a body is read back if the header values are bare, the length is printed whole
and the form is. -/
theorem parseForm_post_iff {line : List UInt8} (hl : 13 ∉ line)
    (hline : parseRequestLine line = some (method, path, none)) (h : Listed headers) :
    parseForm (line ++ (crlf ++ (headerText (headers ++ [lengthHeader body.length]) ++
      (crlf ++ body)))) = some ⟨method, path, headers, pairs⟩ ↔
    (∀ x ∈ headers, Bare x.2) ∧ body.length < 10 ^ 15 ∧ formPairs body = pairs := by
  have hname : GoodName (lengthHeader body.length).1 := by
    change GoodName (bytes "Content-Length")
    decide
  have hcut : (headers ++ [lengthHeader body.length]).filter (fun x => !isLength x) = headers := by
    rw [List.filter_append, (filter_listed h).1]
    simp [isLength_lengthHeader]
  have hparse (hb : ∀ x ∈ headers, Bare x.2) :
      parseForm (line ++ (crlf ++ (headerText (headers ++ [lengthHeader body.length]) ++
        (crlf ++ body)))) =
      if body.length < 10 ^ 15 then some ⟨method, path, headers, formPairs body⟩ else none := by
    have hall : ∀ x ∈ headers ++ [lengthHeader body.length], GoodName x.1 ∧ Bare x.2 := by
      intro x hx
      rcases List.mem_append.mp hx with hx | hx
      · exact ⟨(h x hx).1, hb x hx⟩
      · rw [List.mem_singleton.mp hx]
        exact ⟨hname, bare_digits (all_digits_lengthStr body.length)⟩
    unfold parseForm
    rw [parseMessage_text hl hline hall, bodyLength_lengthHeader h, Option.bind_some]
    by_cases hlt : body.length < 10 ^ 15
    · rw [if_pos ((decimalValue_lengthStr _).mpr hlt).symm, if_pos hlt]
      simp [Message.form, hcut]
    · rw [if_neg (fun heq => hlt ((decimalValue_lengthStr _).mp heq.symm)), if_neg hlt]
      rfl
  constructor
  · intro heq
    have hb : ∀ x ∈ headers, Bare x.2 := by
      obtain ⟨m, hm, hform⟩ := Option.map_eq_some_iff.mp heq
      obtain ⟨line', rest, hsplit, -, hheaders, -⟩ := parseMessage_some hm
      rw [splitLine_line hl] at hsplit
      obtain ⟨rfl, rfl⟩ := Prod.mk.inj (Option.some.inj hsplit)
      have htext : headerText (headers ++ [lengthHeader body.length]) ++ (crlf ++ body) =
          headerText headers ++ (headerText [lengthHeader body.length] ++ (crlf ++ body)) := by
        simp [headerText]
      rw [htext] at hheaders
      refine bare_of_parseHeaders h hheaders ?_
      have hkept : m.headers.filter (fun x => !isLength x) = headers := congrArg Form.headers hform
      simp only [hkept, List.prefix_refl]
    rw [hparse hb, Option.ite_none_right_eq_some] at heq
    exact ⟨hb, heq.1, congrArg Form.pairs (Option.some.inj heq.2)⟩
  · rintro ⟨hb, hlt, rfl⟩
    rw [hparse hb, if_pos hlt]

theorem headerBytes_filter (headers : List (List UInt8 × List UInt8)) :
    headerBytes headers =
      headerBytes (headers.filter (fun x => !isLength x)) + headerBytes (headers.filter isLength) := by
  induction headers with
  | nil => rfl
  | cons x headers ih =>
      have hcons (l : List (List UInt8 × List UInt8)) :
          headerBytes (x :: l) = x.1.length + x.2.length + 3 + headerBytes l := by
        simp [headerBytes]
      cases hx : isLength x with
      | false =>
          rw [List.filter_cons_of_pos (by simp [hx]), List.filter_cons_of_neg (by simp [hx]),
            hcons, hcons, ih]
          omega
      | true =>
          rw [List.filter_cons_of_neg (by simp [hx]), List.filter_cons_of_pos hx, hcons, hcons, ih]
          omega

theorem length_headerText (headers : List (List UInt8 × List UInt8)) :
    (headerText headers).length = headerBytes headers + headers.length := by
  induction headers with
  | nil => rfl
  | cons x headers ih =>
      have htext : headerText (x :: headers) = headerLine x ++ crlf ++ headerText headers := by
        simp [headerText]
      have hbytes : headerBytes (x :: headers) = x.1.length + x.2.length + 3 + headerBytes headers := by
        simp [headerBytes]
      rw [htext, hbytes]
      simp only [List.length_append, List.length_cons, ih, headerLine, crlf, List.length_nil]
      omega

theorem headerBytes_of_bodyLength {n : Nat} (h : bodyLength headers = some n) (hn : n ≠ 0) :
    17 < headerBytes (headers.filter isLength) := by
  unfold bodyLength at h
  split at h
  · exact absurd (Option.some.inj h).symm hn
  · rename_i x hx
    rw [Option.ite_none_right_eq_some] at h
    have hmem : x ∈ headers.filter isLength := by
      rw [hx]
      exact List.mem_singleton_self x
    have hlength := (List.mem_filter.mp hmem).2
    have hname : x.1.length = 14 := by
      have heq : x.1.map lower = bytes "content-length" := by simpa [isLength] using hlength
      have hlen := congrArg List.length heq
      rw [List.length_map] at hlen
      exact hlen.trans (by decide)
    have hvalue := List.length_pos_iff.mpr h.1.1
    rw [hx]
    simp only [headerBytes, List.map_cons, List.map_nil, List.sum_cons, List.sum_nil]
    omega
  · cases h

end

section

variable {method path query : List UInt8} {headers : List (List UInt8 × List UInt8)}

/-- The bytes that stand for themselves in a name that is a whole query. -/
def QueryName (query : List UInt8) : Prop :=
  query ≠ [] ∧ ∀ c ∈ query, isQueryByte c = true ∧ c ≠ 38 ∧ c ≠ 43 ∧ c ≠ 61

theorem queryName_iff : QueryName query ↔
    wellEncoded query = true ∧ query ≠ [] ∧ 61 ∉ query ∧ 38 ∉ query ∧ Plain query := by
  have hplain := wellEncoded_plain_iff query
  constructor
  · rintro ⟨hne, hall⟩
    obtain ⟨henc, hp⟩ := hplain.mpr (fun c hc => ⟨(hall c hc).1, (hall c hc).2.2.1⟩)
    exact ⟨henc, hne, fun h => (hall 61 h).2.2.2 rfl, fun h => (hall 38 h).2.1 rfl, hp⟩
  · rintro ⟨henc, hne, h61, h38, hp⟩
    refine ⟨hne, fun c hc => ?_⟩
    obtain ⟨hq, h43⟩ := hplain.mp ⟨henc, hp⟩ c hc
    refine ⟨hq, ?_, h43, ?_⟩
    · rintro rfl
      exact h38 hc
    · rintro rfl
      exact h61 hc

variable (query) in
/-- A request with a name for its query is read back if the header values are bare and the bytes
of the name stand for themselves. -/
theorem parseForm_get_iff (hm : method ≠ [] ∧ method.all isTchar = true ∧ 32 ∉ method ∧ 13 ∉ method)
    (hpath : path.head? = some 47 ∧ wellEncoded path = true ∧ 63 ∉ path ∧ 32 ∉ path ∧ 13 ∉ path)
    (h : Listed headers) (hfew : headers.length < 16) :
    parseForm (requestLine method (path ++ 63 :: query) ++ (crlf ++ (headerText headers ++
      (crlf ++ [])))) = some ⟨method, path, headers, [(query, [])]⟩ ↔
    (∀ x ∈ headers, Bare x.2) ∧ QueryName query := by
  obtain ⟨hmne, hmall, hm32, hm13⟩ := hm
  obtain ⟨hslash, henc, h63, hp32, hp13⟩ := hpath
  have hversion : 13 ∉ bytes " HTTP/1.1" := by decide
  constructor
  · intro heq
    obtain ⟨m, hparse, hform⟩ := Option.map_eq_some_iff.mp heq
    obtain ⟨line, rest, hsplit, hline, hheaders, hbody⟩ := parseMessage_some hparse
    have hpaths : m.path = path := congrArg Form.path hform
    have hkept : m.headers.filter (fun x => !isLength x) = headers := congrArg Form.headers hform
    have hpairs : (m.query.map formPairs).getD [] ++ formPairs m.body = [(query, [])] :=
      congrArg Form.pairs hform
    have hweight : weight [(query, ([] : List UInt8))] = query.length := by simp [weight]
    -- the line of the text may end early, in the query
    have hlen := length_splitLine hsplit
    have hstart : requestLine method (path ++ 63 :: query) =
        (method ++ [32]) ++ (path ++ 63 :: (query ++ bytes " HTTP/1.1")) := by
      simp [requestLine]
    rw [hstart] at hsplit
    obtain ⟨w, rfl, hle, hwhole⟩ := splitLine_start (by simp [hm13]) hsplit
    have hline' : method ++ [32] ++ w = method ++ 32 :: w := by simp
    rw [hline'] at hline hlen
    obtain ⟨target, rfl, htarget⟩ := parseRequestLine_some hm32 hline
    rw [hpaths] at htarget
    obtain ⟨hqenc, rfl⟩ := parseTarget_some htarget
    have hrest := length_parseHeaders hheaders
    rw [headerBytes_filter, hkept] at hrest
    have htotal := length_headerText headers
    simp only [List.length_append, List.length_cons, List.length_nil] at hlen hle
    -- there is no room for a body beside the query
    have hnone : m.body = [] := by
      by_contra hne
      have hpos := List.length_pos_iff.mpr hne
      have hbytes := headerBytes_of_bodyLength hbody (by omega)
      have hbodyw := weight_formPairs m.body
      have hqueryw : weight ((m.query.map formPairs).getD []) ≤
          ((m.query.map (fun x => 63 :: x)).getD []).length := by
        cases m.query with
        | none => simp [weight]
        | some q =>
            have hw := weight_formPairs q
            simp only [Option.map_some, Option.getD_some, List.length_cons]
            omega
      have hsum := congrArg weight hpairs
      rw [weight_append, hweight] at hsum
      simp only [requestLine, crlf, List.length_append, List.length_cons, List.length_nil] at hlen
      omega
    rw [hnone, formPairs_nil, List.append_nil] at hpairs
    obtain ⟨q, hq⟩ : ∃ q, m.query = some q := by
      cases hq : m.query with
      | none =>
          rw [hq] at hpairs
          cases hpairs
      | some q => exact ⟨q, rfl⟩
    rw [hq] at hpairs hqenc hwhole
    have hw := weight_formPairs q
    have hone : formPairs q = [(query, [])] := hpairs
    rw [hone, hweight] at hw
    rw [hq] at hle
    simp only [Option.map_some, Option.getD_some, List.length_cons] at hle
    obtain ⟨htext, rfl⟩ := hwhole (by
      simp only [Option.map_some, Option.getD_some, List.length_append, List.length_cons]
      omega)
    have hsame : q = query := by
      rw [List.append_assoc] at htext
      exact List.append_cancel_right (List.cons.inj (List.append_cancel_left htext)).2
    subst hsame
    refine ⟨bare_of_parseHeaders h hheaders ?_, ?_⟩
    · simp only [hkept, List.prefix_refl]
    · exact queryName_iff.mpr ⟨hqenc, (formPairs_name_iff q).mp hone⟩
  · rintro ⟨hb, hq⟩
    obtain ⟨hqenc, hqne, hq61, hq38, hqplain⟩ := queryName_iff.mp hq
    have hbyte : ∀ c, isQueryByte c = true → c ≠ 13 ∧ c ≠ 32 := by
      intro c hc
      constructor
      · rintro rfl
        exact absurd hc (by decide)
      · rintro rfl
        exact absurd hc (by decide)
    have hq13 : 13 ∉ query := fun hc => (hbyte 13 (hq.2 13 hc).1).1 rfl
    have hq32 : 32 ∉ query := fun hc => (hbyte 32 (hq.2 32 hc).1).2 rfl
    have hl : 13 ∉ requestLine method (path ++ 63 :: query) := by
      simp [requestLine, hm13, hp13, hq13, hversion]
    have ht : 32 ∉ path ++ 63 :: query := by simp [hp32, hq32]
    have hline : parseRequestLine (requestLine method (path ++ 63 :: query)) =
        some (method, path, some query) := by
      rw [parseRequestLine_target hmne hmall hm32 ht, parseTarget_query h63 hslash henc hqenc]
      rfl
    have hall : ∀ x ∈ headers, GoodName x.1 ∧ Bare x.2 := fun x hx => ⟨(h x hx).1, hb x hx⟩
    unfold parseForm
    rw [parseMessage_text hl hline hall, bodyLength_listed h]
    simp [Message.form, (filter_listed h).1, formPairs_nil, (formPairs_name_iff query).mpr
      ⟨hqne, hq61, hq38, hqplain⟩]

end

def hostHeader : List UInt8 × List UInt8 := (bytes "Host", bytes "m2.exosite.com")

def cikHeader (cik : List UInt8) : List UInt8 × List UInt8 := (bytes "X-Exosite-CIK", cik)

def acceptHeader : List UInt8 × List UInt8 :=
  (bytes "Accept", bytes "application/x-www-form-urlencoded; charset=utf-8")

def typeHeader : List UInt8 × List UInt8 :=
  (bytes "Content-Type", bytes "application/x-www-form-urlencoded; charset=utf-8")

def timeoutHeader (timeout : List UInt8) : List UInt8 × List UInt8 :=
  (bytes "Request-Timeout", timeout)

/-- The calls of the API that a request is made for, with the strings they are given. -/
inductive Call
  | write (cik aliasName value : List UInt8)
  | read (cik aliasName : List UInt8)
  | subscribe (cik aliasName timeout : List UInt8)
  | activate (vendor model sn : List UInt8)
  deriving DecidableEq

def called (args : ExoRequestArgs) : Option Call :=
  let cik := cString args.cik.toList
  match args.method, args.aliasName, args.value, args.timeout, args.vendor, args.model, args.sn with
  | .write, some a, some v, _, _, _, _ => some (.write cik a v)
  | .read, some a, _, _, _, _, _ => some (.read cik a)
  | .subscribe, some a, _, some t, _, _, _ => some (.subscribe cik a t)
  | .activate, _, _, _, some v, some m, some s => some (.activate v m s)
  | _, _, _, _, _, _, _ => none

/-- What a server is to read: the method, the CIK and the pairs, and nothing else. -/
def Call.form : Call → Form
  | .write cik a v => ⟨bytes "POST", dataProceduresUrl, [hostHeader, cikHeader cik, typeHeader],
      [(a, v)]⟩
  | .read cik a => ⟨bytes "GET", dataProceduresUrl, [hostHeader, cikHeader cik, acceptHeader],
      [(a, [])]⟩
  | .subscribe cik a t => ⟨bytes "GET", dataProceduresUrl,
      [hostHeader, cikHeader cik, acceptHeader, timeoutHeader t], [(a, [])]⟩
  | .activate v m s => ⟨bytes "POST", activateProcedureUrl, [hostHeader, typeHeader],
      [(bytes "vendor", v), (bytes "model", m), (bytes "sn", s)]⟩

/-- A value that a form carries without encoding. -/
def FormValue (v : List UInt8) : Prop := 38 ∉ v ∧ Plain v

def activateContent (v m s : List UInt8) : List UInt8 :=
  bytes "vendor=" ++ (v ++ (bytes "&model=" ++ (m ++ (bytes "&sn=" ++ s))))

/-- The strings need no encoding in the places where they are written. -/
def Call.Clean : Call → Prop
  | .write cik a v => Bare cik ∧ (61 ∉ a ∧ FormValue a) ∧ FormValue v ∧
      (a ++ 61 :: v).length < 10 ^ 15
  | .read cik a => Bare cik ∧ QueryName a
  | .subscribe cik a t => Bare cik ∧ QueryName a ∧ Bare t
  | .activate v m s => FormValue v ∧ FormValue m ∧ FormValue s ∧
      (activateContent v m s).length < 10 ^ 15

theorem bare_of_all {v : List UInt8} (h : v.all isFieldByte = true)
    (hfirst : v.head?.all (fun c => !isOws c) = true)
    (hlast : v.getLast?.all (fun c => !isOws c) = true) : Bare v := by
  refine ⟨List.all_eq_true.mp h, fun c hc => ?_, fun c hc => ?_⟩
  · rw [hc] at hfirst
    simpa using hfirst
  · rw [hc] at hlast
    simpa using hlast

theorem bare_host : Bare hostHeader.2 :=
  bare_of_all (by decide) (by decide) (by decide)

theorem bare_accept : Bare acceptHeader.2 :=
  bare_of_all (by decide) (by decide) (by decide)

theorem bare_type : Bare typeHeader.2 :=
  bare_of_all (by decide) (by decide) (by decide)

theorem listed_cikHeader (cik : List UInt8) :
    GoodName (cikHeader cik).1 ∧ isLength (cikHeader cik) = false := by
  have h : GoodName (bytes "X-Exosite-CIK") ∧
      decide ((bytes "X-Exosite-CIK").map lower = bytes "content-length") = false := by decide
  exact h

theorem listed_timeoutHeader (timeout : List UInt8) :
    GoodName (timeoutHeader timeout).1 ∧ isLength (timeoutHeader timeout) = false := by
  have h : GoodName (bytes "Request-Timeout") ∧
      decide ((bytes "Request-Timeout").map lower = bytes "content-length") = false := by
    decide
  exact h

theorem Listed.nil : Listed [] := List.forall_mem_nil _

theorem Listed.cons {x : List UInt8 × List UInt8} {headers : List (List UInt8 × List UInt8)}
    (hx : GoodName x.1 ∧ isLength x = false) (h : Listed headers) : Listed (x :: headers) := by
  intro y hy
  rcases List.mem_cons.mp hy with rfl | hy
  · exact hx
  · exact h y hy

theorem listed_host : GoodName hostHeader.1 ∧ isLength hostHeader = false := by decide

theorem listed_accept : GoodName acceptHeader.1 ∧ isLength acceptHeader = false := by decide

theorem listed_type : GoodName typeHeader.1 ∧ isLength typeHeader = false := by decide

theorem crlfStr_eq : crlfStr = crlf := by decide

theorem headerCommon_eq : headerCommon = bytes " HTTP/1.1" ++ (crlf ++ headerText [hostHeader]) := by
  decide

theorem acceptText_eq : acceptText = headerText [acceptHeader] := by
  decide

theorem headerText_cons (x y : List UInt8 × List UInt8) (headers : List (List UInt8 × List UInt8)) :
    headerText (x :: y :: headers) = headerText [x] ++ headerText (y :: headers) := by
  simp [headerText]

section

variable (s : List UInt8)

theorem cikText_eq (cik : List UInt8) :
    bytes "X-Exosite-CIK: " ++ (cik ++ (crlfStr ++ s)) = headerText [cikHeader cik] ++ s := by
  have hname : bytes "X-Exosite-CIK: " = bytes "X-Exosite-CIK" ++ [58, 32] := by decide
  simp [headerText, headerLine, cikHeader, hname, crlfStr_eq]

theorem timeoutText_eq (timeout : List UInt8) :
    bytes "Request-Timeout: " ++ (timeout ++ (crlfStr ++ s)) =
      headerText [timeoutHeader timeout] ++ s := by
  have hname : bytes "Request-Timeout: " = bytes "Request-Timeout" ++ [58, 32] := by decide
  simp [headerText, headerLine, timeoutHeader, hname, crlfStr_eq]

theorem contentText_eq (content : List UInt8) : contentText content =
    headerText [typeHeader] ++ (headerText [lengthHeader content.length] ++ (crlf ++ content)) := by
  have htype : bytes "Content-Type: application/x-www-form-urlencoded; charset=utf-8\r\n" =
      headerText [typeHeader] := by
    decide
  have hname : bytes "Content-Length: " = bytes "Content-Length" ++ [58, 32] := by decide
  rw [contentText, htype, crlfStr_eq]
  simp [headerText, headerLine, lengthHeader, hname]

theorem post_eq (url : List UInt8) : bytes "POST " ++ (url ++ (headerCommon ++ s)) =
    requestLine (bytes "POST") url ++ (crlf ++ (headerText [hostHeader] ++ s)) := by
  have h : bytes "POST " = bytes "POST" ++ [32] := by decide
  simp [requestLine, h, headerCommon_eq]

theorem get_eq (url query : List UInt8) :
    bytes "GET " ++ (url ++ (bytes "?" ++ (query ++ (headerCommon ++ s)))) =
      requestLine (bytes "GET") (url ++ 63 :: query) ++ (crlf ++ (headerText [hostHeader] ++ s)) := by
  have h : bytes "GET " = bytes "GET" ++ [32] := by decide
  have hmark : bytes "?" = [63] := by decide
  simp [requestLine, h, hmark, headerCommon_eq]

end

theorem parseRequestLine_data : parseRequestLine (requestLine (bytes "POST") dataProceduresUrl) =
    some (bytes "POST", dataProceduresUrl, none) := by
  decide

theorem parseRequestLine_activate :
    parseRequestLine (requestLine (bytes "POST") activateProcedureUrl) =
      some (bytes "POST", activateProcedureUrl, none) := by
  decide

theorem post_line {url : List UInt8} (h : 13 ∉ url) : 13 ∉ requestLine (bytes "POST") url := by
  have hmethod : 13 ∉ bytes "POST" := by decide
  have hversion : 13 ∉ bytes " HTTP/1.1" := by decide
  simp [requestLine, h, hmethod, hversion]

theorem forall_bare {x : List UInt8 × List UInt8} {headers : List (List UInt8 × List UInt8)} :
    (∀ y ∈ x :: headers, Bare y.2) ↔ Bare x.2 ∧ ∀ y ∈ headers, Bare y.2 := by
  simp

theorem parseForm_write_iff (cik a v : List UInt8) :
    parseForm (bytes "POST " ++ (dataProceduresUrl ++ (headerCommon ++ (bytes "X-Exosite-CIK: " ++
      (cik ++ (crlfStr ++ contentText (a ++ 61 :: v))))))) = some (Call.write cik a v).form ↔
    (Call.write cik a v).Clean := by
  have hl := Listed.cons listed_host (.cons (listed_cikHeader cik) (.cons listed_type .nil))
  have hiff := parseForm_post_iff (a ++ 61 :: v) [(a, v)]
    (post_line (by decide)) parseRequestLine_data hl
  simp only [List.cons_append, List.nil_append, headerText_cons, List.append_assoc] at hiff
  rw [post_eq, cikText_eq, contentText_eq, Call.form, hiff, formPairs_pair_iff]
  simp only [forall_bare, bare_host, bare_type, Call.Clean, FormValue, cikHeader]
  constructor
  · rintro ⟨⟨-, hcik, -⟩, hlen, ha, hv⟩
    exact ⟨hcik, ha, hv, hlen⟩
  · rintro ⟨hcik, ha, hv, hlen⟩
    exact ⟨⟨trivial, hcik, trivial, nofun⟩, hlen, ha, hv⟩

theorem get_method : bytes "GET" ≠ [] ∧ (bytes "GET").all isTchar = true ∧ 32 ∉ bytes "GET" ∧
    13 ∉ bytes "GET" := by
  decide

theorem data_path : dataProceduresUrl.head? = some 47 ∧ wellEncoded dataProceduresUrl = true ∧
    63 ∉ dataProceduresUrl ∧ 32 ∉ dataProceduresUrl ∧ 13 ∉ dataProceduresUrl := by
  decide

theorem parseForm_read_iff (cik a : List UInt8) :
    parseForm (bytes "GET " ++ (dataProceduresUrl ++ (bytes "?" ++ (a ++ (headerCommon ++
      (bytes "X-Exosite-CIK: " ++ (cik ++ (crlfStr ++ (acceptText ++ crlfStr))))))))) =
      some (Call.read cik a).form ↔ (Call.read cik a).Clean := by
  have hl := Listed.cons listed_host (.cons (listed_cikHeader cik) (.cons listed_accept .nil))
  have hiff := parseForm_get_iff a get_method data_path hl (by simp)
  simp only [headerText_cons, List.append_assoc, List.append_nil] at hiff
  rw [get_eq, cikText_eq, acceptText_eq, crlfStr_eq, Call.form, hiff]
  simp only [forall_bare, bare_host, bare_accept, Call.Clean, cikHeader]
  constructor
  · rintro ⟨⟨-, hcik, -⟩, ha⟩
    exact ⟨hcik, ha⟩
  · rintro ⟨hcik, ha⟩
    exact ⟨⟨trivial, hcik, trivial, nofun⟩, ha⟩

theorem parseForm_subscribe_iff (cik a t : List UInt8) :
    parseForm (bytes "GET " ++ (dataProceduresUrl ++ (bytes "?" ++ (a ++ (headerCommon ++
      (bytes "X-Exosite-CIK: " ++ (cik ++ (crlfStr ++ (acceptText ++
        (bytes "Request-Timeout: " ++ (t ++ (crlfStr ++ crlfStr)))))))))))) =
      some (Call.subscribe cik a t).form ↔ (Call.subscribe cik a t).Clean := by
  have hl := Listed.cons listed_host (.cons (listed_cikHeader cik) (.cons listed_accept
    (.cons (listed_timeoutHeader t) .nil)))
  have hiff := parseForm_get_iff a get_method data_path hl (by simp)
  simp only [headerText_cons, List.append_assoc, List.append_nil] at hiff
  rw [get_eq, cikText_eq, timeoutText_eq, acceptText_eq, crlfStr_eq, Call.form, hiff]
  simp only [forall_bare, bare_host, bare_accept, Call.Clean, cikHeader, timeoutHeader]
  constructor
  · rintro ⟨⟨-, hcik, -, ht, -⟩, ha⟩
    exact ⟨hcik, ha, ht⟩
  · rintro ⟨hcik, ha, ht⟩
    exact ⟨⟨trivial, hcik, trivial, ht, nofun⟩, ha⟩

theorem formPairs_activate_iff (v m s : List UInt8) : formPairs (activateContent v m s) =
      [(bytes "vendor", v), (bytes "model", m), (bytes "sn", s)] ↔
    FormValue v ∧ FormValue m ∧ FormValue s := by
  have hvendor : bytes "vendor=" = bytes "vendor" ++ [61] := by decide
  have hmodel : bytes "&model=" = 38 :: (bytes "model" ++ [61]) := by decide
  have hsn : bytes "&sn=" = 38 :: (bytes "sn" ++ [61]) := by decide
  have htext : activateContent v m s = (bytes "vendor" ++ 61 :: v) ++
      38 :: ((bytes "model" ++ 61 :: m) ++ 38 :: (bytes "sn" ++ 61 :: s)) := by
    simp [activateContent, hvendor, hmodel, hsn]
  have hnames : (61 ∉ bytes "vendor" ∧ 38 ∉ bytes "vendor") ∧ (61 ∉ bytes "model" ∧
      38 ∉ bytes "model") ∧ 61 ∉ bytes "sn" ∧ 38 ∉ bytes "sn" := by
    decide
  have hplain : Plain (bytes "vendor") ∧ Plain (bytes "model") ∧ Plain (bytes "sn") := by
    simp only [← percentDecode_eq_self_iff]
    decide
  rw [htext, formPairs_three_iff (by simp) (by simp) (by simp), formPairs_pair_iff,
    formPairs_pair_iff, formPairs_pair_iff]
  simp only [FormValue, hnames, hplain, not_false_eq_true, true_and]

theorem parseForm_activate_iff (v m s : List UInt8) :
    parseForm (bytes "POST " ++ (activateProcedureUrl ++ (headerCommon ++
      contentText (activateContent v m s)))) = some (Call.activate v m s).form ↔
    (Call.activate v m s).Clean := by
  have hl := Listed.cons listed_host (.cons listed_type .nil)
  have hiff := parseForm_post_iff (activateContent v m s)
    [(bytes "vendor", v), (bytes "model", m), (bytes "sn", s)]
    (post_line (by decide)) parseRequestLine_activate hl
  simp only [List.cons_append, List.nil_append, headerText_cons, List.append_assoc] at hiff
  rw [post_eq, contentText_eq, Call.form, hiff, formPairs_activate_iff]
  simp only [forall_bare, bare_host, bare_type, Call.Clean]
  constructor
  · rintro ⟨-, hlen, hv, hm, hs⟩
    exact ⟨hv, hm, hs, hlen⟩
  · rintro ⟨hv, hm, hs, hlen⟩
    exact ⟨⟨trivial, trivial, nofun⟩, hlen, hv, hm, hs⟩

/-- A request that is built decodes to what its call was given exactly when the strings of the
call need no encoding where they are written. -/
theorem decodes_iff {args : ExoRequestArgs} {call : Call} {supply supply' : Supply}
    {request : StringClass} (hcall : called args = some call)
    (hok : httpRequestNew args supply = .ok (request, supply')) :
    parseForm request.buffer = some call.form ↔ call.Clean := by
  have hnew : Returns (httpRequestNew args)
      (fun r => parseForm r.buffer = some call.form ↔ call.Clean) := by
    refine .bind returns_newRequest (fun req hnew => ?_)
    obtain ⟨hreq, hroom⟩ := hnew
    unfold httpCreateRequest
    unfold called at hcall
    split at hcall
    · rename_i a v hmethod ha hv
      obtain rfl := Option.some.inj hcall
      rw [hmethod, ha, hv]
      refine (returns_httpCreateWriteRequest _ _ _).mono (fun r hr => ?_)
      obtain ⟨_, _, ha, hv, hr⟩ := hr
      obtain rfl := Option.some.inj ha
      obtain rfl := Option.some.inj hv
      rw [hr, hreq, List.nil_append]
      exact parseForm_write_iff _ a v
    · rename_i a hmethod ha
      obtain rfl := Option.some.inj hcall
      rw [hmethod, ha]
      refine (returns_httpCreateReadRequest hroom _ _).mono (fun r hr => ?_)
      obtain ⟨_, ha, hr⟩ := hr
      obtain rfl := Option.some.inj ha
      rw [hr, hreq, List.nil_append]
      exact parseForm_read_iff _ a
    · rename_i a t hmethod ha ht
      obtain rfl := Option.some.inj hcall
      rw [hmethod, ha, ht]
      refine (returns_httpCreateLongPollingRequest hroom _ _ _).mono (fun r hr => ?_)
      obtain ⟨_, _, ha, ht, hr⟩ := hr
      obtain rfl := Option.some.inj ha
      obtain rfl := Option.some.inj ht
      rw [hr, hreq, List.nil_append]
      exact parseForm_subscribe_iff _ a t
    · rename_i v m s hmethod hv hm hs
      obtain rfl := Option.some.inj hcall
      rw [hmethod, hv, hm, hs]
      refine (returns_httpCreateProvisioningRequest _ _ _).mono (fun r hr => ?_)
      obtain ⟨_, _, _, hv, hm, hs, hr⟩ := hr
      obtain rfl := Option.some.inj hv
      obtain rfl := Option.some.inj hm
      obtain rfl := Option.some.inj hs
      rw [hr, hreq, List.nil_append]
      exact parseForm_activate_iff v m s
    · cases hcall
  exact hnew supply request supply' hok

def ledArgs (value : List UInt8) : ExoRequestArgs :=
  { ExoRequestArgs.zero .write with
    cik := fill (List.replicate 40 97)
    aliasName := some (bytes "led")
    value := some value }

theorem exists_request (args : ExoRequestArgs) (supply : Supply)
    (h : (httpRequestNew args supply).toBool = true) :
    ∃ request supply', httpRequestNew args supply = .ok (request, supply') := by
  cases hok : httpRequestNew args supply with
  | error e =>
      rw [hok] at h
      cases h
  | ok p => exact ⟨p.1, p.2, rfl⟩

theorem decodes_iff_led : ∃ call request supply', called (ledArgs (bytes "1")) = some call ∧
    httpRequestNew (ledArgs (bytes "1")) (fun _ => true) = .ok (request, supply') ∧
    (parseForm request.buffer = some call.form ↔ call.Clean) := by
  obtain ⟨request, supply', hok⟩ := exists_request (ledArgs (bytes "1")) (fun _ => true)
    (by decide +kernel)
  exact ⟨_, request, supply', rfl, hok, decodes_iff rfl hok⟩

/-- The value `1&b=2` is read back as two values, for two aliases. -/
theorem reserved_value_splits : ¬ ∀ args call request supply supply', called args = some call →
    httpRequestNew args supply = .ok (request, supply') →
    parseForm request.buffer = some call.form := by
  intro h
  obtain ⟨request, supply', hok⟩ := exists_request (ledArgs (bytes "1&b=2")) (fun _ => true)
    (by decide +kernel)
  have hparsed : ((httpRequestNew (ledArgs (bytes "1&b=2")) (fun _ => true)).toOption.bind
      (fun p => (parseForm p.1.buffer).map Form.pairs)) =
      some [(bytes "led", bytes "1"), (bytes "b", bytes "2")] := by
    decide +kernel
  have hread := h _ _ request _ supply' rfl hok
  rw [hok] at hparsed
  simp only [Except.toOption, Option.bind_some, hread, Option.map_some] at hparsed
  exact absurd (Option.some.inj hparsed) (by decide)

end ErSdk.RequestRoundTrip
