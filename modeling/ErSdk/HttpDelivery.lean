import ErSdk.HttpClient

namespace ErSdk.HttpDelivery

open Pmatch Patterns HttpParser HttpClient Error

def joinLines : List (List UInt8) → List UInt8
  | [] => []
  | [l] => l
  | l :: m :: ls => l ++ (crlf ++ joinLines (m :: ls))

theorem joinLines_cons (l : List UInt8) (ls : List (List UInt8)) :
    ∃ t, joinLines (l :: ls) = l ++ t := by
  cases ls with
  | nil => exact ⟨[], (List.append_nil l).symm⟩
  | cons m ls => exact ⟨_, rfl⟩

structure Field where
  name : List UInt8
  value : List UInt8

def Field.line (f : Field) : List UInt8 := f.name ++ 58 :: f.value

def decimal (digits : List UInt8) : Nat := numberOf 10 digits

/-- A header field that says how long the body is, in any case and with any number of
spaces before the number. -/
def Field.GivesLength (f : Field) (n : Nat) : Prop :=
  f.name.map toLower = bytes "content-length" ∧
    ∃ digits, f.value.dropWhile (· = 32) = digits ∧ digits ≠ [] ∧ digits.all isDigit = true ∧
      decimal digits = n

/-- An HTTP response whose body has the length that its head says. -/
structure HttpResponse where
  version : List UInt8
  code : List UInt8
  reason : List UInt8
  fields : List Field
  body : List UInt8
  code_digits : code ≠ [] ∧ code.all isDigit = true
  version_line : 13 ∉ version
  reason_line : 13 ∉ reason
  fields_line : ∀ f ∈ fields, 13 ∉ f.name ∧ 13 ∉ f.value
  length_field : ∃ f ∈ fields, f.GivesLength body.length

namespace HttpResponse

variable (r : HttpResponse)

def statusLine : List UInt8 := r.version ++ 32 :: (r.code ++ 32 :: r.reason)

def head : List UInt8 := joinLines (r.statusLine :: r.fields.map Field.line)

def stream : List UInt8 := r.head ++ (blankLine ++ r.body)

end HttpResponse

theorem getElem?_of_blank {s : List UInt8} {i : Nat} (h : blankLine <+: s.drop i) :
    s[i]? = some 13 ∧ s[i + 1]? = some 10 ∧ s[i + 2]? = some 13 := by
  obtain ⟨t, ht⟩ := h
  have hget (j : Nat) : s[i + j]? = (blankLine ++ t)[j]? := by
    rw [ht, List.getElem?_drop]
  exact ⟨hget 0, hget 1, hget 2⟩

theorem blank_after_lines {lines : List (List UInt8)} (h : ∀ l ∈ lines, l ≠ [] ∧ 13 ∉ l)
    {rest : List UInt8} {i : Nat} (hb : blankLine <+: (joinLines lines ++ rest).drop i) :
    (joinLines lines).length ≤ i := by
  have hinside {l t : List UInt8} {i : Nat} (hl : 13 ∉ l) (hi : (l ++ t)[i]? = some 13) :
      l.length ≤ i := by
    by_contra hlt
    rw [List.getElem?_append_left (Nat.not_le.mp hlt)] at hi
    exact hl (List.mem_of_getElem? hi)
  induction lines generalizing i with
  | nil => exact Nat.zero_le _
  | cons l lines ih =>
      obtain ⟨-, hl⟩ := h l List.mem_cons_self
      cases lines with
      | nil => exact hinside hl (getElem?_of_blank hb).1
      | cons m ls =>
          obtain ⟨hm, hm13⟩ := h m (List.mem_cons_of_mem _ List.mem_cons_self)
          simp only [joinLines, List.append_assoc] at hb ⊢
          obtain ⟨h0, -, h2⟩ := getElem?_of_blank hb
          have hge := hinside hl h0
          obtain ⟨j, rfl⟩ := Nat.exists_eq_add_of_le hge
          rw [List.getElem?_append_right (by omega)] at h0 h2
          have h0' : (crlf ++ (joinLines (m :: ls) ++ rest))[j]? = some 13 := by
            simpa using h0
          have h2' : (crlf ++ (joinLines (m :: ls) ++ rest))[j + 2]? = some 13 := by
            rwa [show l.length + j + 2 - l.length = j + 2 by omega] at h2
          have hfirst : (joinLines (m :: ls) ++ rest)[0]? ≠ some 13 := by
            obtain ⟨t, ht⟩ := joinLines_cons m ls
            obtain ⟨c, m', rfl⟩ := List.exists_cons_of_ne_nil hm
            rw [ht]
            rintro he
            obtain rfl : c = 13 := Option.some.inj he
            exact hm13 List.mem_cons_self
          match j with
          | 0 => exact absurd h2' hfirst
          | 1 => exact absurd h0' (show some (10 : UInt8) ≠ some 13 by decide)
          | j + 2 =>
              have hdrop : (l ++ (crlf ++ (joinLines (m :: ls) ++ rest))).drop (l.length + (j + 2)) =
                  (joinLines (m :: ls) ++ rest).drop j := by
                rw [← List.drop_drop, List.drop_left]
                rfl
              rw [hdrop] at hb
              have hlen := ih (fun x hx => h x (List.mem_cons_of_mem _ hx)) hb
              simp only [List.length_append, show crlf.length = 2 from rfl]
              omega

namespace HttpResponse

variable (r : HttpResponse)

theorem lines_plain : ∀ l ∈ r.statusLine :: r.fields.map Field.line, l ≠ [] ∧ 13 ∉ l := by
  have hdigits : 13 ∉ r.code := by
    intro h
    exact absurd (List.all_eq_true.mp r.code_digits.2 13 h) (by decide)
  intro l hl
  obtain rfl | hl := List.mem_cons.mp hl
  · exact ⟨by simp [statusLine], by simp [statusLine, r.version_line, r.reason_line, hdigits]⟩
  · obtain ⟨f, hf, rfl⟩ := List.mem_map.mp hl
    obtain ⟨hn, hv⟩ := r.fields_line f hf
    exact ⟨by simp [Field.line], by simp [Field.line, hn, hv]⟩

theorem head_le_of_blank {i : Nat} (h : blankLine <+: r.stream.drop i) : r.head.length ≤ i :=
  blank_after_lines r.lines_plain h

theorem length_stream : r.stream.length = r.head.length + 4 + r.body.length := by
  simp only [stream, List.length_append, show blankLine.length = 4 from rfl]
  omega

theorem rest_of_piece {pre piece post : List UInt8} (hs : r.stream = pre ++ (piece ++ post))
    {i : Nat} (hb : lastOf blankLine piece = some i) : piece.length - (i + 4) ≤ r.body.length := by
  obtain ⟨⟨t, ht⟩, hlen⟩ := lastOf_blank hb
  have hblank : blankLine <+: r.stream.drop (pre.length + i) := by
    rw [hs, ← List.drop_drop, List.drop_left, List.drop_append_of_le_length (by omega), ← ht,
      List.append_assoc]
    exact List.prefix_append _ _
  have hhead := r.head_le_of_blank hblank
  have htotal := congrArg List.length hs
  rw [r.length_stream, List.length_append, List.length_append] at htotal
  omega

end HttpResponse

/-- Exactly one of the calls returns success, with the status code, the size and the
bytes of the body, and none returns failure. -/
structure Delivered (r : HttpResponse) (calls : List Recv) : Prop where
  noFailure : ∀ c ∈ calls, c.error ≠ errFailure
  once : ∃ before c after, calls = before ++ c :: after ∧
    (∀ d ∈ before ++ after, d.error ≠ errSuccess) ∧ c.error = errSuccess ∧
    c.responseCode = some (decimal r.code : Int) ∧ c.payloadSize = some r.body.length ∧
    c.payload.take r.body.length = r.body

/-- The response arrives whole, and the first and last matches of the patterns are the
ones in its head. -/
structure ReadWhole (r : HttpResponse) (pieces : List (Allocations × List UInt8)) : Prop where
  whole : ∃ alloc, pieces = [(alloc, r.stream)] ∧ alloc.resultStr = true ∧
    alloc.contentLengthStr = true
  blank : lastOf blankLine r.stream = some r.head.length
  code : ∃ v, numberBehind (bytes "HTTP/1.1 ") r.stream = some v ∧ toInt32 v = decimal r.code
  length : ∃ v, numberBehind (bytes "Content-Length: ") r.stream = some v ∧
    (sizeT v = 0 → r.body.headD 0 = 0)

/-- On pieces of one response http_recv returns success or failure. -/
theorem recvAll_results (r : HttpResponse) {maxSize : Nat} (hmax : r.body.length ≤ maxSize)
    (pieces : List (Allocations × List UInt8)) (pre post payload : List UInt8)
    (hs : r.stream = pre ++ ((pieces.map Prod.snd).flatten ++ post))
    (hpiece : ∀ p ∈ pieces, p.2.length ≤ recvBufferSize) :
    ∃ calls, recvAll maxSize pieces payload = .ok calls ∧ calls.length = pieces.length ∧
      ∀ c ∈ calls, c.error = errSuccess ∨ c.error = errFailure := by
  induction pieces generalizing pre payload with
  | nil => exact ⟨[], rfl, rfl, nofun⟩
  | cons p pieces ih =>
      obtain ⟨alloc, chunk⟩ := p
      have hchunk : chunk.length ≤ recvBufferSize := hpiece _ List.mem_cons_self
      have hsize : chunk.length < 2 ^ 64 := Nat.lt_of_le_of_lt hchunk (by decide)
      obtain ⟨c, hc, hcases⟩ := httpRecv_cases hsize alloc payload maxSize
      rw [List.map_cons, List.flatten_cons, List.append_assoc] at hs
      have herror : c.error = errSuccess ∨ c.error = errFailure := by
        obtain ⟨he, -⟩ | ⟨i, code, n, hp, ⟨ho, -⟩ | ⟨-, rfl⟩⟩ := hcases
        · exact .inr he
        · have hrest : chunk.length - (i + 4) ≤ r.body.length := r.rest_of_piece hs hp.blank
          omega
        · exact .inl rfl
      obtain ⟨calls, hcalls, hlen, hall⟩ := ih (pre ++ chunk) c.payload
        (by rw [hs, List.append_assoc]) (fun q hq => hpiece q (List.mem_cons_of_mem _ hq))
      refine ⟨c :: calls, ?_, by rw [List.length_cons, hlen, List.length_cons], ?_⟩
      · rw [recvAll, hc, ok_bind, hcalls]
        rfl
      · exact List.forall_mem_cons.mpr ⟨herror, hall⟩

theorem Delivered.single {r : HttpResponse} {calls : List Recv} (h : Delivered r calls)
    (hall : ∀ c ∈ calls, c.error = errSuccess ∨ c.error = errFailure) : ∃ c, calls = [c] := by
  obtain ⟨before, c, after, rfl, hothers, -⟩ := h.once
  have hnone : before ++ after = [] := by
    rw [List.eq_nil_iff_forall_not_mem]
    intro d hd
    have hmem : d ∈ before ++ c :: after := by
      obtain hd | hd := List.mem_append.mp hd
      · exact List.mem_append_left _ hd
      · exact List.mem_append_right _ (List.mem_cons_of_mem _ hd)
    exact (hall d hmem).elim (hothers d hd) (h.noFailure d hmem)
  obtain ⟨rfl, rfl⟩ := List.append_eq_nil_iff.mp hnone
  exact ⟨c, rfl⟩

theorem delivered_single {r : HttpResponse} {c : Recv} :
    Delivered r [c] ↔ c.error = errSuccess ∧ c.responseCode = some (decimal r.code : Int) ∧
      c.payloadSize = some r.body.length ∧ c.payload.take r.body.length = r.body := by
  constructor
  · rintro ⟨-, before, d, after, he, -, h⟩
    have hd : d = c := by
      have hmem : d ∈ [c] := by
        rw [he]
        exact List.mem_append_right _ List.mem_cons_self
      exact List.mem_singleton.mp hmem
    exact hd ▸ h
  · rintro ⟨herror, h⟩
    refine ⟨fun d hd => ?_, [], c, [], rfl, nofun, herror, h⟩
    rw [List.mem_singleton.mp hd, herror]
    decide

theorem overwrite_take {buffer chunk : List UInt8} {n : Nat} (h : chunk.length = n) :
    (overwrite buffer chunk).take n = chunk := by
  rw [overwrite, List.take_left' h]

/-- The bytes of the body, once copied, are the payload, unless the first of them is
overwritten because the length read from the head is zero. -/
theorem received_take {r : HttpResponse} {chunk payload : List UInt8} {maxSize i : Nat} {n : Int}
    (hmax : r.body.length ≤ maxSize) (hdrop : chunk.drop (i + 4) = r.body) :
    (received chunk payload maxSize i n).take r.body.length = r.body ↔
      (sizeT n = 0 → r.body.headD 0 = 0) := by
  unfold received
  rw [hdrop]
  by_cases hn : sizeT n = 0
  · cases hbody : r.body with
    | nil => simp
    | cons b body =>
        rw [hbody, List.length_cons] at hmax
        rw [if_pos ⟨hn, by omega⟩]
        simp [overwrite, hn, eq_comm]
  · rw [if_neg (fun h => hn h.1)]
    exact iff_of_true (overwrite_take rfl) (fun h => absurd h hn)

/-- http_recv delivers a response exactly when it comes in one piece and the patterns
find in it what its head says. -/
theorem response_delivered_iff (r : HttpResponse) {maxSize : Nat} (hmax : r.body.length ≤ maxSize)
    (pieces : List (Allocations × List UInt8)) (payload : List UInt8)
    (hsplit : (pieces.map Prod.snd).flatten = r.stream)
    (hpiece : ∀ p ∈ pieces, p.2.length ≤ recvBufferSize) :
    ∃ calls, recvAll maxSize pieces payload = .ok calls ∧
      (Delivered r calls ↔ ReadWhole r pieces) := by
  obtain ⟨calls, hcalls, hlen, hall⟩ := recvAll_results r hmax pieces [] [] payload
    (by rw [hsplit, List.append_nil, List.nil_append]) hpiece
  refine ⟨calls, hcalls, ?_⟩
  by_cases hone : ∃ alloc, pieces = [(alloc, r.stream)]
  · obtain ⟨alloc, rfl⟩ := hone
    have hsize : r.stream.length < 2 ^ 64 :=
      Nat.lt_of_le_of_lt (hpiece _ List.mem_cons_self) (by decide)
    obtain ⟨c, hc, hcases⟩ := httpRecv_cases hsize alloc payload maxSize
    obtain rfl : calls = [c] := by
      rw [recvAll, hc, ok_bind] at hcalls
      exact (Except.ok.inj hcalls).symm
    rw [delivered_single]
    obtain ⟨he, -, hnot⟩ | ⟨i, code, n, hp, ⟨-, he⟩ | ⟨-, rfl⟩⟩ := hcases
    · refine iff_of_false (fun h => absurd (he.symm.trans h.1) (by decide)) (fun h => ?_)
      obtain ⟨a, ha, hr, hl⟩ := h.whole
      obtain rfl : alloc = a := congrArg (fun l => (l.headD (alloc, [])).1) ha
      obtain ⟨v, hv, -⟩ := h.code
      obtain ⟨w, hw, -⟩ := h.length
      exact hnot _ v w ⟨hr, hl, h.blank, hv, hw⟩
    · obtain hs | hf := hall c List.mem_cons_self
      · exact absurd (he.symm.trans hs) (by decide)
      · exact absurd (he.symm.trans hf) (by decide)
    · have hblank := lastOf_blank hp.blank
      have htotal := r.length_stream
      have hdrop (hi : i = r.head.length) : r.stream.drop (i + 4) = r.body := by
        subst hi
        rw [← List.drop_drop, HttpResponse.stream, List.drop_left]
        rfl
      constructor
      · rintro ⟨-, hcode, hpayload, htake⟩
        have hi : i = r.head.length := by
          have hn : r.stream.length - (i + 4) = r.body.length := Option.some.inj hpayload
          have hhead := r.head_le_of_blank hblank.1
          omega
        exact ⟨⟨alloc, rfl, hp.resultStr, hp.contentLengthStr⟩, hi ▸ hp.blank,
          ⟨code, hp.code, Option.some.inj hcode⟩,
          ⟨n, hp.length, (received_take hmax (hdrop hi)).mp htake⟩⟩
      · intro h
        obtain rfl : i = r.head.length := Option.some.inj (hp.blank.symm.trans h.blank)
        obtain ⟨v, hv, hcode⟩ := h.code
        obtain ⟨w, hw, hzero⟩ := h.length
        obtain rfl : code = v := Option.some.inj (hp.code.symm.trans hv)
        obtain rfl : n = w := Option.some.inj (hp.length.symm.trans hw)
        refine ⟨rfl, congrArg some hcode, congrArg some ?_, (received_take hmax (hdrop rfl)).mpr hzero⟩
        omega
  · refine iff_of_false (fun h => hone ?_) (fun h => ?_)
    · obtain ⟨c, rfl⟩ := h.single hall
      obtain ⟨⟨alloc, chunk⟩, rfl⟩ := List.length_eq_one_iff.mp hlen.symm
      exact ⟨alloc, by simpa using hsplit⟩
    · obtain ⟨alloc, ha, -⟩ := h.whole
      exact hone ⟨alloc, ha⟩

def readResponse : HttpResponse where
  version := bytes "HTTP/1.1"
  code := bytes "200"
  reason := bytes "OK"
  fields := [⟨bytes "Content-Length", bytes " 3"⟩]
  body := bytes "a=1"
  code_digits := by decide
  version_line := by decide
  reason_line := by decide
  fields_line := by decide
  length_field := ⟨_, List.mem_cons_self, by decide, _, rfl, by decide, by decide, by decide⟩

theorem response_delivered_whole :
    ∃ calls, recvAll 512 [(⟨true, true⟩, readResponse.stream)] [] = .ok calls ∧
      Delivered readResponse calls := by
  obtain ⟨calls, hcalls, hiff⟩ := response_delivered_iff readResponse
    (show readResponse.body.length ≤ 512 by decide)
    [(⟨true, true⟩, readResponse.stream)] [] (by decide) (by decide)
  refine ⟨calls, hcalls, hiff.mpr ⟨⟨⟨true, true⟩, rfl, rfl, rfl⟩, by decide, ⟨200, ?_, ?_⟩, ⟨3, ?_, ?_⟩⟩⟩ <;>
    decide

/-- The same answer, cut inside its status code: the first call returns failure. -/
theorem response_cut_fails :
    ∃ calls, recvAll 512 [(⟨true, true⟩, readResponse.stream.take 10),
        (⟨true, true⟩, readResponse.stream.drop 10)] [] = .ok calls ∧
      ¬ Delivered readResponse calls := by
  refine ⟨[⟨errFailure, none, some 1, [], none⟩, ⟨errFailure, none, some 1, [], none⟩], by decide, ?_⟩
  intro h
  exact h.noFailure _ List.mem_cons_self rfl

end ErSdk.HttpDelivery
