import ErSdk.HttpPairing
import ErSdk.ValueDelivery

namespace ErSdk.PayloadReuse

open Pmatch ProtocolClientSm Patterns HttpParser HttpClient HttpPairing RequestArgs ExositeHttpApi
  ValueDelivery Error

/-- The response record when st_recv_response has stored what was received. -/
def store (response : ProtocolClientResponse) (r : Received) : ProtocolClientResponse :=
  { response with
    id := r.id
    payload := r.payload
    responseCode := if r.error = errSuccess then r.responseCode else r.error
    payloadSize := if r.error = errSuccess then r.payloadSize else 0 }

theorem stRecvResponse_store {R W ι : Type} (env : Env R W) (s : St R ι W)
    (h : (env.recvResponse s.sm.response s.world).1.error ≠ errWouldBlock) :
    ∃ status, (stRecvResponse env s).2.sm.response =
      { store s.sm.response (env.recvResponse s.sm.response s.world).1 with status } := by
  have hcall : (s.call (env.recvResponse s.sm.response)).1 =
    (env.recvResponse s.sm.response s.world).1 := rfl
  unfold stRecvResponse
  dsimp only
  rw [hcall]
  by_cases hs : (env.recvResponse s.sm.response s.world).1.error = errSuccess
  · rw [if_pos hs, store, if_pos hs, if_pos hs]
    exact ⟨_, rfl⟩
  · rw [if_neg hs, if_neg h, store, if_neg hs, if_neg hs]
    exact ⟨_, rfl⟩

/-- What the response callback of a request makes of a chunk: the status, and the payload
buffer that the callback gets and the next response finds. -/
def answer (args : ExoRequestArgs) (alloc : Allocations) (chunk : List UInt8)
    (response : ProtocolClientResponse) : Int × List UInt8 :=
  let response := store response
    (receivedOf response (httpRecv (errSuccess, chunk) alloc response.payload maxPayloadSize))
  httpResponseCallback args response.payload response.payloadSize maxPayloadSize
    response.responseCode

/-- The status and the C string that the callback of a request gets for a chunk. -/
def heard (args : ExoRequestArgs) (alloc : Allocations) (chunk : List UInt8)
    (response : ProtocolClientResponse) : Int × List UInt8 :=
  ((answer args alloc chunk response).1, cString (answer args alloc chunk response).2)

def pairValue (text : List UInt8) : Option (List UInt8) :=
  match firstPair text with
  | some (_ :: c :: _) => some ((text.drop c.init).take c.len)
  | _ => none

/-- The value that http_parse_payload makes of the bytes of a body. -/
def valueIn (method : Method) (text : List UInt8) : Option (List UInt8) :=
  match method with
  | .activate | .timestamp => some (text.takeWhile isAlnum)
  | _ => pairValue text

/-- What the callback gets in a payload buffer, for a value or none. -/
def Gets (v : Option (List UInt8)) (c : Int × List UInt8) : Prop :=
  match v with
  | some v => c.1 = errSuccess ∧ cString c.2 = v
  | none => c.1 = errInvalidFormat

theorem cString_terminate {w payload : List UInt8} (hw : 0 ∉ w) (hlen : w.length < payload.length)
    {maxSize : Nat} (hmax : w.length + 1 < maxSize) :
    cString (terminate (overwrite payload w) w.length maxSize) = w := by
  rw [terminate_overwrite hlen, if_pos hmax]
  refine cString_of_isPrefix hw ⟨payload.drop (w.length + 1), ?_⟩
  simp

theorem zero_not_mem_alnum {w : List UInt8} (h : ∀ c ∈ w, isAlnum c = true) : 0 ∉ w := by
  intro h0
  exact absurd (h 0 h0) (by decide)

theorem overwrite_of_isPrefix {payload w : List UInt8} (h : w <+: payload) :
    overwrite payload w = payload := by
  obtain ⟨t, rfl⟩ := h
  simp [overwrite]

theorem firstPair_second {text : List UInt8} {c d : StringCapture} {cs : List StringCapture}
    (h : firstPair text = some (d :: c :: cs)) :
    c.init + c.len ≤ text.length ∧ ∀ x ∈ (text.drop c.init).take c.len, isAlnum x = true := by
  obtain ⟨s, -, hs⟩ := List.exists_of_findSome?_eq_some h
  unfold pairAt at hs
  dsimp only at hs
  rw [Option.ite_none_right_eq_some] at hs
  obtain ⟨hsign, hs⟩ := hs
  obtain ⟨-, hs⟩ := List.cons.inj (Option.some.inj hs)
  obtain ⟨rfl, -⟩ := List.cons.inj hs
  obtain ⟨hlt, -⟩ := List.getElem?_eq_some_iff.mp hsign
  have hrun := (List.takeWhile_prefix isAlnum (l := text.drop (s + runOf isAlnum text s + 1)))
  constructor
  · have hle := hrun.length_le
    rw [List.length_drop] at hle
    dsimp only [runOf] at hle hlt ⊢
    omega
  · intro x hx
    have hword : x ∈ (text.drop (s + runOf isAlnum text s + 1)).takeWhile isAlnum := by
      rw [List.prefix_iff_eq_take.mp hrun]
      exact hx
    exact List.mem_takeWhile_imp hword

section

variable {text rest : List UInt8} {maxSize : Nat} (hmax : (text ++ rest).length = maxSize)
  (hroom : text.length + 1 < maxSize)

include hmax hroom

theorem parseWord_text : Gets (some (text.takeWhile isAlnum))
    (parseWord (text ++ rest) maxSize ⟨true, some [⟨0, runOf isAlnum text 0⟩]⟩) := by
  have hpre := List.takeWhile_prefix isAlnum (l := text)
  have hle := hpre.length_le
  have hterm := @cString_terminate (text.takeWhile isAlnum) (text ++ rest)
    (zero_not_mem_alnum fun c hc => List.mem_takeWhile_imp hc) (by omega)
    _ (show (text.takeWhile isAlnum).length + 1 < maxSize by omega)
  rw [overwrite_of_isPrefix (hpre.trans (List.prefix_append text rest))] at hterm
  exact ⟨rfl, hterm⟩

theorem parsePair_text : Gets (pairValue text)
    (parsePair (text ++ rest) maxSize ⟨(firstPair text).isSome, firstPair text⟩) := by
  unfold pairValue
  rcases hf : firstPair text with _ | ⟨_ | ⟨d, _ | ⟨c, cs⟩⟩⟩
  · rfl
  · rfl
  · rfl
  · obtain ⟨hin, hal⟩ := firstPair_second hf
    have hcopy : ((text ++ rest).drop c.init).take c.len = (text.drop c.init).take c.len := by
      rw [List.drop_append_of_le_length (by omega),
        List.take_append_of_le_length (by rw [List.length_drop]; omega)]
    have hlen : ((text.drop c.init).take c.len).length = c.len := by
      rw [List.length_take, List.length_drop]
      omega
    have hterm := @cString_terminate _ (text ++ rest)
      (zero_not_mem_alnum hal) (by omega) maxSize (by omega)
    rw [hlen, ← hcopy] at hterm
    exact ⟨rfl, hterm.trans hcopy⟩

/-- With a body that leaves room in the buffer the value does not depend on what else stands
in the buffer. -/
theorem httpParsePayload_text (hsize : maxSize < 2 ^ 64) {code : Int} (method : Method)
    (hcode : responseCodeToSystemError code = errSuccess) :
    ∃ c, httpParsePayload method (text ++ rest) text.length maxSize code = .ok c ∧
      Gets (valueIn method text) c := by
  have htake : (text ++ rest).take text.length = text := List.take_left
  have htext : text.length < 2 ^ 64 := by omega
  unfold httpParsePayload
  dsimp only
  rw [if_neg (not_not.mpr hcode), htake, find_word htext 9, find_pair htext 8]
  have hword := parseWord_text hmax hroom
  have hpair := parsePair_text hmax hroom
  cases method with
  | activate => exact ⟨_, rfl, hword⟩
  | timestamp => exact ⟨_, rfl, hword⟩
  | _ => exact ⟨_, rfl, hpair⟩

end

theorem length_terminate (payload : List UInt8) (len maxSize : Nat) :
    (terminate payload len maxSize).length = payload.length := by
  unfold terminate
  split
  · exact List.length_set
  · rfl

theorem length_parseWord (payload : List UInt8) (maxSize : Nat) (f : Find) :
    (parseWord payload maxSize f).2.length = payload.length := by
  unfold parseWord
  split
  · exact length_terminate _ _ _
  · rfl

theorem length_parsePair (payload : List UInt8) (maxSize : Nat) (f : Find) :
    (parsePair payload maxSize f).2.length = payload.length := by
  unfold parsePair
  split
  · rename_i c _ _
    refine (length_terminate _ _ _).trans ?_
    have hle : ((payload.drop c.init).take c.len).length ≤ payload.length := by
      rw [List.length_take, List.length_drop]
      omega
    simp only [overwrite, List.length_append, List.length_drop]
    omega
  · rfl

theorem length_httpResponseCallback (args : ExoRequestArgs) (payload : List UInt8)
    (size maxSize : Nat) (code : Int) :
    (httpResponseCallback args payload size maxSize code).2.length = payload.length := by
  unfold httpResponseCallback
  split
  · rename_i c hc
    unfold httpParsePayload at hc
    dsimp only at hc
    split at hc
    · obtain rfl := Except.ok.inj hc
      rfl
    · split at hc
      · obtain ⟨f, -, hf⟩ := bind_eq_ok hc
        obtain rfl := Except.ok.inj hf
        exact length_parseWord payload maxSize f
      · obtain ⟨f, -, hf⟩ := bind_eq_ok hc
        obtain rfl := Except.ok.inj hf
        exact length_parseWord payload maxSize f
      · obtain ⟨f, -, hf⟩ := bind_eq_ok hc
        obtain rfl := Except.ok.inj hf
        exact length_parsePair payload maxSize f
  · rfl

/-- The bytes that http_parse_payload looks at: the body, with the NUL of an empty content. -/
def bodyText (chunk : List UInt8) (i : Nat) (n : Int) : List UInt8 :=
  if sizeT n = 0 then (chunk.drop (i + 4)).set 0 0 else chunk.drop (i + 4)

theorem length_bodyText (chunk : List UInt8) (i : Nat) (n : Int) :
    (bodyText chunk i n).length = chunk.length - (i + 4) := by
  unfold bodyText
  split <;> simp

theorem received_text (chunk payload : List UInt8) {maxSize : Nat} (hmax : maxSize > 0) (i : Nat)
    (n : Int) : ∃ rest, received chunk payload maxSize i n = bodyText chunk i n ++ rest := by
  unfold received bodyText overwrite
  by_cases hn : sizeT n = 0
  · rw [if_pos ⟨hn, hmax⟩, if_pos hn]
    cases hbody : chunk.drop (i + 4) with
    | nil => exact ⟨_, rfl⟩
    | cons b body => exact ⟨_, rfl⟩
  · rw [if_neg (fun h => hn h.1), if_neg hn]
    exact ⟨_, rfl⟩

theorem length_received {chunk payload : List UInt8} {maxSize i : Nat}
    (h : chunk.length - (i + 4) ≤ payload.length) (n : Int) :
    (received chunk payload maxSize i n).length = payload.length := by
  have hlen : (overwrite payload (chunk.drop (i + 4))).length = payload.length := by
    simp only [overwrite, List.length_append, List.length_drop]
    omega
  unfold received
  split
  · rw [List.length_set, hlen]
  · exact hlen

theorem parsed_unique {chunk : List UInt8} {alloc : Allocations} {i j : Nat} {c d n m : Int} (h : Parsed chunk alloc i c n)
    (h' : Parsed chunk alloc j d m) : i = j ∧ c = d ∧ n = m :=
  ⟨Option.some.inj (h.blank.symm.trans h'.blank), Option.some.inj (h.code.symm.trans h'.code),
    Option.some.inj (h.length.symm.trans h'.length)⟩

theorem callback_other (args : ExoRequestArgs) {payload : List UInt8} {size : Nat} {code : Int}
    (h : responseCodeToSystemError code ≠ errSuccess) :
    httpResponseCallback args payload size maxPayloadSize code =
      (if responseCodeToSystemError code = errNoContent then errSuccess
        else responseCodeToSystemError code, payload) := by
  unfold httpResponseCallback httpParsePayload
  dsimp only
  rw [if_pos h]

theorem cString_received {chunk payload : List UInt8} {i : Nat} {n : Int}
    (hlen : payload.length = maxPayloadSize) :
    cString (received chunk payload maxPayloadSize i n) =
      if sizeT n = 0 then []
      else if 0 ∈ chunk.drop (i + 4) then cString (chunk.drop (i + 4))
      else chunk.drop (i + 4) ++ cString (payload.drop (chunk.drop (i + 4)).length) := by
  have h512 : maxPayloadSize = 512 := rfl
  unfold received
  by_cases hn : sizeT n = 0
  · rw [if_pos ⟨hn, by omega⟩, if_pos hn]
    have hne : overwrite payload (chunk.drop (i + 4)) ≠ [] := by
      intro hnil
      have hlen := congrArg List.length hnil
      simp only [overwrite, List.length_append, List.length_drop, List.length_nil] at hlen
      omega
    obtain ⟨b, t, ht⟩ := List.exists_cons_of_ne_nil hne
    rw [ht]
    rfl
  · rw [if_neg (fun h => hn h.1), if_neg hn]
    unfold overwrite cString
    by_cases h0 : 0 ∈ chunk.drop (i + 4)
    · obtain ⟨x, y, hxy, hx⟩ := List.eq_append_cons_of_mem h0
      have hall : ∀ c ∈ x, decide (c ≠ 0) = true := by
        intro c hc
        refine decide_eq_true ?_
        rintro rfl
        exact hx hc
      rw [if_pos h0, hxy, List.append_assoc, List.takeWhile_append_of_pos hall,
        List.takeWhile_append_of_pos hall]
      simp
    · have hall : ∀ c ∈ chunk.drop (i + 4), decide (c ≠ 0) = true := by
        intro c hc
        refine decide_eq_true ?_
        rintro rfl
        exact h0 hc
      rw [if_neg h0, List.takeWhile_append_of_pos hall]

section

variable {chunk : List UInt8} (hsize : chunk.length ≤ recvBufferSize) (alloc : Allocations)
  (args : ExoRequestArgs)

include hsize

theorem answer_cases (response : ProtocolClientResponse) :
    (answer args alloc chunk response = (errFailure, response.payload) ∧
        ∀ i code n, ¬ Parsed chunk alloc i code n) ∨
      ∃ i code n, Parsed chunk alloc i code n ∧
        answer args alloc chunk response =
          httpResponseCallback args (received chunk response.payload maxPayloadSize i n)
            (chunk.length - (i + 4)) maxPayloadSize (toInt32 code) := by
  have h256 : recvBufferSize = 256 := rfl
  have h512 : maxPayloadSize = 512 := rfl
  obtain ⟨c, hc, ⟨hfail, hkeep, hnot⟩ | ⟨i, code, n, hp, ⟨ho, -⟩ | ⟨-, rfl⟩⟩⟩ :=
    @httpRecv_cases chunk (by omega) alloc response.payload maxPayloadSize
  · refine .inl ⟨?_, hnot⟩
    obtain ⟨error, responseCode, token, payload, payloadSize⟩ := c
    dsimp only at hfail hkeep
    subst hfail hkeep
    unfold answer store receivedOf
    rw [hc]
    rfl
  · omega
  · refine .inr ⟨i, code, n, hp, ?_⟩
    unfold answer store receivedOf
    rw [hc]
    rfl

/-- The callback's string does not depend on the payload buffer before the chunk. -/
def BufferIndependent (args : ExoRequestArgs) (alloc : Allocations) (chunk : List UInt8) : Prop :=
  ∀ r r' : ProtocolClientResponse,
    r.payload.length = maxPayloadSize → r'.payload.length = maxPayloadSize →
    (heard args alloc chunk r).1 = errSuccess →
    (heard args alloc chunk r').1 = errSuccess ∧
      (heard args alloc chunk r).2 = (heard args alloc chunk r').2

structure Earlier where
  args : ExoRequestArgs
  alloc : Allocations
  chunk : List UInt8

def Earlier.step (response : ProtocolClientResponse) (e : Earlier) : ProtocolClientResponse :=
  { response with payload := (answer e.args e.alloc e.chunk response).2 }

/-- Two runs of a state machine that differ in the responses so far. -/
def RunsAgree (args : ExoRequestArgs) (alloc : Allocations) (chunk : List UInt8) : Prop :=
  ∀ (r : ProtocolClientResponse) (earlier earlier' : List Earlier),
    r.payload.length = maxPayloadSize → (∀ e ∈ earlier, e.chunk.length ≤ recvBufferSize) →
    (∀ e ∈ earlier', e.chunk.length ≤ recvBufferSize) →
    (heard args alloc chunk (earlier.foldl Earlier.step r)).1 = errSuccess →
    (heard args alloc chunk (earlier'.foldl Earlier.step r)).1 = errSuccess ∧
      (heard args alloc chunk (earlier.foldl Earlier.step r)).2 =
        (heard args alloc chunk (earlier'.foldl Earlier.step r)).2

/-- A response that is a success without content, and has a body without a NUL. -/
def Unterminated (alloc : Allocations) (chunk : List UInt8) : Prop :=
  ∃ i code n, Parsed chunk alloc i code n ∧
    responseCodeToSystemError (toInt32 code) = errNoContent ∧ sizeT n ≠ 0 ∧
    0 ∉ chunk.drop (i + 4)

theorem answer_parsed {i : Nat} {code n : Int} (hp : Parsed chunk alloc i code n)
    (response : ProtocolClientResponse) :
    answer args alloc chunk response =
      httpResponseCallback args (received chunk response.payload maxPayloadSize i n)
        (chunk.length - (i + 4)) maxPayloadSize (toInt32 code) := by
  rcases answer_cases hsize alloc args response with ⟨-, hnot⟩ | ⟨i', code', n', hp', h⟩
  · exact absurd hp (hnot i code n)
  · obtain ⟨rfl, rfl, rfl⟩ := parsed_unique hp hp'
    exact h

theorem bufferIndependent_iff :
    BufferIndependent args alloc chunk ↔ ¬ Unterminated alloc chunk := by
  have h256 : recvBufferSize = 256 := rfl
  have h512 : maxPayloadSize = 512 := rfl
  constructor
  · rintro h ⟨i, code, n, hp, hcode, hn, h0⟩
    have hother : responseCodeToSystemError (toInt32 code) ≠ errSuccess := by
      rw [hcode]
      decide
    have hheard (response : ProtocolClientResponse)
        (hlen : response.payload.length = maxPayloadSize) :
        heard args alloc chunk response = (errSuccess, chunk.drop (i + 4) ++
          cString (response.payload.drop (chunk.drop (i + 4)).length)) := by
      unfold heard
      rw [answer_parsed hsize alloc args hp, callback_other args hother, if_pos hcode,
        cString_received hlen, if_neg hn, if_neg h0]
    let r (b : UInt8) : ProtocolClientResponse :=
      ⟨List.replicate maxPayloadSize b, 0, 0, 0, 0, .subscribe, false⟩
    have hlen (b : UInt8) : (r b).payload.length = maxPayloadSize := List.length_replicate
    obtain ⟨-, hsame⟩ := h (r 97) (r 0) (hlen 97) (hlen 0) (by rw [hheard _ (hlen 97)])
    rw [hheard _ (hlen 97), hheard _ (hlen 0)] at hsame
    have hrest := List.append_cancel_left hsame
    have hdrop (b : UInt8) : (r b).payload.drop (chunk.drop (i + 4)).length =
        b :: List.replicate (maxPayloadSize - (chunk.drop (i + 4)).length - 1) b := by
      have hpos : maxPayloadSize - (chunk.drop (i + 4)).length =
          maxPayloadSize - (chunk.drop (i + 4)).length - 1 + 1 := by
        rw [List.length_drop]
        omega
      rw [List.drop_replicate, hpos, List.replicate_succ]
      rfl
    rw [hdrop, hdrop] at hrest
    simp [cString] at hrest
  · intro h r r' hlen hlen' hok
    unfold heard at hok ⊢
    rcases answer_cases hsize alloc args r with ⟨herr, -⟩ | ⟨i, code, n, hp, heq⟩
    · rw [herr] at hok
      exact absurd (show errFailure = errSuccess from hok) (by decide)
    · have heq' := answer_parsed hsize alloc args hp r'
      rw [heq] at hok ⊢
      rw [heq']
      by_cases hcode : responseCodeToSystemError (toInt32 code) = errSuccess
      · have hgets (r : ProtocolClientResponse) (hlen : r.payload.length = maxPayloadSize) :
            Gets (valueIn args.method (bodyText chunk i n)) (httpResponseCallback args
              (received chunk r.payload maxPayloadSize i n) (chunk.length - (i + 4)) maxPayloadSize
              (toInt32 code)) := by
          obtain ⟨rest, hrest⟩ := @received_text chunk r.payload maxPayloadSize
            (by omega) i n
          have htext := length_bodyText chunk i n
          have hall := @length_received chunk r.payload maxPayloadSize i (by omega) n
          rw [hrest, hlen] at hall
          obtain ⟨c, hc, hg⟩ := httpParsePayload_text hall (by omega) (by omega) args.method hcode
          unfold httpResponseCallback
          rw [hrest, ← htext, hc]
          exact hg
        have h1 := hgets r hlen
        have h2 := hgets r' hlen'
        cases hv : valueIn args.method (bodyText chunk i n) with
        | none =>
            rw [hv] at h1
            exact absurd (hok.symm.trans h1) (by decide)
        | some v =>
            rw [hv] at h1 h2
            exact ⟨h2.1, h1.2.trans h2.2.symm⟩
      · rw [callback_other args hcode] at hok ⊢
        rw [callback_other args hcode]
        dsimp only at hok ⊢
        have hnone : responseCodeToSystemError (toInt32 code) = errNoContent := by
          by_contra hne
          rw [if_neg hne] at hok
          exact hcode hok
        refine ⟨hok, ?_⟩
        rw [cString_received hlen, cString_received hlen']
        by_cases hn : sizeT n = 0
        · rw [if_pos hn, if_pos hn]
        · by_cases h0 : 0 ∈ chunk.drop (i + 4)
          · rw [if_neg hn, if_neg hn, if_pos h0, if_pos h0]
          · exact absurd ⟨i, code, n, hp, hnone, hn, h0⟩ h

theorem length_answer {response : ProtocolClientResponse}
    (hlen : response.payload.length = maxPayloadSize) :
    (answer args alloc chunk response).2.length = maxPayloadSize := by
  have h256 : recvBufferSize = 256 := rfl
  have h512 : maxPayloadSize = 512 := rfl
  rcases answer_cases hsize alloc args response with ⟨h, -⟩ | ⟨i, code, n, hp, h⟩
  · rw [h]
    exact hlen
  · rw [h]
    have hrec := @length_received chunk response.payload maxPayloadSize i (by omega) n
    rw [length_httpResponseCallback, hrec, hlen]

omit hsize in
theorem length_earlier {l : List Earlier} (hl : ∀ e ∈ l, e.chunk.length ≤ recvBufferSize)
    {r : ProtocolClientResponse} (hlen : r.payload.length = maxPayloadSize) :
    (l.foldl Earlier.step r).payload.length = maxPayloadSize := by
  induction l generalizing r with
  | nil => exact hlen
  | cons e l ih =>
      rw [List.foldl_cons]
      refine ih (fun x hx => hl x (List.mem_cons_of_mem e hx)) ?_
      exact length_answer (hl e List.mem_cons_self) e.alloc e.args hlen

/-- The string of a success depends on the response alone exactly when it is not a response
without content whose body has no NUL; and then no earlier responses change it. -/
theorem value_of_response_iff : (BufferIndependent args alloc chunk ↔ ¬ Unterminated alloc chunk) ∧
    (¬ Unterminated alloc chunk → RunsAgree args alloc chunk) := by
  refine ⟨bufferIndependent_iff hsize alloc args, fun h r earlier earlier' hlen he he' => ?_⟩
  exact (bufferIndependent_iff hsize alloc args).mpr h _ _ (length_earlier he hlen)
    (length_earlier he' hlen)

end

def readArgs : ExoRequestArgs := { ExoRequestArgs.zero .read with aliasName := some (bytes "led") }

def noContent : List UInt8 := bytes "HTTP/1.1 204 No Content\r\nContent-Length: 1\r\n\r\nx"

def blankResponse : ProtocolClientResponse :=
  ⟨List.replicate maxPayloadSize 0, 0, 0, 0, 0, .normal, false⟩

def secretEarlier : Earlier :=
  ⟨readArgs, ⟨true, true⟩, bytes "HTTP/1.1 200 OK\r\nContent-Length: 10\r\n\r\nled=secret"⟩

theorem value_of_response_iff_read :
    (BufferIndependent readArgs ⟨true, true⟩ noContent ↔ ¬ Unterminated ⟨true, true⟩ noContent) ∧
      (¬ Unterminated ⟨true, true⟩ noContent → RunsAgree readArgs ⟨true, true⟩ noContent) :=
  value_of_response_iff (by decide) ⟨true, true⟩ readArgs

theorem heard_noContent_first :
    heard readArgs ⟨true, true⟩ noContent blankResponse = (errSuccess, bytes "x") := by
  decide +kernel

theorem heard_noContent_second : heard readArgs ⟨true, true⟩ noContent
    (Earlier.step blankResponse secretEarlier) = (errSuccess, bytes "xecret") := by
  decide +kernel

theorem length_blankResponse : blankResponse.payload.length = maxPayloadSize := by
  unfold blankResponse
  exact List.length_replicate

theorem small_chunks : noContent.length ≤ recvBufferSize ∧
    secretEarlier.chunk.length ≤ recvBufferSize := by
  decide

/-- The value of an earlier response comes behind the body of one without content. -/
theorem earlier_value_leaks : ¬ ∀ args alloc (chunk : List UInt8), chunk.length ≤ recvBufferSize →
    RunsAgree args alloc chunk := by
  intro h
  have hsame := h readArgs ⟨true, true⟩ noContent small_chunks.1 blankResponse []
    [secretEarlier] length_blankResponse (List.forall_mem_nil _)
    (List.forall_mem_singleton.mpr small_chunks.2)
  rw [List.foldl_nil, List.foldl_cons, List.foldl_nil, heard_noContent_first,
    heard_noContent_second] at hsame
  have hvalues : bytes "x" = bytes "xecret" := (hsame rfl).2
  exact absurd hvalues (by decide)

end ErSdk.PayloadReuse
