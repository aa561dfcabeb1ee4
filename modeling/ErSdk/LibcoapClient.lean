import ErSdk.Basic
import ErSdk.Runs
import Mathlib.Data.List.Induction

namespace ErSdk.LibcoapClient

open Runs Error

inductive MessageType
  | con
  | non
  | ack
  | rst
  deriving DecidableEq, Repr

/-- A message of the peer. `token` is the int found at hdr->token, `data` is empty when
coap_get_data finds no payload. -/
structure Pdu where
  type : MessageType
  code : UInt8
  token : Int
  subscription : Bool
  block : Bool
  data : List UInt8
  deriving DecidableEq, Repr

/-- The fields of coap_context_t in which message_handler leaves a response. -/
structure CoapContext where
  ready : Bool
  code : UInt8
  receivedToken : Int
  payload : Option (List UInt8)
  payloadLen : Nat
  deriving DecidableEq, Repr

/-- What coap_recv_response stores through its pointers, without the NUL behind the data. -/
structure Response where
  responseCode : Int
  token : Int
  data : Option (List UInt8)
  payloadSize : Nat
  deriving DecidableEq, Repr

inductive Entry
  | ack (m : Pdu)
  | processed (m : Pdu)
  | reported (r : Response)
  deriving DecidableEq, Repr

def coapResponseCode (n : Nat) : UInt8 := UInt8.ofNat (((n / 100) <<< 5) ||| (n % 100))

def coapResponseClass (code : UInt8) : Nat := (code >>> 5).toNat

def responseCode (code : UInt8) : Int := coapResponseClass code * 100 + (code &&& 0x1f).toNat

/-- The buffer only grows; the bytes behind a shorter text stay. -/
def appendToOutput (ctx : CoapContext) (data : List UInt8) (allocated : Bool) : Int × CoapContext :=
  match ctx.payload with
  | none =>
      if allocated then (0, { ctx with payload := some data, payloadLen := data.length })
      else (-1, ctx)
  | some payload =>
      if ctx.payloadLen < data.length then
        if allocated then (0, { ctx with payload := some data, payloadLen := data.length })
        else (-1, ctx)
      else (0, { ctx with payload := some (data ++ payload.drop data.length) })

/-- A message that coap_dispatch hands over, and whether memory for its payload is there. -/
structure Arrival where
  message : Pdu
  allocated : Bool
  deriving DecidableEq, Repr

/-- Whether message_handler copies the payload. -/
def Pdu.copied (m : Pdu) : Bool := m.code = coapResponseCode 205 && !m.block && m.data ≠ []

/-- The acknowledgement of an observe request, behind which ready is set to FALSE. -/
def Pdu.postponed (m : Pdu) : Bool := m.subscription && m.type = .ack

def messageHandler (ctx : CoapContext) (a : Arrival) : List Entry × CoapContext :=
  let received := a.message
  let sent := if received.type = .con then [Entry.ack received] else []
  if received.type = .rst then ([], ctx)
  else
    let ctx := { ctx with code := received.code, receivedToken := received.token }
    let ctx := if received.copied then (appendToOutput ctx received.data a.allocated).2 else ctx
    (sent ++ [.processed received], { ctx with ready := !received.postponed })

def coapDispatch (received : List Arrival) (ctx : CoapContext) : List Entry × CoapContext :=
  received.foldl (fun s a =>
    let r := messageHandler s.2 a
    (s.1 ++ r.1, r.2)) ([], ctx)

/-- A call of coap_recv_response: what coap_read returns, the messages that coap_dispatch then
finds, whether data is not NULL, and what *payload_size holds. -/
structure Call where
  read : Int
  received : List Arrival
  data : Bool
  maxLen : Nat
  payloadSize : Nat
  deriving DecidableEq, Repr

/-- max_len - 1 is a size_t, which is larger than every payload when max_len is 0. -/
def toCopy (payloadLen maxLen : Nat) : Nat :=
  if maxLen = 0 then payloadLen else min payloadLen (maxLen - 1)

/-- The queue of the requests that are sent again is libcoap's alone. -/
def coapRecvResponse (call : Call) (ctx : CoapContext) :
    (Int × Option Response) × List Entry × CoapContext :=
  if call.read = errWouldBlock then ((call.read, none), [], ctx)
  else
    let (entries, ctx) := coapDispatch call.received ctx
    if ctx.ready then
      let text := (ctx.payload.getD []).take (toCopy ctx.payloadLen call.maxLen)
      let data := if call.data then some text else none
      ((errSuccess, some ⟨responseCode ctx.code, ctx.receivedToken, data, call.payloadSize⟩),
        entries, if call.data then { ctx with payload := none, payloadLen := 0 } else ctx)
    else ((errWouldBlock, none), entries, ctx)

structure Client where
  ctx : CoapContext
  log : List Entry
  deriving DecidableEq, Repr

def step (s : Client) (call : Call) : Client :=
  let r := coapRecvResponse call s.ctx
  ⟨r.2.2, s.log ++ r.2.1 ++ (r.1.2.map Entry.reported).toList⟩

/-- The context as coap_new_context leaves it. -/
def initialClient : Client := ⟨⟨false, 0, 0, none, 0⟩, []⟩

/-- What a caller should get for a message. -/
def responseOf (m : Pdu) : Response := ⟨responseCode m.code, m.token, some m.data, m.data.length⟩

def since : List Pdu → List Entry → List Pdu
  | acc, [] => acc
  | acc, .ack _ :: log => since acc log
  | acc, .processed m :: log => since (acc ++ [m]) log
  | _, .reported _ :: log => since [] log

/-- Each report is that of a message processed since the report before it. -/
def Matched : List Pdu → List Entry → Prop
  | _, [] => True
  | acc, .ack _ :: log => Matched acc log
  | acc, .processed m :: log => Matched (acc ++ [m]) log
  | acc, .reported r :: log => (∃ m ∈ acc, r = responseOf m) ∧ Matched [] log

def processed (log : List Entry) : List Pdu :=
  log.filterMap (fun e => match e with | .processed m => some m | _ => none)

def reports (log : List Entry) : List Response :=
  log.filterMap (fun e => match e with | .reported r => some r | _ => none)

def Call.last (call : Call) : Option Arrival :=
  (call.received.filter (fun a => a.message.type ≠ .rst)).getLast?

/-- The payload of `a` is the only thing that the buffer then holds, and the caller takes it
as it is. -/
structure Clear (ctx : CoapContext) (call : Call) (a : Arrival) : Prop where
  data : call.data = true
  fits : a.message.data.length < call.maxLen
  size : call.payloadSize = a.message.data.length
  copied : a.message.data ≠ [] → a.message.copied ∧ a.allocated
  before : ctx.payloadLen ≤ a.message.data.length
  others : ∀ b ∈ call.received, b.message.copied → b.message.data.length ≤ a.message.data.length

/-- A call that processes no response finds ready FALSE, and one whose last response makes it
TRUE reports that response only. -/
def Ok (s : Client) (call : Call) : Prop :=
  call.read = errWouldBlock ∨
    match call.last with
    | none => s.ctx.ready = false
    | some a => a.message.postponed ∨ Clear s.ctx call a

theorem since_append (acc : List Pdu) (log more : List Entry) :
    since acc (log ++ more) = since (since acc log) more := by
  induction log generalizing acc with
  | nil => rfl
  | cons e log ih =>
      cases e with
      | ack m => exact ih acc
      | processed m => exact ih (acc ++ [m])
      | reported r => exact ih []

theorem matched_append (acc : List Pdu) (log more : List Entry) :
    Matched acc (log ++ more) ↔ Matched acc log ∧ Matched (since acc log) more := by
  induction log generalizing acc with
  | nil => simp [Matched, since]
  | cons e log ih =>
      cases e with
      | ack m => exact ih acc
      | processed m => exact ih (acc ++ [m])
      | reported r =>
          simp only [List.cons_append, Matched, since, ih, and_assoc]

theorem Matched.sublist {acc : List Pdu} {log : List Entry} (h : Matched acc log) :
    (reports log).Sublist ((acc ++ processed log).map responseOf) := by
  induction log generalizing acc with
  | nil => exact List.nil_sublist _
  | cons e log ih =>
      cases e with
      | ack m => exact ih h
      | processed m => simpa [processed, reports] using ih h
      | reported r =>
          obtain ⟨⟨m, hm, rfl⟩, hrest⟩ := h
          have hone : [responseOf m].Sublist (acc.map responseOf) :=
            List.singleton_sublist.mpr (List.mem_map_of_mem hm)
          simpa [processed, reports] using hone.append (ih hrest)

section

variable (ctx : CoapContext) (a : Arrival)

theorem handler_reset (h : a.message.type = .rst) : messageHandler ctx a = ([], ctx) := by
  simp [messageHandler, h]

theorem handler_code (h : a.message.type ≠ .rst) :
    (messageHandler ctx a).2.code = a.message.code ∧
      (messageHandler ctx a).2.receivedToken = a.message.token ∧
      (messageHandler ctx a).2.ready = !a.message.postponed := by
  have hkeeps (ctx : CoapContext) (data : List UInt8) :
      (appendToOutput ctx data a.allocated).2.code = ctx.code ∧
        (appendToOutput ctx data a.allocated).2.receivedToken = ctx.receivedToken := by
    unfold appendToOutput
    split
    · split <;> exact ⟨rfl, rfl⟩
    · split
      · split <;> exact ⟨rfl, rfl⟩
      · exact ⟨rfl, rfl⟩
  simp only [messageHandler, h, if_false, and_true]
  split
  · exact hkeeps _ _
  · exact ⟨rfl, rfl⟩

theorem appendToOutput_len (data : List UInt8) (allocated : Bool) {n : Nat} (h : ctx.payloadLen ≤ n)
    (hdata : data.length ≤ n) : (appendToOutput ctx data allocated).2.payloadLen ≤ n := by
  unfold appendToOutput
  split
  · split
    · exact hdata
    · exact h
  · split
    · split
      · exact hdata
      · exact h
    · exact h

theorem handler_len {n : Nat} (h : ctx.payloadLen ≤ n)
    (ha : a.message.copied → a.message.data.length ≤ n) :
    (messageHandler ctx a).2.payloadLen ≤ n := by
  by_cases hreset : a.message.type = .rst
  · rw [handler_reset ctx a hreset]
    exact h
  · simp only [messageHandler, hreset, if_false]
    split
    · rename_i hcopied
      exact appendToOutput_len _ _ _ h (ha hcopied)
    · exact h

theorem appendToOutput_fills (data : List UInt8) (h : ctx.payloadLen ≤ data.length) :
    ((appendToOutput ctx data true).2.payload.getD []).take
        (appendToOutput ctx data true).2.payloadLen = data := by
  unfold appendToOutput
  split
  · simp
  · split
    · simp
    · rename_i hle
      have hlen : ctx.payloadLen = data.length := by omega
      simp [hlen]

theorem handler_payload (hresponse : a.message.type ≠ .rst)
    (hcopied : a.message.data ≠ [] → a.message.copied ∧ a.allocated)
    (h : ctx.payloadLen ≤ a.message.data.length) :
    ((messageHandler ctx a).2.payload.getD []).take (messageHandler ctx a).2.payloadLen =
      a.message.data := by
  by_cases hdata : a.message.data = []
  · have hlen : (messageHandler ctx a).2.payloadLen ≤ 0 :=
      handler_len ctx a (by simpa [hdata] using h) (fun _ => by simp [hdata])
    rw [Nat.le_zero.mp hlen, List.take_zero, hdata]
  · obtain ⟨hc, hallocated⟩ := hcopied hdata
    simp only [messageHandler, hresponse, if_false, hc, if_true, hallocated]
    exact appendToOutput_fills _ _ h

end

section

variable (ctx : CoapContext)

theorem dispatch_concat (l : List Arrival) (a : Arrival) :
    coapDispatch (l ++ [a]) ctx =
      ((coapDispatch l ctx).1 ++ (messageHandler (coapDispatch l ctx).2 a).1,
        (messageHandler (coapDispatch l ctx).2 a).2) := by
  unfold coapDispatch
  rw [List.foldl_append]
  rfl

theorem dispatch_reports (l : List Arrival) : reports (coapDispatch l ctx).1 = [] := by
  induction l using List.reverseRecOn with
  | nil => rfl
  | append_singleton l a ih =>
      have hone : reports (messageHandler (coapDispatch l ctx).2 a).1 = [] := by
        unfold messageHandler
        dsimp only
        split
        · rfl
        · split
          · rfl
          · rfl
      rw [dispatch_concat]
      unfold reports at ih hone ⊢
      rw [List.filterMap_append, ih, hone]
      rfl

theorem dispatch_len (l : List Arrival) {n : Nat} (h : ctx.payloadLen ≤ n)
    (hl : ∀ a ∈ l, a.message.copied → a.message.data.length ≤ n) :
    (coapDispatch l ctx).2.payloadLen ≤ n := by
  induction l using List.reverseRecOn with
  | nil => exact h
  | append_singleton l a ih =>
      rw [dispatch_concat]
      exact handler_len _ _ (ih fun b hb => hl b (by simp [hb])) (hl a (by simp))

theorem dispatch_none (l : List Arrival)
    (h : (l.filter (fun a => a.message.type ≠ .rst)).getLast? = none) :
    coapDispatch l ctx = ([], ctx) := by
  induction l using List.reverseRecOn with
  | nil => rfl
  | append_singleton l a ih =>
      rw [List.getLast?_eq_none_iff, List.filter_append, List.append_eq_nil_iff] at h
      have hreset : a.message.type = .rst := by simpa using h.2
      rw [dispatch_concat, ih (List.getLast?_eq_none_iff.mpr h.1), handler_reset _ _ hreset]
      rfl

theorem dispatch_some {l : List Arrival} {a : Arrival}
    (h : (l.filter (fun a => a.message.type ≠ .rst)).getLast? = some a) :
    a.message.type ≠ .rst ∧ Entry.processed a.message ∈ (coapDispatch l ctx).1 ∧
      ∃ before : CoapContext, (coapDispatch l ctx).2 = (messageHandler before a).2 ∧
        ∀ n, ctx.payloadLen ≤ n → (∀ b ∈ l, b.message.copied → b.message.data.length ≤ n) →
          before.payloadLen ≤ n := by
  induction l using List.reverseRecOn with
  | nil => cases h
  | append_singleton l b ih =>
      rw [dispatch_concat]
      by_cases hreset : b.message.type = .rst
      · obtain ⟨hresponse, hmem, before, hbefore, hlen⟩ := ih (by simpa [hreset] using h)
        rw [handler_reset _ _ hreset, List.append_nil]
        exact ⟨hresponse, hmem, before, hbefore,
          fun n hn hl => hlen n hn (fun c hc => hl c (by simp [hc]))⟩
      · obtain rfl : b = a := by simpa [hreset] using h
        refine ⟨hreset, ?_, _, rfl, fun n hn hl => ?_⟩
        · simp [messageHandler, hreset]
        · exact dispatch_len ctx l hn (fun c hc => hl c (by simp [hc]))

theorem recv_last {call : Call} (hread : call.read ≠ errWouldBlock) {a : Arrival}
    (h : call.last = some a) (hok : a.message.postponed ∨ Clear ctx call a) :
    (coapRecvResponse call ctx).2.1 = (coapDispatch call.received ctx).1 ∧
      (coapRecvResponse call ctx).1.2 =
        if a.message.postponed then none else some (responseOf a.message) := by
  obtain ⟨hresponse, -, before, hbefore, hlen⟩ := dispatch_some ctx h
  obtain ⟨hcode, htoken, hready⟩ := handler_code before a hresponse
  unfold coapRecvResponse
  simp only [if_neg hread, hbefore, hcode, htoken, hready]
  cases hpostponed : a.message.postponed with
  | true => exact ⟨rfl, rfl⟩
  | false =>
      obtain hp | hclear := hok
      · exact absurd hp (by simp [hpostponed])
      · have hpayload := handler_payload before a hresponse hclear.copied
          (hlen _ hclear.before hclear.others)
        have hfits : toCopy (messageHandler before a).2.payloadLen call.maxLen =
            (messageHandler before a).2.payloadLen := by
          have hle := handler_len before a (hlen _ hclear.before hclear.others) (fun _ => Nat.le_refl _)
          have hmax := hclear.fits
          unfold toCopy
          split
          · rfl
          · omega
        simp [hclear.data, hclear.size, hfits, hpayload, responseOf]

end

theorem matched_of_no_reports (acc : List Pdu) {log : List Entry} (h : reports log = []) :
    Matched acc log ∧ since acc log = acc ++ processed log := by
  induction log generalizing acc with
  | nil => exact ⟨trivial, (List.append_nil acc).symm⟩
  | cons e log ih =>
      cases e with
      | ack m => exact ih acc h
      | processed m =>
          obtain ⟨hmatched, hsince⟩ := ih (acc ++ [m]) h
          refine ⟨hmatched, hsince.trans ?_⟩
          simp [processed]
      | reported r => cases h

theorem matched_step {s : Client} (h : Matched [] s.log) {call : Call} (hok : Ok s call) :
    Matched [] (step s call).log := by
  obtain hread | hlast := hok
  · simpa [step, coapRecvResponse, hread] using h
  · by_cases hread : call.read = errWouldBlock
    · simpa [step, coapRecvResponse, hread] using h
    · have hreports := dispatch_reports s.ctx call.received
      have hentries (acc : List Pdu) := matched_of_no_reports acc hreports
      cases hcall : call.last with
      | none =>
          rw [hcall] at hlast
          have hdispatch := dispatch_none s.ctx call.received hcall
          simpa [step, coapRecvResponse, hread, hdispatch, hlast] using h
      | some a =>
          rw [hcall] at hlast
          obtain ⟨hlog, hreport⟩ := recv_last s.ctx hread hcall hlast
          obtain ⟨-, hmem, -⟩ := dispatch_some s.ctx hcall
          have hprocessed : Matched [] (s.log ++ (coapDispatch call.received s.ctx).1) :=
            (matched_append _ _ _).mpr ⟨h, (hentries _).1⟩
          simp only [step, hlog, hreport]
          split
          · simpa using hprocessed
          · refine (matched_append _ _ _).mpr ⟨hprocessed, ⟨a.message, ?_, rfl⟩, trivial⟩
            rw [since_append, (hentries _).2]
            exact List.mem_append_right _ (List.mem_filterMap.mpr ⟨_, hmem, rfl⟩)

/-- Every response that the client reports, with its payload and the length of it, is that of
one message which was processed since the response before it. -/
theorem responses_matched (calls : List Call) (h : Guarded step Ok initialClient calls) :
    Matched [] (run step initialClient calls).log ∧
      (reports (run step initialClient calls).log).Sublist
        ((processed (run step initialClient calls).log).map responseOf) := by
  have hmatched : Matched [] (run step initialClient calls).log :=
    h.invariant (P := fun s => Matched [] s.log) (fun s call hok hs => matched_step hs hok)
      (show Matched [] [] from trivial)
  exact ⟨hmatched, hmatched.sublist⟩

def answer (text : List UInt8) : Arrival :=
  ⟨⟨.non, coapResponseCode 205, 7, false, false, text⟩, true⟩

def recvWith (received : List Arrival) (payloadSize : Nat) : Call :=
  ⟨errSuccess, received, true, 512, payloadSize⟩

theorem responses_matched_answers :
    Matched [] (run step initialClient [recvWith [answer [52, 50]] 2, recvWith [answer [55]] 1]).log :=
  (responses_matched [recvWith [answer [52, 50]] 2, recvWith [answer [55]] 1] ⟨.inr (.inr
      ⟨rfl, by decide, rfl, fun _ => ⟨by decide, rfl⟩, by decide, by decide⟩), .inr (.inr
      ⟨rfl, by decide, rfl, fun _ => ⟨by decide, rfl⟩, by decide, by decide⟩), trivial⟩).1

/-- A reset behind a response is reported as that response once more, without its payload. -/
theorem reset_reported :
    let calls := [recvWith [answer [52, 50]] 2, recvWith [⟨⟨.rst, 0, 0, false, false, []⟩, true⟩] 0]
    reports (run step initialClient calls).log =
        [responseOf (answer [52, 50]).message, ⟨205, 7, some [], 0⟩] ∧
      processed (run step initialClient calls).log = [(answer [52, 50]).message] ∧
      ¬ Matched [] (run step initialClient calls).log := by
  refine ⟨by decide, by decide, ?_⟩
  rintro ⟨-, ⟨m, hm, -⟩, -⟩
  exact List.not_mem_nil hm

/-- A notification that is shorter than the acknowledged text before it. -/
example : reports (run step initialClient
    [recvWith [⟨⟨.ack, coapResponseCode 205, 7, true, false, [52, 50]⟩, true⟩] 0,
      recvWith [answer [55]] 1]).log = [⟨205, 7, some [55, 50], 1⟩] := by decide

end ErSdk.LibcoapClient
