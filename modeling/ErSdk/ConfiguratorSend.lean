import ErSdk.ConfiguratorSockets
import Mathlib.Data.List.Flatten

namespace ErSdk.ConfiguratorSend

open ConfiguratorServer ConfiguratorRounds ConfiguratorFields ConfiguratorTurns ConfiguratorSockets Strings Runs
  Error

variable {P W : Type}

/-- One call of net_if->send: the buffer of the response, the offset in it, and the result. -/
structure Send where
  response : List UInt8
  offset : Nat
  status : Int
  nbytes : Nat
  deriving DecidableEq

/-- The calls for one client, in their order. -/
def sends (k : Nat) (log : Log) : List Send :=
  log.filterMap (fun e => match e with
    | .sent (some m) response offset status nbytes =>
        if m = k then some ⟨response, offset, status, nbytes⟩ else none
    | _ => none)

/-- nbytes_sent tells what was taken for the two results that the server goes on with. -/
def Send.taken (x : Send) : List UInt8 :=
  if x.status = errSuccess ∨ x.status = errWouldBlock then (x.response.drop x.offset).take x.nbytes
  else []

/-- What the network took of a client's response, in its order. -/
def given (k : Nat) (log : Log) : List UInt8 := (sends k log).flatMap Send.taken

/-- A network takes no more than it is offered. -/
def Contract (env : Env P W) : Prop :=
  ∀ socket response offset w,
    ((env.send socket response offset w).1.1 = errSuccess ∨
      (env.send socket response offset w).1.1 = errWouldBlock) →
    (env.send socket response offset w).1.2 ≤ response.length - offset

section

variable (k : Nat) (log : Log)

@[simp] theorem sends_accepted (n : Nat) : sends k (log ++ [.accepted n]) = sends k log := by
  simp [sends, List.filterMap_append]

@[simp] theorem sends_closed (n : Nat) : sends k (log ++ [.closed n]) = sends k log := by
  simp [sends, List.filterMap_append]

theorem sends_sent (m : Nat) (response : List UInt8) (offset : Nat) (status : Int) (nbytes : Nat) :
    sends k (log ++ [.sent (some m) response offset status nbytes]) =
      sends k log ++ if m = k then [⟨response, offset, status, nbytes⟩] else [] := by
  by_cases h : m = k
  · simp [sends, List.filterMap_append, h]
  · simp [sends, List.filterMap_append, h]

theorem given_sent (response : List UInt8) (offset : Nat) (status : Int) (nbytes : Nat) :
    given k (log ++ [.sent (some k) response offset status nbytes]) =
      given k log ++ Send.taken ⟨response, offset, status, nbytes⟩ := by
  simp [given, sends_sent, List.flatMap_append]

end

/-- The part of the context of a round that its send sees. -/
def roundContext (env : Env P W) (s : St P W) (i : Slot) : Ctx P W :=
  prepare env s.server.sn s.server.clbSet ⟨s.server.clientSocket i, s.server.settings, s.world⟩

def roundResult (env : Env P W) (s : St P W) (i : Slot) : Ctx P W :=
  clientTask env s.server.sn s.server.clbSet ⟨s.server.clientSocket i, s.server.settings, s.world⟩

section

variable (env : Env P W) (s : St P (W × Log))

def Complete : Turn → Prop
  | .accept => True
  | .slot i =>
      let c := roundContext (record env) s i
      c.client.status = .sendInProgress → ∀ response, c.client.response = some response →
        let r := (env.send c.client.socket response.buffer c.client.sent c.world.1).1
        r.1 = errSuccess → r.2 = response.buffer.length - c.client.sent

/-- A round gives the network the next bytes of the response, and reaches RESPONSE_SENT
only when the network has all of them. -/
def Delivers : Turn → Prop
  | .accept => True
  | .slot i => ∀ k, holder s i = some k → ∀ response,
      (roundContext (record env) s i).client.response = some response →
        given k (roundResult (record env) s i).world.2 <+: response.buffer ∧
        ((roundResult (record env) s i).client.status = .responseSent →
          given k (roundResult (record env) s i).world.2 = response.buffer)

end

/-- What was given to the network for a client is a prefix of each response offered for it. -/
def InOrder (log : Log) : Prop := ∀ k, ∀ x ∈ sends k log, given k log <+: x.response

structure Progress (client : ClientSocket P) (log : Log) : Prop where
  unsent : client.response = none → ∀ k, client.socket = some k → sends k log = []
  sent : ∀ response, client.response = some response → client.sent ≤ response.buffer.length ∧
    ∀ k, client.socket = some k → (∀ x ∈ sends k log, x.response = response.buffer) ∧
      given k log = response.buffer.take client.sent

/-- A client between its rounds: it is free, it receives, or its response is being sent. -/
structure Between (client : ClientSocket P) (log : Log) : Prop where
  progress : Progress client log
  idle : client.status = .closed ↔ client.socket = none
  mode : (client.status = .closed ∧ client.response = none) ∨ Receiving client ∨
    (client.status = .sendInProgress ∧ client.response ≠ none)

structure Queues (s : St P (W × Log)) : Prop where
  distinct : ∀ i j n, holder s i = some n → holder s j = some n → i = j
  held : ∀ i n, holder s i = some n → n < accepts s.world.2
  fresh : ∀ n, accepts s.world.2 ≤ n → sends n s.world.2 = []
  slots : ∀ i, Between (s.server.clientSocket i) s.world.2
  order : InOrder s.world.2

section

variable {env : Env P W} {s : St P (W × Log)} {client : ClientSocket P} {log log' : Log}

theorem Progress.congr (h : Progress client log)
    (hsame : ∀ k, client.socket = some k → sends k log' = sends k log) : Progress client log' where
  unsent hnone k hk := by
    rw [hsame k hk]
    exact h.unsent hnone k hk
  sent response hr := by
    obtain ⟨hle, hk⟩ := h.sent response hr
    refine ⟨hle, fun k hs => ?_⟩
    have hgiven : given k log' = given k log := congrArg (List.flatMap Send.taken) (hsame k hs)
    rw [hsame k hs, hgiven]
    exact hk k hs

theorem Between.congr (h : Between client log)
    (hsame : ∀ k, client.socket = some k → sends k log' = sends k log) : Between client log' :=
  ⟨h.progress.congr hsame, h.idle, h.mode⟩

theorem between_free (hstatus : client.status = .closed) (hsocket : client.socket = none)
    (hresponse : client.response = none) : Between client log where
  progress :=
    { unsent _ k hk := by
        rw [hsocket] at hk
        cases hk
      sent response hr := by
        rw [hresponse] at hr
        cases hr }
  idle := ⟨fun _ => hsocket, fun _ => hstatus⟩
  mode := .inl ⟨hstatus, hresponse⟩

theorem InOrder.congr (h : InOrder log) (hsame : ∀ k, sends k log' = sends k log) :
    InOrder log' := by
  intro k x hx
  unfold given
  rw [hsame] at hx ⊢
  exact h k x hx

structure Ready (client : ClientSocket P) (log : Log) : Prop where
  progress : Progress client log
  idle : client.status = .closed ↔ client.socket = none
  mode : (client.status = .closed ∧ client.response = none) ∨ Receiving client ∨
    client.status = .sendInProgress

theorem prepare_ready (sn : Block) (clbSet : Bool) (c : Ctx P (W × Log))
    (h : Between c.client c.world.2) :
    (prepare (record env) sn clbSet c).world.2 = c.world.2 ∧
      (prepare (record env) sn clbSet c).client.socket = c.client.socket ∧
      Ready (prepare (record env) sn clbSet c).client c.world.2 := by
  obtain ⟨hlog, hsocket, hopened, hidle, hreceives⟩ := prepare_cases env sn clbSet c
  refine ⟨hlog, hsocket, ?_⟩
  generalize prepare (record env) sn clbSet c = d at hlog hsocket hopened hidle hreceives ⊢
  rcases h.mode with ⟨hclosed, hnone⟩ | hr | ⟨hsending, hsome⟩
  · have hd : d.client = c.client := hidle (by simp [hclosed]) (by simp [hclosed]) (by simp [hclosed])
    rw [hd]
    exact ⟨h.progress, h.idle, .inl ⟨hclosed, hnone⟩⟩
  · have hunsent := h.progress.unsent hr.response
    have hidle' : d.client.status = .closed ↔ d.client.socket = none := by
      have hsome : c.client.socket ≠ none := fun hn => hr.closed (h.idle.mpr hn)
      rw [hsocket]
      exact ⟨fun hc => absurd hc (hopened hr.closed), fun hn => absurd hn hsome⟩
    rcases hreceives hr with hd | ⟨hsending, hzero⟩
    · refine ⟨⟨fun _ k hk => hunsent k (hsocket ▸ hk), fun response hsome => ?_⟩, hidle', .inr (.inl hd)⟩
      rw [hd.response] at hsome
      cases hsome
    · refine ⟨⟨fun _ k hk => hunsent k (hsocket ▸ hk), fun response _ => ?_⟩, hidle', .inr (.inr hsending)⟩
      rw [hzero]
      refine ⟨Nat.zero_le _, fun k hk => ?_⟩
      have hnil := hunsent k (hsocket ▸ hk)
      unfold given
      rw [hnil]
      exact ⟨fun x hx => absurd hx List.not_mem_nil, rfl⟩
  · have hd : d.client = c.client := hidle (by simp [hsending]) (by simp [hsending]) (by simp [hsending])
    rw [hd]
    exact ⟨h.progress, h.idle, .inr (.inr hsending)⟩

theorem Progress.given_sent (h : Progress client log) {response : StringClass} {k : Nat}
    (hr : client.response = some response) (hk : client.socket = some k) (status : Int) (nbytes : Nat) :
    given k (log ++ [.sent (some k) response.buffer client.sent status nbytes]) =
      response.buffer.take (client.sent +
        if status = errSuccess ∨ status = errWouldBlock then nbytes else 0) := by
  obtain ⟨-, hsent⟩ := h.sent response hr
  rw [ConfiguratorSend.given_sent, (hsent k hk).2]
  unfold Send.taken
  split
  · rw [List.take_add]
  · rw [List.append_nil, Nat.add_zero]

theorem Progress.order_sent (h : Progress client log) (ho : InOrder log) {response : StringClass}
    {k : Nat} (hr : client.response = some response) (hk : client.socket = some k) (status : Int)
    (nbytes : Nat) :
    InOrder (log ++ [.sent (some k) response.buffer client.sent status nbytes]) := by
  intro m x hx
  rw [sends_sent] at hx
  by_cases hm : k = m
  · obtain rfl := hm
    rw [h.given_sent hr hk]
    rw [if_pos rfl, List.mem_append, List.mem_singleton] at hx
    have hresponse : x.response = response.buffer := by
      obtain hx | hx := hx
      · exact (((h.sent response hr).2 k hk).1 x hx)
      · rw [hx]
    rw [hresponse]
    exact List.take_prefix _ _
  · have hsame : given m (log ++ [.sent (some k) response.buffer client.sent status nbytes]) =
        given m log := by
      unfold given
      rw [sends_sent, if_neg hm, List.append_nil]
    rw [if_neg hm, List.append_nil] at hx
    rw [hsame]
    exact ho m x hx

theorem Progress.between_blocked (h : Progress client log) {response : StringClass} {k : Nat}
    (hr : client.response = some response) (hk : client.socket = some k) {nbytes : Nat}
    (hle : nbytes ≤ response.buffer.length - client.sent) :
    Between { client with sent := client.sent + nbytes, status := .sendInProgress }
      (log ++ [.sent (some k) response.buffer client.sent errWouldBlock nbytes]) := by
  refine ⟨⟨fun hnone => ?_, fun r hsome => ?_⟩, ?_, .inr (.inr ⟨rfl, ?_⟩)⟩
  · exact absurd (hr.symm.trans hnone) (by simp)
  · obtain rfl := Option.some.inj (hr.symm.trans hsome)
    obtain ⟨hsent, hgiven⟩ := h.sent response hr
    refine ⟨?_, fun m hm => ?_⟩
    · show client.sent + nbytes ≤ response.buffer.length
      omega
    · obtain rfl := Option.some.inj (hk.symm.trans hm)
      refine ⟨fun x hx => ?_, ?_⟩
      · rw [sends_sent, if_pos rfl, List.mem_append, List.mem_singleton] at hx
        obtain hx | hx := hx
        · exact (hgiven k hk).1 x hx
        · rw [hx]
      · rw [h.given_sent hr hk, if_pos (.inr rfl)]
  · refine ⟨fun hc => ClientStatus.noConfusion hc, fun hn => ?_⟩
    exact absurd (hk.symm.trans hn) (by simp)
  · show client.response ≠ none
    rw [hr]
    simp

end

section

variable {env : Env P W} {s : St P (W × Log)}

/-- What a round does to the client and to the log: nothing is sent, or the next part of
the response is. -/
theorem round_cases (h : Queues s) (i : Slot) :
    let d := roundContext (record env) s i
    let e := roundResult (record env) s i
    d.client.socket = holder s i ∧ e.client.socket = holder s i ∧
    ((e.world.2 = s.world.2 ∧ d.client.response = none ∧
        (Between e.client e.world.2 ∨ finished e.client.status = true)) ∨
      ∃ k response, d.client.socket = some k ∧ d.client.status = .sendInProgress ∧
        d.client.response = some response ∧ Progress d.client s.world.2 ∧
        let r := (env.send d.client.socket response.buffer d.client.sent d.world.1).1
        e.world.2 = s.world.2 ++ [.sent (some k) response.buffer d.client.sent r.1 r.2] ∧
        e.client = if r.1 = errSuccess then { d.client with response := none, status := .responseSent }
          else if r.1 = errWouldBlock then
            { d.client with sent := d.client.sent + r.2, status := .sendInProgress }
          else { d.client with status := .socketError }) := by
  intro d e
  obtain ⟨hlog, hsocket, hready⟩ := prepare_ready s.server.sn s.server.clbSet
    ⟨s.server.clientSocket i, s.server.settings, s.world⟩ (h.slots i)
  have he : e = if d.client.status = .opened ∨ d.client.status = .sendInProgress then
      sendTask (record env) d else d := clientTask_eq _ _ _ _
  have hkeep : (sendTask (record env) d).client.socket = d.client.socket := (sendTask_keeps env d).1
  have hlog : d.world.2 = s.world.2 := hlog
  have hsocket : d.client.socket = holder s i := hsocket
  have hready : Ready d.client s.world.2 := hready
  clear_value d
  refine ⟨hsocket, ?_, ?_⟩
  · rw [he]
    split
    · exact hkeep.trans hsocket
    · exact hsocket
  · rcases hready.mode with ⟨hclosed, hnone⟩ | hr | hsending
    · rw [if_neg (by simp [hclosed])] at he
      rw [he, hlog]
      exact .inl ⟨rfl, hnone, .inl ⟨hready.progress, hready.idle, .inl ⟨hclosed, hnone⟩⟩⟩
    · have hed : e = d := by
        rw [he]
        split
        · rw [sendTask_none env d hr.response, if_neg hr.sending]
        · rfl
      rw [hed, hlog]
      exact .inl ⟨rfl, hr.response, .inl ⟨hready.progress, hready.idle, .inr (.inl hr)⟩⟩
    · rw [if_pos (.inr hsending)] at he
      cases hresponse : d.client.response with
      | none =>
          rw [sendTask_none env d hresponse, if_pos hsending] at he
          rw [he]
          exact .inl ⟨hlog, rfl, .inr rfl⟩
      | some response =>
          have hopen : d.client.socket ≠ none := by
            intro hn
            have hc := hready.idle.mpr hn
            rw [hsending] at hc
            cases hc
          obtain ⟨k, hk⟩ := Option.ne_none_iff_exists'.mp hopen
          obtain ⟨hsent, hclient⟩ := sendTask_some env d hresponse
          refine .inr ⟨k, response, hk, hsending, rfl, hready.progress, ?_, ?_⟩
          · rw [he, hsent, hlog, hk]
          · rw [he, hclient]

theorem delivers_iff (hcontract : Contract env) (h : Queues s) (a : Turn) :
    Complete env s a ↔ Delivers env s a := by
  cases a with
  | accept => exact Iff.rfl
  | slot i =>
      obtain ⟨hdsocket, hesocket, hcases⟩ := round_cases h i
      unfold Complete Delivers
      dsimp only at hcases ⊢
      generalize roundContext (record env) s i = d at hdsocket hcases ⊢
      generalize roundResult (record env) s i = e at hesocket hcases ⊢
      rcases hcases with ⟨-, hnone, -⟩ | ⟨k, response, hk, hsending, hresponse, hprogress, hlog, hclient⟩
      · rw [hnone]
        exact ⟨fun _ _ _ _ hr => (nomatch hr), fun _ _ _ hr => (nomatch hr)⟩
      · have hle := (hprogress.sent response hresponse).1
        have hbound := hcontract d.client.socket response.buffer d.client.sent d.world.1
        have hgiven := hprogress.given_sent hresponse hk
          (env.send d.client.socket response.buffer d.client.sent d.world.1).1.1
          (env.send d.client.socket response.buffer d.client.sent d.world.1).1.2
        rw [← hlog] at hgiven
        have hholder : holder s i = some k := hdsocket.symm.trans hk
        have hsent : e.client.status = .responseSent ↔
            (env.send d.client.socket response.buffer d.client.sent d.world.1).1.1 = errSuccess := by
          rw [hclient]
          split
          · rename_i hs
            exact ⟨fun _ => hs, fun _ => rfl⟩
          · rename_i hs
            refine ⟨fun he => ?_, fun he => absurd he hs⟩
            split at he
            · cases he
            · cases he
        constructor
        · intro hc m hm r hr
          obtain rfl := Option.some.inj (hholder.symm.trans hm)
          obtain rfl := Option.some.inj (hresponse.symm.trans hr)
          rw [hgiven]
          refine ⟨List.take_prefix _ _, fun hs => ?_⟩
          have hs := hsent.mp hs
          rw [if_pos (.inl hs), hc hsending response hresponse hs, Nat.add_sub_cancel' hle,
            List.take_length]
        · intro hd _ r hr hs
          obtain rfl := Option.some.inj (hresponse.symm.trans hr)
          have hall := (hd k hholder response hresponse).2 (hsent.mpr hs)
          rw [hgiven, if_pos (.inl hs)] at hall
          have hlength := congrArg List.length hall
          rw [List.length_take] at hlength
          have hbound := hbound (.inl hs)
          omega

theorem Queues.other (h : Queues s) {i j : Slot} (hne : j ≠ i) {k m : Nat}
    (hk : holder s i = some k) (hm : holder s j = some m) : k ≠ m := by
  rintro rfl
  exact hne (h.distinct j i k hm hk)

theorem Queues.update {t : St P (W × Log)} (h : Queues s) {i : Slot} {client : ClientSocket P}
    (hclients : t.server.clientSocket = Function.update s.server.clientSocket i client)
    (hsocket : client.socket = holder s i ∨ client.socket = none)
    (hbetween : Between client t.world.2) (haccepts : accepts t.world.2 = accepts s.world.2)
    (hsends : ∀ m, holder s i ≠ some m → sends m t.world.2 = sends m s.world.2)
    (horder : InOrder t.world.2) : Queues t := by
  have hholder (j) : holder t j = if j = i then client.socket else holder s j :=
    holder_update (w := s.world) hclients j
  have hkept (j m) (hj : holder t j = some m) : holder s j = some m := by
    rw [hholder] at hj
    split at hj
    · rename_i hji
      rw [hji]
      obtain hs | hs := hsocket
      · rw [← hs, hj]
      · rw [hs] at hj
        cases hj
    · exact hj
  refine ⟨fun j k n hj hk => h.distinct j k n (hkept j n hj) (hkept k n hk),
    fun j n hj => haccepts ▸ h.held j n (hkept j n hj), fun n hn => ?_, fun j => ?_, horder⟩
  · rw [haccepts] at hn
    rw [hsends n (fun hi => Nat.not_lt.mpr hn (h.held i n hi))]
    exact h.fresh n hn
  · by_cases hj : j = i
    · rw [hclients, hj, Function.update_self]
      exact hbetween
    · rw [hclients, Function.update_of_ne hj]
      exact (h.slots j).congr (fun m hm => hsends m (fun hi => h.other hj hi hm rfl))

theorem close_log (socket : Option Nat) (w : W × Log) :
    (∀ m, sends m ((record env).close (socket.map .client) w).2 = sends m w.2) ∧
      accepts ((record env).close (socket.map .client) w).2 = accepts w.2 := by
  cases socket with
  | none => exact ⟨fun _ => rfl, rfl⟩
  | some n => exact ⟨fun m => sends_closed m w.2 n, accepts_closed w.2 n⟩

theorem Queues.finish (h : Queues s) (i : Slot) {e : Ctx P (W × Log)}
    (hround : roundResult (record env) s i = e) (hsocket : e.client.socket = holder s i)
    (hbetween : Between e.client e.world.2 ∨ finished e.client.status = true)
    (haccepts : accepts e.world.2 = accepts s.world.2)
    (hsends : ∀ m, holder s i ≠ some m → sends m e.world.2 = sends m s.world.2)
    (horder : InOrder e.world.2) : Queues (slotTask (record env) s i) := by
  have htask : slotTask (record env) s i =
      let t : St P (W × Log) := ⟨{ s.server with
        clientSocket := Function.update s.server.clientSocket i e.client
        settings := e.settings }, e.world⟩
      if finished e.client.status then closeClientSocket (record env) i t else t := by
    rw [← hround]
    rfl
  rw [htask]
  dsimp only
  split
  · obtain ⟨hsame, hcount⟩ := close_log e.client.socket e.world
    have hclients : (closeClientSocket (record env) i ⟨{ s.server with
          clientSocket := Function.update s.server.clientSocket i e.client
          settings := e.settings }, e.world⟩).server.clientSocket =
        Function.update s.server.clientSocket i
          { messageCleanup e.client with socket := none, status := .closed } := by
      unfold closeClientSocket
      dsimp only
      rw [Function.update_idem, Function.update_self]
    have hworld : (closeClientSocket (record env) i ⟨{ s.server with
          clientSocket := Function.update s.server.clientSocket i e.client
          settings := e.settings }, e.world⟩).world =
        (record env).close (e.client.socket.map .client) e.world := by
      unfold closeClientSocket
      dsimp only
      rw [Function.update_self]
    refine h.update hclients (.inr rfl) (between_free rfl rfl rfl) ?_ (fun m hm => ?_) ?_
    · rw [hworld, hcount, haccepts]
    · rw [hworld, hsame, hsends m hm]
    · rw [hworld]
      exact horder.congr hsame
  · rename_i hnot
    have hb : Between e.client e.world.2 := hbetween.resolve_right hnot
    exact h.update rfl (.inl hsocket) hb haccepts hsends horder

theorem Queues.slot (hcontract : Contract env) (h : Queues s) (i : Slot) :
    Queues (slotTask (record env) s i) := by
  obtain ⟨hdsocket, hesocket, hcases⟩ := round_cases h i
  dsimp only at hcases
  generalize hround : roundResult (record env) s i = e at hesocket hcases
  generalize roundContext (record env) s i = d at hdsocket hcases
  rcases hcases with ⟨hlog, -, hbetween⟩ | ⟨k, response, hk, hsending, hresponse, hprogress, hlog, hclient⟩
  · refine h.finish i hround hesocket hbetween (congrArg accepts hlog) (fun m _ => ?_) ?_
    · exact congrArg (sends m) hlog
    · rw [hlog]
      exact h.order
  · have hbound := hcontract d.client.socket response.buffer d.client.sent d.world.1
    generalize (env.send d.client.socket response.buffer d.client.sent d.world.1).1 = r at *
    refine h.finish i hround hesocket ?_ ?_ (fun m hm => ?_) ?_
    · rw [hclient, hlog]
      split
      · exact .inr rfl
      · split
        · rename_i hblock
          rw [hblock]
          exact .inl (hprogress.between_blocked hresponse hk (hbound (.inr hblock)))
        · exact .inr rfl
    · rw [hlog, accepts_sent]
    · have hne : k ≠ m := by
        rintro rfl
        exact hm (hdsocket.symm.trans hk)
      rw [hlog, sends_sent, if_neg hne, List.append_nil]
    · rw [hlog]
      exact hprogress.order_sent h.order hresponse hk r.1 r.2

theorem Queues.congr {t : St P (W × Log)} (h : Queues s)
    (hclients : t.server.clientSocket = s.server.clientSocket)
    (haccepts : accepts s.world.2 ≤ accepts t.world.2)
    (hsends : ∀ m, sends m t.world.2 = sends m s.world.2) : Queues t := by
  have hholder (j) : holder t j = holder s j := by
    unfold holder
    rw [hclients]
  refine ⟨fun j k n => ?_, fun j n hj => ?_, fun n hn => ?_, fun j => ?_, h.order.congr hsends⟩
  · rw [hholder, hholder]
    exact h.distinct j k n
  · rw [hholder] at hj
    exact Nat.lt_of_lt_of_le (h.held j n hj) haccepts
  · rw [hsends]
    exact h.fresh n (Nat.le_trans haccepts hn)
  · rw [hclients]
    exact (h.slots j).congr (fun m _ => hsends m)

theorem Queues.store {t : St P (W × Log)} (h : Queues s) {i : Slot}
    (hi : (s.server.clientSocket i).status = .closed) (parser : P)
    (hclients : t.server.clientSocket = Function.update s.server.clientSocket i
      { s.server.clientSocket i with socket := some (accepts s.world.2), parser, status := .opened })
    (haccepts : accepts t.world.2 = accepts s.world.2 + 1)
    (hsends : ∀ m, sends m t.world.2 = sends m s.world.2) : Queues t := by
  have hholder (j) : holder t j = if j = i then some (accepts s.world.2) else holder s j :=
    holder_update (w := s.world) hclients j
  have hresponse : (s.server.clientSocket i).response = none := by
    rcases (h.slots i).mode with ⟨-, hnone⟩ | hr | ⟨hsending, -⟩
    · exact hnone
    · exact hr.response
    · rw [hi] at hsending
      cases hsending
  refine ⟨fun j k n hj hk => ?_, fun j n hj => ?_, fun n hn => ?_, fun j => ?_, h.order.congr hsends⟩
  · rw [hholder] at hj hk
    split at hj
    · rename_i hji
      split at hk
      · rename_i hki
        exact hji.trans hki.symm
      · obtain rfl := Option.some.inj hj
        exact absurd (h.held k _ hk) (Nat.lt_irrefl _)
    · split at hk
      · obtain rfl := Option.some.inj hk
        exact absurd (h.held j _ hj) (Nat.lt_irrefl _)
      · exact h.distinct j k n hj hk
  · rw [hholder] at hj
    rw [haccepts]
    split at hj
    · obtain rfl := Option.some.inj hj
      exact Nat.lt_succ_self _
    · exact Nat.lt_succ_of_lt (h.held j n hj)
  · rw [haccepts] at hn
    rw [hsends]
    exact h.fresh n (Nat.le_of_succ_le hn)
  · by_cases hj : j = i
    · rw [hclients, hj, Function.update_self]
      refine ⟨⟨fun _ m hm => ?_, fun r hr => ?_⟩, ?_, .inr (.inl ?_)⟩
      · obtain rfl := Option.some.inj hm
        rw [hsends]
        exact h.fresh _ (Nat.le_refl _)
      · exact absurd (hresponse.symm.trans hr) (by simp)
      · exact ⟨fun hc => ClientStatus.noConfusion hc, fun hn => nomatch hn⟩
      · exact .of_status .opened hresponse rfl (by decide) (by decide) (by decide)
    · rw [hclients, Function.update_of_ne hj]
      exact (h.slots j).congr (fun m _ => hsends m)

theorem Queues.accept (h : Queues s) : Queues (acceptTask (record env) s) := by
  cases ha : accepting (record env) s with
  | none =>
      obtain ⟨hlog, hclients, -⟩ := acceptTask_none ha
      exact h.congr hclients (Nat.le_of_eq (congrArg accepts hlog).symm) (fun m => congrArg (sends m) hlog)
  | some r =>
      obtain ⟨n, t⟩ := r
      obtain ⟨rfl, hlog, hclients, -⟩ := accepting_record ha
      have haccepts : accepts t.world.2 = accepts s.world.2 + 1 := by
        rw [hlog, accepts_accepted]
      have hsends (m) : sends m t.world.2 = sends m s.world.2 := by
        rw [hlog, sends_accepted]
      rw [acceptTask_some ha]
      unfold addClientSocket
      split
      · split
        · rename_i i hfirst
          have hfree : (s.server.clientSocket i).status = .closed := by
            rw [← hclients]
            exact firstClosed_some hfirst
          refine h.store hfree env.httpParserInit ?_ haccepts hsends
          rw [← hclients]
          rfl
        · exact h.congr hclients (Nat.le_of_lt (Nat.lt_of_lt_of_eq (Nat.lt_succ_self _) haccepts.symm)) hsends
      · obtain ⟨hsame, hcount⟩ := close_log (some (accepts s.world.2)) t.world
        refine h.congr hclients ?_ (fun m => ?_)
        · have hle := hcount.trans haccepts
          exact Nat.le_of_lt (Nat.lt_of_lt_of_eq (Nat.lt_succ_self _) hle.symm)
        · exact (hsame m).trans (hsends m)

theorem Queues.turn (hcontract : Contract env) (h : Queues s) (a : Turn) :
    Queues (ConfiguratorTurns.turn (record env) s a) := by
  cases a with
  | accept => exact h.accept
  | slot i => exact h.slot hcontract i

theorem queues_initial (parser : P) (wifi : WifiSettings) (clbSet : Bool) (sn : Block) (world : W) :
    Queues (⟨initialServer parser wifi clbSet sn, (world, [])⟩ : St P (W × Log)) where
  distinct _ _ _ h := nomatch h
  held _ _ h := nomatch h
  fresh _ _ := rfl
  slots _ := between_free rfl rfl rfl
  order _ _ h := nomatch h

/-- On a network that keeps to the contract, what is given to it for a client is at all times
a prefix of the response; a slot reaches RESPONSE_SENT only with all of the response taken
if and only if no send succeeds with less than it was offered. -/
theorem sends_in_order_iff (env : Env P W) (hcontract : Contract env) (parser : P)
    (wifi : WifiSettings) (clbSet : Bool) (sn : Block) (world : W) (n : Nat) :
    (∀ m, InOrder (run (turn (record env)) ⟨initialServer parser wifi clbSet sn, (world, [])⟩
      ((turns n).take m)).world.2) ∧
    (Guarded (turn (record env)) (fun s a => Complete env s a)
        ⟨initialServer parser wifi clbSet sn, (world, [])⟩ (turns n) ↔
      Guarded (turn (record env)) (fun s a => Delivers env s a)
        ⟨initialServer parser wifi clbSet sn, (world, [])⟩ (turns n)) := by
  have hstart := queues_initial parser wifi clbSet sn world
  have hkeep : ∀ (s : St P (W × Log)) (a : Turn), Queues s → Queues (turn (record env) s a) :=
    fun s a h => h.turn hcontract a
  refine ⟨fun m => (Runs.invariant hkeep _ hstart).order, fun hg => ?_, fun hg => ?_⟩
  · exact hg.imp (fun s a _ h => hkeep s a h) (fun s a h hc => (delivers_iff hcontract h a).mp hc) hstart
  · exact hg.imp (fun s a _ h => hkeep s a h) (fun s a h hd => (delivers_iff hcontract h a).mpr hd) hstart

end

/-- A client whose request is complete in each chunk, on a network that takes `take n` of `n`
bytes and reports success. -/
def serving (take : Nat → Nat) : Env Unit Unit where
  serverSocket := fun w => ((errSuccess, 0), w)
  accept := fun _ w => ((errSuccess, 0), w)
  close := fun _ w => w
  recv := fun _ w => ((errSuccess, [0]), w)
  send := fun _ response offset w => ((errSuccess, take (response.length - offset)), w)
  malloc := fun w => (true, w)
  staleText := fun w => ([], w)
  onSet := fun _ w => (errSuccess, w)
  httpParserInit := ()
  httpParserExecute := fun _ chunk => (([.messageComplete], chunk.length), ())

theorem serving_contract {take : Nat → Nat} (h : ∀ n, take n ≤ n) : Contract (serving take) :=
  fun _ _ _ _ _ => h _

theorem sends_in_order_iff_serving :
    Guarded (turn (record (serving id))) (fun s a => Delivers (serving id) s a)
      ⟨initialServer () ⟨.unsecured, [], []⟩ false .null, ((), [])⟩ (turns 1) := by
  have h := sends_in_order_iff (serving id) (serving_contract (fun _ => Nat.le_refl _)) ()
    ⟨.unsecured, [], []⟩ false .null () 1
  exact h.2.mp ⟨trivial, fun _ _ _ _ => rfl, fun _ _ _ _ => rfl, trivial⟩

/-- A network that takes one byte and reports success gets one byte of the response. -/
theorem short_success_ends_response :
    ¬ Guarded (turn (record (serving (min 1)))) (fun s a => Delivers (serving (min 1)) s a)
      ⟨initialServer () ⟨.unsecured, [], []⟩ false .null, ((), [])⟩ (turns 1) := by
  rintro ⟨-, h, -⟩
  let first : Slot := ⟨0, by decide⟩
  let s := turn (record (serving (min 1)))
    ⟨initialServer () ⟨.unsecured, [], []⟩ false .null, ((), [])⟩ .accept
  -- one evaluation of the round for all three
  obtain ⟨hlong, hshort, hdone⟩ :
      (roundContext (record (serving (min 1))) s first).client.response.any
          (fun response => 2 ≤ response.buffer.length) = true ∧
        (given 0 (roundResult (record (serving (min 1))) s first).world.2).length = 1 ∧
        (roundResult (record (serving (min 1))) s first).client.status = .responseSent := by
    decide +kernel
  obtain ⟨response, hresponse, hlength⟩ := (Option.any_eq_true _ _).mp hlong
  have hholder : holder s first = some 0 := by decide
  have h : Delivers (serving (min 1)) s (.slot first) := h
  have hall := (h 0 hholder response hresponse).2 hdone
  rw [hall] at hshort
  have hlength : 2 ≤ response.buffer.length := of_decide_eq_true hlength
  omega

end ErSdk.ConfiguratorSend
