import ErSdk.ConfiguratorServer
import Mathlib.Logic.Function.Iterate

namespace ErSdk.ConfiguratorRounds

open ConfiguratorServer ConfiguratorFields Strings Error

variable {P W : Type}

/-- A relation of worlds that what a round does before its send respects, as long as the
serial number is `sn`. -/
structure Quiet (env : Env P W) (sn : Block) (R : W → W → Prop) : Prop where
  refl : ∀ w, R w w
  trans : ∀ {w w' w''}, R w w' → R w' w'' → R w w''
  malloc : ∀ w, R w (env.malloc w).2
  recv : ∀ socket w, R w (env.recv socket w).2
  onSet : ∀ wifi w, R w (env.onSet wifi w).2
  read : ∀ w, R w (readBlock env sn w).2

section

variable {env : Env P W} {sn : Block} {R : W → W → Prop} (q : Quiet env sn R)

include q

theorem stringNew_quiet (text : List UInt8) (w : W) :
    R w (ConfiguratorServer.stringNew env text w).2 := by
  unfold ConfiguratorServer.stringNew
  dsimp only
  split
  · exact q.trans (q.malloc w) (q.malloc _)
  · exact q.malloc w

theorem stringNewConst_quiet (text : List UInt8) (w : W) :
    R w (ConfiguratorServer.stringNewConst env text w).2 := by
  unfold ConfiguratorServer.stringNewConst
  dsimp only
  split
  · exact q.trans (q.malloc w) (q.malloc _)
  · exact q.malloc w

theorem stringCatcn_quiet (str : StringClass) (text : List UInt8) (w : W) :
    R w (ConfiguratorServer.stringCatcn env str text w).2 := by
  unfold ConfiguratorServer.stringCatcn
  split
  · exact q.malloc w
  · exact q.refl w

theorem stringCatAll_quiet (l : List (List UInt8)) (str : StringClass) (w : W) :
    R w (stringCatAll env l str w).2 := by
  induction l generalizing str w with
  | nil => exact q.refl w
  | cons text l ih =>
      have hcat := stringCatcn_quiet q str text w
      unfold stringCatAll
      dsimp only
      split
      · exact q.trans hcat (ih _ _)
      · exact hcat

theorem responsePayload_quiet (page : PageType) (w : W) :
    R w (responsePayload env sn page w).2 := by
  have hnew := stringNew_quiet q [] w
  unfold responsePayload
  dsimp only
  split
  · exact hnew
  · rename_i str _
    have hopen := q.trans hnew (stringCatAll_quiet q [htmlOpener] str _)
    split
    · exact hopen
    · exact q.trans hopen (q.trans (q.read _) (stringCatAll_quiet q _ _ _))

theorem setResponse_quiet (page : PageType) (w : W) : R w (setResponse env sn page w).2 := by
  have hpayload := responsePayload_quiet q page w
  unfold setResponse
  dsimp only
  split
  · exact hpayload
  · rename_i str _
    have hheader := q.trans hpayload (stringNew_quiet q (responseHeader str.size) _)
    split
    · exact hheader
    · exact q.trans hheader (stringCatAll_quiet q _ _ _)

theorem appendText_quiet (str : Option StringClass) (text : List UInt8) (w : W) :
    R w (appendText env str text w).2 := by
  unfold appendText
  dsimp only
  cases str with
  | some s => exact stringCatcn_quiet q _ _ _
  | none =>
      have hnew := stringNew_quiet q [] w
      split
      · exact hnew
      · exact q.trans hnew (stringCatcn_quiet q _ _ _)

end

structure Receiving (client : ClientSocket P) : Prop where
  response : client.response = none
  closed : client.status ≠ .closed
  sending : client.status ≠ .sendInProgress
  sent : client.status ≠ .responseSent

theorem Receiving.of_status {client : ClientSocket P} (status : ClientStatus)
    (hresponse : client.response = none) (hstatus : client.status = status) (h₁ : status ≠ .closed)
    (h₂ : status ≠ .sendInProgress) (h₃ : status ≠ .responseSent) : Receiving client :=
  ⟨hresponse, hstatus ▸ h₁, hstatus ▸ h₂, hstatus ▸ h₃⟩

/-- What receiving does to a client, which keeps its socket, and to the world. -/
structure Receives (R : W → W → Prop) (c c' : Ctx P W) : Prop where
  socket : c'.client.socket = c.client.socket
  world : R c.world c'.world
  opened : c.client.status ≠ .closed → c'.client.status ≠ .closed
  receiving : Receiving c.client → Receiving c'.client

namespace Receives

variable {env : Env P W} {sn : Block} {R : W → W → Prop} (q : Quiet env sn R) {c c' c'' : Ctx P W}

include q

theorem refl (c : Ctx P W) : Receives R c c := ⟨rfl, q.refl _, id, id⟩

theorem trans (h : Receives R c c') (h' : Receives R c' c'') : Receives R c c'' :=
  ⟨h'.socket.trans h.socket, q.trans h.world h'.world, fun ho => h'.opened (h.opened ho), fun hr => h'.receiving (h.receiving hr)⟩

theorem setStatus {status : ClientStatus} (h₁ : status ≠ .closed) (h₂ : status ≠ .sendInProgress)
    (h₃ : status ≠ .responseSent) : Receives R c (c.setStatus status) :=
  ⟨rfl, q.refl _, fun _ => h₁, fun hr => ⟨hr.response, h₁, h₂, h₃⟩⟩

theorem cleanup : Receives R c (c.mapClient messageCleanup) :=
  ⟨rfl, q.refl _, fun _ => ClientStatus.noConfusion, fun _ => .of_status .opened rfl rfl (by decide) (by decide) (by decide)⟩

end Receives

section

variable {env : Env P W} {sn : Block} {R : W → W → Prop} (q : Quiet env sn R) (c : Ctx P W)

include q

theorem processPair_receives : Receives R c (processPair c) :=
  ⟨rfl, q.refl _, id, fun hr => ⟨hr.response, hr.closed, hr.sending, hr.sent⟩⟩

theorem onMessageBegin_receives : Receives R c (onMessageBegin c) :=
  ⟨rfl, q.refl _, fun _ => ClientStatus.noConfusion, fun _ => .of_status .recvInProgress rfl rfl (by decide) (by decide) (by decide)⟩

theorem onHeadersComplete_receives : Receives R c (onHeadersComplete c) := by
  unfold onHeadersComplete
  split
  · exact .refl q c
  · split
    · exact processPair_receives q c
    · exact .refl q c

theorem onUrl_receives (text : List UInt8) : Receives R c (onUrl env text c) := by
  have hworld := stringNewConst_quiet q text c.world
  unfold onUrl
  split
  · exact .refl q c
  · dsimp only
    split
    · exact ⟨rfl, hworld, id, id⟩
    · exact ⟨rfl, hworld, fun _ => ClientStatus.noConfusion, fun hr =>
        .of_status .httpError hr.response rfl (by decide) (by decide) (by decide)⟩

theorem collect_receives (str : Option StringClass) (text : List UInt8)
    (set : (Bool × Option StringClass) → ClientSocket P → ClientSocket P)
    (hset : ∀ r client, (set r client).socket = client.socket ∧
      (set r client).response = client.response ∧
      (set r client).status = if r.1 then client.status else .httpError) :
    Receives R c ((c.call (appendText env str text)).2.mapClient
      (set (c.call (appendText env str text)).1)) := by
  obtain ⟨hsocket, hresponse, hstatus⟩ :=
    hset (appendText env str text c.world).1 c.client
  have hcases : (set (appendText env str text c.world).1 c.client).status = c.client.status ∨
      (set (appendText env str text c.world).1 c.client).status = .httpError := by
    rw [hstatus]
    split
    · exact .inl rfl
    · exact .inr rfl
  have hopened (ho : c.client.status ≠ .closed) :
      (set (appendText env str text c.world).1 c.client).status ≠ .closed := by
    obtain h | h := hcases
    · exact fun he => ho (h.symm.trans he)
    · exact fun he => ClientStatus.noConfusion (h.symm.trans he)
  refine ⟨hsocket, appendText_quiet q str text c.world, hopened, fun hr => ?_⟩
  refine ⟨hresponse.trans hr.response, hopened hr.closed, ?_, ?_⟩
  · obtain h | h := hcases
    · exact fun he => hr.sending (h.symm.trans he)
    · exact fun he => ClientStatus.noConfusion (h.symm.trans he)
  · obtain h | h := hcases
    · exact fun he => hr.sent (h.symm.trans he)
    · exact fun he => ClientStatus.noConfusion (h.symm.trans he)

theorem onHeaderField_receives (text : List UInt8) :
    Receives R c (onHeaderField env text c) := by
  unfold onHeaderField
  split
  · exact .refl q c
  · have hpair : Receives R c (if c.client.headerValue.isSome then processPair c else c) := by
      split
      · exact processPair_receives q c
      · exact .refl q c
    exact hpair.trans q (collect_receives q _ _ text (fun r client => { client with
      headerField := r.2
      status := if r.1 then client.status else .httpError }) (fun _ _ => ⟨rfl, rfl, rfl⟩))

theorem onHeaderValue_receives (text : List UInt8) :
    Receives R c (onHeaderValue env text c) := by
  unfold onHeaderValue
  split
  · exact .refl q c
  · exact collect_receives q c _ text (fun r client => { client with
      headerValue := r.2
      status := if r.1 then client.status else .httpError }) (fun _ _ => ⟨rfl, rfl, rfl⟩)

theorem onEvent_receives (e : Event) : Receives R c (onEvent env c e) := by
  cases e with
  | messageBegin => exact onMessageBegin_receives q c
  | url text => exact onUrl_receives q c text
  | headerField text => exact onHeaderField_receives q c text
  | headerValue text => exact onHeaderValue_receives q c text
  | headersComplete => exact onHeadersComplete_receives q c
  | body text => exact .refl q c
  | messageComplete => exact .setStatus q (by decide) (by decide) (by decide)

theorem events_receives (l : List Event) : Receives R c (l.foldl (onEvent env) c) := by
  induction l generalizing c with
  | nil => exact .refl q c
  | cons e l ih => exact (onEvent_receives q c e).trans q (ih _)

theorem parseChunk_receives (chunk : List UInt8) :
    Receives R c (parseChunk env chunk c) := by
  have hparser (parser : P) :
      Receives R c (c.mapClient (fun client => { client with parser })) :=
    ⟨rfl, q.refl _, id, fun hr => ⟨hr.response, hr.closed, hr.sending, hr.sent⟩⟩
  have hevents := (hparser (env.httpParserExecute c.client.parser chunk).2).trans q
    (events_receives q _ (env.httpParserExecute c.client.parser chunk).1.1)
  unfold parseChunk
  dsimp only
  split
  · exact hevents.trans q (.cleanup q)
  · exact hevents

theorem receiveTask_receives : Receives R c (receiveTask env c) := by
  have hrecv : Receives R c (c.call (env.recv c.client.socket)).2 := ⟨rfl, q.recv _ _, id, id⟩
  unfold receiveTask
  dsimp only
  split
  · exact hrecv
  · split
    · exact hrecv.trans q (.setStatus q (by decide) (by decide) (by decide))
    · split
      · exact hrecv.trans q (.setStatus q (by decide) (by decide) (by decide))
      · exact hrecv.trans q (parseChunk_receives q _ _)

theorem applySettings_client (clbSet : Bool) :
    (applySettings env clbSet c).2.client = c.client ∧
      R c.world (applySettings env clbSet c).2.world := by
  unfold applySettings
  split
  · exact ⟨rfl, q.onSet _ _⟩
  · exact ⟨rfl, q.refl _⟩

end

def prepare (env : Env P W) (sn : Block) (clbSet : Bool) (c : Ctx P W) : Ctx P W :=
  let c := if c.client.status = .opened ∨ c.client.status = .recvInProgress then receiveTask env c
    else c
  let a := applySettings env clbSet c
  respondTask env sn a.1 a.2

theorem clientTask_eq (env : Env P W) (sn : Block) (clbSet : Bool) (c : Ctx P W) :
    clientTask env sn clbSet c =
      if (prepare env sn clbSet c).client.status = .opened ∨
          (prepare env sn clbSet c).client.status = .sendInProgress then
        sendTask env (prepare env sn clbSet c)
      else prepare env sn clbSet c := rfl

section

variable {env : Env P W} {sn : Block} {R : W → W → Prop} (q : Quiet env sn R) (clbSet : Bool)
  (c : Ctx P W)

include q

/-- What a round does before it sends: a client that does not receive is left alone, and a
response is built with nothing of it sent. -/
theorem prepare_quiet :
    R c.world (prepare env sn clbSet c).world ∧
    (prepare env sn clbSet c).client.socket = c.client.socket ∧
    (c.client.status ≠ .closed → (prepare env sn clbSet c).client.status ≠ .closed) ∧
    (c.client.status ≠ .opened → c.client.status ≠ .recvInProgress →
      c.client.status ≠ .messageRecvd → (prepare env sn clbSet c).client = c.client) ∧
    (Receiving c.client → Receiving (prepare env sn clbSet c).client ∨
      (prepare env sn clbSet c).client.status = .sendInProgress ∧
        (prepare env sn clbSet c).client.sent = 0) := by
  have hreceives : Receives R c (if c.client.status = .opened ∨ c.client.status = .recvInProgress
      then receiveTask env c else c) := by
    split
    · exact receiveTask_receives q c
    · exact .refl q c
  have hkeeps : c.client.status ≠ .opened → c.client.status ≠ .recvInProgress →
      (if c.client.status = .opened ∨ c.client.status = .recvInProgress
        then receiveTask env c else c) = c :=
    fun h₁ h₂ => if_neg (not_or.mpr ⟨h₁, h₂⟩)
  unfold prepare
  dsimp only
  generalize (if c.client.status = .opened ∨ c.client.status = .recvInProgress
    then receiveTask env c else c) = d at hreceives hkeeps ⊢
  obtain ⟨hclient, hworld⟩ := applySettings_client q d clbSet
  generalize applySettings env clbSet d = a at hclient hworld
  unfold respondTask
  split
  · rename_i hstatus
    refine ⟨?_, ?_, fun _ => ClientStatus.noConfusion, ?_, fun _ => .inr ⟨rfl, rfl⟩⟩
    · exact q.trans hreceives.world (q.trans hworld (setResponse_quiet q a.1 a.2.world))
    · exact (congrArg ClientSocket.socket hclient).trans hreceives.socket
    · intro h₁ h₂ h₃
      rw [hclient, hkeeps h₁ h₂] at hstatus
      exact absurd hstatus h₃
  · refine ⟨q.trans hreceives.world hworld, ?_, ?_, ?_, fun hr => .inl ?_⟩
    · rw [hclient]
      exact hreceives.socket
    · rw [hclient]
      exact hreceives.opened
    · intro h₁ h₂ _
      rw [hclient, hkeeps h₁ h₂]
    · rw [hclient]
      exact hreceives.receiving hr

end

structure Silent (env : Env P W) (sn : Block) (R : W → W → Prop) : Prop extends Quiet env sn R where
  serverSocket : ∀ w, R w (env.serverSocket w).2
  accept : ∀ listener w, R w (env.accept listener w).2
  close : ∀ socket w, R w (env.close socket w)
  send : ∀ socket response offset w, R w (env.send socket response offset w).2

/-- A step of the server that respects a relation of worlds and keeps the serial number. -/
structure Keeps (R : W → W → Prop) (s t : St P W) : Prop where
  world : R s.world t.world
  sn : t.server.sn = s.server.sn

section

variable {env : Env P W} {sn : Block} {R : W → W → Prop} (q : Silent env sn R) (s : St P W)

include q

theorem sendTask_silent (c : Ctx P W) : R c.world (sendTask env c).world := by
  unfold sendTask
  split
  · dsimp only
    split
    · exact q.send _ _ _ _
    · split
      · exact q.send _ _ _ _
      · exact q.send _ _ _ _
  · split
    · exact q.refl _
    · exact q.refl _

theorem clientTask_silent (clbSet : Bool) (c : Ctx P W) :
    R c.world (clientTask env sn clbSet c).world := by
  have hprepare := (prepare_quiet q.toQuiet clbSet c).1
  rw [clientTask_eq]
  split
  · exact q.trans hprepare (sendTask_silent q _)
  · exact hprepare

theorem slotTask_silent (h : s.server.sn = sn) (i : Fin maxConfiguratorConnection) :
    Keeps R s (slotTask env s i) := by
  have hclient := clientTask_silent q s.server.clbSet
    ⟨s.server.clientSocket i, s.server.settings, s.world⟩
  rw [← h] at hclient
  unfold slotTask
  dsimp only
  split
  · exact ⟨q.trans hclient (q.close _ _), rfl⟩
  · exact ⟨hclient, rfl⟩

theorem addClientSocket_silent (socket : Nat) : Keeps R s (addClientSocket env socket s).2 := by
  unfold addClientSocket
  split
  · split
    · exact ⟨q.refl _, rfl⟩
    · exact ⟨q.refl _, rfl⟩
  · exact ⟨q.close _ _, rfl⟩

theorem acceptTask_silent : Keeps R s (acceptTask env s) := by
  have hopen : Keeps R s (if s.server.serverSocket.isNone then openServerSocket env s else s) := by
    split
    · exact ⟨q.serverSocket _, rfl⟩
    · exact ⟨q.refl _, rfl⟩
  unfold acceptTask
  dsimp only
  generalize (if s.server.serverSocket.isNone then openServerSocket env s else s) = t at hopen ⊢
  split
  · exact hopen
  · rename_i listener _
    have haccept := q.trans hopen.world (q.accept listener t.world)
    split
    · obtain ⟨hworld, hsn⟩ := addClientSocket_silent q (t.call (env.accept listener)).2
        (t.call (env.accept listener)).1.2
      exact ⟨q.trans haccept hworld, hsn.trans hopen.sn⟩
    · split
      · exact ⟨q.trans haccept (q.close _ _), hopen.sn⟩
      · exact ⟨haccept, hopen.sn⟩

theorem slots_silent (h : s.server.sn = sn) (l : List (Fin maxConfiguratorConnection)) :
    Keeps R s (l.foldl (slotTask env) s) := by
  induction l generalizing s with
  | nil => exact ⟨q.refl _, rfl⟩
  | cons i l ih =>
      obtain ⟨hworld, hsn⟩ := slotTask_silent q s h i
      obtain ⟨hworld', hsn'⟩ := ih _ (hsn.trans h)
      exact ⟨q.trans hworld hworld', hsn'.trans hsn⟩

theorem configuratorServerTask_silent (h : s.server.sn = sn) :
    Keeps R s (configuratorServerTask env s) := by
  obtain ⟨hworld, hsn⟩ := acceptTask_silent q s
  obtain ⟨hworld', hsn'⟩ := slots_silent q (acceptTask env s) (hsn.trans h)
    (List.finRange maxConfiguratorConnection)
  unfold configuratorServerTask
  exact ⟨q.trans hworld hworld', hsn'.trans hsn⟩

theorem tasks_silent (h : s.server.sn = sn) (n : Nat) :
    Keeps R s ((configuratorServerTask env)^[n] s) := by
  induction n generalizing s with
  | zero => exact ⟨q.refl _, rfl⟩
  | succ n ih =>
      obtain ⟨hworld, hsn⟩ := configuratorServerTask_silent q s h
      obtain ⟨hworld', hsn'⟩ := ih _ (hsn.trans h)
      rw [Function.iterate_succ_apply]
      exact ⟨q.trans hworld hworld', hsn'.trans hsn⟩

end

end ErSdk.ConfiguratorRounds
