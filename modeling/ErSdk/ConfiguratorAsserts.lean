import ErSdk.ConfiguratorRounds
import ErSdk.Runs

namespace ErSdk.ConfiguratorAsserts

open ConfiguratorServer ConfiguratorRounds ConfiguratorFields Runs Error

variable {P W : Type}

section

variable (env : Env P W)

/-- add_client_socket with its assertion: `none` where one fails. -/
def checkedAddClientSocket (socket : Nat) (s : St P W) : Option (Int × St P W) := do
  if s.server.connections ≤ maxConfiguratorConnection then
    match firstClosed s.server with
    | some i => guard ((s.server.clientSocket i).socket = none)
    | none => pure ()
  pure (addClientSocket env socket s)

def checkedCloseClientSocket (i : Fin maxConfiguratorConnection) (s : St P W) :
    Option (St P W) := do
  guard ((s.server.clientSocket i).status ≠ .closed)
  guard ((s.server.clientSocket i).socket ≠ none)
  pure (closeClientSocket env i s)

def checkedReceiveTask (c : Ctx P W) : Option (Ctx P W) := do
  guard (c.client.socket ≠ none)
  pure (receiveTask env c)

def checkedSendTask (c : Ctx P W) : Option (Ctx P W) := do
  guard (c.client.socket ≠ none)
  guard (c.client.status = .opened ∨ c.client.status = .sendInProgress)
  pure (sendTask env c)

/-- set_response is called without a pending response. -/
def checkedRespondTask (sn : Block) (page : PageType) (c : Ctx P W) : Option (Ctx P W) := do
  if c.client.status = .messageRecvd then guard (c.client.response.isNone)
  pure (respondTask env sn page c)

def checkedClientTask (sn : Block) (clbSet : Bool) (c : Ctx P W) : Option (Ctx P W) := do
  let c ← (if c.client.status = .opened ∨ c.client.status = .recvInProgress then
      checkedReceiveTask env c
    else pure c)
  let a := applySettings env clbSet c
  let c ← checkedRespondTask env sn a.1 a.2
  if c.client.status = .opened ∨ c.client.status = .sendInProgress then checkedSendTask env c
  else pure c

def checkedAcceptTask (s : St P W) : Option (St P W) :=
  let s := if s.server.serverSocket.isNone then openServerSocket env s else s
  match s.server.serverSocket with
  | none => pure s
  | some listener =>
      let r := s.call (env.accept listener)
      if r.1.1 = errSuccess then (checkedAddClientSocket env r.1.2 r.2).map Prod.snd
      else if r.1.1 ≠ errWouldBlock then pure (closeServerSocket env r.2)
      else pure r.2

def checkedSlotTask (s : St P W) (i : Fin maxConfiguratorConnection) : Option (St P W) := do
  let c ← checkedClientTask env s.server.sn s.server.clbSet
    ⟨s.server.clientSocket i, s.server.settings, s.world⟩
  let server := { s.server with
    clientSocket := Function.update s.server.clientSocket i c.client
    settings := c.settings }
  let t : St P W := ⟨server, c.world⟩
  if finished c.client.status then checkedCloseClientSocket env i t else pure t

/-- configurator_server_task with the assertions of the functions that it calls. -/
def checkedServerTask (s : St P W) : Option (St P W) := do
  let s ← checkedAcceptTask env s
  (List.finRange maxConfiguratorConnection).foldlM (checkedSlotTask env) s

end

/-- The task, and what a start or a stop of the server writes. -/
inductive Call
  | task
  | configure (clbSet : Bool) (sn : Block)

def step (env : Env P W) (s : St P W) : Call → St P W
  | .task => configuratorServerTask env s
  | .configure clbSet sn => s.mapServer (fun server => { server with clbSet, sn })

def checkedStep (env : Env P W) (s : St P W) : Call → Option (St P W)
  | .task => checkedServerTask env s
  | .configure clbSet sn => some (step env s (.configure clbSet sn))

structure Slot (client : ClientSocket P) : Prop where
  socket : client.status = .closed ↔ client.socket = none
  response : client.response ≠ none → client.status = .sendInProgress
  status : client.status ∈ [.closed, .opened, .recvInProgress, .httpError, .sendInProgress]

def Slots (s : St P W) : Prop := ∀ i, Slot (s.server.clientSocket i)

/-- A slot within a round, before the response is sent. -/
structure Held (client : ClientSocket P) : Prop where
  socket : client.status = .closed ↔ client.socket = none
  response : client.response ≠ none → client.status = .sendInProgress
  sent : client.status ≠ .responseSent

theorem quiet_true (env : Env P W) (sn : Block) : Quiet env sn (fun _ _ => True) :=
  ⟨fun _ => trivial, fun _ _ => trivial, fun _ => trivial, fun _ _ => trivial, fun _ _ => trivial,
    fun _ => trivial⟩

theorem Slot.held {client : ClientSocket P} (h : Slot client) : Held client where
  socket := h.socket
  response := h.response
  sent hs := absurd (hs ▸ h.status) (by decide)

section

variable {env : Env P W} {c : Ctx P W}

theorem checkedReceiveTask_some (h : Held c.client)
    (hstatus : c.client.status = .opened ∨ c.client.status = .recvInProgress) :
    checkedReceiveTask env c = some (receiveTask env c) ∧ Held (receiveTask env c).client := by
  have hopen : c.client.status ≠ .closed := by
    rcases hstatus with hs | hs <;> rw [hs] <;> decide
  have hsending : c.client.status ≠ .sendInProgress := by
    rcases hstatus with hs | hs <;> rw [hs] <;> decide
  have hsocket : c.client.socket ≠ none := fun hn => hopen (h.socket.mpr hn)
  have hnone : c.client.response = none := by
    by_contra hne
    exact hsending (h.response hne)
  have hreceives := receiveTask_receives (quiet_true env .null) c
  have hreceiving := hreceives.receiving ⟨hnone, hopen, hsending, h.sent⟩
  refine ⟨?_, ?_, fun hne => absurd hreceiving.response hne, hreceiving.sent⟩
  · simp [checkedReceiveTask, guard, hsocket]
  · rw [hreceives.socket]
    exact iff_of_false hreceiving.closed hsocket

theorem checkedRespondTask_some (h : Held c.client) (sn : Block) (page : PageType) :
    checkedRespondTask env sn page c = some (respondTask env sn page c) ∧
      Held (respondTask env sn page c).client ∧
      (respondTask env sn page c).client.status ≠ .messageRecvd := by
  unfold checkedRespondTask respondTask
  by_cases hs : c.client.status = .messageRecvd
  · have hnone : c.client.response = none := by
      by_contra hne
      exact ClientStatus.noConfusion (hs.symm.trans (h.response hne))
    have hsocket : c.client.socket ≠ none := by
      rw [ne_eq, ← h.socket, hs]
      decide
    rw [if_pos hs, if_pos hs]
    refine ⟨by simp [guard, hnone], ⟨?_, fun _ => rfl, by simp [Ctx.mapClient]⟩,
      by simp [Ctx.mapClient]⟩
    exact iff_of_false (by simp [Ctx.mapClient]) hsocket
  · rw [if_neg hs, if_neg hs]
    exact ⟨rfl, h, hs⟩

theorem sendTask_cases (env : Env P W) (c : Ctx P W) :
    (sendTask env c).client.socket = c.client.socket ∧
    ((sendTask env c).client = c.client ∧ c.client.response = none ∧
        c.client.status ≠ .sendInProgress ∨
      (sendTask env c).client.status = .sendInProgress ∨
      finished (sendTask env c).client.status = true) := by
  unfold sendTask
  cases hr : c.client.response with
  | none =>
      dsimp only
      by_cases hs : c.client.status = .sendInProgress
      · rw [if_pos hs]
        exact ⟨rfl, .inr (.inr rfl)⟩
      · rw [if_neg hs]
        exact ⟨rfl, .inl ⟨rfl, rfl, hs⟩⟩
  | some response =>
      dsimp only
      split
      · exact ⟨rfl, .inr (.inr rfl)⟩
      · split
        · exact ⟨rfl, .inr (.inl rfl)⟩
        · exact ⟨rfl, .inr (.inr rfl)⟩

theorem checkedReceiveStage_some (env : Env P W) (h : Slot c.client) :
    ∃ d, (if c.client.status = .opened ∨ c.client.status = .recvInProgress then
        checkedReceiveTask env c else pure c) = some d ∧
      (if c.client.status = .opened ∨ c.client.status = .recvInProgress then receiveTask env c
        else c) = d ∧ Held d.client := by
  by_cases hs : c.client.status = .opened ∨ c.client.status = .recvInProgress
  · obtain ⟨hchecked, hheld⟩ := checkedReceiveTask_some h.held hs
    exact ⟨_, (if_pos hs).trans hchecked, if_pos hs, hheld⟩
  · exact ⟨c, if_neg hs, if_neg hs, h.held⟩

/-- What a round may leave: a slot that is in order, or one that is to be closed. -/
structure Left (client : ClientSocket P) : Prop where
  close : finished client.status = true → client.socket ≠ none
  slot : finished client.status = false → Slot client

theorem checkedSendStage_some (env : Env P W) (h : Held c.client)
    (hrecvd : c.client.status ≠ .messageRecvd) :
    ∃ d, (if c.client.status = .opened ∨ c.client.status = .sendInProgress then
        checkedSendTask env c else pure c) = some d ∧
      (if c.client.status = .opened ∨ c.client.status = .sendInProgress then sendTask env c
        else c) = d ∧ Left d.client := by
  by_cases hs : c.client.status = .opened ∨ c.client.status = .sendInProgress
  · have hsocket : c.client.socket ≠ none := by
      rw [ne_eq, ← h.socket]
      rcases hs with hs | hs <;> rw [hs] <;> decide
    have hchecked : checkedSendTask env c = some (sendTask env c) := by
      simp [checkedSendTask, guard, hsocket, hs]
    refine ⟨_, (if_pos hs).trans hchecked, if_pos hs, ?_⟩
    obtain ⟨hkeeps, ⟨hclient, hnone, hsending⟩ | hsent | hfinished⟩ := sendTask_cases env c
    · have hopened := hs.resolve_right hsending
      rw [hclient]
      refine ⟨fun _ => hsocket, fun _ => ⟨h.socket, h.response, ?_⟩⟩
      simp [hopened]
    · refine ⟨fun _ => hkeeps ▸ hsocket, fun _ => ⟨?_, fun _ => hsent, by simp [hsent]⟩⟩
      rw [hsent, hkeeps]
      exact iff_of_false (by decide) hsocket
    · exact ⟨fun _ => hkeeps ▸ hsocket, fun hnot => absurd (hfinished.symm.trans hnot) (by decide)⟩
  · refine ⟨c, if_neg hs, if_neg hs, ⟨fun hf hn => ?_, fun hf => ⟨h.socket, h.response, ?_⟩⟩⟩
    · rw [h.socket.mpr hn] at hf
      cases hf
    · have hsent := h.sent
      revert hs hrecvd hf hsent
      cases c.client.status <;> decide

theorem checkedClientTask_some (h : Slot c.client) (sn : Block) (clbSet : Bool) :
    checkedClientTask env sn clbSet c = some (clientTask env sn clbSet c) ∧
      Left (clientTask env sn clbSet c).client := by
  obtain ⟨d, hchecked, hd, hheld⟩ := checkedReceiveStage_some env h
  have hclient := (applySettings_client (quiet_true env sn) d clbSet).1
  have hheld' : Held (applySettings env clbSet d).2.client := hclient ▸ hheld
  obtain ⟨hrespond, hheld'', hrecvd⟩ := @checkedRespondTask_some _ _ env _ hheld' sn
    (applySettings env clbSet d).1
  obtain ⟨f, hsend, hf, hleft⟩ := checkedSendStage_some env hheld'' hrecvd
  have hclientTask : clientTask env sn clbSet c = f := by
    unfold clientTask
    dsimp only
    rw [hd]
    exact hf
  rw [hclientTask]
  refine ⟨?_, hleft⟩
  unfold checkedClientTask
  dsimp only
  rw [hchecked, Option.bind_eq_bind, Option.bind_some, hrespond, Option.bind_some]
  exact hsend

end

section

variable (env : Env P W) {s : St P W}

theorem Slots.update (h : Slots s) {t : St P W} (i : Fin maxConfiguratorConnection)
    (client : ClientSocket P) (hclient : Slot client)
    (ht : t.server.clientSocket = Function.update s.server.clientSocket i client) : Slots t := by
  intro j
  rw [ht]
  by_cases hj : j = i
  · rw [hj, Function.update_self]
    exact hclient
  · rw [Function.update_of_ne hj]
    exact h j

theorem checkedSlotTask_some (i : Fin maxConfiguratorConnection) (h : Slots s) :
    checkedSlotTask env s i = some (slotTask env s i) ∧ Slots (slotTask env s i) := by
  obtain ⟨hchecked, hleft⟩ := @checkedClientTask_some _ _ env
    ⟨s.server.clientSocket i, s.server.settings, s.world⟩ (h i) s.server.sn s.server.clbSet
  unfold checkedSlotTask slotTask
  rw [hchecked, Option.bind_eq_bind, Option.bind_some]
  dsimp only
  generalize clientTask env s.server.sn s.server.clbSet
    ⟨s.server.clientSocket i, s.server.settings, s.world⟩ = c at hleft ⊢
  by_cases hf : finished c.client.status = true
  · rw [if_pos hf, if_pos hf]
    have hstatus : c.client.status ≠ .closed := by
      intro hc
      rw [hc] at hf
      cases hf
    refine ⟨?_, ?_⟩
    · simp [checkedCloseClientSocket, guard, hstatus, hleft.close hf]
    · refine h.update i { messageCleanup c.client with socket := none, status := .closed }
        ⟨iff_of_true rfl rfl, fun hne => absurd rfl hne, by simp⟩ ?_
      simp [closeClientSocket]
  · rw [if_neg hf, if_neg hf]
    exact ⟨rfl, h.update i c.client (hleft.slot (Bool.eq_false_iff.mpr hf)) rfl⟩

theorem checkedAddClientSocket_some (socket : Nat) (h : Slots s) :
    checkedAddClientSocket env socket s = some (addClientSocket env socket s) ∧
      Slots (addClientSocket env socket s).2 := by
  unfold checkedAddClientSocket addClientSocket
  by_cases hroom : s.server.connections ≤ maxConfiguratorConnection
  · rw [if_pos hroom, if_pos hroom]
    cases hfirst : firstClosed s.server with
    | none => exact ⟨rfl, h⟩
    | some i =>
        have hclosed := firstClosed_some hfirst
        have hslot := h i
        have hnone := hslot.socket.mp hclosed
        refine ⟨by simp [guard, hnone], ?_⟩
        refine h.update i { s.server.clientSocket i with
          socket := some socket, parser := env.httpParserInit, status := .opened } ⟨?_, ?_, ?_⟩ rfl
        · exact iff_of_false nofun nofun
        · intro hne
          exact ClientStatus.noConfusion (hclosed.symm.trans (hslot.response hne))
        · simp
  · rw [if_neg hroom, if_neg hroom]
    exact ⟨rfl, h⟩

theorem checkedAcceptTask_some (h : Slots s) :
    checkedAcceptTask env s = some (acceptTask env s) ∧ Slots (acceptTask env s) := by
  have hopen : Slots (if s.server.serverSocket.isNone then openServerSocket env s else s) := by
    split
    · exact h
    · exact h
  unfold checkedAcceptTask acceptTask
  dsimp only
  generalize (if s.server.serverSocket.isNone then openServerSocket env s else s) = t at hopen ⊢
  cases t.server.serverSocket with
  | none => exact ⟨rfl, hopen⟩
  | some listener =>
      dsimp only
      have hcall : Slots (t.call (env.accept listener)).2 := hopen
      by_cases hs : (t.call (env.accept listener)).1.1 = errSuccess
      · obtain ⟨hchecked, hslots⟩ := checkedAddClientSocket_some env
          (t.call (env.accept listener)).1.2 hcall
        rw [if_pos hs, if_pos hs, hchecked]
        exact ⟨rfl, hslots⟩
      · rw [if_neg hs, if_neg hs]
        by_cases hb : (t.call (env.accept listener)).1.1 ≠ errWouldBlock
        · rw [if_pos hb, if_pos hb]
          exact ⟨rfl, hcall⟩
        · rw [if_neg hb, if_neg hb]
          exact ⟨rfl, hcall⟩

theorem checkedServerTask_some (h : Slots s) :
    checkedServerTask env s = some (configuratorServerTask env s) ∧
      Slots (configuratorServerTask env s) := by
  obtain ⟨haccept, hslots⟩ := checkedAcceptTask_some env h
  unfold checkedServerTask
  rw [haccept]
  exact checked_run (fun s i h => checkedSlotTask_some env i h) _ hslots

theorem checkedStep_some (a : Call) (h : Slots s) :
    checkedStep env s a = some (step env s a) ∧ Slots (step env s a) := by
  cases a with
  | task => exact checkedServerTask_some env h
  | configure clbSet sn => exact ⟨rfl, h⟩

end

/-- After any sequence of tasks, starts and stops every slot is in order, and no assertion has
failed on the way. -/
theorem slots_in_order (env : Env P W) (parser : P) (wifi : WifiSettings) (clbSet : Bool) (sn : Block)
    (world : W) (calls : List Call) :
    Slots (run (step env) ⟨initialServer parser wifi clbSet sn, world⟩ calls) ∧
      calls.foldlM (checkedStep env) ⟨initialServer parser wifi clbSet sn, world⟩ =
        some (run (step env) ⟨initialServer parser wifi clbSet sn, world⟩ calls) := by
  have hinitial : Slots (⟨initialServer parser wifi clbSet sn, world⟩ : St P W) :=
    fun _ => ⟨iff_of_true rfl rfl, fun hne => absurd rfl hne, by simp [initialServer]⟩
  exact (checked_run (fun s a h => checkedStep_some env a h) calls hinitial).symm

end ErSdk.ConfiguratorAsserts
