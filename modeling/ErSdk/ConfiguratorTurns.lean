import ErSdk.ConfiguratorRounds
import ErSdk.Runs

namespace ErSdk.ConfiguratorTurns

open ConfiguratorServer ConfiguratorRounds ConfiguratorFields Strings Runs Error

variable {P W : Type}

/-- What the server does with the sockets of its clients. A client is named by its number:
each successful call of accept returns a new one. -/
inductive Entry
  | accepted (n : Nat)
  | sent (socket : Option Nat) (response : List UInt8) (offset : Nat) (status : Int) (nbytes : Nat)
  | closed (n : Nat)
  deriving DecidableEq, Repr

abbrev Log := List Entry

def accepts (log : Log) : Nat := log.countP (fun e => match e with | .accepted _ => true | _ => false)

def closes (n : Nat) (log : Log) : Nat := log.count (.closed n)

/-- An operation that leaves the log alone. -/
def quietly {α : Type} (f : W → α × W) (w : W × Log) : α × (W × Log) :=
  ((f w.1).1, ((f w.1).2, w.2))

def record (env : Env P W) : Env P (W × Log) where
  serverSocket := quietly env.serverSocket
  accept listener w :=
    let r := env.accept listener w.1
    if r.1.1 = errSuccess then
      ((r.1.1, accepts w.2), (r.2, w.2 ++ [.accepted (accepts w.2)]))
    else (r.1, (r.2, w.2))
  close socket w := (env.close socket w.1,
    match socket with
    | some (.client n) => w.2 ++ [.closed n]
    | _ => w.2)
  recv socket := quietly (env.recv socket)
  send socket response offset w :=
    let r := env.send socket response offset w.1
    (r.1, (r.2, w.2 ++ [.sent socket response offset r.1.1 r.1.2]))
  malloc := quietly env.malloc
  staleText := quietly env.staleText
  onSet wifi := quietly (env.onSet wifi)
  httpParserInit := env.httpParserInit
  httpParserExecute := env.httpParserExecute

/-- The accept of a task, and each round of its loop. -/
inductive Turn
  | accept
  | slot (i : Fin maxConfiguratorConnection)
  deriving DecidableEq

def turn (env : Env P W) (s : St P W) : Turn → St P W
  | .accept => acceptTask env s
  | .slot i => slotTask env s i

def taskTurns : List Turn := .accept :: (List.finRange maxConfiguratorConnection).map .slot

def turns (n : Nat) : List Turn := (List.replicate n taskTurns).flatten

theorem configuratorServerTask_eq (env : Env P W) (s : St P W) :
    configuratorServerTask env s = run (turn env) s taskTurns := by
  unfold configuratorServerTask run taskTurns
  rw [List.foldl_cons, List.foldl_map]
  rfl

theorem record_quiet (env : Env P W) (sn : Block) :
    Quiet (record env) sn (fun w w' => w'.2 = w.2) where
  refl _ := rfl
  trans h h' := h'.trans h
  malloc _ := rfl
  recv _ _ := rfl
  onSet _ _ := rfl
  read w := by
    cases sn with
    | null => rfl
    | live text => rfl
    | freed => rfl

section

variable (env : Env P W) (sn : Block) (clbSet : Bool) (c : Ctx P (W × Log))

theorem prepare_cases :
    (prepare (record env) sn clbSet c).world.2 = c.world.2 ∧
    (prepare (record env) sn clbSet c).client.socket = c.client.socket ∧
    (c.client.status ≠ .closed → (prepare (record env) sn clbSet c).client.status ≠ .closed) ∧
    (c.client.status ≠ .opened → c.client.status ≠ .recvInProgress →
      c.client.status ≠ .messageRecvd → (prepare (record env) sn clbSet c).client = c.client) ∧
    (Receiving c.client → Receiving (prepare (record env) sn clbSet c).client ∨
      (prepare (record env) sn clbSet c).client.status = .sendInProgress ∧
        (prepare (record env) sn clbSet c).client.sent = 0) :=
  prepare_quiet (record_quiet env sn) clbSet c

theorem sendTask_none (h : c.client.response = none) :
    sendTask (record env) c =
      if c.client.status = .sendInProgress then c.setStatus .responseSent else c := by
  unfold sendTask
  rw [h]

theorem sendTask_some {response : StringClass} (h : c.client.response = some response) :
    let r := (env.send c.client.socket response.buffer c.client.sent c.world.1).1
    (sendTask (record env) c).world.2 =
        c.world.2 ++ [.sent c.client.socket response.buffer c.client.sent r.1 r.2] ∧
      (sendTask (record env) c).client =
        if r.1 = errSuccess then { c.client with response := none, status := .responseSent }
        else if r.1 = errWouldBlock then
          { c.client with sent := c.client.sent + r.2, status := .sendInProgress }
        else { c.client with status := .socketError } := by
  refine ⟨?_, ?_⟩
  · unfold sendTask
    rw [h]
    dsimp only
    split
    · rfl
    · split
      · rfl
      · rfl
  · unfold sendTask
    rw [h]
    dsimp only
    split
    · rename_i hs
      exact (if_pos hs).symm
    · rename_i hs
      refine Eq.trans ?_ (if_neg hs).symm
      split
      · rename_i hb
        exact (if_pos hb).symm
      · rename_i hb
        exact (if_neg hb).symm

theorem sendTask_keeps :
    (sendTask (record env) c).client.socket = c.client.socket ∧
    (c.client.status ≠ .closed → (sendTask (record env) c).client.status ≠ .closed) ∧
    ((sendTask (record env) c).world.2 = c.world.2 ∨
      ∃ response offset status nbytes, (sendTask (record env) c).world.2 =
        c.world.2 ++ [.sent c.client.socket response offset status nbytes]) := by
  cases h : c.client.response with
  | none =>
      rw [sendTask_none env c h]
      split
      · exact ⟨rfl, fun _ => ClientStatus.noConfusion, .inl rfl⟩
      · exact ⟨rfl, id, .inl rfl⟩
  | some response =>
      obtain ⟨hlog, hclient⟩ := sendTask_some env c h
      rw [hclient]
      refine ⟨?_, fun _ => ?_, .inr ⟨_, _, _, _, hlog⟩⟩
      · split
        · rfl
        · split
          · rfl
          · rfl
      · split
        · exact ClientStatus.noConfusion
        · split
          · exact ClientStatus.noConfusion
          · exact ClientStatus.noConfusion

theorem clientTask_keeps :
    (clientTask (record env) sn clbSet c).client.socket = c.client.socket ∧
    (c.client.status = .closed → (clientTask (record env) sn clbSet c).client = c.client) ∧
    (c.client.status ≠ .closed → (clientTask (record env) sn clbSet c).client.status ≠ .closed) ∧
    ((clientTask (record env) sn clbSet c).world.2 = c.world.2 ∨
      ∃ response offset status nbytes, (clientTask (record env) sn clbSet c).world.2 =
        c.world.2 ++ [.sent c.client.socket response offset status nbytes]) := by
  obtain ⟨hlog, hsocket, hopened, hidle, -⟩ := prepare_cases env sn clbSet c
  rw [clientTask_eq]
  generalize prepare (record env) sn clbSet c = d at hlog hsocket hopened hidle
  have hclosed (hc : c.client.status = .closed) : d.client = c.client := by
    apply hidle
    · simp [hc]
    · simp [hc]
    · simp [hc]
  split
  · rename_i hsends
    obtain ⟨hsocket', hopened', hlog'⟩ := sendTask_keeps env d
    refine ⟨hsocket'.trans hsocket, fun hc => ?_, fun ho => hopened' (hopened ho), ?_⟩
    · rw [hclosed hc, hc] at hsends
      simp at hsends
    · rw [hlog, hsocket] at hlog'
      exact hlog'
  · exact ⟨hsocket, hclosed, hopened, .inl hlog⟩

end

/-- The client that a turn accepts, and the state in which it is added. -/
def accepting (env : Env P W) (s : St P W) : Option (Nat × St P W) :=
  let s := if s.server.serverSocket.isNone then openServerSocket env s else s
  match s.server.serverSocket with
  | none => none
  | some listener =>
      let r := s.call (env.accept listener)
      if r.1.1 = errSuccess then some (r.1.2, r.2) else none

theorem acceptTask_some {env : Env P W} {s t : St P W} {n : Nat}
    (h : accepting env s = some (n, t)) : acceptTask env s = (addClientSocket env n t).2 := by
  unfold accepting at h
  unfold acceptTask
  dsimp only at h ⊢
  generalize (if s.server.serverSocket.isNone then openServerSocket env s else s) = u at *
  obtain hl | ⟨listener, hl⟩ := Option.eq_none_or_eq_some u.server.serverSocket
  · simp only [hl, reduceCtorEq] at h
  · simp only [hl] at h ⊢
    split at h
    · rename_i hs
      obtain ⟨rfl, rfl⟩ := Prod.mk.inj (Option.some.inj h)
      rw [if_pos hs]
    · cases h

theorem open_record (env : Env P W) (s : St P (W × Log)) :
    (openServerSocket (record env) s).world.2 = s.world.2 ∧
      (openServerSocket (record env) s).server.clientSocket = s.server.clientSocket ∧
      (openServerSocket (record env) s).server.connections = s.server.connections := ⟨rfl, rfl, rfl⟩

theorem listening_record (env : Env P W) (s : St P (W × Log)) :
    let t := if s.server.serverSocket.isNone then openServerSocket (record env) s else s
    t.world.2 = s.world.2 ∧ t.server.clientSocket = s.server.clientSocket ∧
      t.server.connections = s.server.connections := by
  dsimp only
  split
  · exact open_record env s
  · exact ⟨rfl, rfl, rfl⟩

theorem accepting_record {env : Env P W} {s t : St P (W × Log)} {n : Nat}
    (h : accepting (record env) s = some (n, t)) :
    n = accepts s.world.2 ∧ t.world.2 = s.world.2 ++ [.accepted n] ∧
      t.server.clientSocket = s.server.clientSocket ∧
      t.server.connections = s.server.connections := by
  obtain ⟨hlog, hclients, hcount⟩ := listening_record env s
  unfold accepting at h
  dsimp only at h hlog hclients hcount
  generalize (if s.server.serverSocket.isNone then openServerSocket (record env) s else s) = u at *
  split at h
  · cases h
  · rename_i listener hl
    split at h
    · rename_i hs
      have hs : (env.accept listener u.world.1).1.1 = errSuccess := by
        by_contra hne
        simp [St.call, record, hne] at hs
      obtain ⟨rfl, rfl⟩ := Prod.mk.inj (Option.some.inj h)
      simp only [St.call, record, hs, if_true, hlog]
      exact ⟨trivial, trivial, hclients, hcount⟩
    · cases h

theorem acceptTask_none {env : Env P W} {s : St P (W × Log)}
    (h : accepting (record env) s = none) :
    (acceptTask (record env) s).world.2 = s.world.2 ∧
      (acceptTask (record env) s).server.clientSocket = s.server.clientSocket ∧
      (acceptTask (record env) s).server.connections = s.server.connections := by
  obtain ⟨hlog, hclients, hcount⟩ := listening_record env s
  unfold accepting at h
  unfold acceptTask
  dsimp only at h hlog hclients hcount ⊢
  generalize (if s.server.serverSocket.isNone then openServerSocket (record env) s else s) = u at *
  obtain hl | ⟨listener, hl⟩ := Option.eq_none_or_eq_some u.server.serverSocket
  · simp only [hl]
    exact ⟨hlog, hclients, hcount⟩
  · simp only [hl] at h ⊢
    split at h
    · cases h
    · rename_i hs
      have hlog' : (u.call ((record env).accept listener)).2.world.2 = s.world.2 := by
        by_cases hne : (env.accept listener u.world.1).1.1 = errSuccess
        · exact absurd (by simp [St.call, record, hne]) hs
        · simpa [St.call, record, hne] using hlog
      rw [if_neg hs]
      split
      · refine ⟨?_, hclients, hcount⟩
        rw [← hlog']
        show (match (u.server.serverSocket.map Socket.listener) with
          | some (.client n) => _
          | _ => _) = _
        rw [hl]
        rfl
      · exact ⟨hlog', hclients, hcount⟩

end ErSdk.ConfiguratorTurns
