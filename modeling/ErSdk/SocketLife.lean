import ErSdk.ConnectLock
import ErSdk.SocketLog

namespace ErSdk.SocketLife

open ProtocolClientSm SocketLog Runs Error Relation

variable {R ι W : Type}

/-- A world with the sockets handed out so far, and the log of what was done with them. A socket
is named by its number: each successful call of `socket` returns a new one. -/
structure Recorded (ι W : Type) where
  world : W
  opened : Nat
  log : Log ι

namespace Recorded

def lift {α : Type} (f : W → α × W) (r : Recorded ι W) : α × Recorded ι W :=
  ((f r.world).1, { r with world := (f r.world).2 })

/-- An operation on the socket that is given by what the log holds so far. -/
def note {α : Type} (f : W → α × W) (e : α → Log ι → Event ι) (r : Recorded ι W) :
    α × Recorded ι W :=
  ((f r.world).1, { r with world := (f r.world).2, log := e (f r.world).1 r.log :: r.log })

end Recorded

variable [DecidableEq ι]

/-- The environment of a machine, recorded. Its client sends and receives over the socket that it
was last given. -/
def record (i : ι) (env : Env R W) : Env R (Recorded ι W) where
  systemGetTime := Recorded.lift env.systemGetTime
  memAlloc := Recorded.lift env.memAlloc
  queuePushTail := Recorded.lift env.queuePushTail
  lookup := Recorded.lift env.lookup
  createSocket r :=
    let c := env.createSocket r.world
    if c.1.1 = errSuccess then
      ((errSuccess, r.opened), ⟨c.2, r.opened + 1, ⟨i, .opened, some r.opened⟩ :: r.log⟩)
    else (c.1, { r with world := c.2 })
  connect socket := Recorded.note (env.connect socket)
    (fun result _ => ⟨i, .connecting (result = errSuccess), socket⟩)
  close socket r := { r with
    world := env.close socket r.world, log := ⟨i, .closed, socket⟩ :: r.log }
  setSocket socket r := { r with
    world := env.setSocket socket r.world, log := ⟨i, .given, socket⟩ :: r.log }
  clearSocket r := { r with
    world := env.clearSocket r.world, log := ⟨i, .given, none⟩ :: r.log }
  sendRequest request := Recorded.note (env.sendRequest request)
    (fun _ log => ⟨i, .used, held i log⟩)
  recvResponse response := Recorded.note (env.recvResponse response)
    (fun _ log => ⟨i, .used, held i log⟩)
  clientClose r := { r with world := env.clientClose r.world }
  getResponseStatus code r := env.getResponseStatus code r.world
  clb request response := Recorded.lift (env.clb request response)

def lineOf (sm : ProtocolClientSmClass R) : Line := ⟨sm.socket, sm.connected⟩

def bookOf (s : St R ι (Recorded ι W)) : Book ι := ⟨lineOf s.sm, s.world.opened, s.world.log⟩

section

variable (i : ι) (env : Env R W)

theorem bookOf_stNewTransmit (s : St R ι (Recorded ι W)) :
    bookOf (stNewTransmit (record i env) s) = bookOf s := by
  unfold stNewTransmit
  split
  · rfl
  · split
    · split
      · rfl
      · rfl
    · rfl

theorem bookOf_stTransmitComplete (s : St R ι (Recorded ι W)) :
    bookOf (stTransmitComplete (record i env) s) = bookOf s := by
  unfold stTransmitComplete
  split
  · rfl
  · dsimp only
    split
    · rfl
    · rfl

theorem bookOf_completeIf (c : Bool × St R ι (Recorded ι W)) :
    bookOf (completeIf (record i env) c) = bookOf c.2 := by
  unfold completeIf
  split
  · exact bookOf_stTransmitComplete i env c.2
  · rfl

theorem bookOf_expiredSent (l : List (ProtocolClientRequest R)) (s : St R ι (Recorded ι W)) :
    bookOf (expiredSent (record i env) l s).2 = bookOf s := by
  induction l generalizing s with
  | nil => rfl
  | cons r l ih =>
      rw [expiredSent]
      split
      · exact ih s
      · dsimp only
        split
        · rfl
        · exact ih _

theorem bookOf_checkTimeout (s : St R ι (Recorded ι W)) :
    bookOf (checkTimeout (record i env) s).2 = bookOf s := by
  have hexpired := bookOf_expiredSent i env s.sm.sentRequestList s
  unfold checkTimeout
  dsimp only
  split
  · exact hexpired
  · split
    · exact hexpired
    · exact hexpired
  · exact hexpired

omit [DecidableEq ι] in
theorem bookOf_abortTransfers (s : St R ι (Recorded ι W)) :
    bookOf (abortTransfers s).2 = bookOf s := by
  unfold abortTransfers
  split
  · rfl
  · split
    · rfl
    · rfl
    · rfl
    · rfl

omit [DecidableEq ι] in
theorem bookOf_pairRequestToResponse (s : St R ι (Recorded ι W)) :
    bookOf (pairRequestToResponse s).2 = bookOf s := by
  unfold pairRequestToResponse
  split
  · rfl
  · rfl

theorem stSendRequest_moves {s : St R ι (Recorded ι W)} (h : s.sm.connected = true) :
    Moves i (bookOf s) (bookOf (stSendRequest (record i env) s).2) := by
  unfold stSendRequest
  split
  · exact .refl
  · have huse : Move i (bookOf s) _ := Move.uses h
    dsimp only
    split
    · exact .single huse
    · split
      · split
        · exact .single huse
        · exact .single huse
      · exact .single huse

theorem stRecvResponse_moves {s : St R ι (Recorded ι W)} (h : s.sm.connected = true) :
    Moves i (bookOf s) (bookOf (stRecvResponse (record i env) s).2) := by
  have huse : Move i (bookOf s) _ := Move.uses h
  unfold stRecvResponse
  dsimp only
  split
  · exact .single huse
  · split
    · exact .single huse
    · exact .single huse

theorem connected_stSendRequest (s : St R ι (Recorded ι W)) :
    (stSendRequest (record i env) s).2.sm.connected = s.sm.connected := by
  unfold stSendRequest
  split
  · rfl
  · dsimp only
    split
    · rfl
    · split
      · split
        · rfl
        · rfl
      · rfl

theorem exchange_moves {s : St R ι (Recorded ι W)} (h : s.sm.connected = true) :
    Moves i (bookOf s) (bookOf (exchange (record i env) s).2) := by
  have hsent := stSendRequest_moves i env h
  have hconnected := connected_stSendRequest i env s
  have hrecv : Moves i (bookOf (stSendRequest (record i env) s).2)
      (bookOf (stRecvResponse (record i env) (countFailure (stSendRequest (record i env) s).1
        (stSendRequest (record i env) s).2)).2) :=
    stRecvResponse_moves i env (s := countFailure _ _) (hconnected.trans h)
  unfold exchange
  dsimp only
  split
  · rw [bookOf_pairRequestToResponse]
    exact hsent.trans hrecv
  · exact hsent.trans hrecv

theorem closeSocket_moves {s t : St R ι (Recorded ι W)} (h : bookOf t = bookOf s) :
    Moves i (bookOf s) (bookOf (closeSocket (record i env) t)) := by
  rw [← h]
  unfold closeSocket
  split
  · rename_i hsome
    obtain ⟨k, hk⟩ := Option.isSome_iff_exists.mp hsome
    have hclose : Move i (bookOf t) _ := Move.closes (show (bookOf t).line.socket = some k from hk)
    rw [hk]
    exact .single hclose
  · exact .refl

theorem stReset_moves (s : St R ι (Recorded ι W)) :
    Moves i (bookOf s) (bookOf (stReset (record i env) s).2) := by
  unfold stReset
  dsimp only
  split
  · exact .refl
  · exact closeSocket_moves i env rfl

theorem createSocket_moves {s : St R ι (Recorded ι W)} (h : lineOf s.sm = ⟨none, false⟩) :
    Moves i (bookOf s) (bookOf (ProtocolClientSm.createSocket (record i env) s).2) ∧
      ((ProtocolClientSm.createSocket (record i env) s).1 = errSuccess →
        ∃ k, lineOf (ProtocolClientSm.createSocket (record i env) s).2.sm = ⟨some k, false⟩) := by
  have hconnected : s.sm.connected = false := congrArg Line.connected h
  unfold ProtocolClientSm.createSocket
  dsimp only
  split
  · exact ⟨.refl, fun he => absurd he ‹_›⟩
  · by_cases he : (env.createSocket (env.lookup s.world.world).2).1.1 = errSuccess
    · have hcreate : ((s.call (record i env).lookup).2.call (record i env).createSocket) =
          ((errSuccess, s.world.opened),
            { (s.call (record i env).lookup).2 with
              world := ⟨(env.createSocket (env.lookup s.world.world).2).2, s.world.opened + 1,
                ⟨i, .opened, some s.world.opened⟩ :: s.world.log⟩ }) := by
        simp only [St.call, record, Recorded.lift, he, if_true]
      rw [hcreate, if_neg (fun hne => hne rfl)]
      refine ⟨.single ?_, fun _ => ⟨s.world.opened, ?_⟩⟩
      · have hopen : Move i (bookOf s) _ := Move.opens h
        simpa [bookOf, lineOf, hconnected] using hopen
      · simp [lineOf, hconnected]
    · have hcreate : ((s.call (record i env).lookup).2.call (record i env).createSocket).1.1 ≠
          errSuccess := by
        simp only [St.call, record, Recorded.lift, he, if_false]
        exact he
      have hbook : bookOf ((s.call (record i env).lookup).2.call (record i env).createSocket).2 =
          bookOf s := by
        simp only [St.call, record, Recorded.lift, he, if_false, bookOf]
      rw [if_pos hcreate]
      exact ⟨by rw [hbook], fun hs => absurd hs hcreate⟩

theorem bookOf_startConnecting (s : St R ι (Recorded ι W)) :
    bookOf (startConnecting (record i env) s) = bookOf s := by
  unfold startConnecting
  split
  · rfl
  · rfl

theorem connect_tries {s : St R ι (Recorded ι W)} {k : Socket} (h : lineOf s.sm = ⟨some k, false⟩)
    (he : (s.call ((record i env).connect (some k))).1 ≠ errSuccess) :
    Move i (bookOf s) (bookOf (s.call ((record i env).connect (some k))).2) := by
  have htry : Move i (bookOf s) _ := Move.tries h
  have hresult : decide ((env.connect (some k) s.world.world).1 = errSuccess) = false :=
    decide_eq_false he
  rw [← hresult] at htry
  exact htry

theorem connect_connects {s : St R ι (Recorded ι W)} {k : Socket}
    (h : lineOf s.sm = ⟨some k, false⟩)
    (he : (s.call ((record i env).connect (some k))).1 = errSuccess) :
    Move i (bookOf s) (bookOf (((s.call ((record i env).connect (some k))).2.mapSm
      (fun sm => { sm with connected := true })).exec ((record i env).setSocket (some k)))) := by
  have hresult : decide ((env.connect (some k) s.world.world).1 = errSuccess) = true :=
    decide_eq_true he
  have hsocket : s.sm.socket = some k := congrArg Line.socket h
  change Move i (bookOf s) ⟨⟨s.sm.socket, true⟩, s.world.opened, ⟨i, .given, some k⟩ ::
    ⟨i, .connecting (decide ((env.connect (some k) s.world.world).1 = errSuccess)), some k⟩ ::
      s.world.log⟩
  rw [hresult, hsocket]
  exact Move.connects h

theorem continueConnect_moves {s : St R ι (Recorded ι W)} {k : Socket}
    (h : lineOf s.sm = ⟨some k, false⟩) :
    Moves i (bookOf s) (bookOf (continueConnect (record i env) s).2) ∧
      ((continueConnect (record i env) s).1.next = .transmit →
        (continueConnect (record i env) s).2.sm.connected = true) := by
  have hbook := bookOf_startConnecting i env s
  have hline : lineOf (startConnecting (record i env) s).sm = ⟨some k, false⟩ :=
    (congrArg Book.line hbook).trans h
  have hsocket : (startConnecting (record i env) s).sm.socket = some k := congrArg Line.socket hline
  have htry := connect_tries i env hline
  have hconnect := connect_connects i env hline
  rw [← hbook]
  unfold continueConnect
  dsimp only
  rw [hsocket]
  split
  · rename_i he
    exact ⟨.single (hconnect he), fun _ => rfl⟩
  · rename_i he
    split
    · split
      · split
        · exact ⟨.single (htry he), nofun⟩
        · exact ⟨.single (htry he), nofun⟩
      · exact ⟨.single (htry he), nofun⟩
    · exact ⟨.single (htry he), nofun⟩

/-- st_connect from a socket on: it goes on to transmit only over a connection. -/
theorem connectSocket_moves {s : St R ι (Recorded ι W)} (hs : s.sm.socket.isSome = true) :
    Moves i (bookOf s) (bookOf (connectSocket (record i env) s).2) ∧
      ((connectSocket (record i env) s).1.next = .transmit →
        (connectSocket (record i env) s).2.sm.connected = true) := by
  have hpost (c : Prop) [Decidable c] (t : St R ι (Recorded ι W)) :
      bookOf (if c then connectPost t else t) = bookOf t ∧
        (if c then connectPost t else t).sm = t.sm := by
    split
    · exact ⟨rfl, rfl⟩
    · exact ⟨rfl, rfl⟩
  obtain ⟨k, hk⟩ := Option.isSome_iff_exists.mp hs
  unfold connectSocket
  dsimp only
  rw [(hpost _ _).1, (hpost _ _).2]
  by_cases hc : s.sm.connected = true
  · rw [if_pos hc]
    exact ⟨.refl, fun _ => hc⟩
  · rw [if_neg hc]
    have hline : lineOf s.sm = ⟨some k, false⟩ := by
      unfold lineOf
      rw [hk, Bool.eq_false_iff.mpr hc]
    exact continueConnect_moves i env hline

theorem ensureSocket_moves {s : St R ι (Recorded ι W)}
    (hc : s.sm.connected = true → s.sm.socket.isSome = true) (e : Int) :
    Moves i (bookOf s) (bookOf (ensureSocket (record i env) (e, s)).2) ∧
      ((ensureSocket (record i env) (e, s)).1 = errSuccess →
        (ensureSocket (record i env) (e, s)).2.sm.socket.isSome = true) := by
  unfold ensureSocket
  dsimp only
  cases hs : s.sm.socket with
  | some k => exact ⟨.refl, fun _ => by simp [hs]⟩
  | none =>
      have hconnected : s.sm.connected = false := by
        by_contra h
        have hsome := hc (by simpa using h)
        rw [hs] at hsome
        cases hsome
      have hline : lineOf s.sm = ⟨none, false⟩ := by
        unfold lineOf
        rw [hs, hconnected]
      obtain ⟨hmoves, hline'⟩ := createSocket_moves i env hline
      refine ⟨hmoves, fun he => ?_⟩
      obtain ⟨k, hk⟩ := hline' he
      have hsocket : (ProtocolClientSm.createSocket (record i env) s).2.sm.socket = some k :=
        congrArg Line.socket hk
      exact Option.isSome_iff_exists.mpr ⟨k, hsocket⟩

theorem stConnect_moves (self : ι) {s : St R ι (Recorded ι W)}
    (hc : s.sm.connected = true → s.sm.socket.isSome = true) :
    Moves i (bookOf s) (bookOf (stConnect (record i env) self s).2) ∧
      ((stConnect (record i env) self s).1.next = .transmit →
        (stConnect (record i env) self s).2.sm.connected = true) := by
  have hwait : bookOf (connectWait self s).2 = bookOf s ∧ (connectWait self s).2.sm = s.sm := by
    unfold connectWait
    split
    · exact ⟨rfl, rfl⟩
    · exact ⟨rfl, rfl⟩
  have hensure := ensureSocket_moves i env (s := (connectWait self s).2)
    (by rw [hwait.2]; exact hc) (connectWait self s).1
  rw [hwait.1] at hensure
  unfold stConnect
  dsimp only
  split
  · exact ⟨by rw [hwait.1], nofun⟩
  · split
    · exact ⟨hensure.1, nofun⟩
    · split
      · exact ⟨hensure.1, nofun⟩
      · rename_i he
        have hconnect := connectSocket_moves i env (hensure.2 (by simpa using he))
        exact ⟨hensure.1.trans hconnect.1, hconnect.2⟩

theorem finishTransmit_moves {s t : St R ι (Recorded ι W)} (h : bookOf t = bookOf s)
    (next : SmState) (completed : Bool) :
    Moves i (bookOf s) (bookOf (finishTransmit (record i env) next completed t).2) := by
  unfold finishTransmit
  dsimp only
  split
  · exact closeSocket_moves i env h
  · rw [← h]
    exact .refl

theorem attempt_moves (self : ι) {s : St R ι (Recorded ι W)}
    (hc : s.sm.connected = true → s.sm.socket.isSome = true) :
    Moves i (bookOf s) (bookOf (attempt (record i env) self s).2) ∧
      ((attempt (record i env) self s).1.next = .transmit →
        (attempt (record i env) self s).2.sm.connected = true) := by
  have hbook := bookOf_stNewTransmit i env s
  have hsocket : (stNewTransmit (record i env) s).sm.socket = s.sm.socket :=
    congrArg (fun b => b.line.socket) hbook
  have hconnected : (stNewTransmit (record i env) s).sm.connected = s.sm.connected :=
    congrArg (fun b => b.line.connected) hbook
  have hconnect := stConnect_moves i env self (s := stNewTransmit (record i env) s)
    (by rw [hsocket, hconnected]; exact hc)
  rw [hbook] at hconnect
  exact hconnect

theorem respond_moves (self : ι) {s : St R ι (Recorded ι W)}
    (hc : s.sm.connected = true → s.sm.socket.isSome = true) :
    Moves i (bookOf s) (bookOf (respond (record i env) self s).2) := by
  obtain ⟨hattempt, hconnected⟩ := attempt_moves i env self hc
  unfold respond
  dsimp only
  rw [bookOf_completeIf]
  split
  · exact hattempt.trans (exchange_moves i env (hconnected ‹_›))
  · exact hattempt

theorem stTransmit_moves (self : ι) {s : St R ι (Recorded ι W)}
    (hc : s.sm.connected = true → s.sm.socket.isSome = true) :
    Moves i (bookOf s) (bookOf (stTransmit (record i env) self s).2) := by
  refine (respond_moves i env self hc).trans ?_
  unfold stTransmit
  refine finishTransmit_moves i env ?_ _ _
  rw [bookOf_completeIf, bookOf_abortTransfers, bookOf_completeIf, bookOf_checkTimeout]

theorem task_moves (self : ι) {s : St R ι (Recorded ι W)}
    (hc : s.sm.connected = true → s.sm.socket.isSome = true) :
    Moves i (bookOf s) (bookOf (protocolClientSmTask (record i env) self s)) := by
  have hput (t : St R ι (Recorded ι W)) (next : SmState) :
      bookOf ((t.mapGlobals (fun g => { g with nextState := next })).mapSm
        (fun sm => { sm with state := next })) = bookOf t := rfl
  unfold protocolClientSmTask
  dsimp only
  rw [hput]
  split
  · exact stReset_moves i env s
  · exact stTransmit_moves i env self hc
  · exact .refl
  · exact .refl

end

/-- protocol_client_sm_task if its next_state were a local variable. -/
def localTask (env : Env R W) (self : ι) (s : St R ι W) : St R ι W :=
  let r := match s.sm.state with
    | .reset => stReset env s
    | .transmit => stTransmit env self s
    | .failure => stFailure s
    | .connect => (.reset, s)
  let next := if (r.2.sm.transmitFailures : Int) > r.2.sm.transmissionConfig.transmissionRetries
    then .failure else r.1
  (r.2.mapGlobals (fun g => { g with nextState := next })).mapSm (fun sm => { sm with state := next })

theorem task_local (env : Env R W) (self : ι) {s : St R ι W} (hs : s.sm.state ≠ .connect) :
    protocolClientSmTask env self s = localTask env self s := by
  unfold protocolClientSmTask localTask
  cases h : s.sm.state with
  | reset => rfl
  | transmit => rfl
  | failure => rfl
  | connect => exact absurd h hs

theorem overrideNext_ne (next : SmState) (completed : Bool) (sm : ProtocolClientSmClass R) :
    overrideNext next completed sm ≠ .connect := by
  unfold overrideNext
  split
  · decide
  · split
    · decide
    · assumption

theorem task_state_ne (env : Env R W) (self : ι) {s : St R ι W} (hs : s.sm.state ≠ .connect) :
    (protocolClientSmTask env self s).sm.state ≠ .connect := by
  have hfailures (p : Prop) [Decidable p] {next : SmState} (hn : next ≠ .connect) :
      (if p then .failure else next) ≠ SmState.connect := by
    split
    · decide
    · exact hn
  rw [task_local env self hs]
  unfold localTask
  dsimp only [St.mapSm_sm]
  cases s.sm.state with
  | reset =>
      refine hfailures _ ?_
      unfold stReset
      dsimp only
      split
      · nofun
      · nofun
  | transmit => exact hfailures _ (overrideNext_ne _ _ _)
  | failure => exact hfailures _ (show SmState.reset ≠ .connect by decide)
  | connect => exact hfailures _ (show SmState.reset ≠ .connect by decide)

open ConnectLock

/-- What holds of all machines between two calls. -/
structure Sound (s : System R ι (Recorded ι W)) : Prop where
  states : ∀ i, (s.sms i).state ≠ .connect
  tidy : Tidy (fun i => lineOf (s.sms i)) s.world.opened s.world.log

theorem lines_put (s : System R ι (Recorded ι W)) (i : ι) (t : St R ι (Recorded ι W)) :
    (fun j => lineOf ((s.put i t).sms j)) =
      Function.update (fun j => lineOf (s.sms j)) i (lineOf t.sm) := by
  funext j
  by_cases hj : j = i
  · subst hj
    simp [System.put]
  · simp [System.put, hj]

theorem Sound.put {s : System R ι (Recorded ι W)} (h : Sound s) {i : ι}
    {t : St R ι (Recorded ι W)} (hm : Moves i (bookOf (s.view i)) (bookOf t))
    (ht : t.sm.state ≠ .connect) : Sound (s.put i t) := by
  refine ⟨fun j => ?_, ?_⟩
  · by_cases hj : j = i
    · subst hj
      simpa [System.put] using ht
    · simpa [System.put, hj] using h.states j
  · rw [lines_put]
    exact h.tidy.moves hm

theorem bookOf_transmit (i : ι) (env : Env R W) (type : RequestType) (request : R) (messageId : Int)
    (s : St R ι (Recorded ι W)) :
    let t := (protocolClientSmTransmit (record i env) type request messageId s).2
    bookOf t = bookOf s ∧ t.sm.state = s.sm.state := by
  unfold protocolClientSmTransmit cqueuePushTail
  dsimp only
  split
  · exact ⟨rfl, rfl⟩
  · split
    · split
      · exact ⟨rfl, rfl⟩
      · exact ⟨rfl, rfl⟩
    · exact ⟨rfl, rfl⟩

theorem Sound.step (env : ι → Env R W) (s : System R ι (Recorded ι W)) (a : Action R ι)
    (h : Sound s) : Sound (System.step (fun i => record i (env i)) s a) := by
  cases a with
  | transmit i type request messageId =>
      obtain ⟨hbook, hstate⟩ := bookOf_transmit i (env i) type request messageId (s.view i)
      refine h.put ?_ ?_
      · rw [hbook]
      · rw [hstate]
        exact h.states i
  | clear i =>
      refine h.put ?_ (h.states i)
      exact .refl
  | task i =>
      have hput := h.put (task_moves i (env i) i (s := s.view i) (h.tidy.socket i))
        (task_state_ne (record i (env i)) i (h.states i))
      exact ⟨hput.states, hput.tidy⟩

section

variable (env : ι → Env R W) (config : ι → TransmissionConfig) (rqLimit : ι → Nat)
  (stype : ι → StateMachineType) (response : ι → ProtocolClientResponse)
  (completed : ι → Option (ProtocolClientRequest R)) (startTime : SysTime) (nextState : SmState)
  (heap : Nat) (world : W) (acts : List (Action R ι))

def created : System R ι (Recorded ι W) :=
  System.start (fun i => protocolClientSmNew (config i) (rqLimit i) (stype i) (response i)
    (completed i)) startTime nextState heap ⟨world, 0, []⟩

theorem sound_run : Sound (run (System.step (fun i => record i (env i)))
    (created config rqLimit stype response completed startTime nextState heap world) acts) :=
  Runs.invariant (fun s a h => h.step env s a) acts
    ⟨fun _ => nofun, tidy_start (fun _ => rfl) 0⟩

/-- Between two calls no machine is in the connect state, so that its task would do the same if
next_state were a local variable. A connected machine has a socket, and its client was last given
that one. Clients send and receive only over the connection of their machine. A socket is closed at
most once, and no operation gets it after that. -/
structure SocketsSafe (s : System R ι (Recorded ι W)) : Prop where
  tasks : ∀ i, (s.sms i).state ≠ .connect ∧
    protocolClientSmTask (record i (env i)) i (s.view i) = localTask (record i (env i)) i (s.view i)
  connected : ∀ i, (s.sms i).connected = true →
    ∃ k, (s.sms i).socket = some k ∧ held i s.world.log = some k
  transmits : ∀ i, (s.sms i).state = .transmit →
    (attempt (record i (env i)) i (s.view i)).1.next = .transmit →
    (attempt (record i (env i)) i (s.view i)).2.sm.connected = true
  closed : ∀ later earlier e, s.world.log = later ++ e :: earlier →
    (e.op = .used → ∃ k, e.socket = some k ∧ held e.machine earlier = some k ∧
      connection e.machine earlier = some k) ∧
    (e.op = .closed → ∃ k, e.socket = some k ∧ ∀ d ∈ later, d.socket ≠ some k)

theorem sockets_safe : SocketsSafe env (run (System.step (fun i => record i (env i)))
    (created config rqLimit stype response completed startTime nextState heap world) acts) := by
  have hsound := sound_run env config rqLimit stype response completed startTime nextState heap
    world acts
  generalize run (System.step (fun i => record i (env i)))
    (created config rqLimit stype response completed startTime nextState heap world) acts = s at hsound ⊢
  have htidy : Tidy (fun i => lineOf (s.sms i)) s.world.opened s.world.log := hsound.tidy
  refine ⟨fun i => ⟨hsound.states i, task_local _ i (hsound.states i)⟩, fun i hc => ?_,
    fun i _ => (attempt_moves i (env i) i (htidy.socket i)).2, fun later earlier e hlog => ?_⟩
  · obtain ⟨k, hk⟩ := Option.isSome_iff_exists.mp (htidy.socket i hc)
    refine ⟨k, hk, ?_⟩
    rw [htidy.held i]
    exact (if_pos hc).trans hk
  · have hall : AllFair (later ++ e :: earlier) := hlog ▸ htidy.fair
    have hfair : Fair earlier e := hall.of_append.1
    constructor
    · intro hop
      unfold Fair at hfair
      rw [hop] at hfair
      obtain ⟨k, hk, -, hheld, hconn⟩ := hfair
      exact ⟨k, hk, hheld, hconn⟩
    · intro hop
      unfold Fair at hfair
      rw [hop] at hfair
      obtain ⟨k, hk, -⟩ := hfair
      exact ⟨k, hk, (hall.closed_for_good hop hk).2⟩

end

end ErSdk.SocketLife
