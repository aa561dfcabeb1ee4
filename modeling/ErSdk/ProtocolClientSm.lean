import ErSdk.Basic

namespace ErSdk.ProtocolClientSm

open Error

inductive SmState
  | reset
  | connect
  | transmit
  | failure
  deriving DecidableEq, Repr

inductive StateMachineType
  | synch
  | asynch
  deriving DecidableEq, Repr

inductive RequestType
  | normal
  | subscribe
  | subscribeAsynch
  deriving DecidableEq, Repr

abbrev Socket := Nat

def maxResponseTimeoutPerSession : Nat := 5

def maxPayloadSize : Nat := 512

def noRequestLimit : Nat := 0

/-- `request` stands for the two pointers request and request_args of the source.
The address of the block identifies a request: no address is handed out twice. -/
structure ProtocolClientRequest (R : Type) where
  addr : Nat
  type : RequestType
  request : R
  startOfTransmit : SysTime
  messageId : Int
  deriving DecidableEq, Repr

structure ProtocolClientResponse where
  payload : List UInt8
  maxPayloadSize : Nat
  payloadSize : Nat
  responseCode : Int
  id : Int
  requestType : RequestType
  status : Bool
  deriving DecidableEq, Repr

structure TransmissionConfig where
  connectRetries : Int
  transmissionRetries : Int
  connectTimeout : SysTime
  transmissionTimeout : SysTime
  protocolClientSmQueueSize : Nat
  deriving DecidableEq, Repr

/-- One state machine. The lists hold what the linked queue and the linked list
of the source hold, head first. -/
structure ProtocolClientSmClass (R : Type) where
  connected : Bool
  alwaysDisconnect : Bool
  socket : Option Socket
  transferQueue : List (ProtocolClientRequest R)
  sentRequestList : List (ProtocolClientRequest R)
  sentRequestNum : Nat
  paralellRequestLimit : Nat
  activeRequest : Option (ProtocolClientRequest R)
  completedRequest : Option (ProtocolClientRequest R)
  response : ProtocolClientResponse
  state : SmState
  retryCnt : Nat
  transmitFailures : Nat
  type : StateMachineType
  transmissionConfig : TransmissionConfig
  abortTransfersInProgress : Bool
  abortDone : Bool
  lastReset : SysTime
  timeouts : Nat
  deriving DecidableEq, Repr

/-- The statics of the module, shared by all state machines, and the next block
address of the allocator. -/
structure Globals (ι : Type) where
  connectingSm : Option ι
  startTime : SysTime
  nextState : SmState
  heap : Nat
  deriving DecidableEq, Repr

/-- What the out parameters of recv_response hold when it returns. -/
structure Received where
  error : Int
  responseCode : Int
  id : Int
  payload : List UInt8
  payloadSize : Nat
  deriving DecidableEq, Repr

/-- What a state machine runs on: the clock, the allocator, the network interface and
the protocol client, as operations on a world of any type. -/
structure Platform (R W : Type) where
  systemGetTime : W → SysTime × W
  memAlloc : W → Int × W
  queuePushTail : W → Int × W
  lookup : W → Int × W
  createSocket : W → (Int × Socket) × W
  connect : Option Socket → W → Int × W
  close : Option Socket → W → W
  setSocket : Option Socket → W → W
  clearSocket : W → W
  sendRequest : ProtocolClientRequest R → W → Int × W
  recvResponse : ProtocolClientResponse → W → Received × W
  clientClose : W → W
  getResponseStatus : Int → W → Bool

/-- Everything a state machine calls: what it runs on, and the callback of a request. -/
structure Env (R W : Type) extends Platform R W where
  /-- The callback may also write to the payload buffer it is given. -/
  clb : ProtocolClientRequest R → ProtocolClientResponse → W → List UInt8 × W

/-- The state a function of the module runs in: its own state machine, the
statics and the world. -/
structure St (R ι W : Type) where
  sm : ProtocolClientSmClass R
  globals : Globals ι
  world : W

variable {R ι W : Type}

namespace St

def call {α : Type} (f : W → α × W) (s : St R ι W) : α × St R ι W :=
  ((f s.world).1, { s with world := (f s.world).2 })

def exec (f : W → W) (s : St R ι W) : St R ι W := { s with world := f s.world }

def mapSm (f : ProtocolClientSmClass R → ProtocolClientSmClass R) (s : St R ι W) : St R ι W :=
  { s with sm := f s.sm }

def mapGlobals (f : Globals ι → Globals ι) (s : St R ι W) : St R ι W :=
  { s with globals := f s.globals }

@[simp] theorem call_sm {α : Type} (f : W → α × W) (s : St R ι W) : (s.call f).2.sm = s.sm := rfl

@[simp] theorem call_globals {α : Type} (f : W → α × W) (s : St R ι W) :
    (s.call f).2.globals = s.globals := rfl

@[simp] theorem call_world {α : Type} (f : W → α × W) (s : St R ι W) :
    (s.call f).2.world = (f s.world).2 := rfl

@[simp] theorem call_fst {α : Type} (f : W → α × W) (s : St R ι W) :
    (s.call f).1 = (f s.world).1 := rfl

@[simp] theorem exec_sm (f : W → W) (s : St R ι W) : (s.exec f).sm = s.sm := rfl

@[simp] theorem exec_globals (f : W → W) (s : St R ι W) : (s.exec f).globals = s.globals := rfl

@[simp] theorem exec_world (f : W → W) (s : St R ι W) : (s.exec f).world = f s.world := rfl

@[simp] theorem mapSm_sm (f : ProtocolClientSmClass R → ProtocolClientSmClass R) (s : St R ι W) :
    (s.mapSm f).sm = f s.sm := rfl

@[simp] theorem mapSm_globals (f : ProtocolClientSmClass R → ProtocolClientSmClass R) (s : St R ι W) :
    (s.mapSm f).globals = s.globals := rfl

@[simp] theorem mapSm_world (f : ProtocolClientSmClass R → ProtocolClientSmClass R) (s : St R ι W) :
    (s.mapSm f).world = s.world := rfl

@[simp] theorem mapGlobals_sm (f : Globals ι → Globals ι) (s : St R ι W) :
    (s.mapGlobals f).sm = s.sm := rfl

@[simp] theorem mapGlobals_globals (f : Globals ι → Globals ι) (s : St R ι W) :
    (s.mapGlobals f).globals = f s.globals := rfl

@[simp] theorem mapGlobals_world (f : Globals ι → Globals ι) (s : St R ι W) :
    (s.mapGlobals f).world = s.world := rfl

end St

section

variable (env : Env R W)

def systemGetDiffTime (start : SysTime) (s : St R ι W) : SysTime × St R ι W :=
  let t := s.call env.systemGetTime
  (t.1 - start, t.2)

def connectPost (s : St R ι W) : St R ι W :=
  s.mapGlobals (fun g => { g with connectingSm := none })

def createSocket (s : St R ι W) : Int × St R ι W :=
  let l := s.call env.lookup
  if l.1 ≠ errSuccess then l
  else
    let k := l.2.call env.createSocket
    if k.1.1 ≠ errSuccess then (k.1.1, k.2)
    else (errSuccess, k.2.mapSm (fun sm => { sm with socket := some k.1.2 }))

/-- Closing the connection, as st_reset and st_transmit both do it. -/
def closeSocket (s : St R ι W) : St R ι W :=
  if s.sm.socket.isSome then
    ((s.exec env.clearSocket).exec (env.close s.sm.socket)).mapSm
      (fun sm => { sm with socket := none, connected := false, retryCnt := 0 })
  else s

def stReset (s : St R ι W) : SmState × St R ι W :=
  let elapsed := systemGetDiffTime env s.sm.lastReset s
  if elapsed.1 < 1000 then (.reset, elapsed.2)
  else
    let t := elapsed.2.call env.systemGetTime
    (.transmit, closeSocket env (t.2.mapSm (fun sm => { sm with lastReset := t.1 })))

/-- What st_connect leaves behind: the last value of its local variable `error`
and the state it returns. -/
structure ConnectResult where
  error : Int
  next : SmState
  deriving DecidableEq, Repr

/-- The first call of connect on a socket starts the clock of the attempt. -/
def startConnecting (s : St R ι W) : St R ι W :=
  if s.sm.retryCnt = 0 then
    let t := s.call env.systemGetTime
    (t.2.mapSm (fun sm => { sm with retryCnt := sm.retryCnt + 1 })).mapGlobals
      (fun g => { g with startTime := t.1 })
  else s

/-- The branch of st_connect for a socket that is not connected yet. -/
def continueConnect (s : St R ι W) : ConnectResult × St R ι W :=
  let s := startConnecting env s
  let c := s.call (env.connect s.sm.socket)
  if c.1 = errSuccess then
    (⟨c.1, .transmit⟩, (c.2.mapSm (fun sm => { sm with connected := true })).exec
      (env.setSocket s.sm.socket))
  else if c.1 = errWouldBlock then
    let elapsed := systemGetDiffTime env c.2.globals.startTime c.2
    if elapsed.1 > s.sm.transmissionConfig.connectTimeout then
      if (s.sm.retryCnt : Int) ≥ s.sm.transmissionConfig.connectRetries then
        (⟨c.1, .failure⟩, elapsed.2)
      else (⟨c.1, .reset⟩, elapsed.2)
    else (⟨c.1, .connect⟩, elapsed.2)
  else (⟨c.1, .reset⟩, c.2)

def connectWait [DecidableEq ι] (self : ι) (s : St R ι W) : Int × St R ι W :=
  if s.globals.connectingSm = none ∨ s.globals.connectingSm = some self then
    (errSuccess, s.mapGlobals (fun g => { g with connectingSm := some self }))
  else (errBusy, s)

/-- st_connect creates a socket only when it has none. -/
def ensureSocket (w : Int × St R ι W) : Int × St R ι W :=
  if w.2.sm.socket.isNone then createSocket env w.2 else w

/-- st_connect from the test of `connected` on. -/
def connectSocket (s : St R ι W) : ConnectResult × St R ι W :=
  let r := if s.sm.connected then (⟨errSuccess, .transmit⟩, s) else continueConnect env s
  (r.1, if r.1.error ≠ errWouldBlock then connectPost r.2 else r.2)

def stConnect [DecidableEq ι] (self : ι) (s : St R ι W) : ConnectResult × St R ι W :=
  let w := connectWait self s
  if w.1 ≠ errSuccess then (⟨w.1, .connect⟩, w.2)
  else
    let c := ensureSocket env w
    if c.1 = errWouldBlock then (⟨c.1, .connect⟩, c.2)
    else if c.1 ≠ errSuccess then (⟨c.1, .reset⟩, c.2)
    else connectSocket env c.2

def stFailure (s : St R ι W) : SmState × St R ι W :=
  (.reset, s.mapSm (fun sm => { sm with transmitFailures := 0 }))

def underLimit (sm : ProtocolClientSmClass R) : Bool :=
  sm.paralellRequestLimit = noRequestLimit || sm.paralellRequestLimit > sm.sentRequestNum

def stNewTransmit (s : St R ι W) : St R ι W :=
  if s.sm.abortTransfersInProgress then s
  else match s.sm.activeRequest, s.sm.transferQueue with
    | none, request :: rest =>
        if underLimit s.sm then
          let t := s.call env.systemGetTime
          t.2.mapSm (fun sm => { sm with
            transferQueue := rest
            activeRequest := some { request with startOfTransmit := t.1 } })
        else s
    | _, _ => s

def stSendRequest (s : St R ι W) : Int × St R ι W :=
  match s.sm.activeRequest with
  | none => (errSuccess, s)
  | some request =>
      let c := s.call (env.sendRequest request)
      if c.1 = errSuccess then
        (c.1, c.2.mapSm (fun sm => { sm with
          sentRequestList := request :: sm.sentRequestList
          sentRequestNum := sm.sentRequestNum + 1
          activeRequest := none }))
      else if c.1 = errWouldBlock then
        let elapsed := systemGetDiffTime env request.startOfTransmit c.2
        if elapsed.1 > s.sm.transmissionConfig.transmissionTimeout then (errTimeout, elapsed.2)
        else (c.1, elapsed.2)
      else c

def stRecvResponse (s : St R ι W) : Int × St R ι W :=
  let c := s.call (env.recvResponse s.sm.response)
  let r := c.1
  -- id and payload are written through pointers into the response, whatever is returned
  let s := c.2.mapSm (fun sm => { sm with
    response := { sm.response with id := r.id, payload := r.payload } })
  if r.error = errSuccess then
    (r.error, s.mapSm (fun sm => { sm with
      response := { sm.response with
        responseCode := r.responseCode
        payloadSize := r.payloadSize
        status := env.getResponseStatus r.responseCode s.world } }))
  else if r.error = errWouldBlock then (r.error, s)
  else
    (r.error, s.mapSm (fun sm => { sm with
      response := { sm.response with responseCode := r.error, payloadSize := 0 } }))

/-- Removal of one node from the linked list of sent requests. -/
def listDel (request : ProtocolClientRequest R) (l : List (ProtocolClientRequest R)) :
    List (ProtocolClientRequest R) :=
  l.eraseP (fun r => r.addr = request.addr)

/-- An asynchronous subscribe stays in the list of sent requests after its
callback, unless transfers are being aborted or the last status is an error. -/
def staysListed (sm : ProtocolClientSmClass R) (request : ProtocolClientRequest R) : Bool :=
  sm.type = .asynch && request.type = .subscribeAsynch
    && !sm.abortTransfersInProgress && sm.response.status

/-- The call of the callback, and of the close operation of the protocol client. -/
def callBack (request : ProtocolClientRequest R) (s : St R ι W) : St R ι W :=
  let s := s.mapSm (fun sm => { sm with
    response := { sm.response with
      maxPayloadSize := maxPayloadSize, requestType := request.type } })
  let c := s.call (env.clb request s.sm.response)
  (c.2.mapSm (fun sm => { sm with
    response := { sm.response with payload := c.1 } })).exec env.clientClose

def stTransmitComplete (s : St R ι W) : St R ι W :=
  match s.sm.completedRequest with
  | none => s
  | some request =>
      let s := callBack env request s
      if staysListed s.sm request then s.mapSm (fun sm => { sm with completedRequest := none })
      else s.mapSm (fun sm => { sm with
        sentRequestList := listDel request sm.sentRequestList
        sentRequestNum := sm.sentRequestNum - 1
        completedRequest := none })

def pairRequestToResponse (s : St R ι W) : Bool × St R ι W :=
  match s.sm.sentRequestList.find? (fun r => r.messageId = s.sm.response.id) with
  | some request => (true, s.mapSm (fun sm => { sm with completedRequest := some request }))
  | none => (false, s)

/-- The first sent request, asynchronous subscribes apart, that waits for its
response for too long. The clock is read once for each request looked at. -/
def expiredSent : List (ProtocolClientRequest R) → St R ι W →
    Option (ProtocolClientRequest R) × St R ι W
  | [], s => (none, s)
  | request :: rest, s =>
      if s.sm.type = .asynch ∧ request.type = .subscribeAsynch then expiredSent rest s
      else
        let elapsed := systemGetDiffTime env request.startOfTransmit s
        if elapsed.1 > s.sm.transmissionConfig.transmissionTimeout then
          (some request, elapsed.2)
        else expiredSent rest elapsed.2

/-- Reporting a request with an error code of the state machine itself. -/
def completeWith (error : Int) (request : ProtocolClientRequest R) (sm : ProtocolClientSmClass R) :
    ProtocolClientSmClass R :=
  { sm with
    response := { sm.response with responseCode := error, payloadSize := 0 }
    completedRequest := some request
    activeRequest := none }

def expire (request : ProtocolClientRequest R) (sm : ProtocolClientSmClass R) :
    ProtocolClientSmClass R :=
  { completeWith errTimeout request sm with timeouts := sm.timeouts + 1 }

def checkTimeout (s : St R ι W) : Bool × St R ι W :=
  let e := expiredSent env s.sm.sentRequestList s
  match e.1, e.2.sm.activeRequest with
  | some request, _ => (true, e.2.mapSm (expire request))
  | none, some request =>
      let elapsed := systemGetDiffTime env request.startOfTransmit e.2
      if elapsed.1 > e.2.sm.transmissionConfig.transmissionTimeout then
        (true, elapsed.2.mapSm (expire request))
      else (false, elapsed.2)
  | none, none => (false, e.2)

def abortTransfers (s : St R ι W) : Bool × St R ι W :=
  if !s.sm.abortTransfersInProgress then (false, s)
  else match s.sm.transferQueue, s.sm.sentRequestList, s.sm.activeRequest with
    | request :: rest, _, _ =>
        (true, s.mapSm (fun sm => { completeWith errRequestAborted request sm with
          transferQueue := rest }))
    | [], request :: _, _ => (true, s.mapSm (completeWith errRequestAborted request))
    | [], [], some request => (true, s.mapSm (completeWith errRequestAborted request))
    | [], [], none =>
        (false, s.mapSm (fun sm => { sm with
          abortTransfersInProgress := false, abortDone := true }))

/-- The call of st_transmit_complete behind each of its three guards. -/
def completeIf (c : Bool × St R ι W) : St R ι W :=
  if c.1 then stTransmitComplete env c.2 else c.2

def countFailure (error : Int) (s : St R ι W) : St R ι W :=
  s.mapSm (fun sm => { sm with
    transmitFailures := if error = errSuccess ∨ error = errWouldBlock then sm.transmitFailures
      else sm.transmitFailures + 1 })

/-- Sending and receiving over an established connection. -/
def exchange (s : St R ι W) : Bool × St R ι W :=
  let sent := stSendRequest env s
  let received := stRecvResponse env (countFailure sent.1 sent.2)
  if received.1 = errSuccess ∨ received.1 = errOverflow then pairRequestToResponse received.2
  else (false, countFailure received.1 received.2)

/-- The connection attempt at the beginning of st_transmit. -/
def attempt [DecidableEq ι] (self : ι) (s : St R ι W) : ConnectResult × St R ι W :=
  stConnect env self (stNewTransmit env s)

/-- st_transmit as far as the completion of a request by its response, with the
next state so far and whether a request was completed. -/
def respond [DecidableEq ι] (self : ι) (s : St R ι W) : (SmState × Bool) × St R ι W :=
  let c := attempt env self s
  let x := if c.1.next = .transmit then exchange env c.2 else (false, c.2)
  ((c.1.next, x.1), completeIf env x)

def tooManyTimeouts (sm : ProtocolClientSmClass R) : Bool :=
  sm.timeouts > maxResponseTimeoutPerSession

/-- The overrides of the next state at the end of st_transmit, the last one first. -/
def overrideNext (next : SmState) (completed : Bool) (sm : ProtocolClientSmClass R) : SmState :=
  if sm.abortDone || tooManyTimeouts sm || (sm.alwaysDisconnect && completed) then .reset
  else if next = .connect then .transmit
  else next

def finishTransmit (next : SmState) (completed : Bool) (s : St R ι W) : SmState × St R ι W :=
  let next := overrideNext next completed s.sm
  let s := s.mapSm (fun sm => { sm with
    timeouts := if tooManyTimeouts sm then 0 else sm.timeouts, abortDone := false })
  (next, if next = .reset then closeSocket env s else s)

def stTransmit [DecidableEq ι] (self : ι) (s : St R ι W) : SmState × St R ι W :=
  let responded := respond env self s
  let expired := checkTimeout env responded.2
  let aborted := abortTransfers (completeIf env expired)
  finishTransmit env responded.1.1 (responded.1.2 || expired.1 || aborted.1)
    (completeIf env aborted)

def protocolClientSmTask [DecidableEq ι] (self : ι) (s : St R ι W) : St R ι W :=
  let r := match s.sm.state with
    | .reset => stReset env s
    | .transmit => stTransmit env self s
    | .failure => stFailure s
    -- the next state is a static of the function, last written by any state machine
    | .connect => (s.globals.nextState, s)
  let next := if (r.2.sm.transmitFailures : Int) > r.2.sm.transmissionConfig.transmissionRetries
    then .failure else r.1
  (r.2.mapGlobals (fun g => { g with nextState := next })).mapSm (fun sm => { sm with state := next })

def protocolClientSmIsQueueFull (sm : ProtocolClientSmClass R) : Bool :=
  sm.transferQueue.length = sm.transmissionConfig.protocolClientSmQueueSize

/-- The queue of a state machine holds at most `protocolClientSmQueueSize` entries. -/
def cqueuePushTail (request : ProtocolClientRequest R) (s : St R ι W) : Int × St R ι W :=
  if s.sm.transferQueue.length < s.sm.transmissionConfig.protocolClientSmQueueSize then
    let c := s.call env.queuePushTail
    if c.1 = errSuccess then
      (c.1, c.2.mapSm (fun sm => { sm with transferQueue := sm.transferQueue ++ [request] }))
    else c
  else (errFailure, s)

/-- The request block that protocol_client_sm_transmit allocates and fills in. -/
def newRequest (type : RequestType) (request : R) (messageId : Int) (s : St R ι W) :
    ProtocolClientRequest R :=
  { addr := s.globals.heap, type, request, startOfTransmit := 0, messageId }

def protocolClientSmTransmit (type : RequestType) (request : R) (messageId : Int)
    (s : St R ι W) : Int × St R ι W :=
  let c := s.call env.memAlloc
  if c.1 ≠ errSuccess then c
  else cqueuePushTail env (newRequest type request messageId s)
    (c.2.mapGlobals (fun g => { g with heap := g.heap + 1 }))

end

def protocolClientSmClear (sm : ProtocolClientSmClass R) : ProtocolClientSmClass R :=
  { sm with abortTransfersInProgress := true }

def protocolClientSmIsEmpty (sm : ProtocolClientSmClass R) : Bool := !sm.abortTransfersInProgress

/-- A new state machine. The response and the completed request are not
initialised by the source and hold whatever the block held before. -/
def protocolClientSmNew (config : TransmissionConfig) (rqLimit : Nat) (stype : StateMachineType)
    (response : ProtocolClientResponse) (completed : Option (ProtocolClientRequest R)) :
    ProtocolClientSmClass R :=
  { connected := false
    alwaysDisconnect := false
    socket := none
    transferQueue := []
    sentRequestList := []
    sentRequestNum := 0
    paralellRequestLimit := rqLimit
    activeRequest := none
    completedRequest := completed
    response := response
    state := .reset
    retryCnt := 0
    transmitFailures := 0
    type := stype
    transmissionConfig := config
    abortTransfersInProgress := false
    abortDone := false
    lastReset := 0
    timeouts := 0 }

end ErSdk.ProtocolClientSm
