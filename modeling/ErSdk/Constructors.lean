import ErSdk.ExositeApi
import ErSdk.Resources

namespace ErSdk.Constructors

open Resources RequestArgs ProtocolClientSm Error
open ExositeApi (ActivateState)

structure Refusal where
  code : Int
  failed : code ≠ errSuccess

inductive Task
  | activateSm
  | protocolClientSmTask
  deriving DecidableEq, Repr

/-- What a constructor acquires: a block of memory, a mutex, or a periodic callback with its
parameter. -/
inductive Kind
  | memory
  | mutex
  | callback (period : Nat) (task : Task) (param : Nat)
  deriving DecidableEq, Repr

abbrev Resources := Pool Refusal Kind

/-- The output pointer is `none` if it was not written. -/
abbrev Outcome (α : Type) := Int × Option α × Resources

/-- What a member of a block holds: whatever the block held before, or a value that was stored. -/
inductive Member (α : Type)
  | left
  | stored (value : α)
  deriving DecidableEq, Repr

namespace Member

variable {α : Type}

def isStored : Member α → Bool
  | left => false
  | stored _ => true

end Member

/-- A block for the bytes of a C string. -/
structure Text where
  block : Nat
  chars : Member (List UInt8)
  deriving DecidableEq, Repr

def Text.strcpy (t : Text) (s : List UInt8) : Text := { t with chars := .stored s }

@[simp] theorem Text.strcpy_block (t : Text) (s : List UInt8) : (t.strcpy s).block = t.block := rfl

structure Queue where
  block : Nat
  head : Member (Option Nat)
  tail : Member (Option Nat)
  size : Member Nat
  deriving DecidableEq, Repr

def queueNew (p : Resources) : Option Queue × Resources :=
  p.attempt .memory (fun _ p => (none, p)) fun block p =>
  let queue : Queue := ⟨block, .left, .left, .left⟩
  (some { queue with head := .stored none, tail := .stored none, size := .stored 0 }, p)

structure CQueue where
  block : Nat
  queue : Member Queue
  queueLock : Member Nat
  maxSize : Member Nat
  deriving DecidableEq, Repr

def cqueueNew (maxSize : Nat) (p : Resources) : Option CQueue × Resources :=
  p.attempt .memory (fun _ p => (none, p)) fun block p =>
  let cqueue : CQueue := ⟨block, .left, .left, .left⟩
  match queueNew p with
  | (none, p) => (none, p.release block)
  | (some queue, p) =>
      let cqueue := { cqueue with queue := .stored queue }
      p.attempt .mutex (fun _ p => (none, (p.release queue.block).release block)) fun lock p =>
      (some { cqueue with queueLock := .stored lock, maxSize := .stored maxSize }, p)

/-- The queue of a constructor that fails is empty. -/
def cqueueFree (cqueue : CQueue) (p : Resources) : Resources :=
  match cqueue.queueLock, cqueue.queue with
  | .stored lock, .stored queue => ((p.release lock).release queue.block).release cqueue.block
  -- cqueue_new gives no such queue
  | _, _ => p

structure DictionaryClass where
  block : Nat
  root : Member (Option Nat)
  deriving DecidableEq, Repr

/-- The arguments of exosite_new, and what it reads of the configuration and the system. -/
structure ExositeSetup where
  vendor : List UInt8
  model : List UInt8
  optionalSn : Option (List UInt8)
  systemSn : List UInt8
  appType : AppType
  numberOfStateMachines : Nat
  transmissionConfig : TransmissionConfig
  maxRequestQueueSize : Nat
  smPeriod : Nat

/-- A block for `struct exosite_class`. -/
structure ExositeObject where
  block : Nat
  protocolType : Member AppType
  serverApi : Member (Option Nat)
  smHead : Member (Option Nat)
  numberofStateMachines : Member Nat
  maxNumberofStateMachines : Member Nat
  cik : Member CikBuffer
  vendor : Member (Option Text)
  model : Member (Option Text)
  sn : Member (Option Text)
  requestQueue : Member (Option CQueue)
  subscribeMap : Member (Option DictionaryClass)
  transmissionConfig : Member (Option TransmissionConfig)
  activateState : Member (Option ActivateState)
  nextState : Member (Option ActivateState)
  asynchStateEvent : Member Bool
  activateSmMutex : Member (Option Nat)
  lastActivationTime : Member SysTime
  activateRequestAttempts : Member Int32
  activateRequests : Member Int32
  timestamp : Member Int32

namespace ExositeObject

def fresh (block : Nat) : ExositeObject :=
  ⟨block, .left, .left, .left, .left, .left, .left, .left, .left, .left, .left, .left, .left, .left,
    .left, .left, .left, .left, .left, .left, .left⟩

/-- Zero is no state of the activation. -/
def memfill (e : ExositeObject) : ExositeObject :=
  { block := e.block
    protocolType := .stored .http
    serverApi := .stored none
    smHead := .stored none
    numberofStateMachines := .stored 0
    maxNumberofStateMachines := .stored 0
    cik := .stored (fill [])
    vendor := .stored none
    model := .stored none
    sn := .stored none
    requestQueue := .stored none
    subscribeMap := .stored none
    transmissionConfig := .stored none
    activateState := .stored none
    nextState := .stored none
    asynchStateEvent := .stored false
    activateSmMutex := .stored none
    lastActivationTime := .stored 0
    activateRequestAttempts := .stored 0
    activateRequests := .stored 0
    timestamp := .stored 0 }

def Stored (e : ExositeObject) : Prop :=
  e.protocolType.isStored ∧ e.serverApi.isStored ∧ e.smHead.isStored ∧
    e.numberofStateMachines.isStored ∧ e.maxNumberofStateMachines.isStored ∧ e.cik.isStored ∧
    e.vendor.isStored ∧ e.model.isStored ∧ e.sn.isStored ∧ e.requestQueue.isStored ∧
    e.subscribeMap.isStored ∧ e.transmissionConfig.isStored ∧ e.activateState.isStored ∧
    e.nextState.isStored ∧ e.asynchStateEvent.isStored ∧ e.activateSmMutex.isStored ∧
    e.lastActivationTime.isStored ∧ e.activateRequestAttempts.isStored ∧
    e.activateRequests.isStored ∧ e.timestamp.isStored

end ExositeObject

/-- The error variable is set, but every label of the ladder leads to `return ERR_SUCCESS`. The
dictionary is not released. -/
def exositeNew (s : ExositeSetup) (p : Resources) : Outcome ExositeObject :=
  p.attempt .memory (fun _ p => (errSuccess, none, p)) fun block p =>
  let e := (ExositeObject.fresh block).memfill
  let e := { e with
    smHead := .stored none
    numberofStateMachines := .stored 0
    maxNumberofStateMachines := .stored s.numberOfStateMachines }
  p.attempt .memory (fun _ p => (errSuccess, none, p.release block)) fun vendor p =>
  p.attempt .memory (fun _ p => (errSuccess, none, (p.release vendor).release block)) fun model p =>
  p.attempt .memory (fun _ p => (errSuccess, none, ((p.release model).release vendor).release block))
    fun sn p =>
  let e := { e with
    transmissionConfig := .stored (some s.transmissionConfig)
    sn := .stored (some (Text.strcpy ⟨sn, .left⟩ (s.optionalSn.getD s.systemSn)))
    vendor := .stored (some (Text.strcpy ⟨vendor, .left⟩ s.vendor))
    model := .stored (some (Text.strcpy ⟨model, .left⟩ s.model)) }
  match cqueueNew s.maxRequestQueueSize p with
  | (none, p) => (errSuccess, none, (((p.release sn).release model).release vendor).release block)
  | (some queue, p) =>
      let e := { e with requestQueue := .stored (some queue) }
      let cleanup (p : Resources) : Resources :=
        ((((cqueueFree queue p).release sn).release model).release vendor).release block
      p.attempt .memory (fun _ p => (errSuccess, none, cleanup p)) fun map p =>
      -- dictionary_new fills its block with zeros
      let e := { e with subscribeMap := .stored (some ⟨map, .stored none⟩) }
      p.attempt .mutex (fun _ p => (errSuccess, none, cleanup p)) fun mutex p =>
      let e := { e with
        activateSmMutex := .stored (some mutex)
        protocolType := .stored s.appType
        nextState := .stored (some .sendGetTimestamp)
        asynchStateEvent := .stored false
        activateRequestAttempts := .stored 0
        activateRequests := .stored 0 }
      p.attempt (.callback s.smPeriod .activateSm block)
        (fun _ p => (errSuccess, none, cleanup (p.release mutex))) fun _ p =>
      (errSuccess, some e, p)

variable {R : Type}

/-- What the protocol's table has of its client. -/
structure ExoApi where
  client : Nat
  netIf : Nat

/-- The arguments of protocol_client_sm_new, and what it reads of the configuration. -/
structure SmSetup where
  name : List UInt8
  exoApi : Option ExoApi
  rqLimit : Nat
  stype : StateMachineType
  serverName : List UInt8
  serverPort : Nat
  config : TransmissionConfig
  smPeriod : Nat

/-- A block for `struct protocol_client_sm_class`. -/
structure SmObject (R : Type) where
  block : Nat
  name : Member (List UInt8)
  netIf : Member Nat
  serverName : Member Text
  hostIp : Member (List UInt8)
  serverPort : Member Nat
  connected : Member Bool
  alwaysDisconnect : Member Bool
  socket : Member (Option Socket)
  protocolClient : Member Nat
  transferQueue : Member (Option CQueue)
  sentRequestList : Member (List (ProtocolClientRequest R))
  sentRequestNum : Member Nat
  paralellRequestLimit : Member Nat
  activeRequest : Member (Option (ProtocolClientRequest R))
  completedRequest : Member (Option (ProtocolClientRequest R))
  response : Member ProtocolClientResponse
  state : Member SmState
  retryCnt : Member Nat
  transmitFailures : Member Nat
  type : Member StateMachineType
  transmissionConfig : Member TransmissionConfig
  abortTransfersInProgress : Member Bool
  abortDone : Member Bool
  smMutex : Member Nat
  lastReset : Member SysTime
  timeouts : Member Nat

namespace SmObject

def fresh (R : Type) (block : Nat) : SmObject R :=
  ⟨block, .left, .left, .left, .left, .left, .left, .left, .left, .left, .left, .left, .left, .left,
    .left, .left, .left, .left, .left, .left, .left, .left, .left, .left, .left, .left, .left⟩

def Stored (e : SmObject R) : Prop :=
  e.name.isStored ∧ e.netIf.isStored ∧ e.serverName.isStored ∧ e.hostIp.isStored ∧
    e.serverPort.isStored ∧ e.connected.isStored ∧ e.alwaysDisconnect.isStored ∧
    e.socket.isStored ∧ e.protocolClient.isStored ∧ e.transferQueue.isStored ∧
    e.sentRequestList.isStored ∧ e.sentRequestNum.isStored ∧ e.paralellRequestLimit.isStored ∧
    e.activeRequest.isStored ∧ e.completedRequest.isStored ∧ e.response.isStored ∧
    e.state.isStored ∧ e.retryCnt.isStored ∧ e.transmitFailures.isStored ∧ e.type.isStored ∧
    e.transmissionConfig.isStored ∧ e.abortTransfersInProgress.isStored ∧ e.abortDone.isStored ∧
    e.smMutex.isStored ∧ e.lastReset.isStored ∧ e.timeouts.isStored

end SmObject

/-- The result of pclb_register is ignored. No line writes the address of the host, the completed
request or the response. -/
def protocolClientSmNew (R : Type) (s : SmSetup) (p : Resources) : Outcome (SmObject R) :=
  match s.exoApi with
  | none => (errBadArgs, none, p)
  | some exoApi =>
      p.attempt .memory (fun error p => (error.code, none, p)) fun block p =>
      let e := SmObject.fresh R block
      p.attempt .memory (fun error p => (error.code, none, p.release block)) fun serverName p =>
      let e := { e with
        sentRequestList := .stored []
        name := .stored s.name
        sentRequestNum := .stored 0
        paralellRequestLimit := .stored s.rqLimit
        netIf := .stored exoApi.netIf
        protocolClient := .stored exoApi.client
        serverName := .stored (Text.strcpy ⟨serverName, .left⟩ s.serverName)
        serverPort := .stored s.serverPort
        connected := .stored false
        socket := .stored none
        alwaysDisconnect := .stored false
        state := .stored .reset
        retryCnt := .stored 0
        activeRequest := .stored none
        type := .stored s.stype
        transmitFailures := .stored 0
        transmissionConfig := .stored s.config
        lastReset := .stored 0
        timeouts := .stored 0
        abortDone := .stored false
        abortTransfersInProgress := .stored false }
      match cqueueNew s.config.protocolClientSmQueueSize p with
      | (none, p) => (errNoMemory, none, (p.release serverName).release block)
      | (some queue, p) =>
          let e := { e with transferQueue := .stored (some queue) }
          p.attempt .mutex (fun error p =>
            (error.code, none, ((cqueueFree queue p).release serverName).release block)) fun mutex p =>
          let e := { e with smMutex := .stored mutex }
          p.attempt (.callback s.smPeriod .protocolClientSmTask block)
            (fun _ p => (errSuccess, some e, p)) fun _ p => (errSuccess, some e, p)

/-- The constructor succeeds just when it has set the output pointer to an object that is complete,
and behind a failed step everything is as it was. -/
def Honest {α : Type} (complete : α → Resources → Prop) (p : Resources) (r : Outcome α) : Prop :=
  (r.1 = errSuccess ↔ ∃ o, r.2.1 = some o ∧ complete o r.2.2) ∧
    ((∃ i, p.asked ≤ i ∧ i < r.2.2.asked ∧ (p.refusal i).isSome) →
      r.1 ≠ errSuccess ∧ r.2.1 = none ∧ r.2.2.live = p.live)

def HasText (p : Resources) (t : Text) (text : List UInt8) : Prop :=
  t.chars = .stored text ∧ (t.block, .memory) ∈ p.live

def HasQueue (p : Resources) (q : CQueue) (maxSize : Nat) : Prop :=
  ∃ queue lock, q.queue = .stored ⟨queue, .stored none, .stored none, .stored 0⟩ ∧
    q.queueLock = .stored lock ∧ q.maxSize = .stored maxSize ∧ (q.block, .memory) ∈ p.live ∧
      (queue, .memory) ∈ p.live ∧ (lock, .mutex) ∈ p.live

/-- The object has all its members, what they point to, and its task is registered. -/
structure Complete (s : ExositeSetup) (e : ExositeObject) (p : Resources) : Prop where
  block : (e.block, .memory) ∈ p.live
  stored : e.Stored
  vendor : ∃ t, e.vendor = .stored (some t) ∧ HasText p t s.vendor
  model : ∃ t, e.model = .stored (some t) ∧ HasText p t s.model
  sn : ∃ t, e.sn = .stored (some t) ∧ HasText p t (s.optionalSn.getD s.systemSn)
  requestQueue : ∃ q, e.requestQueue = .stored (some q) ∧ HasQueue p q s.maxRequestQueueSize
  subscribeMap : ∃ map, e.subscribeMap = .stored (some ⟨map, .stored none⟩) ∧ (map, .memory) ∈ p.live
  activateSmMutex : ∃ mutex, e.activateSmMutex = .stored (some mutex) ∧ (mutex, .mutex) ∈ p.live
  registered : ∃ id, (id, .callback s.smPeriod .activateSm e.block) ∈ p.live

section

variable {α : Type} {complete : α → Resources → Prop} {p : Resources}

end

end ErSdk.Constructors
