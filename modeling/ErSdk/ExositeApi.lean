import ErSdk.HttpParser
import ErSdk.ProtocolClientSm
import ErSdk.RequestArgs

namespace ErSdk.ExositeApi

open ProtocolClientSm RequestArgs Error

inductive SmType
  | main
  | httpLongPoll
  | timeSync
  deriving DecidableEq, Repr

/-- An entry of the list of state machines of an exosite object. -/
structure SmListItem where
  type : SmType
  name : Option (List UInt8)
  sm : ProtocolClientSmClass Request
  deriving DecidableEq, Repr

inductive ActivateState
  | sendGetTimestamp
  | waitTimestamp
  | init
  | start
  | prepareActivate
  | sendActivate
  | waitActivate
  | activated
  deriving DecidableEq, Repr

structure SubscribeItem where
  args : ExoRequestArgs
  sent : Bool
  acknowledged : Bool
  deriving DecidableEq, Repr

def strcmp : List UInt8 → List UInt8 → Ordering
  | [], [] => .eq
  | [], _ :: _ => .lt
  | _ :: _, [] => .gt
  | c :: s, d :: t => if c < d then .lt else if d < c then .gt else strcmp s t

/-- The content of a dictionary, in the order of its iterator. -/
abbrev Dictionary (α : Type) := List (List UInt8 × α)

def place {α : Type} (new : List UInt8 × α) : Dictionary α → Dictionary α
  | [] => [new]
  | entry :: rest =>
      if strcmp new.1 entry.1 = .lt then new :: entry :: rest else entry :: place new rest

/-- A new entry in its place; none if the key is already there. -/
def insert {α : Type} (key : List UInt8) (value : α) (map : Dictionary α) : Option (Dictionary α) :=
  if map.any (fun entry => entry.1 = key) then none else some (place (key, value) map)

/-- A write through the pointer that dictionary_lookup returns. -/
def update {α : Type} (key : List UInt8) (f : α → α) (map : Dictionary α) : Dictionary α :=
  map.map (fun entry => if entry.1 = key then (entry.1, f entry.2) else entry)

/-- `activateState` is `none` for the zero that the constructor leaves there. -/
structure ExositeClass where
  protocolType : AppType
  numberofStateMachines : Nat
  maxNumberofStateMachines : Nat
  cik : CikBuffer
  vendor : List UInt8
  model : List UInt8
  sn : List UInt8
  requestQueue : List ExoRequestArgs
  subscribeMap : Dictionary SubscribeItem
  activateState : Option ActivateState
  nextState : ActivateState
  asynchStateEvent : Bool
  lastActivationTime : SysTime
  activateRequestAttempts : Int32
  activateRequests : Int32
  deriving DecidableEq, Repr

namespace ExositeClass

def moveTo (next : ActivateState) (exo : ExositeClass) : ExositeClass := { exo with nextState := next }

def setEvent (event : Bool) (exo : ExositeClass) : ExositeClass :=
  { exo with asynchStateEvent := event }

/-- A CIK from the server; the counters of the attempts to get one start again. -/
def takeCik (cik : CikBuffer) (exo : ExositeClass) : ExositeClass :=
  { exo with cik, activateRequestAttempts := 0, activateRequests := 0 }

def changeItem (key : List UInt8) (f : SubscribeItem → SubscribeItem) (exo : ExositeClass) :
    ExositeClass :=
  { exo with subscribeMap := update key f exo.subscribeMap }

end ExositeClass

/-- What happens to the requests, the CIK and the application, for the record. -/
inductive Event
  | created (object : Nat)
  /-- request_new fails behind the creation of the object. -/
  | unfinished (object : Nat)
  | sent (object : Nat)
  | released (object : Nat)
  | accepted (args : ExoRequestArgs)
  | handed (sm : SmType) (request : ProtocolClientRequest Request)
  | called (request : ProtocolClientRequest Request)
  | setCik (cik : CikBuffer)
  | told (f : Nat) (status : Int) (aliasName : Option (List UInt8)) (value : Option (List UInt8))
  deriving DecidableEq, Repr

/-- The exosite object and all around it but its state machines: the static message id,
the next address of a request object, and an environment of any type. -/
structure World (E : Type) where
  exo : ExositeClass
  messageId : Int
  objects : Nat
  ext : E
  log : List Event
  deriving DecidableEq, Repr

inductive UserCall
  | read (aliasName : List UInt8) (onRead : Option Nat)
  | write (aliasName value : List UInt8) (onWrite : Option Nat)
  | subscribe (aliasName : List UInt8) (since : Int) (onChange : Option Nat)
  deriving DecidableEq, Repr

/-- The result of request_new. It can fail before or after it has made the object. -/
inductive NewRequest
  | made
  | failed (error : Int) (created : Bool) (h : error ≠ errSuccess)

def unlimitedStateMachines : Nat := 0

structure Config where
  deviceCik : List UInt8
  deviceCik_fits : deviceCik.length ≤ cikLength
  activationRetryType : Nat
  activationDelay : SysTime
  numberOfStateMachines : Nat
  maxRequestQueueSize : Nat
  transmissionConfig : TransmissionConfig
  /-- The queue size of a state machine is a constant of client_config.c, and not zero. -/
  queueSize_pos : 0 < transmissionConfig.protocolClientSmQueueSize

/-- All that the module calls: for each state machine what it runs on, and the
operations of the system, the allocator, the server API, and the application. -/
structure Api (E : Type) where
  config : Config
  platform : Nat → Platform Request E
  /-- Whether the protocol client itself deletes the request in a call of send_request. -/
  sendDeletes : Nat → ProtocolClientRequest Request → E → Bool
  systemGetTime : E → SysTime × E
  memAlloc : E → Int × E
  systemGetCik : CikBuffer → E → (Int × CikBuffer) × E
  systemSetCik : CikBuffer → E → Int × E
  rtcSet : SysTime → E → E
  netDevGet : SmType → E → Int × E
  selectServerData : SmType → E → Int × E
  /-- With what the new block held before in the fields that are not initialised. -/
  protocolClientSmNew : E →
    (Int × ProtocolClientResponse × Option (ProtocolClientRequest Request)) × E
  requestNew : ExoRequestArgs → E → NewRequest × E
  responseCallback : ExoRequestArgs → List UInt8 → Nat → Nat → Int → Int × List UInt8
  /-- What the application does in one of its callbacks. -/
  application : Nat → Int → Option (List UInt8) → Option (List UInt8) → E → List UserCall × E

variable {E : Type}

namespace World

def mapExo (f : ExositeClass → ExositeClass) (w : World E) : World E := { w with exo := f w.exo }

def call {α : Type} (f : E → α × E) (w : World E) : α × World E :=
  ((f w.ext).1, { w with ext := (f w.ext).2 })

def exec (f : E → E) (w : World E) : World E := { w with ext := f w.ext }

def record (e : Event) (w : World E) : World E := { w with log := w.log ++ [e] }

end World

section

variable (api : Api E)

def copyArgs (args : ExoRequestArgs) (messageId : Int) : ExoRequestArgs :=
  { args with messageId, cik := strncpy args.cik }

def exoRequestArgsNew (args : ExoRequestArgs) (w : World E) : Except Int ExoRequestArgs × World E :=
  let c := w.call api.memAlloc
  if c.1 ≠ errSuccess then (.error c.1, c.2)
  else
    match args.appType with
    | .http => (.ok (copyArgs args 1), c.2)
    | _ => (.ok (copyArgs args w.messageId), { c.2 with messageId := w.messageId + 1 })

/-- An item for the map: memory for the item, and a copy of the arguments. -/
def exoSubscribeItemNew (args : ExoRequestArgs) (w : World E) : Except Int SubscribeItem × World E :=
  let c := w.call api.memAlloc
  if c.1 ≠ errSuccess then (.error c.1, c.2)
  else
    match exoRequestArgsNew api args c.2 with
    | (.error e, w) => (.error e, w)
    | (.ok args, w) => (.ok ⟨args, false, false⟩, w)

/-- A new node takes memory for itself and for its key. -/
def dictionaryAdd (key : List UInt8) (item : SubscribeItem) (w : World E) : Int × World E :=
  match insert key item w.exo.subscribeMap with
  | none => (errDuplicate, w)
  | some map =>
      let node := w.call api.memAlloc
      if node.1 ≠ errSuccess then node
      else
        let key := node.2.call api.memAlloc
        if key.1 ≠ errSuccess then (errNoMemory, key.2)
        else (errSuccess, key.2.mapExo (fun exo => { exo with subscribeMap := map }))

def addToSubscribeMap (aliasName : List UInt8) (args : ExoRequestArgs) (w : World E) : Int × World E :=
  match exoSubscribeItemNew api { args with appType := w.exo.protocolType } w with
  | (.error e, w) => (e, w)
  | (.ok item, w) => dictionaryAdd api aliasName item w

def requestQueuePush (args : ExoRequestArgs) (w : World E) : Int × World E :=
  match exoRequestArgsNew api { args with appType := w.exo.protocolType } w with
  | (.error e, w) => (e, w)
  | (.ok args, w) =>
      if w.exo.requestQueue.length < api.config.maxRequestQueueSize then
        let c := w.call api.memAlloc
        if c.1 ≠ errSuccess then (errNoMemory, c.2)
        else (errSuccess,
          (c.2.mapExo (fun exo => { exo with requestQueue := exo.requestQueue ++ [args] })).record
            (.accepted args))
      else (errFailure, w)

def userFunction : Option Nat → Callback
  | none => .none
  | some f => .user f

def exositeRead (aliasName : List UInt8) (onRead : Option Nat) : World E → Int × World E :=
  requestQueuePush api { ExoRequestArgs.zero .read with
    aliasName := some aliasName, callback := userFunction onRead }

def exositeWrite (aliasName value : List UInt8) (onWrite : Option Nat) : World E → Int × World E :=
  requestQueuePush api { ExoRequestArgs.zero .write with
    aliasName := some aliasName, value := some value, callback := userFunction onWrite }

def timeoutStrSize : Nat := 16

def decimalText (n : Int) : List UInt8 :=
  (if n < 0 then [45] else []) ++ (Nat.toDigits 10 n.natAbs).map (fun c => c.toNat.toUInt8)

/-- The timeout of a long poll is 15 s below the transmission timeout. -/
def timeoutStr : List UInt8 :=
  decimalText (HttpParser.toInt32 (api.config.transmissionConfig.transmissionTimeout.toNat - 15000))

def exositeSubscribe (aliasName : List UInt8) (onChange : Option Nat) (w : World E) : Int × World E :=
  if (timeoutStr api).length = timeoutStrSize then (errFailure, w)
  else
    addToSubscribeMap api aliasName { ExoRequestArgs.zero .subscribe with
      aliasName := some aliasName
      timeout := some (timeoutStr api)
      subscribeUsrCallback := onChange
      callback := .onSubscribe } w

def userCall (w : World E) : UserCall → World E
  | .read aliasName onRead => (exositeRead api aliasName onRead w).2
  | .write aliasName value onWrite => (exositeWrite api aliasName value onWrite w).2
  | .subscribe aliasName _ onChange => (exositeSubscribe api aliasName onChange w).2

/-- The call of a function of the application, with the calls that it makes itself. -/
def tell (f : Nat) (status : Int) (aliasName value : Option (List UInt8)) (w : World E) : World E :=
  let c := (w.record (.told f status aliasName value)).call
    (api.application f status aliasName value)
  c.1.foldl (userCall api) c.2

def markSent (item : SubscribeItem) : SubscribeItem := { item with sent := true }

def answered (status : Int) (appType : AppType) (item : SubscribeItem) : SubscribeItem :=
  if status ≠ errSuccess then { item with sent := false, acknowledged := false }
  else if appType = .http then { item with sent := false, acknowledged := false }
  else { item with acknowledged := true }

def tellSubscriber (status : Int) (args : ExoRequestArgs) (value : List UInt8) (w : World E) :
    World E :=
  match args.subscribeUsrCallback with
  | some f => if status ≠ errUnchanged then tell api f status args.aliasName (some value) w else w
  | none => w

def onSubscribe (status : Int) (args : ExoRequestArgs) (value : List UInt8) (w : World E) : World E :=
  let w := tellSubscriber api status args value w
  match args.aliasName with
  | none => w
  | some aliasName => w.mapExo (ExositeClass.changeItem aliasName (answered status args.appType))

/-- The cik parameter is the payload buffer: 41 bytes of it are copied. -/
def onActivate (status : Int) (cik : List UInt8) (w : World E) : World E :=
  if status = errSuccess then
    let cik := copyCik cik
    let w := w.mapExo (ExositeClass.takeCik cik)
    if systemIsCikFormatValid cik then
      let w := w.mapExo (ExositeClass.moveTo .activated)
      let c := (w.record (.setCik cik)).call (api.systemSetCik cik)
      c.2.mapExo (ExositeClass.setEvent false)
    else w.mapExo (ExositeClass.moveTo .prepareActivate)
  else w.mapExo (ExositeClass.moveTo .prepareActivate)

/-- strtol with base 10 on a 64-bit long; none where there is no digit. -/
def decimalAt (s : List UInt8) : Option Int :=
  let t := s.dropWhile Pmatch.isSpace
  let digits := (if t.headD 0 = 45 ∨ t.headD 0 = 43 then t.tail else t).takeWhile isDigit
  if digits = [] then none
  else
    let value : Int := HttpParser.numberOf 10 digits
    some (if t.headD 0 = 45 then max (-value) (-2 ^ 63) else min value (2 ^ 63 - 1))

def onTimestamp (status : Int) (timestr : List UInt8) (w : World E) : World E :=
  if status = errSuccess then
    match decimalAt (cString timestr) with
    | none => w.mapExo (ExositeClass.moveTo .sendGetTimestamp)
    | some t => (w.exec (api.rtcSet (UInt32.ofInt t))).mapExo (ExositeClass.moveTo .init)
  else w.mapExo (ExositeClass.moveTo .sendGetTimestamp)

def requestDelete (request : Request) (type : RequestType) (w : World E) : World E :=
  if request.args.method = .subscribe ∧ type = .subscribeAsynch then w
  else w.record (.released request.object)

/-- The part of exosite_api_callback that depends on the method. -/
def dispatch (args : ExoRequestArgs) (status : Int) (payload : List UInt8) (w : World E) : World E :=
  match args.method, args.callback with
  | .write, .user f => tell api f status args.aliasName none w
  | .read, .user f => tell api f status args.aliasName (some (cString payload)) w
  | .subscribe, .onSubscribe => onSubscribe api status args (cString payload) w
  | .activate, .onActivate => onActivate api status payload w
  | .timestamp, .onTimestamp => onTimestamp api status payload w
  | _, _ => w

def noteInvalidCik (status : Int) (w : World E) : World E :=
  if status = errCikNotValid then w.mapExo (ExositeClass.setEvent true) else w

def exositeApiCallback (request : ProtocolClientRequest Request) (response : ProtocolClientResponse)
    (w : World E) : List UInt8 × World E :=
  let args := request.request.args
  let c := api.responseCallback args response.payload response.payloadSize response.maxPayloadSize
    response.responseCode
  let w := noteInvalidCik c.1 (w.record (.called request))
  (c.2, requestDelete request.request response.requestType (dispatch api args c.1 c.2 w))

def machineEnv (i : Nat) : Env Request (World E) where
  systemGetTime := World.call (api.platform i).systemGetTime
  memAlloc := World.call (api.platform i).memAlloc
  queuePushTail := World.call (api.platform i).queuePushTail
  lookup := World.call (api.platform i).lookup
  createSocket := World.call (api.platform i).createSocket
  connect socket := World.call ((api.platform i).connect socket)
  close socket := World.exec ((api.platform i).close socket)
  setSocket socket := World.exec ((api.platform i).setSocket socket)
  clearSocket := World.exec (api.platform i).clearSocket
  sendRequest request w :=
    let sent := w.record (.sent request.request.object)
    (if api.sendDeletes i request w.ext then sent.record (.released request.request.object)
      else sent).call ((api.platform i).sendRequest request)
  recvResponse response := World.call ((api.platform i).recvResponse response)
  clientClose := World.exec (api.platform i).clientClose
  getResponseStatus code w := (api.platform i).getResponseStatus code w.ext
  clb := exositeApiCallback api

end

/-- An exosite object with its state machines and the statics they share. -/
structure Device (E : Type) where
  machines : List SmListItem
  globals : Globals Nat
  world : World E
  deriving DecidableEq, Repr

namespace Device

def mapWorld (f : World E → World E) (d : Device E) : Device E := { d with world := f d.world }

def mapExo (f : ExositeClass → ExositeClass) (d : Device E) : Device E :=
  d.mapWorld (World.mapExo f)

def call {α : Type} (f : E → α × E) (d : Device E) : α × Device E :=
  ((f d.world.ext).1, d.mapWorld (fun w => (w.call f).2))

/-- The state in which a function of the state machine `i` runs. -/
def view (item : SmListItem) (d : Device E) : St Request Nat (World E) :=
  ⟨item.sm, d.globals, d.world⟩

def put (i : Nat) (item : SmListItem) (st : St Request Nat (World E)) (d : Device E) : Device E :=
  { d with
    machines := d.machines.set i { item with sm := st.sm }
    globals := st.globals
    world := st.world }

end Device

/-- find_sm, from the entry number `i` on. The outer `none` is the loop over an entry
without a name that never ends. -/
def findSm (type : SmType) (name : Option (List UInt8)) : List SmListItem → Nat → Option (Option Nat)
  | [], _ => some none
  | item :: rest, i =>
      if item.type = type then
        match name, item.name with
        | none, _ => some (some i)
        | some _, none => none
        | some n, some m => if n = m then some (some i) else findSm type name rest (i + 1)
      else findSm type name rest (i + 1)

def untilError : List (E → Int × E) → E → Int × E
  | [], e => (errSuccess, e)
  | f :: fs, e => if (f e).1 ≠ errSuccess then f e else untilError fs (f e).2

/-- The registered protocol clients: the type and the request limit of their machines. -/
def protocolClientConfig : AppType → Option (StateMachineType × Nat)
  | .http => some (.synch, 1)
  | .coap => some (.asynch, noRequestLimit)
  | .json => none

/-- The state machine for a request: its type, the name it is searched by, and the type
of the request. -/
structure Route where
  sm : SmType
  name : Option (List UInt8)
  request : RequestType
  deriving DecidableEq, Repr

def route (protocolType : AppType) (args : ExoRequestArgs) : Route :=
  match args.method with
  | .timestamp => ⟨.timeSync, none, .normal⟩
  | .subscribe =>
      match protocolType with
      | .http => ⟨.httpLongPoll, args.aliasName, .subscribe⟩
      | .coap => ⟨.main, none, .subscribeAsynch⟩
      | .json => ⟨.main, none, .subscribe⟩
  | _ => ⟨.main, none, .normal⟩

def newName (type : SmType) (args : ExoRequestArgs) : Option (List UInt8) :=
  if type = .main then none else args.aliasName

section

variable (api : Api E)

/-- What create_new_sm needs for a new state machine, in this order. -/
def smNeeds (name : Option (List UInt8)) (type : SmType) : List (E → Int × E) :=
  [api.netDevGet type, api.selectServerData type, api.memAlloc] ++
    (if name.isSome then [api.memAlloc] else [])

def createNewSm (name : Option (List UInt8)) (type : SmType) (d : Device E) : Int × Device E :=
  if d.world.exo.maxNumberofStateMachines ≠ unlimitedStateMachines ∧
      d.world.exo.numberofStateMachines = api.config.numberOfStateMachines then
    (errNoResource, d)
  else
    match protocolClientConfig d.world.exo.protocolType with
    | none => (errNotFound, d)
    | some (stype, rqLimit) =>
        let c := d.call (untilError (smNeeds api name type))
        if c.1 ≠ errSuccess then c
        else
          let n := c.2.call api.protocolClientSmNew
          if n.1.1 ≠ errSuccess then (n.1.1, n.2)
          else (errSuccess, { n.2.mapExo (fun exo => { exo with
              numberofStateMachines := exo.numberofStateMachines + 1 }) with
            machines := n.2.machines ++ [⟨type, name,
              protocolClientSmNew api.config.transmissionConfig rqLimit stype n.1.2.1 n.1.2.2⟩] })

/-- The state machine for a request, found or made; the error is the one that the local
variable of the caller holds behind the search. -/
def obtainSm (r : Route) (args : ExoRequestArgs) (d : Device E) :
    Option ((Int × Option Nat) × Device E) := do
  match ← findSm r.sm r.name d.machines 0 with
  | some i => some ((errFailure, some i), d)
  | none =>
      let c := createNewSm api (newName r.sm args) r.sm d
      if c.1 ≠ errSuccess then some ((c.1, none), c.2)
      else do
        let i ← findSm r.sm r.name c.2.machines 0
        some ((c.1, i), c.2)

/-- The request object made for a state machine, and its way into the machine. -/
def transmitTo (i : Nat) (item : SmListItem) (type : RequestType) (args : ExoRequestArgs)
    (d : Device E) : Int × Device E :=
  let n := d.call (api.requestNew args)
  let made := n.2.mapWorld (fun w => { w.record (.created w.objects) with objects := w.objects + 1 })
  match n.1 with
  | .failed error created _ =>
      (error, if created then made.mapWorld (World.record (.unfinished d.world.objects)) else n.2)
  | .made =>
      let request : Request := ⟨d.world.objects, args⟩
      let st := made.view item
      let t := protocolClientSmTransmit (machineEnv api i) type request args.messageId st
      let d := made.put i item t.2
      if t.1 ≠ errSuccess then (t.1, d.mapWorld (World.record (.released request.object)))
      else (t.1,
        d.mapWorld (World.record (.handed item.type (newRequest type request args.messageId st))))

def pcsmTransmitQueuePushNoCopy (args : ExoRequestArgs) (d : Device E) : Option (Int × Device E) := do
  let r := route d.world.exo.protocolType args
  let ((error, found), d) ← obtainSm api r args d
  match found.bind (fun i => (d.machines[i]?).map (fun item => (i, item))) with
  | none => some (error, d)
  | some (i, item) =>
      if protocolClientSmIsQueueFull item.sm then some (error, d)
      else
        some (transmitTo api i item r.request { args with cik := copyCik d.world.exo.cik.toList } d)

def pcsmTransmitQueuePush (args : ExoRequestArgs) (d : Device E) : Option (Int × Device E) :=
  match exoRequestArgsNew api args d.world with
  | (.error e, w) => some (e, { d with world := w })
  | (.ok args, w) => pcsmTransmitQueuePushNoCopy api args { d with world := w }

def activate (d : Device E) : Option (Int × Device E) :=
  pcsmTransmitQueuePush api { ExoRequestArgs.zero .activate with
    vendor := some d.world.exo.vendor
    model := some d.world.exo.model
    sn := some d.world.exo.sn
    callback := .onActivate } d

def getTimestamp (d : Device E) : Option (Int × Device E) :=
  pcsmTransmitQueuePush api { ExoRequestArgs.zero .timestamp with callback := .onTimestamp } d

/-- The variants are chosen at compile time by ACTIVATION_RETRY_TYPE. -/
def shouldDelayActivate (w : World E) : Bool × World E :=
  if api.config.activationRetryType = 1 then
    let t := w.call api.systemGetTime
    if t.1 - w.exo.lastActivationTime > api.config.activationDelay then
      let u := t.2.call api.systemGetTime
      (false, u.2.mapExo (fun exo => { exo with lastActivationTime := u.1 }))
    else (true, t.2)
  else if api.config.activationRetryType = 2 then
    -- the sum wraps around here, where the source leaves a signed overflow undefined
    let w := w.mapExo (fun exo => { exo with activateRequests := exo.activateRequests + 1 })
    if w.exo.activateRequests >>> w.exo.activateRequestAttempts = 0 then (true, w)
    else (false,
      w.mapExo (fun exo => { exo with activateRequestAttempts := exo.activateRequestAttempts + 1 }))
  else (false, w)

/-- system_get_cik writes to the buffer, also when it fails. -/
def apiGetCik (w : World E) : Int × World E :=
  let c := w.call (api.systemGetCik w.exo.cik)
  let w := c.2.mapExo (fun exo => { exo with cik := c.1.2 })
  if c.1.1 ≠ errSuccess then (c.1.1, w)
  else if !systemIsCikFormatValid w.exo.cik then (errCikNotValid, w)
  else (errSuccess, w)

def loadDeviceCik (exo : ExositeClass) : ExositeClass :=
  let cik := strcpy api.config.deviceCik exo.cik
  if systemIsCikFormatValid cik then { exo with cik, nextState := .activated }
  else { exo with cik := fill (0 :: cik.toList.drop 1), nextState := .start }

/-- The subscriptions that have to be sent, in the order of the dictionary. -/
def sendSubscribes : Dictionary SubscribeItem → Device E → Option (Device E)
  | [], d => some d
  | (key, item) :: rest, d =>
      if item.sent ∨ item.acknowledged then sendSubscribes rest d
      else do
        let (error, d) ← pcsmTransmitQueuePushNoCopy api item.args d
        sendSubscribes rest (if error = errSuccess then d.mapExo (ExositeClass.changeItem key markSent) else d)

/-- The first request of the queue leaves it once a state machine has it. -/
def sendQueued (d : Device E) : Option (Device E) :=
  match d.world.exo.requestQueue with
  | [] => some d
  | args :: _ => do
      let (error, d) ← pcsmTransmitQueuePushNoCopy api args d
      some (if error = errSuccess then
        d.mapExo (fun exo => { exo with requestQueue := exo.requestQueue.tail }) else d)

def clearSms (d : Device E) : Device E :=
  { d with machines := d.machines.map (fun item => { item with sm := protocolClientSmClear item.sm }) }

def smsEmpty (d : Device E) : Bool := d.machines.all (fun item => protocolClientSmIsEmpty item.sm)

/-- `none` where find_sm never returns. -/
def activateSm (d : Device E) : Option (Device E) :=
  let next := d.world.exo.nextState
  let d := d.mapExo (fun exo => { exo with activateState := some next })
  match next with
  | .sendGetTimestamp => do
      let (error, d) ← getTimestamp api d
      some (if error = errSuccess then d.mapExo (ExositeClass.moveTo .waitTimestamp) else d)
  | .waitTimestamp => some d
  | .init => some (d.mapExo (loadDeviceCik api))
  | .start =>
      let c := apiGetCik api d.world
      some ({ d with world := c.2 }.mapExo
        (ExositeClass.moveTo (if c.1 = errSuccess then .activated else .prepareActivate)))
  | .prepareActivate =>
      let c := shouldDelayActivate api d.world
      let d := { d with world := c.2 }
      some (if c.1 then d else (clearSms d).mapExo (ExositeClass.moveTo .sendActivate))
  | .sendActivate =>
      if !smsEmpty d then some d
      else do
        let (error, d) ← activate api d
        some (if error = errSuccess then d.mapExo (ExositeClass.moveTo .waitActivate) else d)
  | .waitActivate => some d
  | .activated =>
      if d.world.exo.asynchStateEvent then
        some ((d.mapExo (ExositeClass.setEvent false)).mapExo (ExositeClass.moveTo .prepareActivate))
      else do
        let d ← sendSubscribes api d.world.exo.subscribeMap d
        sendQueued api d

/-- A task of the system, a call of the application, or what other exosite objects do to
the statics and the environment. -/
inductive Action (E : Type)
  | activateSm
  | task (i : Nat)
  | user (c : UserCall)
  | interfere (connectingSm : Option Nat) (startTime : SysTime) (nextState : SmState)
      (allocated : Nat) (messageId : Int) (f : E → E)

/-- One step of a run. A call that does not return has no state behind it and is left out. -/
def step (d : Device E) : Action E → Device E
  | .activateSm => (activateSm api d).getD d
  | .task i =>
      match d.machines[i]? with
      | none => d
      | some item => d.put i item (protocolClientSmTask (machineEnv api i) i (d.view item))
  | .user c => d.mapWorld (fun w => userCall api w c)
  | .interfere connectingSm startTime nextState allocated messageId f =>
      { d with
        globals := ⟨connectingSm, startTime, nextState, d.globals.heap + allocated⟩
        world := { d.world with messageId, ext := f d.world.ext } }

def exositeNew (protocolType : AppType) (vendor model sn : List UInt8) (globals : Globals Nat)
    (messageId : Int) (objects : Nat) (ext : E) : Device E :=
  { machines := []
    globals
    world :=
      { exo :=
          { protocolType
            numberofStateMachines := 0
            maxNumberofStateMachines := api.config.numberOfStateMachines
            cik := fill []
            vendor
            model
            sn
            requestQueue := []
            subscribeMap := []
            activateState := none
            nextState := .sendGetTimestamp
            asynchStateEvent := false
            lastActivationTime := 0
            activateRequestAttempts := 0
            activateRequests := 0 }
        messageId
        objects
        ext
        log := [] } }

end

end ErSdk.ExositeApi
