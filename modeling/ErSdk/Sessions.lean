import ErSdk.Runs
import ErSdk.SmMoves

namespace ErSdk.Sessions

open ProtocolClientSm Ledger SmMoves Error

variable {R ι W : Type}

/-- A call of st_transmit_complete to the callback of a request. -/
structure Call (R : Type) where
  request : ProtocolClientRequest R
  response : ProtocolClientResponse
  deriving DecidableEq

/-- An operation that leaves the log alone. -/
def quietly {α L : Type} (f : W → α × W) (w : W × L) : α × (W × L) :=
  ((f w.1).1, ((f w.1).2, w.2))

/-- The same environment, with a log of the callbacks next to the world. -/
def logged (env : Env R W) : Env R (W × List (Call R)) where
  systemGetTime := quietly env.systemGetTime
  memAlloc := quietly env.memAlloc
  queuePushTail := quietly env.queuePushTail
  lookup := quietly env.lookup
  createSocket := quietly env.createSocket
  connect socket := quietly (env.connect socket)
  close socket w := (env.close socket w.1, w.2)
  setSocket socket w := (env.setSocket socket w.1, w.2)
  clearSocket w := (env.clearSocket w.1, w.2)
  sendRequest request := quietly (env.sendRequest request)
  recvResponse response := quietly (env.recvResponse response)
  clientClose w := (env.clientClose w.1, w.2)
  getResponseStatus code w := env.getResponseStatus code w.1
  clb request response w :=
    ((env.clb request response w.1).1, ((env.clb request response w.1).2, w.2 ++ [⟨request, response⟩]))

def logHooks : Hooks R (List (Call R)) where
  sends _ _ x y := y = x
  receives _ x y := y = x
  closes x y := y = x
  status _ _ := True
  calls request response x y := y = x ++ [⟨request, response⟩]

theorem observes_logged (env : Env R W) : Observes (logged env) Prod.snd logHooks where
  systemGetTime _ := rfl
  memAlloc _ := rfl
  queuePushTail _ := rfl
  lookup _ := rfl
  createSocket _ := rfl
  connect _ _ := rfl
  setSocket _ _ := rfl
  clearSocket _ := rfl
  clientClose _ := rfl
  close _ _ := rfl
  sendRequest _ _ := rfl
  recvResponse _ _ := rfl
  status _ _ := trivial
  clb _ _ _ := rfl

/-- A call made to a state machine, or what the other state machines do to the
statics they share with it. -/
inductive Action (R ι : Type)
  | transmit (type : RequestType) (request : R) (messageId : Int)
  | clear
  | task
  | interfere (connectingSm : Option ι) (startTime : SysTime) (nextState : SmState)

/-- A state machine in use, with the requests it has accepted so far. -/
structure Session (R ι W : Type) where
  st : St R ι (W × List (Call R))
  accepted : List (ProtocolClientRequest R)

namespace Session

def calls (s : Session R ι W) : List (Call R) := s.st.world.2

def books (s : Session R ι W) : Holdings R × List (Call R) := look Prod.snd s.st

variable [DecidableEq ι]

def step (env : Env R W) (self : ι) (s : Session R ι W) : Action R ι → Session R ι W
  | .transmit type request messageId =>
      let c := protocolClientSmTransmit (logged env) type request messageId s.st
      { st := c.2
        accepted := if c.1 = errSuccess then
            s.accepted ++ [newRequest type request messageId s.st]
          else s.accepted }
  | .clear => { s with st := s.st.mapSm protocolClientSmClear }
  | .task => { s with st := protocolClientSmTask (logged env) self s.st }
  | .interfere connectingSm startTime nextState =>
      { s with st := s.st.mapGlobals (fun g => { g with connectingSm, startTime, nextState }) }

/-- A new state machine in a world of any state. -/
def start (sm : ProtocolClientSmClass R) (globals : Globals ι) (world : W) : Session R ι W :=
  { st := { sm, globals, world := (world, []) }, accepted := [] }

/-- What protocol_client_sm_transmit does to the books: nothing when it fails. -/
theorem transmit_cases (env : Env R W) (type : RequestType) (request : R) (messageId : Int)
    (s : Session R ι W) (self : ι) :
    let t := step env self s (.transmit type request messageId)
    (t.books = s.books ∧ t.accepted = s.accepted ∧ s.st.globals.heap ≤ t.st.globals.heap) ∨
      (t.books = ({ s.books.1 with
          queue := s.books.1.queue ++ [newRequest type request messageId s.st] }, s.books.2) ∧
        t.accepted = s.accepted ++ [newRequest type request messageId s.st] ∧
        t.st.globals.heap = s.st.globals.heap + 1) := by
  obtain ⟨he, hlook, hheap⟩ | ⟨he, hheap, hlook⟩ :=
    SmMoves.transmit_cases (observes_logged env).toWatches type request messageId s.st
  · exact .inl ⟨hlook, if_neg he, hheap⟩
  · exact .inr ⟨hlook, if_pos he, hheap⟩

end Session

/-- A network and a clock that play back prepared results, each list from its head. -/
structure Script where
  clock : List SysTime
  connects : List Int
  sends : List Int
  receives : List Received
  deriving DecidableEq, Repr

namespace Script

def noData : Received := ⟨errWouldBlock, 0, 0, [], 0⟩

/-- The clock stands at 1000 and the network sends but receives nothing once the script
is used up. -/
def platform : Platform R Script where
  systemGetTime w := (w.clock.headD 1000, { w with clock := w.clock.tail })
  memAlloc w := (errSuccess, w)
  queuePushTail w := (errSuccess, w)
  lookup w := (errSuccess, w)
  createSocket w := ((errSuccess, 1), w)
  connect _ w := (w.connects.headD errSuccess, { w with connects := w.connects.tail })
  close _ w := w
  setSocket _ w := w
  clearSocket w := w
  sendRequest _ w := (w.sends.headD errSuccess, { w with sends := w.sends.tail })
  recvResponse _ w := (w.receives.headD noData, { w with receives := w.receives.tail })
  clientClose w := w
  getResponseStatus code _ := 200 ≤ code && code < 300

/-- Requests are named by numbers, and their callbacks do nothing. -/
def env : Env Nat Script := { platform with clb := fun _ response w => (response.payload, w) }

def config : TransmissionConfig := ⟨5, 5, 1000, 2000, 4⟩

def noResponse : ProtocolClientResponse := ⟨[], 0, 0, 0, 0, .normal, false⟩

/-- A new state machine with the limit `rqLimit`, before the first call. -/
def session (rqLimit : Nat) (stype : StateMachineType) (w : Script) : Session Nat Unit Script :=
  Session.start (protocolClientSmNew config rqLimit stype noResponse none) ⟨none, 0, .reset, 0⟩ w

end Script

end ErSdk.Sessions
