import ErSdk.ConfiguratorFields
import ErSdk.Strings
import ErSdk.ExositeApi
import Mathlib.Data.List.FinRange

namespace ErSdk.ConfiguratorServer

open Error Strings ConfiguratorFields

def maxConfiguratorConnection : Nat := 2

def htmlOpener : List UInt8 := bytes "<html><body><h1>Network settings</h1>SN: "

def wifiSettingForm : List UInt8 :=
  bytes "<hr><form action=\"network_settings\">Security: <select name=\"security\">" ++
  bytes "<option value=\"open\">Open</option>" ++
  bytes "<option value=\"wpa2\" selected>WPA2</option></select><br>" ++
  bytes "SSID: <input type=\"text\" name=\"ssid\"><br>" ++
  bytes "Passphrase: <input type=\"text\" name=\"passphrase\"><br>" ++
  bytes "<input type=\"submit\" value=\"Submit\"></form><hr>"

def errorNotification : List UInt8 := bytes "<h2>Error</h2>"

def successNotification : List UInt8 := bytes "<h2>Success</h2>"

def htmlCloser : List UInt8 := bytes "</body></html>"

inductive PageType
  | blank
  | main
  | error
  | success
  deriving DecidableEq, Repr

inductive ClientStatus
  | closed
  | opened
  | disconnected
  | recvInProgress
  | messageRecvd
  | sendInProgress
  | responseSent
  | httpError
  | socketError
  deriving DecidableEq, Repr

/-- A call that http_parser_execute makes to one of the callbacks, with its text. -/
inductive Event
  | messageBegin
  | url (text : List UInt8)
  | headerField (text : List UInt8)
  | headerValue (text : List UInt8)
  | headersComplete
  | body (text : List UInt8)
  | messageComplete
  deriving DecidableEq, Repr

inductive Socket
  | listener (n : Nat)
  | client (n : Nat)
  deriving DecidableEq, Repr

/-- A client of type `P` parsers. Its socket is the number that accept gave it. -/
structure ClientSocket (P : Type) where
  socket : Option Nat
  status : ClientStatus
  parser : P
  headerField : Option StringClass
  headerValue : Option StringClass
  response : Option StringClass
  sent : Nat
  deriving DecidableEq, Repr

/-- A pointer to a block of the heap that holds a text. -/
inductive Block
  | null
  | live (text : List UInt8)
  | freed
  deriving DecidableEq, Repr

structure CfgServer (P : Type) where
  serverSocket : Option Nat
  clientSocket : Fin maxConfiguratorConnection → ClientSocket P
  connections : Nat
  settings : Settings
  clbSet : Bool
  sn : Block

/-- What the server runs on, as operations on a world of any type: the network, the
allocator, the HTTP parser and the callback of the application. The callbacks of the
parser return 0 and leave it alone, so that its calls are a list. -/
structure Env (P W : Type) where
  serverSocket : W → (Int × Nat) × W
  accept : Nat → W → (Int × Nat) × W
  close : Option Socket → W → W
  recv : Option Nat → W → (Int × List UInt8) × W
  /-- The buffer of the response, and the offset in it from which on it is offered. -/
  send : Option Nat → List UInt8 → Nat → W → (Int × Nat) × W
  malloc : W → Bool × W
  /-- What is found behind a pointer that is NULL or whose block was freed. -/
  staleText : W → List UInt8 × W
  onSet : Except Undefined WifiSettings → W → Int × W
  httpParserInit : P
  httpParserExecute : P → List UInt8 → (List Event × Nat) × P

variable {P W : Type}

section

variable (env : Env P W)

def stringNew (initString : List UInt8) (w : W) : Option StringClass × W :=
  let a := env.malloc w
  if a.1 then
    let b := env.malloc a.2
    (Strings.stringNew initString true b.1, b.2)
  else (none, a.2)

def stringNewConst (initString : List UInt8) (w : W) : Option StringClass × W :=
  let a := env.malloc w
  if a.1 then
    let b := env.malloc a.2
    (Strings.stringNewConst initString true b.1, b.2)
  else (none, a.2)

/-- The allocator is asked only for a larger buffer. -/
def stringCatcn (str : StringClass) (newChunk : List UInt8) (w : W) : (Int × StringClass) × W :=
  if grows str newChunk then
    let a := env.malloc w
    (Strings.stringCatcn str newChunk a.1, a.2)
  else (Strings.stringCatcn str newChunk true, w)

def stringCatAll : List (List UInt8) → StringClass → W → Option StringClass × W
  | [], str, w => (some str, w)
  | chunk :: chunks, str, w =>
      let c := stringCatcn env str chunk w
      if c.1.1 = errSuccess then stringCatAll chunks c.1.2 c.2 else (none, c.2)

def readBlock (b : Block) (w : W) : List UInt8 × W :=
  match b with
  | .live text => (text, w)
  | _ => env.staleText w

/-- What stands behind the serial number. -/
def pageParts (page : PageType) : List (List UInt8) :=
  match page with
  | .blank => [htmlCloser]
  | .main => [wifiSettingForm, htmlCloser]
  | .error => [wifiSettingForm, errorNotification, htmlCloser]
  | .success => [wifiSettingForm, successNotification, htmlCloser]

def responsePayload (sn : Block) (page : PageType) (w : W) : Option StringClass × W :=
  let payload := stringNew env [] w
  match payload.1 with
  | none => payload
  | some str =>
      let opened := stringCatAll env [htmlOpener] str payload.2
      match opened.1 with
      | none => opened
      | some str =>
          let text := readBlock env sn opened.2
          stringCatAll env (text.1 :: pageParts page) str text.2

def responseHeader (size : Nat) : List UInt8 :=
  bytes "HTTP/1.0 200 OK\r\nContent-Type: text/html\r\nContent-Length: " ++
    ExositeApi.decimalText (HttpParser.toInt32 size) ++ bytes "\r\n\r\n"

/-- The response, or nothing when an allocation fails. -/
def setResponse (sn : Block) (page : PageType) (w : W) : Option StringClass × W :=
  let payload := responsePayload env sn page w
  match payload.1 with
  | none => payload
  | some str =>
      let response := stringNew env (responseHeader str.size) payload.2
      match response.1 with
      | none => response
      | some r => stringCatAll env [str.buffer] r response.2

end

def messageCleanup (client : ClientSocket P) : ClientSocket P :=
  { client with
    headerField := none
    headerValue := none
    response := none
    status := .opened
    sent := 0 }

/-- What one round of the loop over the clients works on. -/
structure Ctx (P W : Type) where
  client : ClientSocket P
  settings : Settings
  world : W

namespace Ctx

def call {α : Type} (f : W → α × W) (c : Ctx P W) : α × Ctx P W :=
  ((f c.world).1, { c with world := (f c.world).2 })

def mapClient (f : ClientSocket P → ClientSocket P) (c : Ctx P W) : Ctx P W :=
  { c with client := f c.client }

def setStatus (status : ClientStatus) (c : Ctx P W) : Ctx P W :=
  c.mapClient (fun client => { client with status })

end Ctx

section

variable (env : Env P W)

/-- The field and the value that were collected. The parser reports a value only behind a
field, so that there is no value without one. -/
def processPair (c : Ctx P W) : Ctx P W :=
  let settings := match c.client.headerField, c.client.headerValue with
    | some field, some value =>
        processHeaderField (cString field.buffer) (cString value.buffer) c.settings
    | _, _ => c.settings
  { c with
    settings
    client := { c.client with headerField := none, headerValue := none } }

def onMessageBegin (c : Ctx P W) : Ctx P W :=
  c.mapClient (fun client => { messageCleanup client with status := .recvInProgress })

def onHeadersComplete (c : Ctx P W) : Ctx P W :=
  if c.client.status = .httpError then c
  else if c.client.headerField.isSome ∨ c.client.headerValue.isSome then processPair c
  else c

def onMessageComplete (c : Ctx P W) : Ctx P W := c.setStatus .messageRecvd

def onUrl (text : List UInt8) (c : Ctx P W) : Ctx P W :=
  if c.client.status = .httpError then c
  else
    let url := c.call (stringNewConst env text)
    match url.1 with
    | some str => { url.2 with
        settings := processHeaderField (bytes "URL") (cString str.buffer) url.2.settings }
    | none => url.2.setStatus .httpError

/-- The first part of a text makes the string, and each part is appended to it. -/
def appendText (str : Option StringClass) (text : List UInt8) (w : W) :
    (Bool × Option StringClass) × W :=
  let new := match str with
    | some s => (some s, w)
    | none => stringNew env [] w
  match new.1 with
  | none => ((false, none), new.2)
  | some s =>
      let c := stringCatcn env s text new.2
      ((c.1.1 = errSuccess, some c.1.2), c.2)

def onHeaderField (text : List UInt8) (c : Ctx P W) : Ctx P W :=
  if c.client.status = .httpError then c
  else
    let c := if c.client.headerValue.isSome then processPair c else c
    let r := c.call (appendText env c.client.headerField text)
    r.2.mapClient (fun client => { client with
      headerField := r.1.2
      status := if r.1.1 then client.status else .httpError })

def onHeaderValue (text : List UInt8) (c : Ctx P W) : Ctx P W :=
  if c.client.status = .httpError then c
  else
    let r := c.call (appendText env c.client.headerValue text)
    r.2.mapClient (fun client => { client with
      headerValue := r.1.2
      status := if r.1.1 then client.status else .httpError })

/-- The body is printed only. -/
def onEvent (c : Ctx P W) : Event → Ctx P W
  | .messageBegin => onMessageBegin c
  | .url text => onUrl env text c
  | .headerField text => onHeaderField env text c
  | .headerValue text => onHeaderValue env text c
  | .headersComplete => onHeadersComplete c
  | .body _ => c
  | .messageComplete => onMessageComplete c

/-- http_parser_execute on a chunk, with its calls of the callbacks, and the check behind it. -/
def parseChunk (chunk : List UInt8) (c : Ctx P W) : Ctx P W :=
  let parsed := env.httpParserExecute c.client.parser chunk
  let c := parsed.1.1.foldl (onEvent env)
    (c.mapClient (fun client => { client with parser := parsed.2 }))
  if c.client.status = .httpError ∨ parsed.1.2 ≠ chunk.length then c.mapClient messageCleanup else c

def receiveTask (c : Ctx P W) : Ctx P W :=
  let r := c.call (env.recv c.client.socket)
  if r.1.1 = errWouldBlock then r.2
  else if r.1.1 ≠ errSuccess then r.2.setStatus .socketError
  else if r.1.2 = [] then r.2.setStatus .disconnected
  else parseChunk env r.1.2 r.2

/-- nbytes_sent counts from the offset `sent`. -/
def sendTask (c : Ctx P W) : Ctx P W :=
  match c.client.response with
  | some response =>
      let r := c.call (env.send c.client.socket response.buffer c.client.sent)
      if r.1.1 = errSuccess then
        r.2.mapClient (fun client => { client with response := none, status := .responseSent })
      else if r.1.1 = errWouldBlock then
        r.2.mapClient (fun client => { client with
          sent := client.sent + r.1.2, status := .sendInProgress })
      else r.2.setStatus .socketError
  | none => if c.client.status = .sendInProgress then c.setStatus .responseSent else c

/-- The callback of the application, and the page that follows from what it returns. -/
def applySettings (clbSet : Bool) (c : Ctx P W) : PageType × Ctx P W :=
  if c.settings.cfgChanged ∧ clbSet then
    let r := c.call (env.onSet c.settings.wifi)
    (if r.1 = errSuccess then .success else .error,
      { r.2 with settings := { r.2.settings with cfgChanged := false } })
  else (.main, c)

def respondTask (sn : Block) (page : PageType) (c : Ctx P W) : Ctx P W :=
  if c.client.status = .messageRecvd then
    let r := c.call (setResponse env sn page)
    r.2.mapClient (fun client => { client with
      response := r.1, sent := 0, status := .sendInProgress })
  else c

/-- One round of the loop, without the closing of the socket at its end. -/
def clientTask (sn : Block) (clbSet : Bool) (c : Ctx P W) : Ctx P W :=
  let c := if c.client.status = .opened ∨ c.client.status = .recvInProgress then receiveTask env c
    else c
  let a := applySettings env clbSet c
  let c := respondTask env sn a.1 a.2
  if c.client.status = .opened ∨ c.client.status = .sendInProgress then sendTask env c else c

def finished (status : ClientStatus) : Bool :=
  status = .responseSent || status = .disconnected || status = .socketError

end

structure St (P W : Type) where
  server : CfgServer P
  world : W

namespace St

def call {α : Type} (f : W → α × W) (s : St P W) : α × St P W :=
  ((f s.world).1, { s with world := (f s.world).2 })

def mapServer (f : CfgServer P → CfgServer P) (s : St P W) : St P W :=
  { s with server := f s.server }

def setClient (i : Fin maxConfiguratorConnection) (client : ClientSocket P) (s : St P W) : St P W :=
  s.mapServer (fun server => { server with
    clientSocket := Function.update server.clientSocket i client })

end St

section

variable (env : Env P W)

def openServerSocket (s : St P W) : St P W :=
  let r := s.call env.serverSocket
  r.2.mapServer (fun server => { server with
    serverSocket := if r.1.1 = errSuccess then some r.1.2 else none })

def closeServerSocket (s : St P W) : St P W :=
  { server := { s.server with serverSocket := none }
    world := env.close (s.server.serverSocket.map .listener) s.world }

def firstClosed (server : CfgServer P) : Option (Fin maxConfiguratorConnection) :=
  (List.finRange maxConfiguratorConnection).find? (fun i => (server.clientSocket i).status = .closed)

theorem firstClosed_some {server : CfgServer P} {i : Fin maxConfiguratorConnection}
    (h : firstClosed server = some i) : (server.clientSocket i).status = .closed := by
  simpa using List.find?_some h

theorem firstClosed_none {server : CfgServer P} (h : firstClosed server = none)
    (i : Fin maxConfiguratorConnection) : (server.clientSocket i).status ≠ .closed := by
  simpa using List.find?_eq_none.mp h i (List.mem_finRange i)

def addClientSocket (socket : Nat) (s : St P W) : Int × St P W :=
  if s.server.connections ≤ maxConfiguratorConnection then
    match firstClosed s.server with
    | some i => (errSuccess, (s.setClient i { s.server.clientSocket i with
        socket := some socket
        parser := env.httpParserInit
        status := .opened }).mapServer
          (fun server => { server with connections := server.connections + 1 }))
    | none => (errSuccess, s)
  else (errFailure, { s with world := env.close (some (.client socket)) s.world })

def closeClientSocket (i : Fin maxConfiguratorConnection) (s : St P W) : St P W :=
  let client := s.server.clientSocket i
  { server :=
      { s.server with
        clientSocket := Function.update s.server.clientSocket i
          { messageCleanup client with socket := none, status := .closed }
        connections := s.server.connections - 1 }
    world := env.close (client.socket.map .client) s.world }

/-- The listener is opened when there is none, and a new client is accepted. -/
def acceptTask (s : St P W) : St P W :=
  let s := if s.server.serverSocket.isNone then openServerSocket env s else s
  match s.server.serverSocket with
  | none => s
  | some listener =>
      let r := s.call (env.accept listener)
      if r.1.1 = errSuccess then (addClientSocket env r.1.2 r.2).2
      else if r.1.1 ≠ errWouldBlock then closeServerSocket env r.2
      else r.2

def slotTask (s : St P W) (i : Fin maxConfiguratorConnection) : St P W :=
  let c := clientTask env s.server.sn s.server.clbSet
    ⟨s.server.clientSocket i, s.server.settings, s.world⟩
  let server := { s.server with
    clientSocket := Function.update s.server.clientSocket i c.client
    settings := c.settings }
  let t : St P W := ⟨server, c.world⟩
  if finished c.client.status then closeClientSocket env i t else t

def configuratorServerTask (s : St P W) : St P W :=
  (List.finRange maxConfiguratorConnection).foldl (slotTask env) (acceptTask env s)

end

/-- The server before its first task; the text of cfg_server.sn is set by the start. -/
def initialServer (parser : P) (wifi : WifiSettings) (clbSet : Bool) (sn : Block) : CfgServer P where
  serverSocket := none
  clientSocket _ := ⟨none, .closed, parser, none, none, none, 0⟩
  connections := 0
  settings := ⟨.ok wifi, false⟩
  clbSet := clbSet
  sn := sn

end ErSdk.ConfiguratorServer
