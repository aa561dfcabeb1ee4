import ErSdk.NetworkStack

namespace ErSdk.StackedMachines

open ProtocolClientSm SocketLog SocketLife ConnectLock Runs Interaction NetPort Error NetworkStack

section

variable {R ι P S Q K σ : Type} {A : Q → Type} [DecidableEq ι]
variable (layer : Layer NetOp NetAnswer Q A S) (handler : Handler Q A K) (client : ProtocolClient R P)
variable (base : ι → Env R K)

abbrev Machines (R ι P S Q : Type) (A : Q → Type) (K : Type) :=
  System R ι (Recorded ι (Stack ι P S Q A K))

/-- The calls of any of the machines, each with its own client, over one stack of layers. -/
def step (s : Machines R ι P S Q A K) (a : Action R ι) : Machines R ι P S Q A K :=
  System.step (fun i => record i (env layer handler client (base i) i)) s a

/-- What a run starts with: the configuration of the machines, their clients and the system. -/
structure Setup (R ι P K : Type) where
  config : ι → TransmissionConfig
  rqLimit : ι → Nat
  stype : ι → StateMachineType
  response : ι → ProtocolClientResponse
  completed : ι → Option (ProtocolClientRequest R)
  startTime : SysTime
  nextState : SmState
  heap : Nat
  clients : ι → P
  system : K

def start (setup : Setup R ι P K) (layers : S) : Machines R ι P S Q A K :=
  created setup.config setup.rqLimit setup.stype setup.response setup.completed setup.startTime
    setup.nextState setup.heap ⟨fun _ => none, setup.clients, layers, ⟨setup.system, []⟩⟩

def lines (s : Machines R ι P S Q A K) (i : ι) : Line := lineOf (s.sms i)

theorem step_moves {s : Machines R ι P S Q A K} (h : Sound s) (a : Action R ι) :
    ∃ i b, Moves i ⟨lines s i, s.world.opened, s.world.log⟩ b ∧
      lines (step layer handler client base s a) = Function.update (lines s) i b.line ∧
      (step layer handler client base s a).world.log = b.log := by
  cases a with
  | transmit i type request messageId =>
      obtain ⟨hbook, -⟩ := bookOf_transmit i (env layer handler client (base i) i) type request
        messageId (s.view i)
      refine ⟨i, _, .refl, ?_, congrArg Book.log hbook⟩
      exact (lines_put s i _).trans (congrArg (Function.update _ i) (congrArg Book.line hbook))
  | clear i =>
      exact ⟨i, _, .refl, lines_put s i _, rfl⟩
  | task i =>
      exact ⟨i, _, task_moves i (env layer handler client (base i) i) i (s := s.view i)
        (h.tidy.socket i), lines_put s i _, rfl⟩

variable {layer handler client base} {c : Contract Q A σ} {first : σ} {rel : Sockets → S → σ → Prop}

theorem standing_step (hserves : Serves netPort c rel layer) (s : Machines R ι P S Q A K)
    (a : Action R ι) (h : Standing c first rel s.world) :
    Standing c first rel (step layer handler client base s a).world := by
  cases a with
  | transmit i type request messageId =>
      exact WorldSteps.protocolClientSmTransmit_along (standing_along hserves) (s.view i) type
        request messageId h
  | clear i => exact h
  | task i => exact WorldSteps.protocolClientSmTask_along (standing_along hserves) (s.view i) i h

/-- What holds of machines over a stack between any two calls. -/
structure Invariant (c : Contract Q A σ) (first : σ) (rel : Sockets → S → σ → Prop)
    (s : Machines R ι P S Q A K) : Prop where
  sound : Sound s
  kept : Kept (lines s) s.world.log
  standing : Standing c first rel s.world

theorem Invariant.step (hserves : Serves netPort c rel layer) (s : Machines R ι P S Q A K)
    (a : Action R ι) (h : Invariant c first rel s) :
    Invariant c first rel (step layer handler client base s a) where
  sound := h.sound.step (fun i => env layer handler client (base i) i) s a
  kept := by
    obtain ⟨i, b, hmoves, hlines, hlog⟩ := step_moves layer handler client base h.sound a
    rw [hlines, hlog]
    exact h.kept.moves hmoves
  standing := standing_step hserves s a h.standing

theorem Invariant.start (setup : Setup R ι P K) {layers : S}
    (hrel : rel Sockets.none layers first) :
    Invariant c first rel (start setup layers : Machines R ι P S Q A K) where
  sound := ⟨fun _ => nofun, tidy_start (fun _ => rfl) 0⟩
  kept _ _ h := by cases h
  standing _ _ := ⟨⟨trivial, hrel⟩, fun _ => rfl⟩

theorem invariant_run (hserves : Serves netPort c rel layer) (setup : Setup R ι P K) {layers : S}
    (hrel : rel Sockets.none layers first) (acts : List (Action R ι)) :
    Invariant c first rel (run (step layer handler client base) (start setup layers) acts) :=
  Runs.invariant (fun s a h => h.step hserves s a) acts (Invariant.start setup hrel)

theorem Invariant.stage_iff {s : Machines R ι P S Q A K} (h : Invariant c first rel s) (k : Nat) :
    stageIn k s.world.log ≠ .closed ↔ ∃ i, (s.sms i).socket = some k := by
  have htidy := h.sound.tidy
  constructor
  · intro hk
    obtain ⟨i, hi⟩ := owner_of_stageIn htidy.fair hk
    exact ⟨i, h.kept i k hi⟩
  · rintro ⟨i, hi⟩
    exact stageIn_of_owner (htidy.owned i k hi)

theorem Invariant.connected {s : Machines R ι P S Q A K} (h : Invariant c first rel s) {i : ι}
    (hi : (s.sms i).connected = true) :
    ∃ k, (s.sms i).socket = some k ∧ stageIn k s.world.log = .linked := by
  have htidy := h.sound.tidy
  obtain ⟨k, hk⟩ := Option.isSome_iff_exists.mp (htidy.socket i hi)
  refine ⟨k, hk, stageIn_of_connection htidy.fair (htidy.owned i k hk) ?_⟩
  rw [htidy.connection i]
  exact (if_pos hi).trans hk

end

section

open PosixTcp MbedtlsClient

variable {R ι P S K L : Type} [DecidableEq ι]

/-- The system calls of all machines so far, the latest one first. -/
def calls (s : Machines R ι P S Syscall Result K) : Trace Syscall Result := s.world.world.system.trace

def descriptors (s : Machines R ι P S Syscall Result K) : Descriptors :=
  system.state Descriptors.none (calls s)

/-- What the system may expect of the machines, where `stands` says on which descriptor the socket
of a machine stands. Every call that they make is allowed. A descriptor is open if and only if it
was lost or is that of one machine, and it is connected if its machine is. -/
structure DescriptorsSafe (s : Machines R ι P S Syscall Result K) (stands : ι → Int → Prop) : Prop where
  allowed : system.Kept Descriptors.none (calls s)
  open_iff : ∀ fd, (descriptors s).stage fd ≠ .closed ↔
    fd ∈ (descriptors s).lost ∨ ∃ i, stands i fd
  apart : ∀ i j fd, stands i fd → stands j fd → i = j
  stray : ∀ fd ∈ (descriptors s).lost, ∀ i, ¬ stands i fd
  connected : ∀ i, (s.sms i).connected = true → ∃ fd, stands i fd ∧ (descriptors s).stage fd = .linked

/-- The socket of a machine stands on a descriptor, without a layer between it and the port. -/
def StandsOn (s : Machines R ι P Memory Syscall Result K) (i : ι) (fd : Int) : Prop :=
  ∃ k socket, (s.sms i).socket = some k ∧ s.world.world.layers.sockets k = some socket ∧
    socket.sockfd = fd

theorem backed_socket_iff {u : Sockets} {m : Memory} {d : Descriptors} (h : Backed u m d) (k : Nat) :
    u.stage k ≠ .closed ↔ ∃ socket, m.sockets k = some socket := by
  constructor
  · intro hk
    obtain ⟨socket, hs, -⟩ := h.socket_of_stage hk
    exact ⟨socket, hs⟩
  · rintro ⟨socket, hs⟩
    rw [h.stage k, hs]
    exact PosixTcp.stageOf_ne_closed socket

theorem backed_linked {u : Sockets} {m : Memory} {d : Descriptors} (h : Backed u m d) {k : Nat}
    (hk : u.stage k = .linked) :
    ∃ socket, m.sockets k = some socket ∧ d.stage socket.sockfd = .linked := by
  obtain ⟨socket, hs, hstage⟩ := h.socket_of_stage (k := k) (by rw [hk]; decide)
  exact ⟨socket, hs, hstage.trans hk⟩

theorem descriptors_safe (handler : Handler Syscall Result K) (client : ProtocolClient R P)
    (base : ι → Env R K) (setup : Setup R ι P K) (acts : List (Action R ι)) :
    let s := run (step tcpOps handler client base) (start setup ⟨0, fun _ => none⟩) acts
    system.Relied Descriptors.none (calls s) → DescriptorsSafe s (StandsOn s) := by
  intro s hrelied
  have h : Invariant system Descriptors.none Backed s :=
    invariant_run tcpOps_serves setup backed_none acts
  have hbacked : Backed (socketsOf s.world) s.world.world.layers (descriptors s) :=
    (h.standing h.sound.tidy.fair hrelied).1.related
  refine ⟨(h.standing h.sound.tidy.fair hrelied).1.kept, fun fd => ?_, ?_, ?_, fun i hi => ?_⟩
  · rw [show (descriptors s).stage fd ≠ .closed ↔ _ from hbacked.leased.mem_used_iff fd]
    refine or_congr_right ⟨?_, ?_⟩
    · rintro ⟨k, socket, hk, hfd⟩
      obtain ⟨i, hi⟩ := (h.stage_iff k).mp ((backed_socket_iff hbacked k).mpr ⟨socket, hk⟩)
      exact ⟨i, k, socket, hi, hk, hfd⟩
    · rintro ⟨i, k, socket, -, hk, hfd⟩
      exact ⟨k, socket, hk, hfd⟩
  · rintro i j fd ⟨k, a, hik, hk, hfd⟩ ⟨l, b, hjl, hl, hfd'⟩
    obtain rfl := hbacked.leased.apart k l a b hk hl (hfd.trans hfd'.symm)
    exact Option.some.inj ((h.sound.tidy.owned i k hik).symm.trans (h.sound.tidy.owned j k hjl))
  · rintro fd hlost i ⟨k, socket, -, hk, hfd⟩
    exact (hbacked.leased.stray fd hlost).2 k socket hk hfd
  · obtain ⟨k, hk, hlinked⟩ := h.connected hi
    obtain ⟨socket, hs, hstage⟩ := backed_linked hbacked hlinked
    exact ⟨socket.sockfd, ⟨k, socket, hk, hs, rfl⟩, hstage⟩

/-- A system that takes everything that is sent and has nothing to receive. Its clock goes on by a
second with each call that reads it. -/
def taking : Handler Syscall Result SysTime
  | .socket, t => (3, t)
  | .getFlags _, t => (0, t)
  | .setNonblock _ _, t => (0, t)
  | .malloc, t => (true, t)
  | .connect _, t => ((0, .other), t)
  | .recv _ _, t => (((-1, .ewouldblock), []), t)
  | .send _ buf, t => ((buf.length, .other), t)
  | .close _, t => (0, t)
  | .getaddrinfo, t => (0, t)
  | .wild, t => ((), t)

def clock : Env Unit SysTime where
  systemGetTime t := (t + 1000, t + 1000)
  memAlloc t := (errSuccess, t)
  queuePushTail t := (errSuccess, t)
  lookup t := (errSuccess, t)
  createSocket t := ((errSuccess, 0), t)
  connect _ t := (errSuccess, t)
  close _ t := t
  setSocket _ t := t
  clearSocket t := t
  sendRequest _ t := (errSuccess, t)
  recvResponse response t := (⟨errWouldBlock, 0, 0, response.payload, 0⟩, t)
  clientClose t := t
  getResponseStatus _ _ := false
  clb _ response t := (response.payload, t)

def oneMachine : Setup Unit Unit Unit SysTime where
  config _ := ⟨3, 3, 10000, 100000, 4⟩
  rqLimit _ := 1
  stype _ := .synch
  response _ := ⟨[], 0, 0, 0, 0, .normal, false⟩
  completed _ := none
  startTime := 0
  nextState := .reset
  heap := 0
  clients _ := ()
  system := 0

def http : ProtocolClient Unit Unit := httpClient (fun _ => [71, 69, 84]) ⟨true, true⟩

def transfer : List (ConnectLock.Action Unit Unit) := [.transmit () .normal () 1, .task (), .task ()]

theorem descriptors_safe_transfer :
    let s := run (step tcpOps taking http fun _ => clock) (start oneMachine ⟨0, fun _ => none⟩)
      transfer
    (calls s).map Sigma.fst = [.recv 3 256, .send 3 [71, 69, 84], .connect 3, .malloc,
      .setNonblock 3 0, .getFlags 3, .socket, .getaddrinfo] ∧ DescriptorsSafe s (StandsOn s) :=
  ⟨by decide, descriptors_safe taking http (fun _ => clock) oneMachine transfer (by decide)⟩

abbrev Secure (L : Type) := Clients (L × List MbedtlsClient.Event) × Memory

/-- The device that stands for a socket of a machine, and the descriptor of its lower socket. -/
def SecurelyOn (s : Machines R ι P (Secure L) Syscall Result K) (i : ι) (fd : Int) : Prop :=
  ∃ k dev socket, (s.sms i).socket = some k ∧ s.world.world.layers.1.devs k = some dev ∧
    s.world.world.layers.2.sockets dev.netIf = some socket ∧ socket.sockfd = fd

def devices (s : Machines R ι P (Secure L) Syscall Result K) : Clients (L × List MbedtlsClient.Event) :=
  s.world.world.layers.1

/-- The calls of the library for each device are in order: data is read and written between a
handshake that succeeded and the close notification, and a context is freed once. A machine is
connected over sessions only whose handshake succeeded. Of the devices that are freed each is
accessed exactly once more: by the store to dev->connected behind its sf_free. -/
structure SessionsSafe (s : Machines R ι P (Secure L) Syscall Result K) : Prop where
  live : ∀ k dev, (devices s).devs k = some dev →
    dev.connected = true ∧ InPhase .secure dev.ssl.2 ∨
    dev.connected = false ∧ (InPhase .fresh dev.ssl.2 ∨ InPhase .started dev.ssl.2)
  gone : ∀ k ∈ (devices s).stale, ∃ dev, (devices s).freed k = some dev ∧ InPhase .gone dev.ssl.2
  stale : ∀ k, k ∈ (devices s).stale ↔ k < (devices s).handed ∧ (devices s).devs k = none
  once : (devices s).stale.Nodup
  connected : ∀ i, (s.sms i).connected = true → ∃ k dev, (s.sms i).socket = some k ∧
    (devices s).devs k = some dev ∧ InPhase .secure dev.ssl.2

theorem carried_dev_iff {inv : Phase → L → Prop} {u l : Sockets} {c : Clients L}
    (h : Carried inv u c l) (k : Nat) :
    u.stage k ≠ .closed ↔ ∃ dev, c.devs k = some dev := by
  constructor
  · intro hk
    obtain ⟨dev, hd, -⟩ := h.dev_of_stage hk
    exact ⟨dev, hd⟩
  · rintro ⟨dev, hd⟩
    rw [h.stage k, hd]
    change (if dev.connected then Stage.linked else Stage.opened) ≠ .closed
    split
    · decide
    · decide

theorem sessions_safe (lib : Mbedtls L) (hlib : Documented lib) (handler : Handler Syscall Result K)
    (client : ProtocolClient R P) (base : ι → Env R K) (setup : Setup R ι P K)
    (sfMalloc : Nat → Bool) (acts : List (Action R ι)) :
    let s := run (step ((sslClientOps (recorded lib)).over tcpOps) handler client base)
      (start setup (Clients.start sfMalloc, ⟨0, fun _ => none⟩)) acts
    system.Relied Descriptors.none (calls s) →
      DescriptorsSafe s (SecurelyOn s) ∧ SessionsSafe s := by
  intro s hrelied
  have h : Invariant system Descriptors.none (fun u layers d => ∃ l, Carried (fun p c =>
      (p = .fresh → lib.idle c.1 = true) ∧ InPhase p c.2) u layers.1 l ∧
        Backed l layers.2 d) s :=
    invariant_run ((sslClientOps_serves hlib.recorded).over tcpOps_serves) setup
      ⟨Sockets.none, carried_start sfMalloc, backed_none⟩ acts
  obtain ⟨hkept, l, hcarried, hbacked⟩ := (h.standing h.sound.tidy.fair hrelied).1
  change Carried _ (socketsOf s.world) s.world.world.layers.1 l at hcarried
  change Backed l s.world.world.layers.2 (descriptors s) at hbacked
  -- each lower socket is that of a device, and each device that of a machine
  have hdevice (n : Nat) : l.stage n ≠ .closed ↔ ∃ k dev,
      s.world.world.layers.1.devs k = some dev ∧ dev.netIf = n := by
    rw [show l.stage n ≠ .closed ↔ _ from hcarried.leased.mem_used_iff n]
    exact ⟨fun hn => hn.resolve_left (Set.notMem_empty n), Or.inr⟩
  refine ⟨⟨hkept, fun fd => ?_, ?_, ?_, fun i hi => ?_⟩, ?_, ?_, hcarried.stale, hcarried.once,
    fun i hi => ?_⟩
  · rw [show (descriptors s).stage fd ≠ .closed ↔ _ from hbacked.leased.mem_used_iff fd]
    refine or_congr_right ⟨?_, ?_⟩
    · rintro ⟨n, socket, hn, hfd⟩
      obtain ⟨k, dev, hk, rfl⟩ := (hdevice n).mp ((backed_socket_iff hbacked n).mpr ⟨socket, hn⟩)
      obtain ⟨i, hi⟩ := (h.stage_iff k).mp ((carried_dev_iff hcarried k).mpr ⟨dev, hk⟩)
      exact ⟨i, k, dev, socket, hi, hk, hn, hfd⟩
    · rintro ⟨i, k, dev, socket, -, -, hn, hfd⟩
      exact ⟨dev.netIf, socket, hn, hfd⟩
  · rintro i j fd ⟨k, dev, a, hik, hk, ha, hfd⟩ ⟨k', dev', b, hjk, hk', hb, hfd'⟩
    have hnet := hbacked.leased.apart dev.netIf dev'.netIf a b ha hb (hfd.trans hfd'.symm)
    obtain rfl := hcarried.leased.apart k k' dev dev' hk hk' hnet
    exact Option.some.inj ((h.sound.tidy.owned i k hik).symm.trans (h.sound.tidy.owned j k hjk))
  · rintro fd hlost i ⟨k, dev, socket, -, -, hn, hfd⟩
    exact (hbacked.leased.stray fd hlost).2 dev.netIf socket hn hfd
  · obtain ⟨k, hk, hlinked⟩ := h.connected hi
    obtain ⟨dev, hdev, hstage⟩ := hcarried.dev_of_stage (k := k) (stageIn_of_owner
      (h.sound.tidy.owned i k hk))
    obtain ⟨-, hfits⟩ := hcarried.secure hdev (hstage.trans hlinked)
    obtain ⟨socket, hs, hfd⟩ := backed_linked hbacked hfits.2
    exact ⟨socket.sockfd, ⟨k, dev, socket, hk, hdev, hs, rfl⟩, hfd⟩
  · intro k dev hk
    obtain ⟨p, hfits, -, hlog⟩ := hcarried.phase k dev hk
    cases hc : dev.connected with
    | true =>
        obtain ⟨rfl, -⟩ := hfits.of_connected hc
        exact .inl ⟨rfl, hlog⟩
    | false =>
        rcases hfits.of_unconnected hc with rfl | ⟨rfl, -⟩
        · exact .inr ⟨rfl, .inl hlog⟩
        · exact .inr ⟨rfl, .inr hlog⟩
  · intro k hk
    obtain ⟨dev, hdev, -, hlog⟩ := hcarried.gone k hk
    exact ⟨dev, hdev, hlog⟩
  · obtain ⟨k, hk, hlinked⟩ := h.connected hi
    obtain ⟨dev, hdev, hstage⟩ := hcarried.dev_of_stage (k := k) (stageIn_of_owner
      (h.sound.tidy.owned i k hk))
    obtain ⟨hssl, -⟩ := hcarried.secure hdev (hstage.trans hlinked)
    exact ⟨k, dev, hk, hdev, hssl.2⟩

/-- A library whose handshake is one message, and that does not encrypt. A context that is not idle
keeps whether its handshake is over: as long as it is not, the message is left to be sent. -/
def plainText : Mbedtls (Option Bool) where
  initContext _ := none
  sslHandshake _ := do
    let sent : Int ← Prog.call (BioOp.send [22])
    if sent = 1 then return (0, some true)
    return (errSslWantWrite, some false)
  sslRead size ssl := do
    let received : Int × List UInt8 ← Prog.call (BioOp.recv size)
    return (received, ssl)
  sslWrite buf ssl := do
    let sent : Int ← Prog.call (BioOp.send buf)
    return (sent, ssl)
  sslCloseNotify
    | none => return none
    | some finished => do
        let _ ← Prog.call (BioOp.send [if finished then 21 else 22])
        return some finished
  free _ := none
  idle ssl := ssl.isNone

theorem plainText_documented : Documented plainText where
  init _ _ := rfl
  handshake _ _ _ _ := by
    refine keeps_call trivial fun sent _ => ?_
    split
    · exact keeps_pure nofun
    · exact keeps_pure nofun
  read size _ _ := keeps_call trivial fun received hreceived =>
    keeps_pure ⟨nofun, fun hpos => (hreceived (le_of_lt hpos)).2⟩
  write buf _ _ := keeps_call trivial fun sent hsent => keeps_pure ⟨nofun, hsent⟩
  notify _ ssl _ _ := by
    cases ssl with
    | none => exact keeps_pure nofun
    | some finished => exact keeps_call trivial fun _ _ => keeps_pure nofun
  quiet ssl h := by
    obtain rfl : ssl = none := Option.isNone_iff_eq_none.mp (h rfl)
    exact ⟨none, rfl, nofun⟩
  free _ _ := nofun

theorem sessions_safe_transfer :
    let s := run (step ((sslClientOps (recorded plainText)).over tcpOps) taking http fun _ => clock)
      (start oneMachine (Clients.start fun _ => true, ⟨0, fun _ => none⟩)) transfer
    (calls s).map Sigma.fst = [.recv 3 256, .send 3 [71, 69, 84], .send 3 [22], .connect 3, .malloc,
      .setNonblock 3 0, .getFlags 3, .socket, .getaddrinfo] ∧
      DescriptorsSafe s (SecurelyOn s) ∧ SessionsSafe s :=
  ⟨by decide, sessions_safe plainText plainText_documented taking http (fun _ => clock) oneMachine
    (fun _ => true) transfer (by decide)⟩

end

end ErSdk.StackedMachines
