import ErSdk.HttpClient
import ErSdk.MbedtlsClient
import ErSdk.PosixTcp
import ErSdk.SocketLife
import ErSdk.WorldSteps

namespace ErSdk.NetworkStack

open ProtocolClientSm SocketLog SocketLife ConnectLock Runs Interaction NetPort Error WorldSteps

section

variable {ι : Type} [DecidableEq ι]

/-- A machine knows each socket that it has opened, as long as that is not closed. -/
def Kept (lines : ι → Line) (log : Log ι) : Prop :=
  ∀ j k, owner k log = some j → (lines j).socket = some k

theorem Kept.move {lines : ι → Line} {log : Log ι} {n : Nat} (h : Kept lines log) {i : ι}
    {b : Book ι} (hm : Move i ⟨lines i, n, log⟩ b) : Kept (Function.update lines i b.line) b.log := by
  have hsame (line : Line) (hline : line.socket = (lines i).socket) :
      Kept (Function.update lines i line) log := by
    intro j k hk
    by_cases hj : j = i
    · subst hj
      rw [Function.update_self, hline]
      exact h j k hk
    · rw [Function.update_of_ne hj]
      exact h j k hk
  cases hm with
  | opens hi =>
      have hnone : lines i = ⟨none, false⟩ := hi
      intro j k hk
      rw [owner] at hk
      by_cases hj : j = i
      · subst hj
        rw [Function.update_self]
        split at hk
        · assumption
        · have hold := h j k hk
          rw [hnone] at hold
          cases hold
      · rw [Function.update_of_ne hj]
        split at hk
        · exact absurd (Option.some.inj hk).symm hj
        · exact h j k hk
  | tries hi =>
      intro j k hk
      rw [owner_of_op (by decide) (by decide)] at hk
      exact hsame _ rfl j k hk
  | connects hi =>
      intro j k hk
      rw [owner_of_op (by decide) (by decide), owner_of_op (by decide) (by decide)] at hk
      have hsocket : (lines i).socket = some _ := congrArg Line.socket hi
      exact hsame _ hsocket.symm j k hk
  | uses hc =>
      intro j k hk
      rw [owner_of_op (by decide) (by decide)] at hk
      exact hsame _ rfl j k hk
  | @closes l hi =>
      intro j k hk
      rw [owner] at hk
      split at hk
      · cases hk
      · rename_i hne
        rw [owner_of_op (by decide) (by decide)] at hk
        have hold := h j k hk
        by_cases hj : j = i
        · subst hj
          exact absurd (hi.symm.trans hold) hne
        · rw [Function.update_of_ne hj]
          exact hold

theorem Kept.moves {lines : ι → Line} {log : Log ι} {n : Nat} (h : Kept lines log) {i : ι}
    {b : Book ι} (hm : Moves i ⟨lines i, n, log⟩ b) :
    Kept (Function.update lines i b.line) b.log := by
  induction hm with
  | refl =>
      rw [Function.update_eq_self]
      exact h
  | tail _ hstep ih =>
      have hmove := ih.move (i := i) (b := _) (by rw [Function.update_self]; exact hstep)
      rw [Function.update_idem] at hmove
      exact hmove

def stageIn (k : Nat) : Log ι → Stage
  | [] => .closed
  | e :: log =>
      if e.socket = some k then
        match e.op with
        | .opened => .opened
        | .connecting true => .linked
        | .closed => .closed
        | _ => stageIn k log
      else stageIn k log

omit [DecidableEq ι] in
theorem stageIn_of_owner {k : Nat} {i : ι} {log : Log ι} (h : owner k log = some i) :
    stageIn k log ≠ .closed := by
  induction log with
  | nil => cases h
  | cons e log ih =>
      obtain ⟨j, op, socket⟩ := e
      rw [owner] at h
      rw [stageIn]
      by_cases hk : socket = some k
      · rw [if_pos hk] at h ⊢
        cases op with
        | opened => exact (show Stage.opened ≠ .closed by decide)
        | connecting done =>
            cases done with
            | true => exact (show Stage.linked ≠ .closed by decide)
            | false => exact ih h
        | given => exact ih h
        | closed => cases h
        | used => exact ih h
      · rw [if_neg hk] at h ⊢
        exact ih h

theorem connection_mem {k : Nat} (i : ι) {log : Log ι} (h : connection i log = some k) :
    ∃ d ∈ log, d.socket = some k := by
  induction log with
  | nil => cases h
  | cons e log ih =>
      rw [connection] at h
      split at h
      · exact ⟨e, List.mem_cons_self, h⟩
      · split at h
        · cases h
        · obtain ⟨d, hd, hk⟩ := ih h
          exact ⟨d, List.mem_cons_of_mem e hd, hk⟩

theorem stageIn_of_connection {k : Nat} {i : ι} {log : Log ι} (hfair : AllFair log)
    (h : owner k log = some i) (hc : connection i log = some k) : stageIn k log = .linked := by
  induction log with
  | nil => cases h
  | cons e log ih =>
      obtain ⟨j, op, socket⟩ := e
      rw [owner] at h
      rw [stageIn]
      rw [connection] at hc
      by_cases hk : socket = some k
      · rw [if_pos hk] at h ⊢
        cases op with
        | opened =>
            obtain ⟨l, hl, hnew⟩ := hfair.1
            obtain rfl := Option.some.inj (hl.symm.trans hk)
            obtain ⟨d, hd, hdk⟩ := connection_mem i (show connection i log = some _ by simpa using hc)
            exact absurd hdk (hnew d hd)
        | connecting done =>
            cases done with
            | true => rfl
            | false => exact ih hfair.2 h (by simpa using hc)
        | given => exact ih hfair.2 h (by simpa using hc)
        | closed => cases h
        | used => exact ih hfair.2 h (by simpa using hc)
      · rw [if_neg hk] at h ⊢
        split at hc
        · exact absurd hc hk
        · split at hc
          · cases hc
          · exact ih hfair.2 h hc

theorem owner_of_stageIn {k : Nat} {log : Log ι} (hfair : AllFair log)
    (h : stageIn k log ≠ .closed) : ∃ i, owner k log = some i := by
  induction log with
  | nil => exact absurd rfl h
  | cons e log ih =>
      obtain ⟨j, op, socket⟩ := e
      rw [stageIn] at h
      rw [owner]
      by_cases hk : socket = some k
      · rw [if_pos hk] at h ⊢
        cases op with
        | opened => exact ⟨j, rfl⟩
        | connecting done =>
            obtain ⟨l, hl, howner⟩ := hfair.1
            obtain rfl := Option.some.inj (hl.symm.trans hk)
            exact ⟨j, howner⟩
        | given => exact ih hfair.2 h
        | closed => exact absurd rfl h
        | used => exact ih hfair.2 h
      · rw [if_neg hk] at h ⊢
        exact ih hfair.2 h

end

/-- What a protocol client does with the socket that it was given. -/
inductive SocketOp
  | recv (size : Nat)
  | send (buf : List UInt8)
  deriving DecidableEq, Repr

@[reducible] def SocketAnswer : SocketOp → Type
  | .recv _ => Int × List UInt8
  | .send _ => Int × Nat

/-- A protocol client: struct protocol_client_ops without the operations that set its socket. -/
structure ProtocolClient (R P : Type) where
  send : ProtocolClientRequest R → P → Prog SocketOp SocketAnswer (Int × P)
  recv : ProtocolClientResponse → P → Prog SocketOp SocketAnswer (Received × P)
  close : P → P
  getResponseStatus : Int → Bool

/-- The calls of a client, by its socket pointer. -/
def onSocket (socket : Option Nat) : Layer SocketOp SocketAnswer NetOp NetAnswer Unit
  | .recv size, _ =>
      match socket with
      | some k => do return (← net (.recv k size), ())
      | none => do
          let _ ← net .wild
          return ((errFailure, []), ())
  | .send buf, _ =>
      match socket with
      | some k => do return (← net (.send k buf), ())
      | none => do
          let _ ← net .wild
          return ((errFailure, 0), ())

def httpSend (request : List UInt8) : Prog SocketOp SocketAnswer Int := do
  let sent : Int × Nat ← Prog.call (SocketOp.send request)
  if sent.1 = errSuccess ∧ sent.2 ≠ request.length then return errCouldNotSend
  return sent.1

/-- http_client.c, given how a request is rendered. http_recv never faults. -/
def httpClient {R : Type} (render : R → List UInt8) (alloc : HttpParser.Allocations) :
    ProtocolClient R Unit where
  send request _ := do return (← httpSend (render request.request), ())
  recv response _ := do
    let received : Int × List UInt8 ← Prog.call (SocketOp.recv HttpClient.recvBufferSize)
    match HttpClient.httpRecv received alloc response.payload response.maxPayloadSize with
    | .ok r => return (⟨r.error, r.responseCode.getD response.responseCode,
        r.token.getD response.id, r.payload, r.payloadSize.getD response.payloadSize⟩, ())
    | .error _ => return (⟨errFailure, response.responseCode, response.id, response.payload,
        response.payloadSize⟩, ())
  close := id
  getResponseStatus := HttpClient.httpGetResponseStatus

/-- The socket of each client, what each client keeps, the state of the layers below, and the
system with a trace of its calls. -/
structure Stack (ι P S Q : Type) (A : Q → Type) (K : Type) where
  sockets : ι → Option Nat
  clients : ι → P
  layers : S
  system : Traced Q A K

section

variable {R ι P S Q K σ : Type} {A : Q → Type}
variable (layer : Layer NetOp NetAnswer Q A S) (handler : Handler Q A K)

def exec {α : Type} (p : Net α) (w : Stack ι P S Q A K) : α × Stack ι P S Q A K :=
  let r := run (traced handler) (through layer p w.layers) w.system
  (r.1.1, { w with layers := r.1.2, system := r.2 })

/-- An operation that needs no socket. -/
def onSystem {α : Type} (f : K → α × K) (w : Stack ι P S Q A K) : α × Stack ι P S Q A K :=
  let r := f w.system.world
  (r.1, { w with system := { w.system with world := r.2 } })

variable [DecidableEq ι] (client : ProtocolClient R P) (base : Env R K) (i : ι)

/-- A machine over the stack. `base` has its clock, its allocator and its callbacks. -/
def env : Env R (Stack ι P S Q A K) where
  systemGetTime := onSystem base.systemGetTime
  memAlloc := onSystem base.memAlloc
  queuePushTail := onSystem base.queuePushTail
  lookup := exec layer handler (net .lookup)
  createSocket := exec layer handler (net .socket)
  connect socket :=
    match socket with
    | some k => exec layer handler (net (.connect k))
    | none => exec layer handler (do
        let _ ← net .wild
        return errFailure)
  close socket w :=
    match socket with
    | some k => (exec layer handler (net (.close k)) w).2
    | none => (exec layer handler (net .wild) w).2
  setSocket socket w := { w with sockets := Function.update w.sockets i socket }
  clearSocket w := { w with sockets := Function.update w.sockets i none }
  sendRequest request w :=
    let r := exec layer handler (through (onSocket (w.sockets i)) (client.send request (w.clients i)) ()) w
    (r.1.1.1, { r.2 with clients := Function.update r.2.clients i r.1.1.2 })
  recvResponse response w :=
    let r := exec layer handler (through (onSocket (w.sockets i)) (client.recv response (w.clients i)) ()) w
    (r.1.1.1, { r.2 with clients := Function.update r.2.clients i r.1.1.2 })
  clientClose w := { w with clients := Function.update w.clients i (client.close (w.clients i)) }
  getResponseStatus code _ := client.getResponseStatus code
  clb request response := onSystem (base.clb request response)

end

section

variable {R ι P S Q K σ : Type} {A : Q → Type} {layer : Layer NetOp NetAnswer Q A S}
variable {handler : Handler Q A K} {c : Contract Q A σ} {start : σ} {rel : Sockets → S → σ → Prop}

def socketsOf (r : Recorded ι (Stack ι P S Q A K)) : Sockets :=
  ⟨r.opened, fun k => stageIn k r.log⟩

/-- What holds of the layers and the system, where the sockets are in a state `u`. -/
structure Supports (c : Contract Q A σ) (start : σ) (rel : Sockets → S → σ → Prop) (u : Sockets)
    (w : Stack ι P S Q A K) : Prop where
  kept : c.Kept start w.system.trace
  related : rel u w.layers (c.state start w.system.trace)

theorem relied_of_exec {α : Type} {p : Net α} {w : Stack ι P S Q A K}
    (h : c.Relied start (exec layer handler p w).2.system.trace) :
    c.Relied start w.system.trace := relied_of_run h

/-- A program that keeps the promises of net_port.h, over the layers. -/
theorem Supports.executes (hserves : Serves netPort c rel layer) {α : Type} {post : α → Sockets → Prop}
    {p : Net α} {u : Sockets} {w : Stack ι P S Q A K} (h : Supports c start rel u w)
    (hp : Keeps netPort post p u)
    (hrelied : c.Relied start (exec layer handler p w).2.system.trace) :
    ∃ u', post (exec layer handler p w).1 u' ∧
      Supports c start rel u' (exec layer handler p w).2 := by
  obtain ⟨hkept, u', hpost, hrel⟩ := (hserves.through h.related hp).run h.kept hrelied
  exact ⟨u', hpost, hkept, hrel⟩

theorem Supports.call (hserves : Serves netPort c rel layer) {q : NetOp} {u : Sockets}
    {w : Stack ι P S Q A K} (h : Supports c start rel u w) (hq : netAllowed u q)
    (hrelied : c.Relied start (exec layer handler (net q) w).2.system.trace) :
    netSound u q (exec layer handler (net q) w).1 ∧
      Supports c start rel (netNext u q (exec layer handler (net q) w).1)
        (exec layer handler (net q) w).2 := by
  have hcall : Keeps netPort (fun a u' => netSound u q a ∧ u' = netNext u q a) (net q) u :=
    ⟨hq, fun a ha => ⟨ha, rfl⟩⟩
  obtain ⟨u', ⟨hsound, rfl⟩, hsupports⟩ := h.executes hserves hcall hrelied
  exact ⟨hsound, hsupports⟩

theorem keeps_onSocket {α : Type} {u : Sockets} {k : Nat} (hk : u.stage k = .linked)
    (p : Prog SocketOp SocketAnswer α) :
    Keeps netPort (fun _ u' => u' = u) (through (onSocket (some k)) p ()) u := by
  induction p with
  | done a => rfl
  | ask q next ih =>
      cases q with
      | recv size => exact ⟨hk, fun a _ => ih a⟩
      | send buf => exact ⟨hk, fun a _ => ih a⟩

variable [DecidableEq ι]

/-- As long as the machines are fair to their sockets and the system keeps its promises, the layers
hold what they promise, and each client has the socket that it was last given. -/
def Standing (c : Contract Q A σ) (start : σ) (rel : Sockets → S → σ → Prop)
    (r : Recorded ι (Stack ι P S Q A K)) : Prop :=
  AllFair r.log → c.Relied start r.world.system.trace →
    Supports c start rel (socketsOf r) r.world ∧ ∀ i, r.world.sockets i = held i r.log

variable {client : ProtocolClient R P} {base : Env R K} {i : ι} (hserves : Serves netPort c rel layer)

theorem standing_lift {α : Type} {f : Stack ι P S Q A K → α × Stack ι P S Q A K}
    {r : Recorded ι (Stack ι P S Q A K)}
    (hf : (f r.world).2.system.trace = r.world.system.trace ∧ (f r.world).2.layers = r.world.layers ∧
      (f r.world).2.sockets = r.world.sockets)
    (h : Standing c start rel r) : Standing c start rel (Recorded.lift f r).2 := by
  obtain ⟨htrace, hlayers, hsockets⟩ := hf
  intro hfair hrelied
  change c.Relied start (f r.world).2.system.trace at hrelied
  rw [htrace] at hrelied
  obtain ⟨hsupports, hheld⟩ := h hfair hrelied
  refine ⟨⟨?_, ?_⟩, fun j => ?_⟩
  · change c.Kept start (f r.world).2.system.trace
    rw [htrace]
    exact hsupports.kept
  · change rel (socketsOf r) (f r.world).2.layers (c.state start (f r.world).2.system.trace)
    rw [htrace, hlayers]
    exact hsupports.related
  · change (f r.world).2.sockets j = held j r.log
    rw [hsockets]
    exact hheld j

include hserves

theorem standing_lookup {r : Recorded ι (Stack ι P S Q A K)} (h : Standing c start rel r) :
    Standing c start rel ((record i (env layer handler client base i)).lookup r).2 := by
  intro hfair hrelied
  obtain ⟨hsupports, hheld⟩ := h hfair (relied_of_exec hrelied)
  exact ⟨(hsupports.call hserves (q := .lookup) trivial hrelied).2, hheld⟩

theorem standing_createSocket {r : Recorded ι (Stack ι P S Q A K)} (h : Standing c start rel r) :
    Standing c start rel ((record i (env layer handler client base i)).createSocket r).2 := by
  by_cases hok : (exec layer handler (net .socket) r.world).1.1 = errSuccess
  · have hcreate : ((record i (env layer handler client base i)).createSocket r).2 =
        ⟨(exec layer handler (net .socket) r.world).2, r.opened + 1,
          ⟨i, .opened, some r.opened⟩ :: r.log⟩ := by
      change (if (exec layer handler (net .socket) r.world).1.1 = errSuccess then _ else _ :
        (Int × Nat) × Recorded ι (Stack ι P S Q A K)).2 = _
      rw [if_pos hok]
      rfl
    rw [hcreate]
    intro hfair hrelied
    obtain ⟨hsupports, hheld⟩ := h hfair.2 (relied_of_exec hrelied)
    obtain ⟨-, hnext⟩ := hsupports.call hserves (q := .socket) trivial hrelied
    refine ⟨?_, fun j => ?_⟩
    · have hsockets : netNext (socketsOf r) .socket (exec layer handler (net .socket) r.world).1 =
          ⟨r.opened + 1, fun k => stageIn k (⟨i, .opened, some r.opened⟩ :: r.log)⟩ := by
        refine (if_pos hok).trans (congrArg (Sockets.mk (r.opened + 1)) (funext fun k => ?_))
        change Function.update (fun k => stageIn k r.log) r.opened .opened k = _
        by_cases hk : k = r.opened
        · subst hk
          rw [Function.update_self, stageIn, if_pos rfl]
        · rw [Function.update_of_ne hk, stageIn, if_neg (fun heq => hk (Option.some.inj heq).symm)]
      rw [hsockets] at hnext
      exact hnext
    · change r.world.sockets j = _
      rw [held_of_op (by decide)]
      exact hheld j
  · have hcreate : ((record i (env layer handler client base i)).createSocket r).2 =
        { r with world := (exec layer handler (net .socket) r.world).2 } := by
      change (if (exec layer handler (net .socket) r.world).1.1 = errSuccess then _ else _ :
        (Int × Nat) × Recorded ι (Stack ι P S Q A K)).2 = _
      rw [if_neg hok]
      rfl
    rw [hcreate]
    intro hfair hrelied
    obtain ⟨hsupports, hheld⟩ := h hfair (relied_of_exec hrelied)
    obtain ⟨-, hnext⟩ := hsupports.call hserves (q := .socket) trivial hrelied
    rw [show netNext (socketsOf r) .socket (exec layer handler (net .socket) r.world).1 =
      socketsOf r from if_neg hok] at hnext
    exact ⟨hnext, hheld⟩

theorem standing_connect {r : Recorded ι (Stack ι P S Q A K)} (socket : Option Nat)
    (h : Standing c start rel r) :
    Standing c start rel ((record i (env layer handler client base i)).connect socket r).2 := by
  intro hfair hrelied
  obtain ⟨k, hk, howner⟩ := hfair.1
  obtain rfl : socket = some k := hk
  obtain ⟨hsupports, hheld⟩ := h hfair.2 (relied_of_exec hrelied)
  obtain ⟨-, hnext⟩ := hsupports.call hserves (q := .connect k) (stageIn_of_owner howner) hrelied
  refine ⟨?_, fun j => ?_⟩
  · have hsockets : netNext (socketsOf r) (.connect k) (exec layer handler (net (.connect k)) r.world).1 =
        ⟨r.opened, fun l => stageIn l (⟨i, .connecting
          ((exec layer handler (net (.connect k)) r.world).1 = errSuccess), some k⟩ :: r.log)⟩ := by
      by_cases hok : (exec layer handler (net (.connect k)) r.world).1 = errSuccess
      · refine (if_pos hok).trans (congrArg (Sockets.mk r.opened) (funext fun l => ?_))
        change Function.update (fun l => stageIn l r.log) k .linked l = _
        rw [decide_eq_true hok, stageIn]
        by_cases hl : l = k
        · subst hl
          rw [Function.update_self, if_pos rfl]
        · rw [Function.update_of_ne hl, if_neg (fun heq => hl (Option.some.inj heq).symm)]
      · refine (if_neg hok).trans (congrArg (Sockets.mk r.opened) (funext fun l => ?_))
        rw [decide_eq_false hok, stageIn]
        exact (ite_self _).symm
    rw [hsockets] at hnext
    exact hnext
  · change r.world.sockets j = held j (⟨i, .connecting _, some k⟩ :: r.log)
    rw [held_of_op (by simp)]
    exact hheld j

theorem standing_close {r : Recorded ι (Stack ι P S Q A K)} (socket : Option Nat)
    (h : Standing c start rel r) :
    Standing c start rel ((record i (env layer handler client base i)).close socket r) := by
  intro hfair hrelied
  obtain ⟨k, hk, howner⟩ := hfair.1
  obtain rfl : socket = some k := hk
  obtain ⟨hsupports, hheld⟩ := h hfair.2 (relied_of_exec hrelied)
  obtain ⟨-, hnext⟩ := hsupports.call hserves (q := .close k) (stageIn_of_owner howner) hrelied
  refine ⟨?_, fun j => ?_⟩
  · have hsockets : netNext (socketsOf r) (.close k) (exec layer handler (net (.close k)) r.world).1 =
        ⟨r.opened, fun l => stageIn l (⟨i, .closed, some k⟩ :: r.log)⟩ := by
      refine congrArg (Sockets.mk r.opened) (funext fun l => ?_)
      change Function.update (fun l => stageIn l r.log) k .closed l = _
      rw [stageIn]
      by_cases hl : l = k
      · subst hl
        rw [Function.update_self, if_pos rfl]
      · rw [Function.update_of_ne hl, if_neg (fun heq => hl (Option.some.inj heq).symm)]
    rw [hsockets] at hnext
    exact hnext
  · change r.world.sockets j = held j (⟨i, .closed, some k⟩ :: r.log)
    rw [held_of_op (by decide)]
    exact hheld j

omit hserves [DecidableEq ι] in
theorem stageIn_of_given (k : Nat) (socket : Option Nat) (log : Log ι) :
    stageIn k (⟨i, .given, socket⟩ :: log) = stageIn k log := by
  rw [stageIn]
  exact ite_self _

omit hserves in
theorem standing_given {r : Recorded ι (Stack ι P S Q A K)} (socket : Option Nat)
    (h : Standing c start rel r) :
    Standing c start rel { r with
      world := { r.world with sockets := Function.update r.world.sockets i socket }
      log := ⟨i, .given, socket⟩ :: r.log } := by
  intro hfair hrelied
  obtain ⟨hsupports, hheld⟩ := h hfair.2 hrelied
  refine ⟨⟨hsupports.kept, ?_⟩, fun j => ?_⟩
  · have hsockets : (fun k => stageIn k (⟨i, .given, socket⟩ :: r.log)) = fun k => stageIn k r.log :=
      funext fun k => stageIn_of_given k socket r.log
    change rel ⟨r.opened, fun k => stageIn k (⟨i, .given, socket⟩ :: r.log)⟩ _ _
    rw [hsockets]
    exact hsupports.related
  · change Function.update r.world.sockets i socket j = _
    by_cases hj : j = i
    · subst hj
      rw [Function.update_self, held_given]
    · rw [Function.update_of_ne hj, held_of_ne (fun heq => hj heq.symm)]
      exact hheld j

theorem standing_used {α : Type} {r : Recorded ι (Stack ι P S Q A K)}
    (p : Prog SocketOp SocketAnswer α) (clients : α → ι → P) (h : Standing c start rel r) :
    Standing c start rel { r with
      world := { (exec layer handler (through (onSocket (r.world.sockets i)) p ()) r.world).2 with
        clients := clients (exec layer handler (through (onSocket (r.world.sockets i)) p ()) r.world).1.1 }
      log := ⟨i, .used, held i r.log⟩ :: r.log } := by
  intro hfair hrelied
  obtain ⟨k, hk, howner, -, hconnection⟩ := hfair.1
  change held i r.log = some k at hk
  obtain ⟨hsupports, hheld⟩ := h hfair.2 (relied_of_exec hrelied)
  have hlinked : (socketsOf r).stage k = .linked := stageIn_of_connection hfair.2 howner hconnection
  have hkeeps : Keeps netPort (fun _ u => u = socketsOf r)
      (through (onSocket (r.world.sockets i)) p ()) (socketsOf r) := by
    rw [hheld i, hk]
    exact keeps_onSocket hlinked p
  obtain ⟨u, rfl, hnext⟩ := hsupports.executes hserves hkeeps hrelied
  refine ⟨⟨hnext.kept, ?_⟩, fun j => ?_⟩
  · have hsockets : (fun k => stageIn k (⟨i, .used, held i r.log⟩ :: r.log)) =
        fun k => stageIn k r.log := by
      funext l
      rw [stageIn]
      exact ite_self _
    change rel ⟨r.opened, fun k => stageIn k (⟨i, .used, held i r.log⟩ :: r.log)⟩ _ _
    rw [hsockets]
    exact hnext.related
  · change r.world.sockets j = held j (⟨i, .used, held i r.log⟩ :: r.log)
    rw [held_of_op (by decide)]
    exact hheld j

theorem standing_along : Along (record i (env layer handler client base i))
    (fun r r' => Standing c start rel r → Standing c start rel r') where
  refl _ h := h
  trans h h' hr := h' (h hr)
  systemGetTime _ := standing_lift ⟨rfl, rfl, rfl⟩
  memAlloc _ := standing_lift ⟨rfl, rfl, rfl⟩
  queuePushTail _ := standing_lift ⟨rfl, rfl, rfl⟩
  lookup _ := standing_lookup hserves
  createSocket _ := standing_createSocket hserves
  connect socket _ := standing_connect hserves socket
  close socket _ := standing_close hserves socket
  setSocket socket _ := standing_given socket
  clearSocket _ := standing_given none
  sendRequest _ r := standing_used (α := Int × P) hserves _
    (fun a => Function.update r.world.clients i a.2)
  recvResponse _ r := standing_used (α := Received × P) hserves _
    (fun a => Function.update r.world.clients i a.2)
  clientClose _ h hfair hrelied :=
    have hr := h hfair hrelied
    ⟨⟨hr.1.kept, hr.1.related⟩, hr.2⟩
  clb _ _ _ := standing_lift ⟨rfl, rfl, rfl⟩

end

end ErSdk.NetworkStack
