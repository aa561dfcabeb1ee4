import ErSdk.Conformance
import ErSdk.Leases
import ErSdk.NetPort

namespace ErSdk.MbedtlsClient

open Conformance Interaction Leases NetPort Error

abbrev errSslWantRead : Int := -26880

abbrev errSslWantWrite : Int := -26752

abbrev errNetRecvFailed : Int := -76

/-- The callbacks of mbedtls_ssl_set_bio. -/
inductive BioOp
  | recv (size : Nat)
  | send (buf : List UInt8)
  deriving DecidableEq, Repr

@[reducible] def BioAnswer : BioOp → Type
  | .recv _ => Int × List UInt8
  | .send _ => Int

def mbedtlsRecv (netIf : Nat) (size : Nat) : Net (Int × List UInt8) := do
  let received ← net (.recv netIf size)
  if received.1 = errSuccess then return (received.2.length, received.2)
  if received.1 = errWouldBlock then return (errSslWantRead, [])
  return (errNetRecvFailed, [])

def mbedtlsSend (netIf : Nat) (buf : List UInt8) : Net Int := do
  let sent ← net (.send netIf buf)
  if sent.1 = errSuccess then return sent.2
  if sent.1 = errWouldBlock then return errSslWantRead
  return errNetRecvFailed

def bio (netIf : Nat) : Layer BioOp BioAnswer NetOp NetAnswer Unit
  | .recv size, _ => do return (← mbedtlsRecv netIf size, ())
  | .send buf, _ => do return (← mbedtlsSend netIf buf, ())

/-- What the client uses of mbedTLS, which may call the callbacks. `L` is what a device keeps of the
library: ssl, conf, entropy, ctr_drbg and cacert. -/
structure Mbedtls (L : Type) where
  /-- What mbedtls_client_init_context leaves in a device, whether or not its calls succeed. -/
  initContext : Nat → L
  sslHandshake : L → Prog BioOp BioAnswer (Int × L)
  sslRead : Nat → L → Prog BioOp BioAnswer ((Int × List UInt8) × L)
  sslWrite : List UInt8 → L → Prog BioOp BioAnswer (Int × L)
  sslCloseNotify : L → Prog BioOp BioAnswer L
  /-- x509_crt_free, ssl_free, ssl_config_free, ctr_drbg_free and entropy_free. -/
  free : L → L
  /-- The state of the ssl context is MBEDTLS_SSL_HELLO_REQUEST, and its out_left is 0. -/
  idle : L → Bool

structure MbedtlsClientDev (L : Type) where
  netIf : Nat
  connected : Bool
  ssl : L
  deriving DecidableEq, Repr

/-- The devices that are allocated, by number, what was last in those that were freed, the devices
that were written behind their sf_free, how many were handed out, and how the calls of sf_malloc
go. -/
structure Clients (L : Type) where
  handed : Nat
  devs : Nat → Option (MbedtlsClientDev L)
  freed : Nat → Option (MbedtlsClientDev L)
  stale : List Nat
  sfMalloc : Nat → Bool
  asked : Nat

variable {L : Type}

namespace Clients

def start (sfMalloc : Nat → Bool) : Clients L := ⟨0, fun _ => none, fun _ => none, [], sfMalloc, 0⟩

def put (c : Clients L) (k : Nat) (dev : MbedtlsClientDev L) : Clients L :=
  { c with devs := Function.update c.devs k (some dev) }

/-- sf_free of a device. The store to dev->connected behind it hits memory that is freed. -/
def drop (c : Clients L) (k : Nat) (dev : MbedtlsClientDev L) : Clients L :=
  { c with
    devs := Function.update c.devs k none
    freed := Function.update c.freed k (some dev)
    stale := k :: c.stale }

end Clients

/-- A library function, called with the callbacks of a device. -/
def withBio {α : Type} (netIf : Nat) (p : Prog BioOp BioAnswer α) : Net α := do
  return (← through (bio netIf) p ()).1

section

variable (lib : Mbedtls L)

/-- The block of a device whose lower socket cannot be had is leaked. -/
def mbedtlsClientSocket (c : Clients L) : Net ((Int × Nat) × Clients L) := do
  let allocated := c.sfMalloc c.asked
  let c := { c with asked := c.asked + 1 }
  if !allocated then return ((errNoMemory, 0), c)
  let ssl := lib.initContext c.handed
  let socket ← net .socket
  if socket.1 ≠ errSuccess then return ((errNoMemory, 0), c)
  return ((errSuccess, c.handed),
    { c.put c.handed ⟨socket.2, false, ssl⟩ with handed := c.handed + 1 })

/-- container_of, and an access to the device. -/
def containerOf {α : Type} (c : Clients L) (k : Nat) (junk : α)
    (body : MbedtlsClientDev L → Net (α × Clients L)) : Net (α × Clients L) :=
  match c.devs k with
  | some dev => body dev
  | none => do
      let _ ← net .wild
      return (junk, c)

/-- The error of an ssl function whose result is not a success. -/
def mapError (error : Int) : Int :=
  if error = errSslWantRead ∨ error = errSslWantWrite then errWouldBlock else errFailure

def mbedtlsClientConnect (c : Clients L) (k : Nat) : Net (Int × Clients L) :=
  containerOf c k errFailure fun dev => do
    if dev.connected then return (errSuccess, c)
    let error ← net (.connect dev.netIf)
    if error ≠ errSuccess then return (error, c)
    let handshake ← withBio dev.netIf (lib.sslHandshake dev.ssl)
    if handshake.1 ≠ 0 then return (mapError handshake.1, c.put k { dev with ssl := handshake.2 })
    return (errSuccess, c.put k { dev with ssl := handshake.2, connected := true })

def mbedtlsClientClose (c : Clients L) (k : Nat) : Net (Int × Clients L) :=
  containerOf c k errFailure fun dev => do
    let ssl ← withBio dev.netIf (lib.sslCloseNotify dev.ssl)
    let _ ← net (.close dev.netIf)
    return (0, c.drop k { dev with ssl := lib.free ssl })

def mbedtlsClientRecv (c : Clients L) (k : Nat) (size : Nat) :
    Net ((Int × List UInt8) × Clients L) :=
  containerOf c k (errFailure, []) fun dev => do
    let read ← withBio dev.netIf (lib.sslRead size dev.ssl)
    let c := c.put k { dev with ssl := read.2 }
    if read.1.1 ≤ 0 then return ((mapError read.1.1, []), c)
    return ((errSuccess, read.1.2), c)

def mbedtlsClientSend (c : Clients L) (k : Nat) (buf : List UInt8) :
    Net ((Int × Nat) × Clients L) :=
  containerOf c k (errFailure, 0) fun dev => do
    let written ← withBio dev.netIf (lib.sslWrite buf dev.ssl)
    let c := c.put k { dev with ssl := written.2 }
    if written.1 ≤ 0 then return ((mapError written.1, 0), c)
    return ((errSuccess, written.1.toNat), c)

def sslClientOps : Layer NetOp NetAnswer NetOp NetAnswer (Clients L)
  | .socket, c => mbedtlsClientSocket lib c
  | .connect k, c => mbedtlsClientConnect lib c k
  | .close k, c => mbedtlsClientClose lib c k
  | .recv k size, c => mbedtlsClientRecv lib c k size
  | .send k buf, c => mbedtlsClientSend lib c k buf
  | .lookup, c => do return (← net .lookup, c)
  | .wild, c => do return (← net .wild, c)

end

/-- What the library and its callbacks promise each other. -/
def bioPort : Contract BioOp BioAnswer Unit where
  allowed _ _ := True
  sound
    | _, .recv size, a => 0 ≤ a.1 → (a.2.length : Int) = a.1 ∧ a.2.length ≤ size
    | _, .send buf, a => a ≤ buf.length
  next _ _ _ := ()

/-- How far the session of a device is. -/
inductive Phase
  | fresh
  | started
  | secure
  | notified
  | gone
  deriving DecidableEq, Repr

/-- What the functions of the library do to the phase of the session they are called for, where
`inv` says in which phase a context is. A session whose handshake was never started is closed in
silence, and that of a handshake that is not over may have something left to send. -/
structure Typed (lib : Mbedtls L) (inv : Phase → L → Prop) : Prop where
  init : ∀ k, inv .fresh (lib.initContext k)
  handshake : ∀ p c, p = .fresh ∨ p = .started → inv p c →
    Keeps bioPort (fun r _ => inv (if r.1 = 0 then .secure else .started) r.2) (lib.sslHandshake c) ()
  read : ∀ size c, inv .secure c → Keeps bioPort (fun r _ => inv .secure r.2 ∧
    (0 < r.1.1 → r.1.2.length ≤ size)) (lib.sslRead size c) ()
  write : ∀ buf c, inv .secure c → Keeps bioPort (fun r _ => inv .secure r.2 ∧
    r.1 ≤ buf.length) (lib.sslWrite buf c) ()
  notify : ∀ p c, p = .started ∨ p = .secure → inv p c →
    Keeps bioPort (fun c _ => inv .notified c) (lib.sslCloseNotify c) ()
  quiet : ∀ c, inv .fresh c → ∃ c', lib.sslCloseNotify c = .done c' ∧ inv .notified c'
  free : ∀ c, inv .notified c → inv .gone (lib.free c)

section

variable {l : Sockets} {netIf : Nat}

theorem mbedtlsRecv_keeps (h : l.stage netIf = .linked) (size : Nat) :
    Keeps netPort (fun r l' => bioPort.sound () (.recv size) r ∧ l' = l) (mbedtlsRecv netIf size) l := by
  have hnegative {e : Int} (he : e < 0) : bioPort.sound () (.recv size) (e, []) := fun hpos =>
    absurd he (not_lt.mpr hpos)
  unfold mbedtlsRecv
  refine keeps_call (q := NetOp.recv netIf size) h fun received hreceived => ?_
  by_cases hok : received.1 = errSuccess
  · rw [if_pos hok]
    exact keeps_pure ⟨fun _ => ⟨rfl, hreceived hok⟩, rfl⟩
  · rw [if_neg hok]
    split
    · exact keeps_pure ⟨hnegative (by decide), rfl⟩
    · exact keeps_pure ⟨hnegative (by decide), rfl⟩

theorem mbedtlsSend_keeps (h : l.stage netIf = .linked) (buf : List UInt8) :
    Keeps netPort (fun r l' => bioPort.sound () (.send buf) r ∧ l' = l) (mbedtlsSend netIf buf) l := by
  have hnegative {e : Int} (he : e < 0) : bioPort.sound () (.send buf) e :=
    (le_of_lt he).trans (Int.natCast_nonneg _)
  unfold mbedtlsSend
  refine keeps_call (q := NetOp.send netIf buf) h fun sent hsent => ?_
  by_cases hok : sent.1 = errSuccess
  · rw [if_pos hok]
    exact keeps_pure ⟨Int.ofNat_le.mpr (hsent hok), rfl⟩
  · rw [if_neg hok]
    split
    · exact keeps_pure ⟨hnegative (by decide), rfl⟩
    · exact keeps_pure ⟨hnegative (by decide), rfl⟩

theorem bio_serves (h : l.stage netIf = .linked) :
    Serves bioPort netPort (fun _ _ l' => l' = l) (bio netIf) := by
  rintro q - s l' rfl -
  cases q with
  | recv size => exact (mbedtlsRecv_keeps h size).andThen fun _ _ hr => keeps_pure hr
  | send buf => exact (mbedtlsSend_keeps h buf).andThen fun _ _ hr => keeps_pure hr

theorem withBio_keeps {α : Type} (h : l.stage netIf = .linked)
    {post : α → Prop} {p : Prog BioOp BioAnswer α} (hp : Keeps bioPort (fun a _ => post a) p ()) :
    Keeps netPort (fun a l' => post a ∧ l' = l) (withBio netIf p) l :=
  ((bio_serves h).through rfl hp).andThen fun _ _ ⟨_, hpost, hl⟩ => keeps_pure ⟨hpost, hl⟩

end

def stageOf : Option (MbedtlsClientDev L) → Stage
  | none => .closed
  | some dev => if dev.connected then .linked else .opened

/-- The phases of a device that is allocated, by its flag and by the stage of the socket below. -/
def Phase.Fits (connected : Bool) (below : Stage) : Phase → Prop
  | .fresh => connected = false
  | .started => connected = false ∧ below = .linked
  | .secure => connected = true ∧ below = .linked
  | .notified | .gone => False

namespace Phase.Fits

variable {connected : Bool} {below : Stage} {p : Phase}

theorem linked (h : p.Fits connected below) : p.Fits connected .linked := by
  cases p with
  | fresh => exact h
  | started => exact ⟨h.1, rfl⟩
  | secure => exact ⟨h.1, rfl⟩
  | notified => exact h
  | gone => exact h

theorem of_unconnected (h : p.Fits connected below) (hc : connected = false) :
    p = .fresh ∨ p = .started ∧ below = .linked := by
  cases p with
  | fresh => exact .inl rfl
  | started => exact .inr ⟨rfl, h.2⟩
  | secure => exact absurd (hc.symm.trans h.1) Bool.false_ne_true
  | notified => exact h.elim
  | gone => exact h.elim

theorem of_connected (h : p.Fits connected below) (hc : connected = true) :
    p = .secure ∧ below = .linked := by
  cases p with
  | fresh => exact absurd (h.symm.trans hc) Bool.false_ne_true
  | started => exact absurd (h.1.symm.trans hc) Bool.false_ne_true
  | secure => exact ⟨rfl, h.2⟩
  | notified => exact h.elim
  | gone => exact h.elim

end Phase.Fits

/-- Each device works over a lower socket of its own, that is connected where the handshake was
started, and no lower socket is left without a device. What is written behind its sf_free is each
device that is closed, once. -/
structure Carried (inv : Phase → L → Prop) (u : Sockets) (c : Clients L) (l : Sockets) : Prop where
  opened : u.opened = c.handed
  fresh : ∀ k, c.handed ≤ k → c.devs k = none
  stage : ∀ k, u.stage k = stageOf (c.devs k)
  phase : ∀ k dev, c.devs k = some dev →
    ∃ p : Phase, p.Fits dev.connected (l.stage dev.netIf) ∧ inv p dev.ssl
  gone : ∀ k ∈ c.stale, ∃ dev, c.freed k = some dev ∧ inv .gone dev.ssl
  once : c.stale.Nodup
  stale : ∀ k, k ∈ c.stale ↔ k < c.handed ∧ c.devs k = none
  leased : Leased c.devs MbedtlsClientDev.netIf (inUse l.stage) ∅

section

variable {lib : Mbedtls L} {inv : Phase → L → Prop} {u l : Sockets} {c : Clients L}

theorem carried_start (sfMalloc : Nat → Bool) :
    Carried inv Sockets.none (Clients.start sfMalloc) Sockets.none where
  opened := rfl
  fresh _ _ := rfl
  stage _ := rfl
  phase _ _ h := by cases h
  gone _ h := by cases h
  once := List.nodup_nil
  stale _ := ⟨nofun, fun h => absurd h.1 (Nat.not_lt_zero _)⟩
  leased := by
    have hnone : inUse Sockets.none.stage = ∅ := Set.eq_empty_of_forall_notMem fun _ h => h rfl
    rw [hnone]
    exact leased_empty

namespace Carried

theorem asks (h : Carried inv u c l) (n : Nat) : Carried inv u { c with asked := n } l :=
  ⟨h.opened, h.fresh, h.stage, h.phase, h.gone, h.once, h.stale, h.leased⟩

theorem dev_of_stage (h : Carried inv u c l) {k : Nat} (hk : u.stage k ≠ .closed) :
    ∃ dev, c.devs k = some dev ∧ stageOf (some dev) = u.stage k := by
  rw [h.stage k] at hk ⊢
  cases hd : c.devs k with
  | none =>
      rw [hd] at hk
      exact absurd rfl hk
  | some dev => exact ⟨dev, rfl, rfl⟩

theorem opens (h : Carried inv u c l) {netIf : Nat} {ssl : L} (hssl : inv .fresh ssl)
    (hnew : l.stage netIf = .closed) (n : Nat) :
    Carried inv { u.set u.opened .opened with opened := u.opened + 1 }
      { c.put c.handed ⟨netIf, false, ssl⟩ with handed := c.handed + 1 }
      { l.set netIf .opened with opened := n } where
  opened := congrArg (· + 1) h.opened
  fresh k hk := by
    have hlt : c.handed < k := hk
    change Function.update c.devs c.handed _ k = none
    rw [Function.update_of_ne (Nat.ne_of_gt hlt)]
    exact h.fresh k (Nat.le_of_lt hlt)
  stage := by
    change ∀ k, Function.update u.stage u.opened .opened k = _
    rw [h.opened]
    exact map_update (f := stageOf) h.stage (some ⟨netIf, false, ssl⟩)
  phase := by
    refine forall_put ⟨.fresh, rfl, hssl⟩ fun k dev _ hk => ?_
    have hother := h.leased.unused (c := netIf) (fun hmem => hmem hnew) k dev hk
    rw [Sockets.set_stage, Function.update_of_ne hother]
    exact h.phase k dev hk
  gone := h.gone
  once := h.once
  stale k := by
    refine (h.stale k).trans ?_
    change _ ↔ k < c.handed + 1 ∧ Function.update c.devs c.handed _ k = none
    by_cases hk : k = c.handed
    · subst hk
      rw [Function.update_self]
      exact ⟨fun hlt => absurd hlt.1 (Nat.lt_irrefl _), fun hnone => nomatch hnone.2⟩
    · rw [Function.update_of_ne hk, Nat.lt_succ_iff_lt_or_eq, or_iff_left hk]
  leased := by
    change Leased (Function.update c.devs c.handed _) _ (inUse (Function.update l.stage netIf .opened)) _
    rw [inUse_open (by decide)]
    exact h.leased.take (b := ⟨netIf, false, ssl⟩) (h.fresh c.handed le_rfl) fun hmem => hmem hnew

theorem puts (h : Carried inv u c l) {k : Nat} {dev : MbedtlsClientDev L} {ssl : L} {p : Phase}
    {connected : Bool} (hk : c.devs k = some dev) (hfits : p.Fits connected (l.stage dev.netIf))
    (hssl : inv p ssl) :
    Carried inv (u.set k (if connected then .linked else .opened))
      (c.put k { dev with connected, ssl }) l where
  opened := h.opened
  fresh j hj := by
    have hne : j ≠ k := by
      rintro rfl
      rw [h.fresh j hj] at hk
      cases hk
    exact (Function.update_of_ne hne ..).trans (h.fresh j hj)
  stage := map_update (f := stageOf) h.stage (some { dev with connected, ssl })
  phase := forall_put ⟨p, hfits, hssl⟩ fun j d _ hj => h.phase j d hj
  gone := h.gone
  once := h.once
  stale j := by
    refine (h.stale j).trans ?_
    change _ ↔ j < c.handed ∧ Function.update c.devs k _ j = none
    by_cases hj : j = k
    · subst hj
      rw [Function.update_self, hk]
      exact and_congr_right fun _ => ⟨nofun, nofun⟩
    · rw [Function.update_of_ne hj]
  leased := h.leased.alter hk rfl

theorem below (h : Carried inv u c l) {k : Nat} {dev : MbedtlsClientDev L}
    (hk : c.devs k = some dev) : Carried inv u c (l.set dev.netIf .linked) where
  opened := h.opened
  fresh := h.fresh
  stage := h.stage
  phase j d hj := by
    obtain ⟨p, hfits, hssl⟩ := h.phase j d hj
    refine ⟨p, ?_, hssl⟩
    rw [Sockets.set_stage]
    by_cases hd : d.netIf = dev.netIf
    · rw [hd, Function.update_self]
      exact hfits.linked
    · rw [Function.update_of_ne hd]
      exact hfits
  gone := h.gone
  once := h.once
  stale := h.stale
  leased := by
    change Leased c.devs _ (inUse (Function.update l.stage dev.netIf .linked)) ∅
    rw [inUse_alter (by decide) (h.leased.uses k dev hk)]
    exact h.leased

theorem drops (h : Carried inv u c l) {k : Nat} {dev : MbedtlsClientDev L} {ssl : L}
    (hk : c.devs k = some dev) (hssl : inv .gone ssl) :
    Carried inv (u.set k .closed) (c.drop k { dev with ssl }) (l.set dev.netIf .closed) where
  opened := h.opened
  fresh j hj := by
    change Function.update c.devs k none j = none
    by_cases hjk : j = k
    · rw [hjk, Function.update_self]
    · rw [Function.update_of_ne hjk]
      exact h.fresh j hj
  stage := map_update (f := stageOf) h.stage none
  phase := by
    refine forall_remove fun j d hjk hj => ?_
    have hother : d.netIf ≠ dev.netIf := fun heq => hjk (h.leased.apart j k d dev hj hk heq)
    rw [Sockets.set_stage, Function.update_of_ne hother]
    exact h.phase j d hj
  gone j hj := by
    change ∃ d, Function.update c.freed k _ j = some d ∧ _
    by_cases hjk : j = k
    · subst hjk
      exact ⟨_, Function.update_self .., hssl⟩
    · rw [Function.update_of_ne hjk]
      exact h.gone j ((List.mem_cons.mp hj).resolve_left hjk)
  once := by
    refine List.nodup_cons.mpr ⟨fun hmem => ?_, h.once⟩
    rw [((h.stale k).mp hmem).2] at hk
    cases hk
  stale j := by
    change j ∈ k :: c.stale ↔ j < c.handed ∧ Function.update c.devs k none j = none
    by_cases hjk : j = k
    · subst hjk
      rw [Function.update_self]
      refine iff_of_true List.mem_cons_self ⟨?_, rfl⟩
      by_contra hle
      rw [h.fresh j (not_lt.mp hle)] at hk
      cases hk
    · rw [Function.update_of_ne hjk, List.mem_cons, or_iff_right hjk]
      exact h.stale j
  leased := by
    change Leased (Function.update c.devs k none) _ (inUse (Function.update l.stage _ .closed)) ∅
    rw [inUse_close]
    exact h.leased.release hk

end Carried

/-- What an operation of the client guarantees: a sound answer, and devices that are still carried. -/
def Answers (inv : Phase → L → Prop) (u : Sockets) (q : NetOp) (r : NetAnswer q × Clients L)
    (l : Sockets) : Prop :=
  netSound u q r.1 ∧ Carried inv (netNext u q r.1) r.2 l

theorem keeps_containerOf {α : Type} {post : α × Clients L → Sockets → Prop} {k : Nat} {junk : α}
    {body : MbedtlsClientDev L → Net (α × Clients L)} (h : Carried inv u c l)
    (hk : u.stage k ≠ .closed)
    (hbody : ∀ dev, c.devs k = some dev → stageOf (some dev) = u.stage k →
      Keeps netPort post (body dev) l) :
    Keeps netPort post (containerOf c k junk body) l := by
  obtain ⟨dev, hdev, hstage⟩ := h.dev_of_stage hk
  unfold containerOf
  rw [hdev]
  exact hbody dev hdev hstage

theorem socket_serves (hlib : Typed lib inv) (h : Carried inv u c l) :
    Keeps netPort (Answers inv u .socket) (mbedtlsClientSocket lib c) l := by
  have hrefused {c' : Clients L} (hc : Carried inv u c' l) :
      Answers inv u .socket ((errNoMemory, 0), c') l := 
        ⟨fun he => absurd he (show errNoMemory ≠ errSuccess by decide), hc⟩
  unfold mbedtlsClientSocket
  dsimp only
  by_cases halloc : c.sfMalloc c.asked = true
  · rw [halloc, if_neg (by decide)]
    refine keeps_call trivial fun socket hsocket => ?_
    by_cases hok : socket.1 = errSuccess
    · have hnext : netPort.next l .socket socket =
          { l.set l.opened .opened with opened := l.opened + 1 } := if_pos hok
      obtain ⟨hnum, hnew⟩ := hsocket hok
      rw [if_neg (fun hne => hne hok), hnext, hnum]
      rw [hnum] at hnew
      refine keeps_pure ⟨fun _ => ⟨h.opened.symm, ?_⟩, ?_⟩
      · rw [h.stage, h.fresh c.handed le_rfl]
        rfl
      · exact (h.asks (c.asked + 1)).opens (hlib.init c.handed) hnew (l.opened + 1)
    · have hnext : netPort.next l .socket socket = l := if_neg hok
      rw [if_pos hok, hnext]
      exact keeps_pure (hrefused (h.asks (c.asked + 1)))
  · rw [Bool.not_eq_true] at halloc
    rw [halloc, if_pos (by decide)]
    exact keeps_pure (hrefused (h.asks (c.asked + 1)))

theorem Carried.keeps (h : Carried inv u c l) {k : Nat} {dev : MbedtlsClientDev L} {ssl : L}
    {p : Phase} (hk : c.devs k = some dev) (hfits : p.Fits dev.connected (l.stage dev.netIf))
    (hssl : inv p ssl) : Carried inv u (c.put k { dev with ssl }) l := by
  have hputs := h.puts hk hfits hssl
  have hsame : u.set k (if dev.connected then .linked else .opened) = u := by
    have hstage := h.stage k
    rw [hk] at hstage
    unfold Sockets.set
    change { u with stage := Function.update u.stage k (stageOf (some dev)) } = u
    rw [← hstage, Function.update_eq_self]
  rw [hsame] at hputs
  exact hputs

theorem mapError_ne (error : Int) : mapError error ≠ errSuccess := by
  unfold mapError
  split
  · decide
  · decide

theorem connect_serves (hlib : Typed lib inv) (h : Carried inv u c l) {k : Nat}
    (hk : u.stage k ≠ .closed) :
    Keeps netPort (Answers inv u (.connect k)) (mbedtlsClientConnect lib c k) l := by
  refine keeps_containerOf h hk fun dev hdev hstage => ?_
  have hfailed {e : Int} (he : e ≠ errSuccess) {c' : Clients L} {l' : Sockets}
      (hc : Carried inv u c' l') : Answers inv u (.connect k) (e, c') l' := by
    refine ⟨trivial, ?_⟩
    change Carried inv (if e = errSuccess then _ else u) c' l'
    rw [if_neg he]
    exact hc
  by_cases hc : dev.connected = true
  · have hlinked : u.stage k = .linked := hstage.symm.trans (if_pos hc)
    have hsame : u.set k .linked = u := by
      unfold Sockets.set
      rw [← hlinked, Function.update_eq_self]
    rw [if_pos hc]
    refine keeps_pure ⟨trivial, ?_⟩
    change Carried inv (u.set k .linked) c l
    rw [hsame]
    exact h
  · have hopen : l.stage dev.netIf ≠ .closed := h.leased.uses k dev hdev
    obtain ⟨p, hfits, hssl⟩ := h.phase k dev hdev
    have hp : p = .fresh ∨ p = .started :=
      (hfits.of_unconnected (Bool.eq_false_iff.mpr hc)).imp_right And.left
    rw [if_neg hc]
    refine keeps_call hopen fun error _ => ?_
    by_cases he : error = errSuccess
    · -- the handshake runs over a socket that is connected
      have hbelow := h.below hdev
      have hlinked : (l.set dev.netIf .linked).stage dev.netIf = .linked := Function.update_self ..
      rw [if_neg (fun hne => hne he), show netPort.next l (.connect dev.netIf) error =
        l.set dev.netIf .linked from if_pos he]
      refine (withBio_keeps hlinked (hlib.handshake p dev.ssl hp hssl)).andThen fun r l' hr => ?_
      obtain ⟨hnext, rfl⟩ := hr
      by_cases hdone : r.1 = 0
      · rw [if_pos hdone] at hnext
        rw [if_neg (fun hne => hne hdone)]
        refine keeps_pure ⟨trivial, ?_⟩
        exact hbelow.puts (p := .secure) hdev ⟨rfl, hlinked⟩ hnext
      · rw [if_neg hdone] at hnext
        rw [if_pos hdone]
        have hstill : Phase.started.Fits dev.connected _ := ⟨Bool.eq_false_iff.mpr hc, hlinked⟩
        exact keeps_pure (hfailed (mapError_ne r.1) (hbelow.keeps hdev hstill hnext))
    · rw [if_pos he, show netPort.next l (.connect dev.netIf) error = l from if_neg he]
      exact keeps_pure (hfailed he h)

theorem close_serves (hlib : Typed lib inv) (h : Carried inv u c l) {k : Nat}
    (hk : u.stage k ≠ .closed) :
    Keeps netPort (Answers inv u (.close k)) (mbedtlsClientClose lib c k) l := by
  refine keeps_containerOf h hk fun dev hdev hstage => ?_
  obtain ⟨p, hfits, hssl⟩ := h.phase k dev hdev
  have hnotified : Keeps netPort (fun ssl l' => inv .notified ssl ∧ l' = l)
      (withBio dev.netIf (lib.sslCloseNotify dev.ssl)) l := by
    by_cases hc : dev.connected = true
    · obtain ⟨rfl, hlinked⟩ := hfits.of_connected hc
      exact withBio_keeps hlinked (hlib.notify .secure dev.ssl (.inr rfl) hssl)
    · rcases hfits.of_unconnected (Bool.eq_false_iff.mpr hc) with rfl | ⟨rfl, hlinked⟩
      · obtain ⟨ssl, hquiet, hnotified⟩ := hlib.quiet dev.ssl hssl
        rw [hquiet]
        exact ⟨hnotified, rfl⟩
      · exact withBio_keeps hlinked (hlib.notify .started dev.ssl (.inl rfl) hssl)
  refine hnotified.andThen fun ssl l' hssl => ?_
  obtain ⟨hssl, rfl⟩ := hssl
  refine keeps_call (h.leased.uses k dev hdev) fun _ _ => keeps_pure ⟨trivial, ?_⟩
  exact h.drops hdev (hlib.free ssl hssl)

theorem Carried.secure (h : Carried inv u c l) {k : Nat} {dev : MbedtlsClientDev L}
    (hdev : c.devs k = some dev) (hstage : stageOf (some dev) = .linked) :
    inv .secure dev.ssl ∧ Phase.secure.Fits dev.connected (l.stage dev.netIf) := by
  have hc : dev.connected = true := by
    by_contra hc
    change (if dev.connected then Stage.linked else Stage.opened) = _ at hstage
    rw [if_neg hc] at hstage
    cases hstage
  obtain ⟨p, hfits, hssl⟩ := h.phase k dev hdev
  obtain ⟨rfl, -⟩ := hfits.of_connected hc
  exact ⟨hssl, hfits⟩

theorem recv_serves (hlib : Typed lib inv) (h : Carried inv u c l) {k : Nat}
    (hk : u.stage k = .linked) (size : Nat) :
    Keeps netPort (Answers inv u (.recv k size)) (mbedtlsClientRecv lib c k size) l := by
  refine keeps_containerOf h (by rw [hk]; decide) fun dev hdev hstage => ?_
  obtain ⟨hssl, hfits⟩ := h.secure hdev (hstage.trans hk)
  refine (withBio_keeps hfits.2 (hlib.read size dev.ssl hssl)).andThen fun r l' hr => ?_
  obtain ⟨⟨hssl', hlength⟩, rfl⟩ := hr
  have hkept := h.keeps hdev hfits hssl'
  dsimp only
  by_cases hpos : r.1.1 ≤ 0
  · rw [if_pos hpos]
    exact keeps_pure ⟨fun he => absurd he (mapError_ne _), hkept⟩
  · rw [if_neg hpos]
    exact keeps_pure ⟨fun _ => hlength (not_le.mp hpos), hkept⟩

theorem send_serves (hlib : Typed lib inv) (h : Carried inv u c l) {k : Nat}
    (hk : u.stage k = .linked) (buf : List UInt8) :
    Keeps netPort (Answers inv u (.send k buf)) (mbedtlsClientSend lib c k buf) l := by
  refine keeps_containerOf h (by rw [hk]; decide) fun dev hdev hstage => ?_
  obtain ⟨hssl, hfits⟩ := h.secure hdev (hstage.trans hk)
  refine (withBio_keeps hfits.2 (hlib.write buf dev.ssl hssl)).andThen fun r l' hr => ?_
  obtain ⟨⟨hssl', hle⟩, rfl⟩ := hr
  have hkept := h.keeps hdev hfits hssl'
  dsimp only
  by_cases hpos : r.1 ≤ 0
  · rw [if_pos hpos]
    exact keeps_pure ⟨fun he => absurd he (mapError_ne _), hkept⟩
  · rw [if_neg hpos]
    exact keeps_pure ⟨fun _ => Int.toNat_le.mpr hle, hkept⟩

/-- Over an interface that keeps the promises of net_port.h the client keeps them as well. -/
theorem sslClientOps_serves (hlib : Typed lib inv) :
    Serves netPort netPort (Carried inv) (sslClientOps lib) := by
  intro q u c l h hq
  cases q with
  | socket => exact socket_serves hlib h
  | connect k => exact connect_serves hlib h hq
  | close k => exact close_serves hlib h hq
  | recv k size => exact recv_serves hlib h hq size
  | send k buf => exact send_serves hlib h hq buf
  | lookup => exact keeps_call trivial fun _ _ => keeps_pure ⟨trivial, h⟩
  | wild => exact hq.elim

end

/-- The calls of the library that are made for a device. -/
inductive Event
  | handshake (result : Int)
  | read
  | write
  | notify
  | free
  deriving DecidableEq, Repr

def Phase.next : Phase → Event → Option Phase
  | .fresh, .handshake result => some (if result = 0 then .secure else .started)
  | .started, .handshake result => some (if result = 0 then .secure else .started)
  | .secure, .read => some .secure
  | .secure, .write => some .secure
  | .fresh, .notify => some .notified
  | .started, .notify => some .notified
  | .secure, .notify => some .notified
  | .notified, .free => some .gone
  | _, _ => none

/-- The library with a log of its calls in each context. -/
def recorded (lib : Mbedtls L) : Mbedtls (L × List Event) where
  initContext k := (lib.initContext k, [])
  sslHandshake c := do
    let r ← lib.sslHandshake c.1
    return (r.1, (r.2, c.2 ++ [.handshake r.1]))
  sslRead size c := do
    let r ← lib.sslRead size c.1
    return (r.1, (r.2, c.2 ++ [.read]))
  sslWrite buf c := do
    let r ← lib.sslWrite buf c.1
    return (r.1, (r.2, c.2 ++ [.write]))
  sslCloseNotify c := do
    let ssl ← lib.sslCloseNotify c.1
    return (ssl, c.2 ++ [.notify])
  free c := (lib.free c.1, c.2 ++ [.free])
  idle c := lib.idle c.1

/-- What is relied on of mbedTLS: no transfer is longer than what was asked for, and
mbedtls_ssl_close_notify sends nothing in a context that is as mbedtls_client_init_context left it.
Once a handshake was started it may, also if the handshake is not over. -/
def Documented (lib : Mbedtls L) : Prop := Typed lib (fun p c => p = .fresh → lib.idle c = true)

/-- The calls so far have led to a phase. -/
def InPhase (p : Phase) (log : List Event) : Prop := after Phase.next .fresh log = some p

theorem Typed.recorded {lib : Mbedtls L} {inv : Phase → L → Prop} (h : Typed lib inv) :
    Typed (recorded lib) (fun p c => inv p c.1 ∧ InPhase p c.2) where
  init k := ⟨h.init k, rfl⟩
  handshake p c hp hc := (h.handshake p c.1 hp hc.1).andThen fun r _ hr => by
    refine keeps_pure ⟨hr, ?_⟩
    rw [InPhase, after_concat hc.2]
    rcases hp with rfl | rfl
    · rfl
    · rfl
  read size c hc := (h.read size c.1 hc.1).andThen fun r _ hr =>
    keeps_pure ⟨⟨hr.1, after_concat hc.2 _⟩, hr.2⟩
  write buf c hc := (h.write buf c.1 hc.1).andThen fun r _ hr =>
    keeps_pure ⟨⟨hr.1, after_concat hc.2 _⟩, hr.2⟩
  notify p c hp hc := (h.notify p c.1 hp hc.1).andThen fun ssl _ hr => by
    refine keeps_pure ⟨hr, ?_⟩
    rw [InPhase, after_concat hc.2]
    rcases hp with rfl | rfl
    · rfl
    · rfl
  quiet c hc := by
    obtain ⟨ssl, hquiet, hssl⟩ := h.quiet c.1 hc.1
    have hlog : InPhase .notified (c.2 ++ [.notify]) := after_concat hc.2 .notify
    refine ⟨(ssl, c.2 ++ [.notify]), ?_, hssl, hlog⟩
    change (lib.sslCloseNotify c.1).bind _ = _
    rw [hquiet]
    rfl
  free c hc := ⟨h.free c.1 hc.1, after_concat hc.2 _⟩

end ErSdk.MbedtlsClient
