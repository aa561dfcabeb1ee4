import ErSdk.Leases
import ErSdk.NetPort

namespace ErSdk.PosixTcp

open Interaction Leases NetPort Error

inductive Errno
  | einprogress
  | ealready
  | eisconn
  | ewouldblock
  | eagain
  | other
  deriving DecidableEq, Repr

/-- What the port asks of the system. `setNonblock` is fcntl with F_SETFL and flags | O_NONBLOCK,
`wild` an access to memory that is not allocated. -/
inductive Syscall
  | socket
  | getFlags (fd : Int)
  | setNonblock (fd : Int) (flags : Int)
  | malloc
  | connect (fd : Int)
  | recv (fd : Int) (size : Nat)
  | send (fd : Int) (buf : List UInt8)
  | close (fd : Int)
  | getaddrinfo
  | wild
  deriving DecidableEq, Repr

/-- The results, with errno where the port reads it. The results of recv and send are those that
the port casts to int, and the bytes those that stand in the buffer up to that length. -/
@[reducible] def Result : Syscall → Type
  | .socket => Int
  | .getFlags _ => Int
  | .setNonblock _ _ => Int
  | .malloc => Bool
  | .connect _ => Int × Errno
  | .recv _ _ => (Int × Errno) × List UInt8
  | .send _ _ => Int × Errno
  | .close _ => Int
  | .getaddrinfo => Int
  | .wild => Unit

structure NetSocket where
  sockfd : Int
  connected : Bool
  nonBlocking : Bool
  deriving DecidableEq, Repr

/-- The sockets that are allocated, by number, and how many were handed out so far. -/
structure Memory where
  handed : Nat
  sockets : Nat → Option NetSocket

abbrev errNetDnsError : Int := -209

abbrev Port := Prog Syscall Result

abbrev sys (q : Syscall) : Port (Result q) := Prog.call q

def netIfSocketTcp (m : Memory) : Port ((Int × Nat) × Memory) := do
  let sockfd ← sys .socket
  if sockfd < 0 then return ((errFailure, 0), m)
  let flags ← sys (.getFlags sockfd)
  let set ← sys (.setNonblock sockfd flags)
  if set < 0 then return ((errFailure, 0), m)
  let allocated ← sys .malloc
  if allocated then
    return ((errSuccess, m.handed),
      ⟨m.handed + 1, Function.update m.sockets m.handed (some ⟨sockfd, false, true⟩)⟩)
  return ((errNoMemory, 0), m)

/-- What an operation does with the socket behind the pointer that it is given. -/
def dereference {α : Type} (m : Memory) (k : Nat) (junk : α)
    (body : NetSocket → Port (α × Memory)) : Port (α × Memory) :=
  match m.sockets k with
  | some socket => body socket
  | none => do
      let _ ← sys .wild
      return (junk, m)

def setConnected (m : Memory) (k : Nat) (socket : NetSocket) : Memory :=
  { m with sockets := Function.update m.sockets k (some { socket with connected := true }) }

def netIfConnect (m : Memory) (k : Nat) : Port (Int × Memory) :=
  dereference m k errFailure fun socket => do
    if socket.connected then return (errSuccess, m)
    let error ← sys (.connect socket.sockfd)
    if error.1 ≠ 0 then
      match error.2 with
      | .einprogress | .ealready => return (errWouldBlock, m)
      | .eisconn => return (errSuccess, setConnected m k socket)
      | _ => return (errFailure, m)
    return (error.1, setConnected m k socket)

/-- The error that net_if_receive and net_if_send return for a negative result. -/
def wouldBlock (socket : NetSocket) (result : Int × Errno) : Int :=
  if (result.2 = .ewouldblock ∨ result.2 = .eagain) ∧ socket.nonBlocking then errWouldBlock
  else result.1

def netIfReceive (m : Memory) (k : Nat) (size : Nat) : Port ((Int × List UInt8) × Memory) :=
  dereference m k (errFailure, []) fun socket => do
    let recvd ← sys (.recv socket.sockfd size)
    if recvd.1.1 < 0 then return ((wouldBlock socket recvd.1, []), m)
    if recvd.1.1 = 0 then return ((errFailure, []), m)
    return ((errSuccess, recvd.2), m)

def netIfSend (m : Memory) (k : Nat) (buf : List UInt8) : Port ((Int × Nat) × Memory) :=
  dereference m k (errFailure, 0) fun socket => do
    let sent ← sys (.send socket.sockfd buf)
    if sent.1 < 0 then return ((wouldBlock socket sent, 0), m)
    return ((errSuccess, sent.1.toNat), m)

def netIfLookup (m : Memory) : Port (Int × Memory) := do
  let err ← sys .getaddrinfo
  if err ≠ 0 then return (errNetDnsError, m)
  return (errSuccess, m)

def netIfClose (m : Memory) (k : Nat) : Port (Int × Memory) :=
  dereference m k errFailure fun socket => do
    let _ ← sys (.close socket.sockfd)
    return (errSuccess, { m with sockets := Function.update m.sockets k none })

def tcpOps : Layer NetOp NetAnswer Syscall Result Memory
  | .socket, m => netIfSocketTcp m
  | .connect k, m => netIfConnect m k
  | .close k, m => netIfClose m k
  | .recv k size, m => netIfReceive m k size
  | .send k buf, m => netIfSend m k buf
  | .lookup, m => netIfLookup m
  | .wild, m => do
      let _ ← sys .wild
      return ((), m)

/-- The descriptors of the process, the one that was opened last, and those that the port has
opened and given up without closing them. -/
structure Descriptors where
  stage : Int → Stage
  latest : Int
  lost : List Int

namespace Descriptors

def none : Descriptors := ⟨fun _ => .closed, 0, []⟩

def set (d : Descriptors) (fd : Int) (stage : Stage) : Descriptors :=
  { d with stage := Function.update d.stage fd stage }

def lose (d : Descriptors) (fd : Int) : Descriptors := { d with lost := fd :: d.lost }

end Descriptors

def systemAllowed (d : Descriptors) : Syscall → Prop
  | .socket => True
  | .getFlags fd => d.stage fd ≠ .closed
  | .setNonblock fd _ => d.stage fd ≠ .closed
  | .malloc => True
  | .connect fd => d.stage fd = .opened
  | .recv fd _ => d.stage fd = .linked
  | .send fd _ => d.stage fd = .linked
  | .close fd => d.stage fd ≠ .closed
  | .getaddrinfo => True
  | .wild => False

def systemSound (d : Descriptors) : (q : Syscall) → Result q → Prop
  | .socket, fd => 0 ≤ fd → d.stage fd = .closed
  | .recv _ size, r => 0 ≤ r.1.1 → (r.2.length : Int) = r.1.1 ∧ r.2.length ≤ size
  | .send _ buf, r => r.1 ≤ buf.length
  | .getFlags _, _ | .setNonblock _ _, _ | .malloc, _ | .connect _, _ | .close _, _
  | .getaddrinfo, _ | .wild, _ => True

def systemNext (d : Descriptors) : (q : Syscall) → Result q → Descriptors
  | .socket, fd => if 0 ≤ fd then { d.set fd .opened with latest := fd } else d
  | .setNonblock fd _, r => if r < 0 then d.lose fd else d
  | .malloc, allocated => if allocated then d else d.lose d.latest
  | .connect fd, r => if r.1 = 0 ∨ r.2 = .eisconn then d.set fd .linked else d
  | .close fd, _ => d.set fd .closed
  | .getFlags _, _ | .recv _ _, _ | .send _ _, _ | .getaddrinfo, _ | .wild, _ => d

/-- How descriptors are used, and what the system promises: a descriptor it hands out is not in
use, and a transfer is no longer than what was asked for. -/
def system : Contract Syscall Result Descriptors := ⟨systemAllowed, systemSound, systemNext⟩

instance (d : Descriptors) : (q : Syscall) → (a : Result q) → Decidable (system.sound d q a)
  | .socket, fd => inferInstanceAs (Decidable (0 ≤ fd → d.stage fd = .closed))
  | .recv _ size, r =>
      inferInstanceAs (Decidable (0 ≤ r.1.1 → (r.2.length : Int) = r.1.1 ∧ r.2.length ≤ size))
  | .send _ buf, r => inferInstanceAs (Decidable (r.1 ≤ (buf.length : Int)))
  | .getFlags _, _ | .setNonblock _ _, _ | .malloc, _ | .connect _, _ | .close _, _
  | .getaddrinfo, _ | .wild, _ => .isTrue trivial

def stageOf : Option NetSocket → Stage
  | none => .closed
  | some socket => if socket.connected then .linked else .opened

/-- Each socket stands on a descriptor of its own, and every other descriptor that is open is lost. -/
structure Backed (u : Sockets) (m : Memory) (d : Descriptors) : Prop where
  opened : u.opened = m.handed
  fresh : ∀ k, m.handed ≤ k → m.sockets k = none
  stage : ∀ k, u.stage k = stageOf (m.sockets k)
  descriptor : ∀ k socket, m.sockets k = some socket → d.stage socket.sockfd = stageOf (some socket)
  leased : Leased m.sockets NetSocket.sockfd (inUse d.stage) {fd | fd ∈ d.lost}

theorem stageOf_ne_closed (socket : NetSocket) : stageOf (some socket) ≠ .closed := by
  change (if socket.connected then Stage.linked else Stage.opened) ≠ .closed
  split
  · decide
  · decide

theorem stageOf_eq_linked {socket : NetSocket} :
    stageOf (some socket) = .linked ↔ socket.connected = true := by
  change (if socket.connected then Stage.linked else Stage.opened) = .linked ↔ _
  split
  · simp_all
  · simp_all

section

variable {u : Sockets} {m : Memory} {d : Descriptors}

theorem backed_none : Backed Sockets.none ⟨0, fun _ => none⟩ Descriptors.none where
  opened := rfl
  fresh _ _ := rfl
  stage _ := rfl
  descriptor _ _ h := by cases h
  leased := by
    have hnone : inUse Descriptors.none.stage = ∅ := Set.eq_empty_of_forall_notMem fun _ h => h rfl
    have hlost : {fd | fd ∈ Descriptors.none.lost} = ∅ :=
      Set.eq_empty_of_forall_notMem fun _ h => List.not_mem_nil h
    rw [hnone, hlost]
    exact leased_empty

namespace Backed

theorem socket_of_stage (h : Backed u m d) {k : Nat} (hk : u.stage k ≠ .closed) :
    ∃ socket, m.sockets k = some socket ∧ d.stage socket.sockfd = u.stage k := by
  rw [h.stage k] at hk ⊢
  cases hs : m.sockets k with
  | none =>
      rw [hs] at hk
      exact absurd rfl hk
  | some socket => exact ⟨socket, rfl, h.descriptor k socket hs⟩

theorem unused (h : Backed u m d) {fd : Int} (hfd : d.stage fd = .closed) (k : Nat)
    (socket : NetSocket) (hk : m.sockets k = some socket) : socket.sockfd ≠ fd :=
  h.leased.unused (c := fd) (fun hmem => hmem hfd) k socket hk

theorem loses (h : Backed u m d) {fd : Int} (hfd : d.stage fd = .closed) :
    Backed u m { d.set fd .opened with latest := fd, lost := fd :: d.lost } where
  opened := h.opened
  fresh := h.fresh
  stage := h.stage
  descriptor k socket hk := by
    change Function.update d.stage fd .opened socket.sockfd = _
    rw [Function.update_of_ne (h.unused hfd k socket hk)]
    exact h.descriptor k socket hk
  leased := by
    have hlost : {l | l ∈ fd :: d.lost} = insert fd {l | l ∈ d.lost} := by
      ext l
      simp
    change Leased m.sockets _ (inUse (Function.update d.stage fd .opened)) {l | l ∈ fd :: d.lost}
    rw [inUse_open (by decide), hlost]
    exact h.leased.lose fun hmem => hmem hfd

theorem opens (h : Backed u m d) {fd : Int} (hfd : d.stage fd = .closed) :
    Backed { u.set u.opened .opened with opened := u.opened + 1 }
      ⟨m.handed + 1, Function.update m.sockets m.handed (some ⟨fd, false, true⟩)⟩
      { d.set fd .opened with latest := fd } where
  opened := congrArg (· + 1) h.opened
  fresh k hk := by
    have hlt : m.handed < k := hk
    change Function.update m.sockets m.handed _ k = none
    rw [Function.update_of_ne (Nat.ne_of_gt hlt)]
    exact h.fresh k (Nat.le_of_lt hlt)
  stage := by
    change ∀ k, Function.update u.stage u.opened .opened k = _
    rw [h.opened]
    exact map_update (f := stageOf) h.stage (some ⟨fd, false, true⟩)
  descriptor := by
    refine forall_put (Function.update_self ..) fun k socket _ hk => ?_
    change Function.update d.stage fd .opened socket.sockfd = _
    rw [Function.update_of_ne (h.unused hfd k socket hk)]
    exact h.descriptor k socket hk
  leased := by
    change Leased (Function.update m.sockets m.handed _) _ (inUse (Function.update d.stage fd .opened)) _
    rw [inUse_open (by decide)]
    exact h.leased.take (b := ⟨fd, false, true⟩) (h.fresh m.handed le_rfl) fun hmem => hmem hfd

theorem descriptor_of_ne (h : Backed u m d) {k l : Nat} {a b : NetSocket}
    (hk : m.sockets k = some a) (hl : m.sockets l = some b) (hne : l ≠ k) (s : Stage) :
    Function.update d.stage a.sockfd s b.sockfd = stageOf (some b) := by
  rw [Function.update_of_ne (fun heq => hne (h.leased.apart l k b a hl hk heq))]
  exact h.descriptor l b hl

theorem connects (h : Backed u m d) {k : Nat} {socket : NetSocket}
    (hk : m.sockets k = some socket) :
    Backed (u.set k .linked) (setConnected m k socket) (d.set socket.sockfd .linked) where
  opened := h.opened
  fresh l hl := by
    have hne : l ≠ k := by
      rintro rfl
      rw [h.fresh l hl] at hk
      cases hk
    exact (Function.update_of_ne hne ..).trans (h.fresh l hl)
  stage := map_update (f := stageOf) h.stage (some { socket with connected := true })
  descriptor := forall_put (Function.update_self ..) fun _ _ hne hl =>
    h.descriptor_of_ne hk hl hne .linked
  leased := by
    have hopen : d.stage socket.sockfd ≠ .closed := by
      rw [h.descriptor k socket hk]
      exact stageOf_ne_closed socket
    change Leased (Function.update m.sockets k _) _ (inUse (Function.update d.stage _ .linked)) _
    rw [inUse_alter (by decide) hopen]
    exact h.leased.alter hk rfl

theorem closes (h : Backed u m d) {k : Nat} {socket : NetSocket} (hk : m.sockets k = some socket) :
    Backed (u.set k .closed) { m with sockets := Function.update m.sockets k none }
      (d.set socket.sockfd .closed) where
  opened := h.opened
  fresh l hl := by
    change Function.update m.sockets k none l = none
    by_cases hlk : l = k
    · rw [hlk, Function.update_self]
    · rw [Function.update_of_ne hlk]
      exact h.fresh l hl
  stage := map_update (f := stageOf) h.stage none
  descriptor := forall_remove fun _ _ hne hl => h.descriptor_of_ne hk hl hne .closed
  leased := by
    change Leased (Function.update m.sockets k none) _ (inUse (Function.update d.stage _ .closed)) _
    rw [inUse_close]
    exact h.leased.release hk

end Backed

/-- What an operation of the port guarantees: a sound answer, and sockets that stay backed. -/
def Answers (u : Sockets) (q : NetOp) (r : NetAnswer q × Memory) (d : Descriptors) : Prop :=
  netSound u q r.1 ∧ Backed (netNext u q r.1) r.2 d

theorem keeps_dereference {α : Type} {post : α × Memory → Descriptors → Prop} {k : Nat} {junk : α}
    {body : NetSocket → Port (α × Memory)} (h : Backed u m d) (hk : u.stage k ≠ .closed)
    (hbody : ∀ socket, m.sockets k = some socket → d.stage socket.sockfd = u.stage k →
      Keeps system post (body socket) d) :
    Keeps system post (dereference m k junk body) d := by
  obtain ⟨socket, hs, hstage⟩ := h.socket_of_stage hk
  unfold dereference
  rw [hs]
  exact hbody socket hs hstage

theorem socket_serves (h : Backed u m d) :
    Keeps system (Answers u .socket) (netIfSocketTcp m) d := by
  have hrefused {e : Int} {d' : Descriptors} (he : e ≠ errSuccess) (hb : Backed u m d') :
      Answers u .socket ((e, 0), m) d' := by
    refine ⟨fun hs => absurd hs he, ?_⟩
    change Backed (if e = errSuccess then _ else u) m d'
    rw [if_neg he]
    exact hb
  unfold netIfSocketTcp
  refine keeps_call trivial fun fd hfd => ?_
  by_cases hneg : fd < 0
  · rw [if_pos hneg]
    refine keeps_pure (hrefused (by decide) ?_)
    change Backed u m (if 0 ≤ fd then _ else d)
    rw [if_neg (not_le.mpr hneg)]
    exact h
  · have hnonneg : 0 ≤ fd := not_lt.mp hneg
    have hnew : d.stage fd = .closed := hfd hnonneg
    have hnext : system.next d .socket fd = { d.set fd .opened with latest := fd } := if_pos hnonneg
    have hopen : Function.update d.stage fd .opened fd ≠ .closed := by
      rw [Function.update_self]
      decide
    rw [if_neg hneg, hnext]
    refine keeps_call hopen fun flags _ => keeps_call hopen fun set _ => ?_
    by_cases hset : set < 0
    · rw [if_pos hset]
      refine keeps_pure (hrefused (by decide) ?_)
      change Backed u m (if set < 0 then _ else _)
      rw [if_pos hset]
      exact h.loses hnew
    · have hkept : system.next { d.set fd .opened with latest := fd } (.setNonblock fd flags) set =
          { d.set fd .opened with latest := fd } := if_neg hset
      rw [if_neg hset]
      change Keeps system _ _ (system.next { d.set fd .opened with latest := fd }
        (.setNonblock fd flags) set)
      rw [hkept]
      refine keeps_call trivial fun allocated _ => ?_
      cases allocated with
      | true =>
          refine keeps_pure ⟨fun _ => ⟨h.opened.symm, ?_⟩, h.opens hnew⟩
          rw [h.stage, h.fresh m.handed le_rfl]
          rfl
      | false => exact keeps_pure (hrefused (by decide) (h.loses hnew))

theorem connect_serves (h : Backed u m d) {k : Nat} (hk : u.stage k ≠ .closed) :
    Keeps system (Answers u (.connect k)) (netIfConnect m k) d := by
  refine keeps_dereference h hk fun socket hs hstage => ?_
  have hlinked : Backed (u.set k .linked) (setConnected m k socket) (d.set socket.sockfd .linked) :=
    h.connects hs
  by_cases hc : socket.connected = true
  · -- a socket that is connected is left alone
    have hsame : u.set k .linked = u := by
      have hu : u.stage k = .linked := by
        rw [h.stage k, hs]
        exact stageOf_eq_linked.mpr hc
      unfold Sockets.set
      rw [← hu, Function.update_eq_self]
    rw [if_pos hc]
    refine keeps_pure ⟨trivial, ?_⟩
    change Backed (u.set k .linked) m d
    rw [hsame]
    exact h
  · have hopened : d.stage socket.sockfd = .opened := by
      rw [h.descriptor k socket hs]
      exact if_neg hc
    rw [if_neg hc]
    refine keeps_call hopened fun error _ => ?_
    obtain ⟨e, errno⟩ := error
    have hfailed {r : Int} (hr : r ≠ errSuccess) (he : ¬ (e = 0 ∨ errno = .eisconn)) :
        Answers u (.connect k) (r, m) (system.next d (.connect socket.sockfd) (e, errno)) := by
      refine ⟨trivial, ?_⟩
      change Backed (if r = errSuccess then _ else u) m (if e = 0 ∨ errno = .eisconn then _ else d)
      rw [if_neg hr, if_neg he]
      exact h
    have hdone (he : e = 0 ∨ errno = .eisconn) : Answers u (.connect k)
        (errSuccess, setConnected m k socket)
        (system.next d (.connect socket.sockfd) (e, errno)) := by
      refine ⟨trivial, ?_⟩
      change Backed (u.set k .linked) _ (if e = 0 ∨ errno = .eisconn then _ else d)
      rw [if_pos he]
      exact hlinked
    by_cases he : e = 0
    · subst he
      exact keeps_pure (hdone (Or.inl rfl))
    · rw [if_pos he]
      cases errno with
      | einprogress | ealready => exact keeps_pure (hfailed (by decide) (by simp [he]))
      | eisconn => exact keeps_pure (hdone (Or.inr rfl))
      | ewouldblock | eagain | other => exact keeps_pure (hfailed (by decide) (by simp [he]))

theorem wouldBlock_ne {socket : NetSocket} {r : Int × Errno} (h : r.1 < 0) :
    wouldBlock socket r ≠ errSuccess := by
  unfold wouldBlock
  split
  · decide
  · exact Int.ne_of_lt h

theorem recv_serves (h : Backed u m d) {k : Nat} (hk : u.stage k = .linked) (size : Nat) :
    Keeps system (Answers u (.recv k size)) (netIfReceive m k size) d := by
  refine keeps_dereference h (by rw [hk]; decide) fun socket hs hstage => ?_
  refine keeps_call (hstage.trans hk) fun recvd hrecvd => ?_
  by_cases hneg : recvd.1.1 < 0
  · rw [if_pos hneg]
    exact keeps_pure ⟨fun he => absurd he (wouldBlock_ne hneg), h⟩
  · rw [if_neg hneg]
    by_cases hzero : recvd.1.1 = 0
    · rw [if_pos hzero]
      exact keeps_pure ⟨fun he => absurd he (show errFailure ≠ errSuccess by decide), h⟩
    · rw [if_neg hzero]
      exact keeps_pure ⟨fun _ => (hrecvd (not_lt.mp hneg)).2, h⟩

theorem send_serves (h : Backed u m d) {k : Nat} (hk : u.stage k = .linked) (buf : List UInt8) :
    Keeps system (Answers u (.send k buf)) (netIfSend m k buf) d := by
  refine keeps_dereference h (by rw [hk]; decide) fun socket hs hstage => ?_
  refine keeps_call (hstage.trans hk) fun sent hsent => ?_
  have hle : sent.1 ≤ buf.length := hsent
  by_cases hneg : sent.1 < 0
  · rw [if_pos hneg]
    exact keeps_pure ⟨fun he => absurd he (wouldBlock_ne hneg), h⟩
  · rw [if_neg hneg]
    exact keeps_pure ⟨fun _ => Int.toNat_le.mpr hle, h⟩

theorem close_serves (h : Backed u m d) {k : Nat} (hk : u.stage k ≠ .closed) :
    Keeps system (Answers u (.close k)) (netIfClose m k) d := by
  refine keeps_dereference h hk fun socket hs hstage => ?_
  have hopen : d.stage socket.sockfd ≠ .closed := by
    rw [hstage]
    exact hk
  exact keeps_call hopen fun _ _ => keeps_pure ⟨trivial, h.closes hs⟩

end

/-- The port keeps the promises of net_port.h, and uses descriptors as the system wants. -/
theorem tcpOps_serves : Serves netPort system Backed tcpOps := by
  intro q u m d h hq
  cases q with
  | socket => exact socket_serves h
  | connect k => exact connect_serves h hq
  | close k => exact close_serves h hq
  | recv k size => exact recv_serves h hq size
  | send k buf => exact send_serves h hq buf
  | lookup =>
      refine keeps_call trivial fun err _ => ?_
      split
      · exact keeps_pure ⟨trivial, h⟩
      · exact keeps_pure ⟨trivial, h⟩
  | wild => exact hq.elim

end ErSdk.PosixTcp
