import ErSdk.Runs
import ErSdk.ExositeApi
import Mathlib.Data.List.Nodup

namespace ErSdk.ClientConfig

open ProtocolClientSm RequestArgs Runs Error
open ExositeApi (SmType protocolClientConfig unlimitedStateMachines)

inductive TransportProtocol
  | tcp
  | udp
  deriving DecidableEq, Repr

inductive SecurityMode
  | off
  | tlsDtls
  deriving DecidableEq, Repr

inductive CoapLibrary
  | libcoap
  | picocoap
  deriving DecidableEq, Repr

structure Build where
  tcp : Bool
  udp : Bool
  ssl : Bool
  http : Bool
  coap : Option CoapLibrary
  numberOfStateMachines : Nat
  deriving DecidableEq, Repr

/-- The network interfaces: two of the network stack, and the one of the SSL library. -/
inductive NetDev
  | tcpClient
  | udpClient
  | sslClient
  deriving DecidableEq, Repr

structure ProtocolClient where
  netIf : NetDev
  deriving DecidableEq, Repr

structure Machine where
  name : List UInt8
  netIf : NetDev
  protocolClient : Nat
  serverName : List UInt8
  serverPort : Nat
  type : StateMachineType
  paralellRequestLimit : Nat
  deriving DecidableEq, Repr

/-- A state machine in the list of its exosite object, with the protocol and the security
mode that it was created for. -/
structure Created where
  exo : Nat
  type : SmType
  name : Option (List UInt8)
  appType : AppType
  security : SecurityMode
  sm : Machine
  deriving DecidableEq, Repr

/-- The client objects by address, the `exo_api` fields of the configuration records,
the interface below the SSL library, and the state machines of all exosite objects. -/
structure Statics where
  clients : List ProtocolClient
  exoApi : AppType → Option Nat
  netIfOps : Option NetDev
  machines : List Created

def Statics.zero : Statics := ⟨[], fun _ => none, none, []⟩

/-- The outcomes of the allocations that a call makes. -/
structure Allocations where
  client : Bool
  context : Bool
  serverName : Bool
  item : Bool
  itemName : Bool
  sm : Bool
  smServerName : Bool
  queue : Bool
  mutex : Bool
  deriving DecidableEq, Repr

/-- A call of create_new_sm: the object, its vendor, the arguments, the security mode of
its transmission configuration, and the outcomes of the allocations. -/
structure Call where
  exo : Nat
  vendor : List UInt8
  name : Option (List UInt8)
  appType : AppType
  type : SmType
  configured : SecurityMode
  alloc : Allocations
  deriving DecidableEq, Repr

def Call.security (c : Call) : SecurityMode :=
  match c.type with
  | .main | .httpLongPoll => c.configured
  | .timeSync => .off

def smName : SmType → List UInt8
  | .main => bytes "Main SM"
  | .httpLongPoll => bytes "Long poll SM"
  | .timeSync => bytes "Time sync SM"

def tprotoType : AppType → TransportProtocol
  | .http => .tcp
  | .coap | .json => .udp

section

variable (build : Build)

def netDevLow : TransportProtocol → Option NetDev
  | .tcp => if build.tcp then some .tcpClient else none
  | .udp => if build.udp then some .udpClient else none

/-- The interface that net_dev_get selects. -/
def chosen (type : TransportProtocol) : SecurityMode → Option NetDev
  | .tlsDtls => if build.ssl then some .sslClient else none
  | .off => netDevLow build type

def netDevGet (type : TransportProtocol) (security : SecurityMode) (s : Statics) :
    Option NetDev × Statics :=
  (chosen build type security,
    if security = .tlsDtls ∧ build.ssl = true then { s with netIfOps := netDevLow build type } else s)

inductive Construction
  | made
  | kept
  | crashed
  deriving DecidableEq, Repr

/-- What the constructor of the protocol client does. None of them reports a failure, and
the one for libcoap writes through the context that it was not given. -/
def construct (appType : AppType) (a : Allocations) : Construction :=
  match appType with
  | .http => if build.http ∧ a.client then .made else .kept
  | .coap =>
      match build.coap with
      | none => .kept
      | some .libcoap => if a.client then (if a.context then .made else .crashed) else .kept
      | some .picocoap => if a.client ∧ a.context then .made else .kept
  | .json => .kept

/-- `none` is a crash. -/
def clientConfigGetProtocolClientConfig (appType : AppType) (security : SecurityMode)
    (a : Allocations) (s : Statics) : Option (Int × Statics) :=
  match netDevGet build (tprotoType appType) security s with
  | (none, s) => some (errNoNetDev, s)
  | (some netIf, s) =>
      match construct build appType a with
      | .made => some (errSuccess, { s with
          clients := s.clients ++ [⟨netIf⟩],
          exoApi := fun t => if t = appType then some s.clients.length else s.exoApi t })
      | .kept => some (errSuccess, s)
      | .crashed => none

end

def serverData : AppType → SecurityMode → Option (List UInt8 × Nat)
  | .http, .off => some (bytes "m2.exosite.com", 80)
  | .http, .tlsDtls => some (bytes "m2.exosite.com", 443)
  | .coap, .off => some (bytes "coap.exosite.com", 5683)
  | .coap, .tlsDtls => some (bytes "coap-dev.exosite.com", 5684)
  | .json, _ => none

def selectServerData (c : Call) : Except Int (List UInt8 × Nat) :=
  match serverData c.appType c.security with
  | none => .error errNotFound
  | some (name, port) =>
      if c.alloc.serverName then .ok (c.vendor ++ bytes "." ++ name, port) else .error errNoMemory

def protocolClientSmNew (c : Call) (stype : StateMachineType) (rqLimit : Nat)
    (server : List UInt8 × Nat) (s : Statics) : Except Int Machine :=
  match s.exoApi c.appType with
  | none => .error errBadArgs
  | some p =>
      match s.clients[p]? with
      | none => .error errBadArgs
      | some client =>
          if c.alloc.sm ∧ c.alloc.smServerName ∧ c.alloc.queue ∧ c.alloc.mutex then
            .ok ⟨smName c.type, client.netIf, p, server.1, server.2, stype, rqLimit⟩
          else .error errNoMemory

section

variable (build : Build)

/-- `numberof_state_machines` is a uint16_t. -/
def numberofStateMachines (exo : Nat) (s : Statics) : Nat :=
  (s.machines.filter (fun m => m.exo = exo)).length % 2 ^ 16

def full (exo : Nat) (s : Statics) : Prop :=
  build.numberOfStateMachines ≠ unlimitedStateMachines ∧
    numberofStateMachines exo s = build.numberOfStateMachines

instance (exo : Nat) (s : Statics) : Decidable (full build exo s) :=
  inferInstanceAs (Decidable (_ ∧ _))

/-- What create_new_sm does once the configuration record has its protocol client. -/
def addSm (c : Call) (stype : StateMachineType) (rqLimit : Nat) (s : Statics) : Int × Statics :=
  match selectServerData c with
  | .error e => (e, s)
  | .ok server =>
      if ¬ c.alloc.item ∨ (c.name.isSome ∧ ¬ c.alloc.itemName) then (errNoMemory, s)
      else
        match protocolClientSmNew c stype rqLimit server s with
        | .error e => (e, s)
        | .ok sm => (errSuccess, { s with
            machines := s.machines ++ [⟨c.exo, c.type, c.name, c.appType, c.security, sm⟩] })

def createNewSm (c : Call) (s : Statics) : Option (Int × Statics) :=
  if full build c.exo s then some (errNoResource, s) else
    match protocolClientConfig c.appType with
    | none => some (errNotFound, s)
    | some (stype, rqLimit) =>
        match clientConfigGetProtocolClientConfig build c.appType c.security c.alloc s with
        | none => none
        | some (error, s) =>
            if error ≠ errSuccess then some (error, s) else some (addSm c stype rqLimit s)

/-- A crash ends the run. -/
def step (s : Statics) (c : Call) : Statics :=
  match createNewSm build c s with
  | some (_, s') => s'
  | none => s

end

section

variable {build : Build} {c : Call} {s : Statics}

/-- There is a server for the call, and it gets what it allocates behind the client. -/
structure Supplied (c : Call) : Prop where
  server : (serverData c.appType c.security).isSome ∧ c.alloc.serverName
  item : c.alloc.item ∧ (c.name.isSome → c.alloc.itemName)
  sm : c.alloc.sm ∧ c.alloc.smServerName ∧ c.alloc.queue ∧ c.alloc.mutex

/-- Every step of the call but the construction of the client succeeds. -/
structure Succeeds (build : Build) (s : Statics) (c : Call) : Prop extends Supplied c where
  room : ¬ full build c.exo s
  device : (chosen build (tprotoType c.appType) c.security).isSome

/-- The machines have protocol clients of their own, on the interface for their protocol
and security mode. -/
structure Own (build : Build) (s : Statics) : Prop where
  distinct : (s.machines.map (fun m => m.sm.protocolClient)).Nodup
  interface : ∀ m ∈ s.machines,
    some m.sm.netIf = chosen build (tprotoType m.appType) m.security

/-- The SSL library stands on the transport of each machine that uses it. -/
def OwnTransport (build : Build) (s : Statics) : Prop :=
  ∀ m ∈ s.machines, m.sm.netIf = .sslClient → s.netIfOps = netDevLow build (tprotoType m.appType)

/-- No client is constructed, the call succeeds all the same, and the client of an earlier
call is in use or on another interface. -/
def Reuses (build : Build) (s : Statics) (c : Call) : Prop :=
  construct build c.appType c.alloc = .kept ∧ Succeeds build s c ∧
    ∃ p client, s.exoApi c.appType = some p ∧ s.clients[p]? = some client ∧
      (p ∈ s.machines.map (fun m => m.sm.protocolClient) ∨
        some client.netIf ≠ chosen build (tprotoType c.appType) c.security)

/-- The call gets as far as the selection of its network interface, and returns. -/
def Selects (build : Build) (s : Statics) (c : Call) : Prop :=
  ¬ full build c.exo s ∧ (protocolClientConfig c.appType).isSome ∧
    ((chosen build (tprotoType c.appType) c.security).isSome →
      construct build c.appType c.alloc ≠ .crashed)

/-- The call puts the SSL library on another transport under a machine that uses it. -/
def Retargets (build : Build) (s : Statics) (c : Call) : Prop :=
  Selects build s c ∧ c.security = .tlsDtls ∧ build.ssl = true ∧
    ∃ m ∈ s.machines, m.sm.netIf = .sslClient ∧
      netDevLow build (tprotoType m.appType) ≠ netDevLow build (tprotoType c.appType)

/-- The pointers lead to client objects. -/
structure Valid (s : Statics) : Prop where
  api : ∀ t p, s.exoApi t = some p → p < s.clients.length
  used : ∀ m ∈ s.machines, ∃ client, s.clients[m.sm.protocolClient]? = some client

theorem valid_zero : Valid Statics.zero where
  api t p h := by cases h
  used m h := by cases h

/-- The state after net_dev_get. -/
def selected (build : Build) (c : Call) (s : Statics) : Statics :=
  (netDevGet build (tprotoType c.appType) c.security s).2

@[simp] theorem selected_clients : (selected build c s).clients = s.clients := by
  unfold selected netDevGet
  dsimp only
  split <;> rfl

@[simp] theorem selected_exoApi : (selected build c s).exoApi = s.exoApi := by
  unfold selected netDevGet
  dsimp only
  split <;> rfl

@[simp] theorem selected_machines : (selected build c s).machines = s.machines := by
  unfold selected netDevGet
  dsimp only
  split <;> rfl

def constructed (c : Call) (netIf : NetDev) (s : Statics) : Statics :=
  { s with clients := s.clients ++ [⟨netIf⟩],
           exoApi := fun t => if t = c.appType then some s.clients.length else s.exoApi t }

def added (c : Call) (stype : StateMachineType) (rqLimit : Nat) (server : List UInt8 × Nat)
    (p : Nat) (client : ProtocolClient) (s : Statics) : Statics :=
  { s with machines := s.machines ++ [⟨c.exo, c.type, c.name, c.appType, c.security,
      ⟨smName c.type, client.netIf, p, server.1, server.2, stype, rqLimit⟩⟩] }

theorem selectServerData_ok {server : List UInt8 × Nat} (h : selectServerData c = .ok server) :
    (serverData c.appType c.security).isSome ∧ c.alloc.serverName := by
  unfold selectServerData at h
  split at h
  · cases h
  · rename_i hs
    split at h
    · rename_i ha
      exact ⟨by simp [hs], ha⟩
    · cases h

theorem protocolClientSmNew_ok {stype : StateMachineType} {rqLimit : Nat}
    {server : List UInt8 × Nat} {sm : Machine}
    (h : protocolClientSmNew c stype rqLimit server s = .ok sm) :
    (c.alloc.sm ∧ c.alloc.smServerName ∧ c.alloc.queue ∧ c.alloc.mutex) ∧
      ∃ p client, s.exoApi c.appType = some p ∧ s.clients[p]? = some client ∧
        sm = ⟨smName c.type, client.netIf, p, server.1, server.2, stype, rqLimit⟩ := by
  unfold protocolClientSmNew at h
  split at h
  · cases h
  · rename_i p hp
    split at h
    · cases h
    · rename_i client hclient
      split at h
      · rename_i ha
        exact ⟨ha, p, client, hp, hclient, (Except.ok.inj h).symm⟩
      · cases h

theorem addSm_supplied {stype : StateMachineType} {rqLimit p : Nat} {client : ProtocolClient}
    (h : Supplied c) (hp : s.exoApi c.appType = some p) (hclient : s.clients[p]? = some client) :
    ∃ server, (addSm c stype rqLimit s).2 = added c stype rqLimit server p client s := by
  obtain ⟨⟨hserver, hname⟩, ⟨hitem, hitemName⟩, hsm⟩ := h
  obtain ⟨server, hserver⟩ := Option.isSome_iff_exists.mp hserver
  have hselect : selectServerData c = .ok (c.vendor ++ bytes "." ++ server.1, server.2) := by
    simp [selectServerData, hserver, hname]
  have hnot : ¬ (¬ c.alloc.item = true ∨ (c.name.isSome = true ∧ ¬ c.alloc.itemName = true)) := by
    rintro (hn | ⟨hn, hm⟩)
    · exact hn hitem
    · exact hm (hitemName hn)
  refine ⟨(c.vendor ++ bytes "." ++ server.1, server.2), ?_⟩
  simp only [addSm, hselect, if_neg hnot, protocolClientSmNew, hp, hclient, if_pos hsm]
  rfl

theorem addSm_cases (stype : StateMachineType) (rqLimit : Nat) :
    (addSm c stype rqLimit s).2 = s ∨ ∃ server p client, Supplied c ∧
      s.exoApi c.appType = some p ∧ s.clients[p]? = some client ∧
      (addSm c stype rqLimit s).2 = added c stype rqLimit server p client s := by
  unfold addSm
  split
  · exact .inl rfl
  · rename_i server hserver
    split
    · exact .inl rfl
    · rename_i hitem
      split
      · exact .inl rfl
      · rename_i sm hsm
        obtain ⟨halloc, p, client, hp, hclient, rfl⟩ := protocolClientSmNew_ok hsm
        push Not at hitem
        exact .inr ⟨server, p, client, ⟨selectServerData_ok hserver, hitem, halloc⟩, hp, hclient, rfl⟩

theorem selected_netIfOps : (selected build c s).netIfOps =
    if c.security = .tlsDtls ∧ build.ssl = true then netDevLow build (tprotoType c.appType)
    else s.netIfOps := by
  unfold selected netDevGet
  dsimp only
  split <;> rfl

theorem valid_selected (h : Valid s) : Valid (selected build c s) where
  api t p hp := by
    rw [selected_exoApi] at hp
    rw [selected_clients]
    exact h.api t p hp
  used m hm := by
    rw [selected_machines] at hm
    rw [selected_clients]
    exact h.used m hm

theorem valid_constructed {netIf : NetDev} (h : Valid s) : Valid (constructed c netIf s) := by
  constructor
  · intro t p hp
    simp only [constructed] at hp
    have hlen : (constructed c netIf s).clients.length = s.clients.length + 1 := by
      simp [constructed]
    split at hp
    · obtain rfl := Option.some.inj hp
      omega
    · have hlt := h.api t p hp
      omega
  · intro m hm
    obtain ⟨client, hclient⟩ := h.used m hm
    refine ⟨client, ?_⟩
    have hlt := (List.getElem?_eq_some_iff.mp hclient).1
    simp only [constructed]
    rw [List.getElem?_append_left hlt, hclient]

theorem valid_added {stype : StateMachineType} {rqLimit p : Nat} {server : List UInt8 × Nat}
    {client : ProtocolClient} (h : Valid s) (hclient : s.clients[p]? = some client) :
    Valid (added c stype rqLimit server p client s) where
  api := h.api
  used m hm := by
    rcases List.mem_append.mp hm with hm | hm
    · exact h.used m hm
    · rw [List.mem_singleton.mp hm]
      exact ⟨client, hclient⟩

/-- What a call does to the machines: it adds one with a new client, or one with the client
that the record of its protocol already has, or none. -/
inductive Outcome (build : Build) (c : Call) (s : Statics) : Statics → Prop
  | idle (hr : ¬ Reuses build s c) (ht : ¬ Retargets build s c) : Outcome build c s s
  | none {s'} (hs : Selects build s c) (hr : ¬ Reuses build s c) (hv : Valid s')
      (hm : s'.machines = s.machines) (hn : s'.netIfOps = (selected build c s).netIfOps) :
      Outcome build c s s'
  | fresh {s' m} (hs : Selects build s c) (hr : ¬ Reuses build s c) (hv : Valid s')
      (hm : s'.machines = s.machines ++ [m]) (hn : s'.netIfOps = (selected build c s).netIfOps)
      (ha : m.appType = c.appType) (hsec : m.security = c.security)
      (hp : m.sm.protocolClient = s.clients.length)
      (hi : some m.sm.netIf = chosen build (tprotoType c.appType) c.security) :
      Outcome build c s s'
  | reused {s' m client} (hs : Selects build s c) (hv : Valid s')
      (hm : s'.machines = s.machines ++ [m]) (hn : s'.netIfOps = (selected build c s).netIfOps)
      (ha : m.appType = c.appType) (hsec : m.security = c.security)
      (hk : construct build c.appType c.alloc = .kept) (hok : Succeeds build s c)
      (hp : s.exoApi c.appType = some m.sm.protocolClient)
      (hc : s.clients[m.sm.protocolClient]? = some client) (hi : m.sm.netIf = client.netIf) :
      Outcome build c s s'

theorem reuses_selects (h : Reuses build s c) : Selects build s c := by
  obtain ⟨hk, hok, -⟩ := h
  refine ⟨hok.room, ?_, by simp [hk]⟩
  cases ha : c.appType with
  | http | coap => rfl
  | json =>
      have hserver := hok.server.1
      rw [ha] at hserver
      cases hserver

theorem idle_of_not_selects (h : ¬ Selects build s c) : Outcome build c s s :=
  .idle (fun hr => h (reuses_selects hr)) (fun ht => h ht.1)

/-- The state after a call that ends with the last part of create_new_sm. -/
theorem step_added {stype : StateMachineType} {rqLimit : Nat} {s₁ : Statics}
    (hfull : ¬ full build c.exo s) (hconfig : protocolClientConfig c.appType = some (stype, rqLimit))
    (hget : clientConfigGetProtocolClientConfig build c.appType c.security c.alloc s =
      some (errSuccess, s₁)) : step build s c = (addSm c stype rqLimit s₁).2 := by
  unfold step createNewSm
  simp only [if_neg hfull, hconfig, hget, ne_eq, not_true_eq_false, if_false]

variable (build) in
theorem step_outcome (hv : Valid s) (c : Call) : Outcome build c s (step build s c) := by
  by_cases hfull : full build c.exo s
  · have hstep : step build s c = s := by simp only [step, createNewSm, if_pos hfull]
    rw [hstep]
    exact idle_of_not_selects (fun hs => hs.1 hfull)
  cases hconfig : protocolClientConfig c.appType with
  | none =>
      have hstep : step build s c = s := by simp only [step, createNewSm, if_neg hfull, hconfig]
      rw [hstep]
      exact idle_of_not_selects (fun hs => by simpa [hconfig] using hs.2.1)
  | some config =>
  obtain ⟨stype, rqLimit⟩ := config
  have hget : netDevGet build (tprotoType c.appType) c.security s =
      (chosen build (tprotoType c.appType) c.security, selected build c s) := rfl
  have hvs : Valid (selected build c s) := valid_selected hv
  have hcount : (selected build c s).clients.length = s.clients.length := by rw [selected_clients]
  cases hdev : chosen build (tprotoType c.appType) c.security with
  | none =>
      have hclient : clientConfigGetProtocolClientConfig build c.appType c.security c.alloc s =
          some (errNoNetDev, selected build c s) := by
        simp only [clientConfigGetProtocolClientConfig, hget, hdev]
      have hstep : step build s c = selected build c s := by
        simp only [step, createNewSm, if_neg hfull, hconfig, hclient]
        rfl
      have hs : Selects build s c := ⟨hfull, by simp [hconfig], by simp [hdev]⟩
      rw [hstep]
      refine .none hs (fun hr => ?_) hvs selected_machines rfl
      simpa [hdev] using hr.2.1.device
  | some netIf =>
  cases hconstruct : construct build c.appType c.alloc with
  | crashed =>
      have hclient : clientConfigGetProtocolClientConfig build c.appType c.security c.alloc s =
          none := by
        simp only [clientConfigGetProtocolClientConfig, hget, hdev, hconstruct]
      have hstep : step build s c = s := by
        simp only [step, createNewSm, if_neg hfull, hconfig, hclient]
      rw [hstep]
      exact idle_of_not_selects (fun hs => hs.2.2 (by simp [hdev]) hconstruct)
  | made =>
      have hs : Selects build s c := ⟨hfull, by simp [hconfig], by simp [hconstruct]⟩
      have hr : ¬ Reuses build s c := fun hr => by
        have hk := hr.1
        simp [hconstruct] at hk
      have hclient : clientConfigGetProtocolClientConfig build c.appType c.security c.alloc s =
          some (errSuccess, constructed c netIf (selected build c s)) := by
        simp only [clientConfigGetProtocolClientConfig, hget, hdev, hconstruct]
        rfl
      have hvc : Valid (constructed c netIf (selected build c s)) := valid_constructed hvs
      rw [step_added hfull hconfig hclient]
      rcases addSm_cases (c := c) (s := constructed c netIf (selected build c s)) stype rqLimit with
        hsame | ⟨server, p, client, -, hp, hc, hadd⟩
      · rw [hsame]
        exact .none hs hr hvc selected_machines rfl
      · rw [hadd]
        have hlen : p = s.clients.length := by
          simp only [constructed, if_true] at hp
          rw [← hcount]
          exact (Option.some.inj hp).symm
        have hclientNew : client = ⟨netIf⟩ := by
          subst hlen
          simp only [constructed] at hc
          rw [← hcount, List.getElem?_append_right (Nat.le_refl _), Nat.sub_self] at hc
          exact (Option.some.inj hc).symm
        refine .fresh (m := ⟨c.exo, c.type, c.name, c.appType, c.security,
          ⟨smName c.type, client.netIf, p, server.1, server.2, stype, rqLimit⟩⟩) hs hr
          (valid_added hvc hc) ?_ rfl rfl rfl hlen ?_
        · simp only [added, constructed, selected_machines]
        · rw [hdev, hclientNew]
  | kept =>
      have hs : Selects build s c := ⟨hfull, by simp [hconfig], by simp [hconstruct]⟩
      have hclient : clientConfigGetProtocolClientConfig build c.appType c.security c.alloc s =
          some (errSuccess, selected build c s) := by
        simp only [clientConfigGetProtocolClientConfig, hget, hdev, hconstruct]
      rw [step_added hfull hconfig hclient]
      rcases addSm_cases (c := c) (s := selected build c s) stype rqLimit with
        hsame | ⟨server, p, client, hsup, hp, hc, hadd⟩
      · rw [hsame]
        refine .none hs ?_ hvs selected_machines rfl
        rintro ⟨-, hok, p, client, hp, hc, -⟩
        obtain ⟨server, hadd⟩ := addSm_supplied hok.toSupplied (s := selected build c s)
          (by rw [selected_exoApi, hp]) (by rw [selected_clients, hc])
        have hlen := congrArg (fun s => s.machines.length) (hsame.symm.trans hadd)
        simp [added] at hlen
      · rw [hadd]
        rw [selected_exoApi] at hp
        have hc' := hc
        rw [selected_clients] at hc
        refine .reused (m := ⟨c.exo, c.type, c.name, c.appType, c.security,
          ⟨smName c.type, client.netIf, p, server.1, server.2, stype, rqLimit⟩⟩) hs
          (valid_added hvs hc') ?_ rfl rfl rfl hconstruct ⟨hsup, hfull, by simp [hdev]⟩ hp hc rfl
        simp only [added, selected_machines]

theorem own_zero : Own build Statics.zero where
  distinct := List.nodup_nil
  interface m h := by cases h

theorem step_valid (hv : Valid s) (c : Call) : Valid (step build s c) := by
  have h := step_outcome build hv c
  generalize step build s c = s' at h
  cases h with
  | idle => exact hv
  | none _ _ hv _ _ | fresh _ _ hv _ _ _ _ _ _ | reused _ hv _ _ _ _ _ _ _ _ _ => exact hv

theorem own_append {s' : Statics} {m : Created} (hm : s'.machines = s.machines ++ [m])
    (h : Own build s) : Own build s' ↔
      m.sm.protocolClient ∉ s.machines.map (fun m => m.sm.protocolClient) ∧
        some m.sm.netIf = chosen build (tprotoType m.appType) m.security := by
  constructor
  · rintro ⟨hd, hi⟩
    rw [hm, List.map_append, List.nodup_append] at hd
    refine ⟨fun hmem => hd.2.2 _ hmem _ (by simp) rfl, hi m (by simp [hm])⟩
  · rintro ⟨hnew, hi⟩
    constructor
    · rw [hm, List.map_append]
      refine h.distinct.append (List.nodup_singleton _) ?_
      simpa using hnew
    · intro x hx
      rw [hm] at hx
      rcases List.mem_append.mp hx with hx | hx
      · exact h.interface x hx
      · rw [List.mem_singleton.mp hx]
        exact hi

theorem step_own_iff (hv : Valid s) (h : Own build s) (c : Call) :
    Own build (step build s c) ↔ ¬ Reuses build s c := by
  have hout := step_outcome build hv c
  generalize step build s c = s' at hout
  cases hout with
  | idle hr ht => exact iff_of_true h hr
  | none hs hr hv' hm hn =>
      refine iff_of_true ⟨?_, ?_⟩ hr
      · rw [hm]
        exact h.distinct
      · rw [hm]
        exact h.interface
  | @fresh _ m hs hr hv' hm hn ha hsec hp hi =>
      refine iff_of_true ((own_append hm h).mpr ⟨?_, ?_⟩) hr
      · intro hmem
        obtain ⟨x, hx, hpx⟩ := List.mem_map.mp hmem
        obtain ⟨client, hclient⟩ := hv.used x hx
        have hlt := (List.getElem?_eq_some_iff.mp hclient).1
        omega
      · rw [ha, hsec, hi]
  | @reused _ m client hs hv' hm hn ha hsec hk hok hp hc hi =>
      rw [own_append hm h, ha, hsec, hi]
      constructor
      · rintro ⟨hnew, hdev⟩ ⟨-, -, p, client', hp', hc', hbad⟩
        obtain rfl := Option.some.inj (hp.symm.trans hp')
        obtain rfl := Option.some.inj (hc.symm.trans hc')
        rcases hbad with hbad | hbad
        · exact hnew hbad
        · exact hbad hdev
      · intro hr
        by_contra hbad
        rw [not_and_or, not_not] at hbad
        exact hr ⟨hk, hok, _, client, hp, hc, hbad⟩

theorem chosen_ssl {type : TransportProtocol} {security : SecurityMode}
    (h : some NetDev.sslClient = chosen build type security) :
    security = .tlsDtls ∧ build.ssl = true := by
  cases security with
  | off =>
      cases type with
      | tcp => by_cases hb : build.tcp = true <;> simp [chosen, netDevLow, hb] at h
      | udp => by_cases hb : build.udp = true <;> simp [chosen, netDevLow, hb] at h
  | tlsDtls =>
      by_cases hb : build.ssl = true
      · exact ⟨rfl, hb⟩
      · simp [chosen, hb] at h

/-- Behind the selection of an interface the library stands on the transport of the call;
so that of the other machines is the question. -/
theorem selected_transport_iff {s' : Statics} {extra : List Created} (hs : Selects build s c)
    (h : OwnTransport build s) (hm : s'.machines = s.machines ++ extra)
    (hn : s'.netIfOps = (selected build c s).netIfOps)
    (hextra : ∀ m ∈ extra, m.appType = c.appType ∧
      (m.sm.netIf = .sslClient → c.security = .tlsDtls ∧ build.ssl = true)) :
    OwnTransport build s' ↔ ¬ Retargets build s c := by
  rw [selected_netIfOps] at hn
  by_cases htls : c.security = .tlsDtls ∧ build.ssl = true
  · rw [if_pos htls] at hn
    constructor
    · rintro ht ⟨-, -, -, m, hmem, hssl, hne⟩
      have hlow := ht m (by simp [hm, hmem]) hssl
      exact hne (hlow.symm.trans hn)
    · intro hr m hmem hssl
      rw [hm] at hmem
      rw [hn]
      rcases List.mem_append.mp hmem with hmem | hmem
      · by_contra hne
        exact hr ⟨hs, htls.1, htls.2, m, hmem, hssl, fun heq => hne heq.symm⟩
      · rw [(hextra m hmem).1]
  · rw [if_neg htls] at hn
    refine iff_of_true ?_ (fun hr => htls ⟨hr.2.1, hr.2.2.1⟩)
    intro m hmem hssl
    rw [hm] at hmem
    rw [hn]
    rcases List.mem_append.mp hmem with hmem | hmem
    · exact h m hmem hssl
    · exact absurd ((hextra m hmem).2 hssl) htls

theorem step_transport_iff (hv : Valid s) (h : Own build s) (ht : OwnTransport build s) (c : Call)
    (hr : ¬ Reuses build s c) : OwnTransport build (step build s c) ↔ ¬ Retargets build s c := by
  have hown := (step_own_iff hv h c).mpr hr
  have hout := step_outcome build hv c
  generalize step build s c = s' at hout hown
  cases hout with
  | idle _ hnt => exact iff_of_true ht hnt
  | none hs _ _ hm hn =>
      exact @selected_transport_iff _ _ _ _ [] hs ht (by simpa using hm) hn (by simp)
  | @fresh _ m hs _ _ hm hn ha hsec _ hi =>
      refine selected_transport_iff hs ht hm hn (fun x hx => ?_)
      obtain rfl := List.mem_singleton.mp hx
      exact ⟨ha, fun hssl => chosen_ssl (hssl ▸ hi)⟩
  | @reused _ m client hs _ hm hn ha hsec _ _ _ _ _ =>
      refine selected_transport_iff hs ht hm hn (fun x hx => ?_)
      obtain rfl := List.mem_singleton.mp hx
      have hi := hown.interface x (by simp [hm])
      rw [hsec] at hi
      exact ⟨ha, fun hssl => chosen_ssl (hssl ▸ hi)⟩

end

/-- The machines have protocol clients of their own on the interface chosen for them, in all
states of a sequence of calls, if and only if no call reuses a client; and the SSL library
also stands on their own transport if and only if no call retargets it. -/
theorem machines_own_clients_iff (build : Build) (calls : List Call) :
    (Guarded (step build) (fun s c => ¬ Reuses build s c) Statics.zero calls ↔
      ∀ n, Own build (run (step build) Statics.zero (calls.take n))) ∧
    (Guarded (step build) (fun s c => ¬ Reuses build s c ∧ ¬ Retargets build s c)
        Statics.zero calls ↔
      ∀ n, Own build (run (step build) Statics.zero (calls.take n)) ∧
        OwnTransport build (run (step build) Statics.zero (calls.take n))) := by
  have hvalid (n : Nat) : Valid (run (step build) Statics.zero (calls.take n)) :=
    invariant (P := Valid) (fun _ c hv => step_valid hv c) _ valid_zero
  constructor
  · rw [guarded_iff (P := fun s => Valid s ∧ Own build s) ?_ ⟨valid_zero, own_zero⟩]
    · exact forall_congr' (fun n => and_iff_right (hvalid n))
    · rintro s c ⟨hv, h⟩
      rw [step_own_iff hv h c]
      exact and_iff_right (step_valid hv c)
  · rw [guarded_iff (P := fun s => Valid s ∧ Own build s ∧ OwnTransport build s) ?_
      ⟨valid_zero, own_zero, fun m hm => by cases hm⟩]
    · exact forall_congr' (fun n => and_iff_right (hvalid n))
    · rintro s c ⟨hv, h, ht⟩
      rw [and_iff_right (step_valid hv c), step_own_iff hv h c]
      constructor
      · rintro ⟨hr, hown⟩
        exact ⟨hr, (step_transport_iff hv h ht c hr).mp hown⟩
      · rintro ⟨hr, hnt⟩
        exact ⟨hr, (step_transport_iff hv h ht c hr).mpr hnt⟩

def fullBuild : Build := ⟨true, true, true, true, some .libcoap, 0⟩

def mainCall (exo : Nat) (security : SecurityMode) (client : Bool) : Call :=
  ⟨exo, bytes "vendor", none, .http, .main, security,
    ⟨client, true, true, true, true, true, true, true, true⟩⟩

/-- A machine for TLS gets the client and the plain interface of an earlier machine when there
is no memory for its own client. -/
theorem failed_client_is_shared :
    ((run (step fullBuild) Statics.zero [mainCall 0 .off true, mainCall 1 .tlsDtls false]).machines.map
      (fun m => (m.security, m.sm.netIf, m.sm.protocolClient))) =
        [(.off, .tcpClient, 0), (.tlsDtls, .tcpClient, 0)] ∧
    ¬ Own fullBuild
      (run (step fullBuild) Statics.zero [mainCall 0 .off true, mainCall 1 .tlsDtls false]) := by
  constructor
  · decide
  · intro h
    have hd := h.distinct
    revert hd
    decide

end ErSdk.ClientConfig
