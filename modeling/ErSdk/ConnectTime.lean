import ErSdk.ConnectLock
import ErSdk.MachineConfig

namespace ErSdk.ConnectTime

open ProtocolClientSm Statics ConnectLock SmMoves MachineConfig Runs Error
open Sessions (Script)

variable {R ι W : Type}

/-- The fields of a state machine that its connect attempts work on. -/
structure Wire where
  socket : Option Socket
  connected : Bool
  retryCnt : Nat

def wireOf (sm : ProtocolClientSmClass R) : Wire := ⟨sm.socket, sm.connected, sm.retryCnt⟩

/-- A connect attempt that has not come to its end. -/
def Wire.Pending (w : Wire) : Prop := w.retryCnt ≠ 0 ∧ w.connected = false

section

variable (env : Env R W) (s : St R ι W)

theorem wireOf_stNewTransmit : wireOf (stNewTransmit env s).sm = wireOf s.sm := by
  unfold stNewTransmit
  split
  · rfl
  · split
    · split <;> rfl
    · rfl

theorem wireOf_stSendRequest : wireOf (stSendRequest env s).2.sm = wireOf s.sm := by
  unfold stSendRequest
  split
  · rfl
  · dsimp only
    split
    · rfl
    · split
      · split <;> rfl
      · rfl

theorem wireOf_stRecvResponse : wireOf (stRecvResponse env s).2.sm = wireOf s.sm := by
  unfold stRecvResponse
  dsimp only
  split
  · rfl
  · split <;> rfl

theorem wireOf_pairRequestToResponse : wireOf (pairRequestToResponse s).2.sm = wireOf s.sm := by
  unfold pairRequestToResponse
  split <;> rfl

theorem wireOf_exchange : wireOf (exchange env s).2.sm = wireOf s.sm := by
  have hreceived (e : Int) (t : St R ι W) :
      wireOf (stRecvResponse env (countFailure e t)).2.sm = wireOf t.sm :=
    wireOf_stRecvResponse env _
  unfold exchange
  dsimp only
  split
  · rw [wireOf_pairRequestToResponse, hreceived, wireOf_stSendRequest]
  · exact (hreceived _ _).trans (wireOf_stSendRequest env s)

theorem wireOf_completeIf (c : Bool × St R ι W) : wireOf (completeIf env c).sm = wireOf c.2.sm := by
  unfold completeIf stTransmitComplete
  split
  · split
    · rfl
    · dsimp only
      split <;> rfl
  · rfl

theorem wireOf_checkTimeout : wireOf (checkTimeout env s).2.sm = wireOf s.sm := by
  have hexpired := congrArg wireOf (expiredSent_sm env s.sm.sentRequestList s)
  unfold checkTimeout
  dsimp only
  split
  · exact hexpired
  · split <;> exact hexpired
  · exact hexpired

theorem wireOf_abortTransfers : wireOf (abortTransfers s).2.sm = wireOf s.sm := by
  unfold abortTransfers
  split
  · rfl
  · split <;> rfl

theorem wireOf_closeSocket : wireOf (closeSocket env s).sm =
    if s.sm.socket.isSome then ⟨none, false, 0⟩ else wireOf s.sm := by
  unfold closeSocket
  split <;> rfl

end

/-- Nothing is left of an attempt that the wire did not have. -/
def Wire.Within (w v : Wire) : Prop := w.Pending → v.Pending

theorem closeSocket_within (env : Env R W) (s : St R ι W) :
    (wireOf (closeSocket env s).sm).Within (wireOf s.sm) := by
  rw [wireOf_closeSocket]
  split
  · exact fun h => absurd rfl h.1
  · exact id

theorem finishTransmit_within (env : Env R W) (next : SmState) (completed : Bool) (s : St R ι W) :
    (wireOf (finishTransmit env next completed s).2.sm).Within (wireOf s.sm) := by
  unfold finishTransmit
  dsimp only
  split
  · exact closeSocket_within env _
  · exact id

theorem stReset_within (env : Env R W) (s : St R ι W) :
    (wireOf (stReset env s).2.sm).Within (wireOf s.sm) := by
  unfold stReset
  dsimp only
  split
  · exact id
  · exact closeSocket_within env _

section

variable [DecidableEq ι] (env : Env R W) (self : ι) (s : St R ι W)

theorem wireOf_settled :
    wireOf (settled env self s).2.sm = wireOf (attempt env self s).2.sm := by
  unfold settled respond
  dsimp only
  rw [wireOf_completeIf, wireOf_abortTransfers, wireOf_completeIf, wireOf_checkTimeout,
    wireOf_completeIf]
  split
  · exact wireOf_exchange env _
  · rfl

/-- The state in which the task of a machine calls connect, if it comes to that. -/
def connecting : Option (St R ι W) :=
  let c := ensureSocket env (connectWait self (stNewTransmit env s))
  if s.sm.state = .transmit ∧ (connectWait self (stNewTransmit env s)).1 = errSuccess ∧
      c.1 = errSuccess ∧ c.2.sm.connected = false then some c.2
  else none

/-- The time at which the task begins an attempt: retry_cnt goes from 0 to 1. -/
def beginning : Option SysTime :=
  (connecting env self s).bind (fun t =>
    if t.sm.retryCnt = 0 then some (env.systemGetTime t.world).1 else none)

/-- The time at which the task looks at the clock because connect returned ERR_WOULD_BLOCK. -/
def blocked : Option SysTime :=
  (connecting env self s).bind (fun t =>
    let u := startConnecting env t
    let c := u.call (env.connect u.sm.socket)
    if c.1 = errWouldBlock then some (env.systemGetTime c.2.world).1 else none)

omit [DecidableEq ι] in
theorem busy_stNewTransmit : Busy self (stNewTransmit env s) ↔ Busy self s := by
  unfold Busy
  rw [stNewTransmit_globals]

omit [DecidableEq ι] in
theorem ensureSocket_wire (w : Int × St R ι W) :
    (ensureSocket env w).2.sm.connected = w.2.sm.connected ∧
      (ensureSocket env w).2.sm.retryCnt = w.2.sm.retryCnt ∧
      (w.1 = errSuccess → (ensureSocket env w).1 = errSuccess →
        (ensureSocket env w).2.sm.socket.isSome = true) := by
  unfold ensureSocket
  split
  · unfold ProtocolClientSm.createSocket
    dsimp only
    split
    · rename_i he
      exact ⟨rfl, rfl, fun _ h => absurd h he⟩
    · split
      · rename_i he
        exact ⟨rfl, rfl, fun _ h => absurd h he⟩
      · exact ⟨rfl, rfl, fun _ _ => rfl⟩
  · rename_i hn
    exact ⟨rfl, rfl, fun _ _ => by simpa [Option.isSome_iff_ne_none] using hn⟩

/-- What st_connect works on once it has the lock. -/
structure Ready (i : ι) (s : St R ι W) (c : Int × St R ι W) : Prop where
  lock : c.2.globals.connectingSm = some i
  startTime : c.2.globals.startTime = s.globals.startTime
  connected : c.2.sm.connected = s.sm.connected
  retryCnt : c.2.sm.retryCnt = s.sm.retryCnt
  config : configOf c.2 = configOf s
  socket : c.1 = errSuccess → c.2.sm.socket.isSome = true

variable {self s}

theorem ready (h : ¬ Busy self s) :
    Ready self s (ensureSocket env (connectWait self (stNewTransmit env s))) := by
  have hwait := connectWait_free (fun hb => h ((busy_stNewTransmit env self s).mp hb))
  have hnew := wireOf_stNewTransmit env s
  obtain ⟨hconnected, hretry, hsocket⟩ :=
    ensureSocket_wire env (connectWait self (stNewTransmit env s))
  refine ⟨?_, ?_, ?_, ?_, ?_, hsocket (by rw [hwait])⟩
  · rw [ensureSocket_globals, hwait]
    rfl
  · rw [ensureSocket_globals, hwait]
    have hglobals := congrArg Globals.startTime (stNewTransmit_globals env s)
    exact hglobals
  · rw [hconnected, hwait]
    exact congrArg Wire.connected hnew
  · rw [hretry, hwait]
    exact congrArg Wire.retryCnt hnew
  · have hsocket := congrArg Prod.fst (ensureSocket_settings env (connectWait self (stNewTransmit env s)))
    refine hsocket.trans ?_
    rw [hwait]
    exact congrArg Prod.fst (stNewTransmit_settings env s)

omit [DecidableEq ι] in
theorem startConnecting_cases (t : St R ι W) :
    wireOf (startConnecting env t).sm =
        ⟨t.sm.socket, t.sm.connected, if t.sm.retryCnt = 0 then 1 else t.sm.retryCnt⟩ ∧
      (startConnecting env t).globals.startTime =
        if t.sm.retryCnt = 0 then (env.systemGetTime t.world).1 else t.globals.startTime := by
  unfold startConnecting
  by_cases h : t.sm.retryCnt = 0
  · rw [if_pos h, if_pos h, if_pos h]
    exact ⟨by simp [wireOf, h], rfl⟩
  · rw [if_neg h, if_neg h, if_neg h]
    exact ⟨rfl, rfl⟩

omit [DecidableEq ι] in
theorem continueConnect_cases (t : St R ι W) :
    (wireOf (continueConnect env t).2.sm).connected = true ∨
      ((continueConnect env t).1.next = .reset ∧ (continueConnect env t).1.error ≠ errWouldBlock ∧
        wireOf (continueConnect env t).2.sm = wireOf (startConnecting env t).sm) ∨
      ((continueConnect env t).1.error = errWouldBlock ∧
        wireOf (continueConnect env t).2.sm = wireOf (startConnecting env t).sm ∧
        (continueConnect env t).2.globals = (startConnecting env t).globals) := by
  unfold continueConnect
  dsimp only
  split
  · exact .inl rfl
  · split
    · rename_i hb
      refine .inr (.inr ?_)
      split
      · split <;> exact ⟨hb, rfl, rfl⟩
      · exact ⟨hb, rfl, rfl⟩
    · rename_i hb
      exact .inr (.inl ⟨rfl, hb, rfl⟩)

/-- What is left of an attempt when st_connect returns: nothing if it goes to reset with a socket;
else the lock is the machine's and start_time is that of its attempt. -/
def LeavesOwn (env : Env R W) (self : ι) (s : St R ι W) (c : ConnectResult × St R ι W) : Prop :=
  (wireOf c.2.sm).Pending →
    (c.1.next = .reset ∧ c.2.sm.socket.isSome = true) ∨
      (c.2.globals.connectingSm = some self ∧
        c.2.globals.startTime = (beginning env self s).getD s.globals.startTime ∧
        (beginning env self s = none → (wireOf s.sm).Pending))

omit [DecidableEq ι] in
theorem connectSocket_open {t : St R ι W} (h : t.sm.connected = false) :
    (connectSocket env t).1 = (continueConnect env t).1 ∧
      wireOf (connectSocket env t).2.sm = wireOf (continueConnect env t).2.sm ∧
      ((continueConnect env t).1.error = errWouldBlock →
        (connectSocket env t).2.globals = (continueConnect env t).2.globals) := by
  unfold connectSocket
  rw [h]
  dsimp only
  rw [if_neg (by decide)]
  refine ⟨rfl, ?_, fun he => ?_⟩
  · split <;> rfl
  · rw [if_neg (not_not.mpr he)]

omit [DecidableEq ι] in
/-- Behind a connect nothing is pending, or the machine goes to reset, or the lock and start_time
are as the attempt has left them. -/
theorem connectSocket_own {t : St R ι W} (hlock : t.globals.connectingSm = some self)
    (hsocket : t.sm.socket.isSome = true) (h : t.sm.connected = false)
    (hp : (wireOf (connectSocket env t).2.sm).Pending) :
    ((connectSocket env t).1.next = .reset ∧ (connectSocket env t).2.sm.socket.isSome = true) ∨
      ((connectSocket env t).2.globals.connectingSm = some self ∧
        (connectSocket env t).2.globals.startTime =
          if t.sm.retryCnt = 0 then (env.systemGetTime t.world).1 else t.globals.startTime) := by
  obtain ⟨hresult, hwire, hglobals⟩ := connectSocket_open env h
  obtain ⟨hstart, htime⟩ := startConnecting_cases env t
  rw [hwire] at hp
  rw [hresult]
  obtain hconnected | ⟨hnext, -, hsame⟩ | ⟨hblock, hsame, hkept⟩ := continueConnect_cases env t
  · exact absurd (hconnected.symm.trans hp.2) (by decide)
  · refine .inl ⟨hnext, ?_⟩
    have hs := congrArg Wire.socket (hwire.trans (hsame.trans hstart))
    exact (congrArg Option.isSome hs).trans hsocket
  · refine .inr ?_
    rw [hglobals hblock, hkept]
    exact ⟨(startConnecting_lock env t).trans hlock, htime⟩

theorem attempt_own (h : ¬ Busy self s) (hs : s.sm.state = .transmit) :
    LeavesOwn env self s (attempt env self s) := by
  have hready := ready env h
  have hwait : (connectWait self (stNewTransmit env s)).1 = errSuccess := by
    rw [connectWait_free (fun hb => h ((busy_stNewTransmit env self s).mp hb))]
  unfold LeavesOwn attempt stConnect beginning connecting
  dsimp only
  rw [if_neg (not_not.mpr hwait)]
  generalize ensureSocket env (connectWait self (stNewTransmit env s)) = c at hready ⊢
  have hpending (hp : (wireOf c.2.sm).Pending) : (wireOf s.sm).Pending := by
    obtain ⟨hretry, hconnected⟩ := hp
    exact ⟨fun h0 => hretry (hready.retryCnt.trans h0), hready.connected.symm.trans hconnected⟩
  by_cases hc : c.1 = errSuccess
  · rw [if_neg (by rw [hc]; decide), if_neg (not_not.mpr hc)]
    intro hp
    cases hconnected : c.2.sm.connected with
    | true =>
        have hwire : (wireOf (connectSocket env c.2).2.sm).connected = true := by
          unfold connectSocket
          rw [hconnected]
          exact hconnected
        exact absurd (hwire.symm.trans hp.2) (by decide)
    | false =>
        rw [if_pos ⟨hs, hwait, hc, rfl⟩, Option.bind_some]
        refine (connectSocket_own env hready.lock (hready.socket hc) hconnected hp).imp_right ?_
        rintro ⟨hlock, htime⟩
        refine ⟨hlock, ?_, fun hnone => ?_⟩
        · rw [htime, hready.startTime]
          split <;> rfl
        · have hretry : c.2.sm.retryCnt ≠ 0 := fun h0 => absurd hnone (by rw [if_pos h0]; nofun)
          exact hpending ⟨hretry, hconnected⟩
  · have hnone : ¬ (s.sm.state = .transmit ∧ (connectWait self (stNewTransmit env s)).1 = errSuccess ∧
        c.1 = errSuccess ∧ c.2.sm.connected = false) := fun hall => hc hall.2.2.1
    rw [if_neg hnone]
    intro hp
    refine .inr ?_
    by_cases hb : c.1 = errWouldBlock
    · rw [if_pos hb] at hp ⊢
      exact ⟨hready.lock, hready.startTime, fun _ => hpending hp⟩
    · rw [if_neg hb, if_pos hc] at hp ⊢
      exact ⟨hready.lock, hready.startTime, fun _ => hpending hp⟩

/-- What the machine is like when it calls connect. -/
structure Connecting (env : Env R W) (self : ι) (s t : St R ι W) : Prop where
  state : s.sm.state = .transmit
  free : ¬ Busy self s
  ready : t.globals.startTime = s.globals.startTime ∧ t.sm.connected = s.sm.connected ∧
    t.sm.retryCnt = s.sm.retryCnt ∧ configOf t = configOf s
  connected : t.sm.connected = false
  result : (attempt env self s).1 = (continueConnect env t).1

theorem connecting_some {env : Env R W} {t : St R ι W} (h : connecting env self s = some t) :
    Connecting env self s t := by
  unfold connecting at h
  dsimp only at h
  by_cases hall : s.sm.state = .transmit ∧
      (connectWait self (stNewTransmit env s)).1 = errSuccess ∧
      (ensureSocket env (connectWait self (stNewTransmit env s))).1 = errSuccess ∧
      (ensureSocket env (connectWait self (stNewTransmit env s))).2.sm.connected = false
  · rw [if_pos hall] at h
    obtain ⟨hs, hwait, hc, hconnected⟩ := hall
    have hfree : ¬ Busy self s := by
      intro hb
      rw [connectWait_busy ((busy_stNewTransmit env self s).mpr hb)] at hwait
      exact absurd hwait (by decide : (errBusy : Int) ≠ errSuccess)
    have hready := ConnectTime.ready env hfree
    have hattempt : (attempt env self s).1 = (connectSocket env
        (ensureSocket env (connectWait self (stNewTransmit env s))).2).1 := by
      unfold attempt stConnect
      dsimp only
      rw [if_neg (not_not.mpr hwait), if_neg (by rw [hc]; decide), if_neg (not_not.mpr hc)]
    obtain rfl := Option.some.inj h
    exact ⟨hs, hfree, ⟨hready.startTime, hready.connected, hready.retryCnt, hready.config⟩,
      hconnected, hattempt.trans (connectSocket_open env hconnected).1⟩
  · rw [if_neg hall] at h
    exact absurd h nofun

/-- What a task call does to the attempts of its machine. -/
inductive Outcome (env : Env R W) (i : ι) (s t : St R ι W) : Prop
  | apart (hlock : t.globals.connectingSm = s.globals.connectingSm)
      (htime : t.globals.startTime = s.globals.startTime) (hnone : beginning env i s = none)
      (hwithin : (wireOf t.sm).Within (wireOf s.sm))
  | own (hfree : ¬ Busy i s)
      (hpending : (wireOf t.sm).Pending → t.globals.connectingSm = some i ∧
        t.globals.startTime = (beginning env i s).getD s.globals.startTime ∧
        (beginning env i s = none → (wireOf s.sm).Pending))

omit [DecidableEq ι] in
/-- Behind the end of st_transmit nothing is pending that was not before, and nothing at all if the
next state is reset and there is a socket. -/
theorem finishTransmit_pending (next : SmState) (completed : Bool) (s : St R ι W)
    (hp : (wireOf (finishTransmit env next completed s).2.sm).Pending) :
    (wireOf s.sm).Pending ∧ ¬ (next = .reset ∧ s.sm.socket.isSome = true) := by
  refine ⟨finishTransmit_within env next completed s hp, ?_⟩
  rintro ⟨rfl, hsocket⟩
  have hreset : overrideNext .reset completed s.sm = .reset := by
    unfold overrideNext
    split <;> rfl
  have hclosed (t : St R ι W) (h : t.sm.socket.isSome = true) :
      ¬ (wireOf (closeSocket env t).sm).Pending := by
    rw [wireOf_closeSocket, if_pos h]
    exact fun h => h.1 rfl
  unfold finishTransmit at hp
  dsimp only at hp
  rw [if_pos hreset] at hp
  refine hclosed _ ?_ hp
  exact hsocket

/-- A task call outside of st_transmit. -/
theorem task_idle (env : Env R W) (self : ι) {s : St R ι W} (hs : s.sm.state ≠ .transmit) :
    Outcome env self s (protocolClientSmTask env self s) := by
  have hnone : beginning env self s = none := by
    unfold beginning connecting
    dsimp only
    rw [if_neg (fun h => hs h.1)]
    rfl
  have hlock := congrArg Globals.connectingSm (stReset_globals env s)
  have htime := congrArg Globals.startTime (stReset_globals env s)
  have hwithin := stReset_within env s
  unfold protocolClientSmTask
  cases h : s.sm.state with
  | transmit => exact absurd h hs
  | reset => exact .apart hlock htime hnone hwithin
  | connect | failure => exact .apart rfl rfl hnone id

/-- Around st_transmit the task only writes the state. -/
theorem task_around (env : Env R W) (self : ι) {s : St R ι W} (hs : s.sm.state = .transmit) :
    (protocolClientSmTask env self s).globals.startTime = (stTransmit env self s).2.globals.startTime ∧
      wireOf (protocolClientSmTask env self s).sm = wireOf (stTransmit env self s).2.sm := by
  unfold protocolClientSmTask
  rw [hs]
  generalize stTransmit env self s = r
  exact ⟨rfl, rfl⟩

theorem task_transmit (env : Env R W) (self : ι) {s : St R ι W} (hs : s.sm.state = .transmit) :
    (protocolClientSmTask env self s).globals.startTime =
        (attempt env self s).2.globals.startTime ∧
      ((wireOf (protocolClientSmTask env self s).sm).Pending →
        (wireOf (attempt env self s).2.sm).Pending ∧
          ¬ ((attempt env self s).1.next = .reset ∧
            (attempt env self s).2.sm.socket.isSome = true)) := by
  obtain ⟨htime, haround⟩ := task_around env self hs
  have hwire := wireOf_settled env self s
  have hsocket : (settled env self s).2.sm.socket = (attempt env self s).2.sm.socket :=
    congrArg Wire.socket hwire
  refine ⟨by rw [htime, stTransmit_globals], fun hp => ?_⟩
  rw [haround, stTransmit_settled] at hp
  have hfinish := finishTransmit_pending env _ _ _ hp
  rwa [hwire, hsocket] at hfinish

theorem task_own (env : Env R W) (self : ι) (s : St R ι W) :
    Outcome env self s (protocolClientSmTask env self s) := by
  by_cases hs : s.sm.state = .transmit
  · have hlock := task_lock env self hs
    obtain ⟨htime, hpending⟩ := task_transmit env self hs
    by_cases hb : Busy self s
    · have hwait := connectWait_busy ((busy_stNewTransmit env self s).mpr hb)
      have hkept : (attempt env self s).2 = stNewTransmit env s := by
        unfold attempt stConnect
        rw [hwait]
        rfl
      have hnone : beginning env self s = none := by
        unfold beginning connecting
        dsimp only
        rw [hwait, if_neg (fun h => absurd h.2.1 (by decide : (errBusy : Int) ≠ errSuccess))]
        rfl
      rw [hkept, stNewTransmit_globals] at hlock htime
      rw [hkept, wireOf_stNewTransmit] at hpending
      exact .apart hlock htime hnone (fun hp => (hpending hp).1)
    · refine .own hb (fun hp => ?_)
      obtain ⟨hattempt, hopen⟩ := hpending hp
      rw [hlock, htime]
      exact (attempt_own env hb hs hattempt).resolve_left hopen
  · exact task_idle env self hs

/-- The machines with the time at which the current attempt of each of them began. -/
structure Timed (R ι W : Type) where
  system : System R ι W
  began : ι → SysTime

/-- The attempt of the machine that is called begins anew if its retry_cnt goes from 0 to 1. -/
def beginsAt (env : ι → Env R W) (d : Timed R ι W) : Action R ι → ι → SysTime
  | .task i => (beginning (env i) i (d.system.view i)).elim d.began (Function.update d.began i)
  | _ => d.began

def Timed.step (env : ι → Env R W) (d : Timed R ι W) (a : Action R ι) : Timed R ι W :=
  ⟨System.step env d.system a, beginsAt env d a⟩

theorem beginsAt_none {env : ι → Env R W} {d : Timed R ι W} {i : ι}
    (h : beginning (env i) i (d.system.view i) = none) : beginsAt env d (.task i) = d.began := by
  unfold beginsAt
  dsimp only
  rw [h]
  rfl

theorem beginsAt_some {env : ι → Env R W} {d : Timed R ι W} {i : ι} {now : SysTime}
    (h : beginning (env i) i (d.system.view i) = some now) :
    beginsAt env d (.task i) = Function.update d.began i now := by
  unfold beginsAt
  dsimp only
  rw [h]
  rfl

namespace Timed

/-- Whoever has an attempt that has not come to its end has the lock, and start_time is the time at
which that attempt began. -/
def Own (d : Timed R ι W) : Prop :=
  ∀ i, (wireOf (d.system.sms i)).Pending →
    d.system.globals.connectingSm = some i ∧ d.system.globals.startTime = d.began i

theorem Own.put {d : Timed R ι W} (h : Own d) {i : ι} {t : St R ι W}
    (hlock : t.globals.connectingSm = d.system.globals.connectingSm)
    (htime : t.globals.startTime = d.system.globals.startTime)
    (hwithin : (wireOf t.sm).Within (wireOf (d.system.sms i))) :
    Own ⟨d.system.put i t, d.began⟩ := by
  intro j hp
  refine (h j ?_).imp hlock.trans htime.trans
  by_cases hj : j = i
  · subst hj
    refine hwithin ?_
    simpa [System.put] using hp
  · simpa [System.put, hj] using hp

theorem Own.task {d : Timed R ι W} (h : Own d) (env : ι → Env R W) (i : ι) :
    Own (Timed.step env d (.task i)) := by
  have hput : Own ⟨d.system.put i (protocolClientSmTask (env i) i (d.system.view i)),
      beginsAt env d (.task i)⟩ := by
    cases task_own (env i) i (d.system.view i) with
    | apart hlock htime hnone hwithin =>
        rw [beginsAt_none hnone]
        exact h.put hlock htime hwithin
    | own hfree hpending =>
        intro j hp
        by_cases hj : j = i
        · subst hj
          obtain ⟨hlock, htime, hbefore⟩ := hpending (by simpa [System.put] using hp)
          refine ⟨hlock, htime.trans ?_⟩
          dsimp only
          cases hb : beginning (env j) j (d.system.view j) with
          | some now =>
              rw [beginsAt_some hb, Function.update_self]
              rfl
          | none =>
              rw [beginsAt_none hb]
              exact (h j (hbefore hb)).2
        · -- a pending attempt of another machine would have kept this one out
          have hother := (h j (by simpa [System.put, hj] using hp)).1
          refine absurd ⟨?_, ?_⟩ hfree
          · exact fun hn => Option.some_ne_none j (hother.symm.trans hn)
          · exact fun hs => hj (Option.some.inj (hother.symm.trans hs))
  exact hput

theorem Own.step {d : Timed R ι W} (h : Own d) (env : ι → Env R W) (a : Action R ι) :
    Own (Timed.step env d a) := by
  cases a with
  | task i => exact h.task env i
  | clear i => exact h.put rfl rfl id
  | transmit i type request messageId =>
      have hframe : wireOf (protocolClientSmTransmit (env i) type request messageId
            (d.system.view i)).2.sm = wireOf (d.system.sms i) ∧
          (protocolClientSmTransmit (env i) type request messageId
            (d.system.view i)).2.globals.startTime = d.system.globals.startTime := by
        unfold protocolClientSmTransmit cqueuePushTail
        dsimp only
        split
        · exact ⟨rfl, rfl⟩
        · split
          · split <;> exact ⟨rfl, rfl⟩
          · exact ⟨rfl, rfl⟩
      refine h.put ?_ hframe.2 ?_
      · exact (System.transmit_frame (env i) type request messageId (d.system.view i)).1
      · rw [hframe.1]
        exact id

/-- New machines. What start_time and the uninitialised fields hold does not matter. -/
def start (config : ι → TransmissionConfig) (rqLimit : ι → Nat) (stype : ι → StateMachineType)
    (response : ι → ProtocolClientResponse) (completed : ι → Option (ProtocolClientRequest R))
    (globals : Globals ι) (world : W) (began : ι → SysTime) : Timed R ι W :=
  ⟨System.start (fun i => protocolClientSmNew (config i) (rqLimit i) (stype i) (response i)
    (completed i)) globals.startTime globals.nextState globals.heap world, began⟩

omit [DecidableEq ι] in
theorem start_own (config : ι → TransmissionConfig) (rqLimit : ι → Nat)
    (stype : ι → StateMachineType) (response : ι → ProtocolClientResponse)
    (completed : ι → Option (ProtocolClientRequest R)) (globals : Globals ι) (world : W)
    (began : ι → SysTime) :
    Own (start config rqLimit stype response completed globals world began) :=
  fun _ hp => absurd rfl hp.1

end Timed

omit [DecidableEq ι] in
/-- The would-block branch of st_connect compares the clock with start_time. -/
theorem continueConnect_blocked (env : Env R W) (t : St R ι W) :
    let u := startConnecting env t
    let c := u.call (env.connect u.sm.socket)
    c.1 = errWouldBlock →
      ((continueConnect env t).1.next ≠ .connect ↔
        (env.systemGetTime c.2.world).1 - u.globals.startTime >
          u.sm.transmissionConfig.connectTimeout) := by
  intro u c h
  have hlate : (systemGetDiffTime env c.2.globals.startTime c.2).1 =
      (env.systemGetTime c.2.world).1 - u.globals.startTime := rfl
  unfold continueConnect
  dsimp only
  rw [if_neg (fun he => absurd (h.symm.trans he) (by decide)), if_pos h, hlate]
  by_cases hgt : (env.systemGetTime c.2.world).1 - u.globals.startTime >
      u.sm.transmissionConfig.connectTimeout
  · rw [if_pos hgt]
    refine iff_of_true ?_ hgt
    split <;> simp
  · rw [if_neg hgt]
    exact iff_of_false (not_not.mpr rfl) hgt

namespace Timed

/-- Where connect would have blocked, st_connect compares the clock with the time at which the
attempt of the machine began. -/
theorem Own.blocked {d : Timed R ι W} (h : Own d) (env : ι → Env R W) {i : ι} {now : SysTime}
    (hnow : blocked (env i) i (d.system.view i) = some now) :
    (attempt (env i) i (d.system.view i)).1.next ≠ .connect ↔
      now - (Timed.step env d (.task i)).began i >
        (d.system.sms i).transmissionConfig.connectTimeout := by
  unfold ConnectTime.blocked at hnow
  cases ht : connecting (env i) i (d.system.view i) with
  | none =>
      rw [ht] at hnow
      exact absurd hnow nofun
  | some t =>
      obtain ⟨-, -, ⟨htime, hsame, hretry, hconfig⟩, hconnected, hresult⟩ := connecting_some ht
      obtain ⟨-, hstart⟩ := startConnecting_cases (env i) t
      have hbegan : (Timed.step env d (.task i)).began i =
          (startConnecting (env i) t).globals.startTime := by
        unfold Timed.step
        dsimp only
        rw [hstart]
        by_cases h0 : t.sm.retryCnt = 0
        · have hb : beginning (env i) i (d.system.view i) =
              some ((env i).systemGetTime t.world).1 := by
            unfold beginning
            rw [ht, Option.bind_some, if_pos h0]
          rw [beginsAt_some hb, Function.update_self, if_pos h0]
        · have hb : beginning (env i) i (d.system.view i) = none := by
            unfold beginning
            rw [ht, Option.bind_some, if_neg h0]
          have hpending : (wireOf (d.system.sms i)).Pending :=
            ⟨fun h => h0 (hretry.trans h), hsame.symm.trans hconnected⟩
          rw [beginsAt_none hb, if_neg h0, htime]
          exact (h i hpending).2.symm
      have hlimit : (startConnecting (env i) t).sm.transmissionConfig =
          (d.system.sms i).transmissionConfig := (congrArg Prod.fst (startConnecting_settings (env i) t)).trans hconfig
      rw [ht, Option.bind_some] at hnow
      have hcompare := continueConnect_blocked (env i) t
      dsimp only at hnow hcompare
      by_cases hb : ((startConnecting (env i) t).call
          ((env i).connect (startConnecting (env i) t).sm.socket)).1 = errWouldBlock
      · rw [if_pos hb] at hnow
        rw [hresult, hbegan, ← hlimit, ← Option.some.inj hnow]
        exact hcompare hb
      · rw [if_neg hb] at hnow
        exact absurd hnow nofun

end Timed

/-- In every run of any number of machines: a machine whose connect would have blocked leaves the
connecting state exactly when more than the connect timeout has passed since its own attempt began,
though all of them share start_time. -/
theorem timeout_of_own_attempt (env : ι → Env R W) (config : ι → TransmissionConfig)
    (rqLimit : ι → Nat) (stype : ι → StateMachineType) (response : ι → ProtocolClientResponse)
    (completed : ι → Option (ProtocolClientRequest R)) (globals : Globals ι) (world : W)
    (began : ι → SysTime) (acts : List (Action R ι)) (i : ι) (now : SysTime) :
    let d := run (Timed.step env)
      (Timed.start config rqLimit stype response completed globals world began) acts
    blocked (env i) i (d.system.view i) = some now →
      ((attempt (env i) i (d.system.view i)).1.next ≠ .connect ↔
        now - (Timed.step env d (.task i)).began i >
          (d.system.sms i).transmissionConfig.connectTimeout) := by
  have hown := Runs.invariant (P := Timed.Own) (fun _ a h => h.step env a) acts
    (Timed.start_own config rqLimit stype response completed globals world began)
  exact hown.blocked env

/-- The second machine comes between the two calls of the first one. -/
def interleaved : Timed Nat Bool Script :=
  run (Timed.step (fun _ => Script.env)) (Timed.start (fun _ => Script.config) (fun _ => 1)
    (fun _ => .synch) (fun _ => Script.noResponse) (fun _ => none) ⟨none, 0, .reset, 0⟩
    ⟨[1000, 1000, 1000, 1000, 1000, 1500, 9000], [errWouldBlock, errWouldBlock], [], []⟩
    (fun _ => 0)) [.task false, .task true, .task false, .task true]

theorem timeout_of_own_attempt_interleaved :
    blocked Script.env false (interleaved.system.view false) = some 9000 ∧
      ((attempt Script.env false (interleaved.system.view false)).1.next ≠ .connect ↔
        9000 - (Timed.step (fun _ => Script.env) interleaved (.task false)).began false >
          (interleaved.system.sms false).transmissionConfig.connectTimeout) :=
  ⟨by decide, timeout_of_own_attempt (fun _ => Script.env) (fun _ => Script.config) (fun _ => 1)
    (fun _ => .synch) (fun _ => Script.noResponse) (fun _ => none) ⟨none, 0, .reset, 0⟩ _
    (fun _ => 0) [.task false, .task true, .task false, .task true] false 9000 (by decide)⟩

end

end ErSdk.ConnectTime
