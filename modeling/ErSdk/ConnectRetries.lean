import ErSdk.ConnectTime

namespace ErSdk.ConnectRetries

open ProtocolClientSm ConnectLock ConnectTime SmMoves MachineConfig Runs Error
open Sessions (Script)

variable {R ι W : Type}

/-- The overrides at the end of st_transmit that send the machine to reset. -/
def Overridden (completed : Bool) (sm : ProtocolClientSmClass R) : Prop :=
  sm.abortDone = true ∨ tooManyTimeouts sm = true ∨ (sm.alwaysDisconnect = true ∧ completed = true)

instance (completed : Bool) (sm : ProtocolClientSmClass R) : Decidable (Overridden completed sm) :=
  inferInstanceAs (Decidable (_ ∨ _ ∨ _))

theorem overrideNext_eq (next : SmState) (completed : Bool) (sm : ProtocolClientSmClass R) :
    overrideNext next completed sm =
      if Overridden completed sm then .reset else if next = .connect then .transmit else next := by
  have hiff : (sm.abortDone || tooManyTimeouts sm || (sm.alwaysDisconnect && completed)) = true ↔
      Overridden completed sm := by
    unfold Overridden
    rw [Bool.or_eq_true, Bool.or_eq_true, Bool.and_eq_true, or_assoc]
  unfold overrideNext
  by_cases h : Overridden completed sm
  · rw [if_pos (hiff.mpr h), if_pos h]
  · rw [if_neg (fun hb => h (hiff.mp hb)), if_neg h]

/-- Where st_connect sends a machine whose attempt took too long. -/
def retryOrFail (retryCnt : Nat) (config : TransmissionConfig) : SmState :=
  if (retryCnt : Int) ≥ config.connectRetries then .failure else .reset

theorem settled_settings [DecidableEq ι] (env : Env R W) (self : ι) (s : St R ι W)
    (h : (attempt env self s).1.next ≠ .transmit) :
    settingsOf (settled env self s).2 = settingsOf s := by
  unfold settled respond
  dsimp only
  rw [completeIf_settings, abortTransfers_settings, completeIf_settings, checkTimeout_settings,
    completeIf_settings, if_neg h]
  exact attempt_settings env s self

section

variable [DecidableEq ι] (env : Env R W) {self : ι} {s : St R ι W}

omit [DecidableEq ι] in
theorem continueConnect_blocks (t : St R ι W)
    (h : ((startConnecting env t).call (env.connect (startConnecting env t).sm.socket)).1 =
      errWouldBlock) :
    wireOf (continueConnect env t).2.sm = wireOf (startConnecting env t).sm ∧
      ((continueConnect env t).1.next = .connect ∨ (continueConnect env t).1.next =
        retryOrFail (startConnecting env t).sm.retryCnt
          (startConnecting env t).sm.transmissionConfig) := by
  unfold continueConnect retryOrFail
  dsimp only
  rw [if_neg (fun he => absurd (h.symm.trans he) (by decide)), if_pos h]
  split
  · split <;> exact ⟨rfl, .inr rfl⟩
  · exact ⟨rfl, .inl rfl⟩

theorem connecting_wire {t : St R ι W} (h : connecting env self s = some t) :
    wireOf (attempt env self s).2.sm = wireOf (continueConnect env t).2.sm := by
  unfold connecting at h
  dsimp only at h
  split at h
  · rename_i hall
    obtain rfl := Option.some.inj h
    unfold attempt stConnect
    dsimp only
    rw [if_neg (not_not.mpr hall.2.1), if_neg (by rw [hall.2.2.1]; decide),
      if_neg (not_not.mpr hall.2.2.1)]
    exact (connectSocket_open env hall.2.2.2).2.1
  · exact absurd h nofun

/-- A connect that would have blocked: the machine goes on connecting, or leaves by the count
that st_connect has set to 1 when the attempt began. -/
theorem attempt_blocked (h : (blocked env self s).isSome = true) :
    (wireOf (attempt env self s).2.sm).connected = false ∧
      (wireOf (attempt env self s).2.sm).retryCnt = max 1 s.sm.retryCnt ∧
      ((attempt env self s).1.next = .connect ∨ (attempt env self s).1.next =
        retryOrFail (max 1 s.sm.retryCnt) s.sm.transmissionConfig) := by
  unfold blocked at h
  cases ht : connecting env self s with
  | none =>
      rw [ht, Option.bind_none] at h
      exact absurd h Bool.false_ne_true
  | some t =>
      obtain ⟨-, -, ⟨-, -, hretry, hconfig⟩, hconnected, hresult⟩ := connecting_some ht
      have hwire := connecting_wire env ht
      obtain ⟨hstart, -⟩ := startConnecting_cases env t
      have hlimit : (startConnecting env t).sm.transmissionConfig = s.sm.transmissionConfig :=
        (congrArg Prod.fst (startConnecting_settings env t)).trans hconfig
      have hcount : (startConnecting env t).sm.retryCnt = max 1 s.sm.retryCnt := by
        have hc := congrArg Wire.retryCnt hstart
        refine hc.trans ?_
        dsimp only
        rw [hretry]
        split <;> omega
      rw [ht, Option.bind_some] at h
      dsimp only at h
      split at h
      · rename_i hb
        obtain ⟨hsame, hnext⟩ := continueConnect_blocks env t hb
        rw [hcount, hlimit] at hnext
        rw [hwire, hsame, hresult]
        refine ⟨?_, hcount, hnext⟩
        rw [hstart]
        exact hconnected
      · exact absurd h Bool.false_ne_true

theorem attempt_apart (hs : s.sm.state = .transmit) (hc : s.sm.connected = false)
    (h : connecting env self s = none) :
    (wireOf (attempt env self s).2.sm).connected = false ∧
      (wireOf (attempt env self s).2.sm).retryCnt = s.sm.retryCnt ∧
      ((attempt env self s).1.next = .connect ∨ (attempt env self s).1.next = .reset) := by
  have hnew := wireOf_stNewTransmit env s
  by_cases hb : Busy self s
  · unfold attempt stConnect
    rw [connectWait_busy ((busy_stNewTransmit env self s).mpr hb)]
    refine ⟨?_, ?_, .inl rfl⟩
    · exact (congrArg Wire.connected hnew).trans hc
    · exact congrArg Wire.retryCnt hnew
  · have hready := ready env hb
    have hwait : (connectWait self (stNewTransmit env s)).1 = errSuccess := by
      rw [connectWait_free (fun hn => hb ((busy_stNewTransmit env self s).mp hn))]
    have hconnected := hready.connected.trans hc
    have hfails : (ensureSocket env (connectWait self (stNewTransmit env s))).1 ≠ errSuccess := by
      intro hsuccess
      unfold connecting at h
      dsimp only at h
      rw [if_pos ⟨hs, hwait, hsuccess, hconnected⟩] at h
      exact absurd h nofun
    unfold attempt stConnect
    dsimp only
    rw [if_neg (not_not.mpr hwait)]
    split
    · exact ⟨hconnected, hready.retryCnt, .inl rfl⟩
    · exact ⟨hconnected, hready.retryCnt, .inr rfl⟩

structure Unconnected (sm : ProtocolClientSmClass R) : Prop where
  connected : sm.connected = false
  retryCnt : sm.retryCnt ≤ 1
  transmitFailures : sm.transmitFailures = 0

omit [DecidableEq ι] in
theorem Unconnected.closeSocket (h : Unconnected s.sm) : Unconnected (closeSocket env s).sm := by
  unfold ProtocolClientSm.closeSocket
  split
  · exact ⟨rfl, Nat.zero_le 1, h.transmitFailures⟩
  · exact h

omit [DecidableEq ι] in
theorem Unconnected.finishTransmit (h : Unconnected s.sm) (next : SmState) (completed : Bool) :
    Unconnected (finishTransmit env next completed s).2.sm := by
  have hcleared : Unconnected { s.sm with
      timeouts := if tooManyTimeouts s.sm then 0 else s.sm.timeouts, abortDone := false } :=
    ⟨h.connected, h.retryCnt, h.transmitFailures⟩
  unfold ProtocolClientSm.finishTransmit
  dsimp only
  split
  · exact Unconnected.closeSocket env hcleared
  · exact hcleared

omit [DecidableEq ι] in
theorem Unconnected.stReset (h : Unconnected s.sm) : Unconnected (stReset env s).2.sm := by
  unfold ProtocolClientSm.stReset
  dsimp only
  split
  · exact h
  · refine Unconnected.closeSocket env ?_
    exact ⟨h.connected, h.retryCnt, h.transmitFailures⟩

/-- A call outside of st_transmit connects nothing. -/
theorem Unconnected.idle (h : Unconnected s.sm) (hs : s.sm.state ≠ .transmit) :
    Unconnected (protocolClientSmTask env self s).sm := by
  have hreset := h.stReset env
  unfold protocolClientSmTask
  generalize ProtocolClientSm.stReset env s = r at hreset ⊢
  cases hstate : s.sm.state with
  | transmit => exact absurd hstate hs
  | reset => exact ⟨hreset.connected, hreset.retryCnt, hreset.transmitFailures⟩
  | failure => exact ⟨h.connected, h.retryCnt, rfl⟩
  | connect => exact ⟨h.connected, h.retryCnt, h.transmitFailures⟩

theorem task_negative (h : s.sm.transmissionConfig.transmissionRetries < 0) :
    (protocolClientSmTask env self s).sm.state = .failure := by
  have hconfig := protocolClientSmTask_config env s self
  unfold configOf protocolClientSmTask at hconfig
  unfold protocolClientSmTask
  dsimp only [St.mapSm_sm, St.mapGlobals_sm] at hconfig ⊢
  rw [hconfig, if_pos]
  omega

/-- While connect would block, st_connect never sends a machine with two or more connect retries to
failure: its count stands at 1 behind the beginning of each attempt. -/
theorem attempt_retries (h : Unconnected s.sm) (hs : s.sm.state = .transmit)
    (hstall : (connecting env self s).isSome = true → (blocked env self s).isSome = true)
    (hr : 2 ≤ s.sm.transmissionConfig.connectRetries) :
    (wireOf (attempt env self s).2.sm).connected = false ∧
      (wireOf (attempt env self s).2.sm).retryCnt ≤ 1 ∧
      ((attempt env self s).1.next = .connect ∨ (attempt env self s).1.next = .reset) := by
  have hretry := h.retryCnt
  cases hc : connecting env self s with
  | none =>
      obtain ⟨hconnected, hcount, hnext⟩ := attempt_apart env hs h.connected hc
      exact ⟨hconnected, hcount.le.trans hretry, hnext⟩
  | some t =>
      obtain ⟨hconnected, hcount, hnext⟩ := attempt_blocked env (hstall (by rw [hc]; rfl))
      refine ⟨hconnected, by omega, hnext.imp_right (fun he => he.trans ?_)⟩
      exact if_neg (by omega)

theorem task_retries (h : Unconnected s.sm) (hs : s.sm.state = .transmit)
    (hstall : (connecting env self s).isSome = true → (blocked env self s).isSome = true)
    (hr : 2 ≤ s.sm.transmissionConfig.connectRetries)
    (ht : 0 ≤ s.sm.transmissionConfig.transmissionRetries) :
    Unconnected (protocolClientSmTask env self s).sm ∧
      ((protocolClientSmTask env self s).sm.state = .reset ∨
        (protocolClientSmTask env self s).sm.state = .transmit) := by
  obtain ⟨hconnected, hretry, hnext⟩ := attempt_retries env h hs hstall hr
  have hsent : (attempt env self s).1.next ≠ .transmit := by
    rcases hnext with hn | hn <;> rw [hn] <;> decide
  have hwire := wireOf_settled env self s
  have hsame := settled_settings env self s hsent
  have hconfig : (settled env self s).2.sm.transmissionConfig = s.sm.transmissionConfig :=
    congrArg Prod.fst hsame
  have hfailures : (settled env self s).2.sm.transmitFailures = 0 :=
    (congrArg Prod.snd hsame).trans h.transmitFailures
  have hsettled : Unconnected (settled env self s).2.sm :=
    ⟨(congrArg Wire.connected hwire).trans hconnected,
      (congrArg Wire.retryCnt hwire).le.trans hretry, hfailures⟩
  constructor
  · have hdone := hsettled.finishTransmit env (attempt env self s).1.next (settled env self s).1
    rw [← stTransmit_settled] at hdone
    unfold protocolClientSmTask
    rw [hs]
    generalize stTransmit env self s = r at hdone ⊢
    exact ⟨hdone.connected, hdone.retryCnt, hdone.transmitFailures⟩
  · rw [task_state env self hs, hfailures, hconfig, if_neg (by omega), overrideNext_eq]
    split
    · exact .inl rfl
    · rcases hnext with hn | hn
      · exact .inr (by rw [hn, if_pos rfl])
      · exact .inl (by rw [hn, if_neg (by decide)])

omit [DecidableEq ι] in
theorem stReset_next : (stReset env s).1 = .reset ∨ (stReset env s).1 = .transmit := by
  unfold ProtocolClientSm.stReset
  dsimp only
  split
  · exact .inl rfl
  · exact .inr rfl

theorem reset_retries (h : Unconnected s.sm) (hs : s.sm.state = .reset)
    (ht : 0 ≤ s.sm.transmissionConfig.transmissionRetries) :
    (protocolClientSmTask env self s).sm.state = .reset ∨
      (protocolClientSmTask env self s).sm.state = .transmit := by
  have hnext := stReset_next env (s := s)
  have hsame := stReset_settings env s
  have hconfig : (stReset env s).2.sm.transmissionConfig = s.sm.transmissionConfig :=
    congrArg Prod.fst hsame
  have hfailures : (stReset env s).2.sm.transmitFailures = 0 :=
    (congrArg Prod.snd hsame).trans h.transmitFailures
  unfold protocolClientSmTask
  rw [hs]
  dsimp only [St.mapSm_sm]
  rw [hconfig, hfailures, if_neg (by omega)]
  exact hnext

end

/-- The machines with two counts for one of them: the attempts that have timed out since it last
entered failure, and all attempts that have timed out. -/
structure Counted (R ι W : Type) where
  timed : Timed R ι W
  count : Nat
  total : Nat

section

variable [DecidableEq ι] (env : ι → Env R W) (i : ι)

/-- The call finds that the attempt of the machine has taken longer than the connect timeout. -/
def timesOut (d : Timed R ι W) : Action R ι → Bool
  | .task j => j = i && (blocked (env i) i (d.system.view i)).any (fun now =>
      now - (Timed.step env d (.task i)).began i >
        (d.system.sms i).transmissionConfig.connectTimeout)
  | _ => false

def Cut (d : Timed R ι W) : Prop :=
  Overridden (settled (env i) i (d.system.view i)).1 (settled (env i) i (d.system.view i)).2.sm

instance (d : Timed R ι W) : Decidable (Cut env i d) :=
  inferInstanceAs (Decidable (Overridden _ _))

/-- A call in which an attempt times out does not end with an override. -/
def Uncut (d : Counted R ι W) (a : Action R ι) : Prop :=
  timesOut env i d.timed a = true → ¬ Cut env i d.timed

instance (d : Counted R ι W) (a : Action R ι) : Decidable (Uncut env i d a) :=
  inferInstanceAs (Decidable (_ → _))

/-- Whenever the machine calls connect it would have blocked, and its attempt goes on until it has
taken longer than the connect timeout. -/
def Stalls (d : Counted R ι W) : Action R ι → Prop
  | .task j => j = i → (connecting (env i) i (d.timed.system.view i)).isSome = true →
      (blocked (env i) i (d.timed.system.view i)).isSome = true ∧
        (timesOut env i d.timed (.task i) = true ∨ ¬ Cut env i d.timed)
  | _ => True

instance (d : Counted R ι W) : (a : Action R ι) → Decidable (Stalls env i d a)
  | .task _ => inferInstanceAs (Decidable (_ → _ → _ ∧ (_ ∨ _)))
  | .transmit _ _ _ _ | .clear _ => .isTrue trivial

def Counted.step (d : Counted R ι W) (a : Action R ι) : Counted R ι W :=
  let next := Timed.step env d.timed a
  let late := (timesOut env i d.timed a).toNat
  ⟨next, if (next.system.sms i).state = .failure then 0 else d.count + late, d.total + late⟩

def Counted.start (config : ι → TransmissionConfig) (rqLimit : ι → Nat)
    (stype : ι → StateMachineType) (response : ι → ProtocolClientResponse)
    (completed : ι → Option (ProtocolClientRequest R)) (globals : Globals ι) (world : W) :
    Counted R ι W :=
  ⟨Timed.start config rqLimit stype response completed globals world (fun _ => 0), 0, 0⟩

variable {env i}

omit [DecidableEq ι] in
theorem transmit_sm (env : Env R W) (type : RequestType) (request : R) (messageId : Int)
    (s : St R ι W) :
    ∃ q, (protocolClientSmTransmit env type request messageId s).2.sm =
      { s.sm with transferQueue := q } := by
  unfold protocolClientSmTransmit cqueuePushTail
  dsimp only
  split
  · exact ⟨_, rfl⟩
  · split
    · split <;> exact ⟨_, rfl⟩
    · exact ⟨_, rfl⟩

theorem step_other (env : ι → Env R W) (d : Timed R ι W) {a : Action R ι} (h : a ≠ .task i) :
    ∃ q b, (Timed.step env d a).system.sms i =
      { d.system.sms i with transferQueue := q, abortTransfersInProgress := b } := by
  have hne (j : ι) (t : St R ι W) (hj : i ≠ j) : ∃ q b, (d.system.put j t).sms i =
      { d.system.sms i with transferQueue := q, abortTransfersInProgress := b } := by
    refine ⟨(d.system.sms i).transferQueue, (d.system.sms i).abortTransfersInProgress, ?_⟩
    exact Function.update_of_ne hj _ _
  have hself (t : St R ι W) : (d.system.put i t).sms i = t.sm := Function.update_self _ _ _
  cases a with
  | task j => exact hne j _ (fun hj => h (by rw [hj]))
  | clear j =>
      by_cases hj : i = j
      · subst hj
        exact ⟨_, _, hself _⟩
      · exact hne j _ hj
  | transmit j type request messageId =>
      by_cases hj : i = j
      · subst hj
        obtain ⟨q, hq⟩ := transmit_sm (env i) type request messageId (d.system.view i)
        exact ⟨q, _, (hself _).trans hq⟩
      · exact hne j _ hj

theorem step_task (env : ι → Env R W) (i : ι) (d : Timed R ι W) :
    (Timed.step env d (.task i)).system.sms i =
      (protocolClientSmTask (env i) i (d.system.view i)).sm := Function.update_self _ _ _

theorem step_config (d : Timed R ι W) (a : Action R ι) :
    ((Timed.step env d a).system.sms i).transmissionConfig =
      (d.system.sms i).transmissionConfig := by
  by_cases ha : a = .task i
  · rw [ha, step_task]
    exact protocolClientSmTask_config (env i) (d.system.view i) i
  · obtain ⟨q, b, h⟩ := step_other env d ha
    rw [h]

theorem timesOut_task {d : Timed R ι W} {a : Action R ι} (h : timesOut env i d a = true) :
    a = .task i ∧ ∃ now, blocked (env i) i (d.system.view i) = some now ∧
      now - (Timed.step env d (.task i)).began i >
        (d.system.sms i).transmissionConfig.connectTimeout := by
  cases a with
  | transmit | clear => exact absurd h Bool.false_ne_true
  | task j =>
      unfold timesOut at h
      dsimp only at h
      rw [Bool.and_eq_true, Option.any_eq_true] at h
      obtain ⟨hj, now, hnow, hlate⟩ := h
      obtain rfl : j = i := of_decide_eq_true hj
      exact ⟨rfl, now, hnow, of_decide_eq_true hlate⟩

theorem blocked_transmit {env : Env R W} {s : St R ι W}
    (h : (blocked env i s).isSome = true) : s.sm.state = .transmit := by
  unfold blocked at h
  cases ht : connecting env i s with
  | none =>
      rw [ht, Option.bind_none] at h
      exact absurd h Bool.false_ne_true
  | some t =>
      obtain ⟨hs, -, -, -, -⟩ := connecting_some ht
      exact hs

/-- With one connect retry the first attempt that times out is the last: the count that it finds is
at least 1. -/
theorem late_fails {d : Timed R ι W} (hown : d.Own)
    (hr : (d.system.sms i).transmissionConfig.connectRetries ≤ 1)
    (hlate : timesOut env i d (.task i) = true) (hcut : ¬ Cut env i d) :
    ((Timed.step env d (.task i)).system.sms i).state = .failure := by
  obtain ⟨-, now, hnow, htime⟩ := timesOut_task hlate
  have hsome : (blocked (env i) i (d.system.view i)).isSome = true := by rw [hnow]; rfl
  have hleft := (hown.blocked env hnow).mpr htime
  obtain ⟨-, -, hnext⟩ := attempt_blocked (env i) hsome
  have hfail : (attempt (env i) i (d.system.view i)).1.next = .failure := by
    have hr' : (d.system.view i).sm.transmissionConfig.connectRetries ≤ 1 := hr
    exact (hnext.resolve_left hleft).trans (if_pos (by omega))
  unfold Cut at hcut
  rw [step_task, task_state (env i) i (blocked_transmit hsome), overrideNext_eq, if_neg hcut, hfail]
  split <;> rfl

/-- Nothing is counted: each attempt that times out enters failure. -/
structure Prompt (limits : TransmissionConfig) (d : Counted R ι W) : Prop where
  own : d.timed.Own
  config : (d.timed.system.sms i).transmissionConfig = limits
  count : d.count = 0

theorem Prompt.step {limits : TransmissionConfig} (hr : limits.connectRetries ≤ 1)
    {d : Counted R ι W} {a : Action R ι} (hok : Uncut env i d a) (h : Prompt (i := i) limits d) :
    Prompt (i := i) limits (Counted.step env i d a) := by
  refine ⟨h.own.step env a, (step_config d.timed a).trans h.config, ?_⟩
  unfold Counted.step
  dsimp only
  split
  · rfl
  · rename_i hstate
    have hearly : timesOut env i d.timed a = false := by
      by_contra hlate
      rw [Bool.not_eq_false] at hlate
      obtain rfl := (timesOut_task hlate).1
      exact hstate (late_fails h.own (by rw [h.config]; exact hr) hlate (hok hlate))
    rw [hearly, h.count]
    rfl

/-- All attempts are counted: the machine never enters failure. -/
structure Retrying (limits : TransmissionConfig) (d : Counted R ι W) : Prop where
  config : (d.timed.system.sms i).transmissionConfig = limits
  unconnected : Unconnected (d.timed.system.sms i)
  count : d.count = d.total
  connect : (d.timed.system.sms i).state ≠ .connect
  failure : 0 ≤ limits.transmissionRetries → (d.timed.system.sms i).state ≠ .failure
  negative : limits.transmissionRetries < 0 →
    (d.timed.system.sms i).state ≠ .transmit ∧ d.total = 0

theorem Retrying.other {limits : TransmissionConfig} {d : Counted R ι W} {a : Action R ι}
    (ha : a ≠ .task i) (h : Retrying (i := i) limits d) :
    Retrying (i := i) limits (Counted.step env i d a) := by
  obtain ⟨q, b, hsm⟩ := step_other env d.timed ha
  have hlate : timesOut env i d.timed a = false :=
    Bool.eq_false_iff.mpr (fun h => ha (timesOut_task h).1)
  have hstate : ((Timed.step env d.timed a).system.sms i).state =
      (d.timed.system.sms i).state := by rw [hsm]
  have htotal : (Counted.step env i d a).total = d.total := by
    unfold Counted.step
    rw [hlate]
    rfl
  refine ⟨(step_config d.timed a).trans h.config, ?_, ?_, ?_, ?_, ?_⟩
  · have hu : Unconnected ((Timed.step env d.timed a).system.sms i) := by
      rw [hsm]
      exact ⟨h.unconnected.connected, h.unconnected.retryCnt, h.unconnected.transmitFailures⟩
    exact hu
  · rw [htotal]
    unfold Counted.step
    dsimp only
    rw [hstate, hlate]
    split
    · rename_i hfailure
      by_cases hn : limits.transmissionRetries < 0
      · exact (h.negative hn).2.symm
      · exact absurd hfailure (h.failure (by omega))
    · exact h.count
  · exact fun hc => h.connect (hstate.symm.trans hc)
  · exact fun hn hc => h.failure hn (hstate.symm.trans hc)
  · rw [htotal]
    exact fun hn => (h.negative hn).imp_left (fun hne hc => hne (hstate.symm.trans hc))

theorem Retrying.task {limits : TransmissionConfig} (hr : 2 ≤ limits.connectRetries)
    {d : Counted R ι W} (hok : Stalls env i d (.task i)) (h : Retrying (i := i) limits d) :
    Retrying (i := i) limits (Counted.step env i d (.task i)) := by
  have hstep := step_task env i d.timed
  have hconfig := h.config
  by_cases hn : limits.transmissionRetries < 0
  · obtain ⟨hidle, hzero⟩ := h.negative hn
    have hstate : ((Timed.step env d.timed (.task i)).system.sms i).state = .failure := by
      rw [hstep]
      exact task_negative (env i) (by rw [← hconfig] at hn; exact hn)
    have htotal : (Counted.step env i d (.task i)).total = 0 := by
      have hearly : timesOut env i d.timed (.task i) = false := by
        by_contra hlate
        rw [Bool.not_eq_false] at hlate
        obtain ⟨-, now, hnow, -⟩ := timesOut_task hlate
        exact hidle (blocked_transmit (by rw [hnow]; rfl))
      unfold Counted.step
      rw [hearly]
      exact hzero
    have hunconnected : Unconnected (protocolClientSmTask (env i) i (d.timed.system.view i)).sm :=
      h.unconnected.idle (env i) (s := d.timed.system.view i) hidle
    rw [← hstep] at hunconnected
    refine ⟨(step_config d.timed _).trans hconfig, hunconnected, ?_, ?_, ?_, ?_⟩
    · rw [htotal]
      exact if_pos hstate
    · exact fun hc => absurd (hstate.symm.trans hc) (by decide)
    · exact fun hp => absurd hn (by omega)
    · exact fun _ => ⟨fun hc => absurd (hstate.symm.trans hc) (by decide), htotal⟩
  · have hp : 0 ≤ (d.timed.system.view i).sm.transmissionConfig.transmissionRetries := by
      change 0 ≤ (d.timed.system.sms i).transmissionConfig.transmissionRetries
      rw [hconfig]
      omega
    have hnext : Unconnected ((Timed.step env d.timed (.task i)).system.sms i) ∧
        (((Timed.step env d.timed (.task i)).system.sms i).state = .reset ∨
          ((Timed.step env d.timed (.task i)).system.sms i).state = .transmit) := by
      rw [hstep]
      cases hstate : (d.timed.system.sms i).state with
      | connect => exact absurd hstate h.connect
      | failure => exact absurd hstate (h.failure (by omega))
      | reset =>
          refine ⟨h.unconnected.idle (env i) (s := d.timed.system.view i) ?_, ?_⟩
          · exact fun hc => absurd (hstate.symm.trans hc) (by decide)
          · exact reset_retries (env i) h.unconnected hstate hp
      | transmit =>
          refine task_retries (env i) h.unconnected hstate (fun hc => (hok rfl hc).1) ?_ hp
          change 2 ≤ (d.timed.system.sms i).transmissionConfig.connectRetries
          rw [hconfig]
          exact hr
    obtain ⟨hunconnected, hstate⟩ := hnext
    have hne {x : SmState} (hreset : SmState.reset ≠ x) (htransmit : SmState.transmit ≠ x) :
        ((Timed.step env d.timed (.task i)).system.sms i).state ≠ x := by
      rcases hstate with he | he <;> rw [he] <;> assumption
    refine ⟨(step_config d.timed _).trans hconfig, hunconnected, ?_, ?_, ?_, ?_⟩
    · refine (if_neg (hne (by decide) (by decide))).trans ?_
      rw [h.count]
      rfl
    · exact hne (by decide) (by decide)
    · exact fun _ => hne (by decide) (by decide)
    · exact fun hc => absurd hc hn

theorem Retrying.step {limits : TransmissionConfig} (hr : 2 ≤ limits.connectRetries)
    {d : Counted R ι W} {a : Action R ι} (hok : Stalls env i d a) (h : Retrying (i := i) limits d) :
    Retrying (i := i) limits (Counted.step env i d a) := by
  by_cases ha : a = .task i
  · subst ha
    exact h.task hr hok
  · exact h.other ha

theorem total_le (env : ι → Env R W) (i : ι) (d : Counted R ι W) (acts : List (Action R ι)) :
    d.total ≤ (run (Counted.step env i) d acts).total :=
  Runs.invariant (P := fun e : Counted R ι W => d.total ≤ e.total)
    (fun _ _ h => h.trans (Nat.le_add_right _ _)) acts le_rfl

variable (env) (config : ι → TransmissionConfig) (rqLimit : ι → Nat) (stype : ι → StateMachineType)
  (response : ι → ProtocolClientResponse) (completed : ι → Option (ProtocolClientRequest R))
  (globals : Globals ι) (world : W)

omit [DecidableEq ι] in
theorem start_retrying :
    Retrying (i := i) (config i) (Counted.start config rqLimit stype response completed globals world) :=
  ⟨rfl, ⟨rfl, Nat.zero_le 1, rfl⟩, rfl, nofun, fun _ => nofun, fun _ => ⟨nofun, rfl⟩⟩

/-- In every run of any number of machines: with one connect retry a machine never has more than
that many attempts in a row time out without entering failure, unless an attempt times out in a call
that ends with an override. With more connect retries, and a connect that would block until each
attempt times out, the machine never enters failure, and it has that many in a row exactly when so
many time out at all. -/
theorem attempts_before_failure (i : ι) (acts : List (Action R ι)) :
    let start := Counted.start config rqLimit stype response completed globals world
    let after k := run (Counted.step env i) start (acts.take k)
    ((config i).connectRetries = 1 → Guarded (Counted.step env i) (Uncut env i) start acts →
      ∀ k, ((after k).count : Int) ≤ (config i).connectRetries) ∧
    (2 ≤ (config i).connectRetries → Guarded (Counted.step env i) (Stalls env i) start acts →
      (0 ≤ (config i).transmissionRetries →
        ∀ k, ((after k).timed.system.sms i).state ≠ .failure) ∧
      ((∀ k, ((after k).count : Int) ≤ (config i).connectRetries) ↔
        ((run (Counted.step env i) start acts).total : Int) ≤ (config i).connectRetries)) := by
  intro start after
  constructor
  · intro hr hguard k
    have hstart : Prompt (i := i) (config i) start :=
      ⟨Timed.start_own config rqLimit stype response completed globals world _, rfl, rfl⟩
    have h : Prompt (i := i) (config i) (after k) :=
      hguard.always (fun _ _ hok h => h.step (by omega) hok) hstart k
    rw [h.count, hr]
    decide
  · intro hr hguard
    have hstart := start_retrying (i := i) config rqLimit stype response completed globals world
    have h (k : Nat) : Retrying (i := i) (config i) (after k) :=
      hguard.always (fun _ _ hok h => h.step hr hok) hstart k
    refine ⟨fun ht k => (h k).failure ht, fun hall => ?_, fun htotal k => ?_⟩
    · have hend := hall acts.length
      rw [(h acts.length).count] at hend
      unfold after at hend
      rwa [List.take_length] at hend
    · have hle : (after k).total ≤ (run (Counted.step env i) start acts).total := by
        have hrest := total_le env i (after k) (acts.drop k)
        rwa [← run_append, List.take_append_drop] at hrest
      rw [(h k).count]
      omega

/-- Three attempts, each of which times out at its first look at the clock. -/
def slowNetwork : Script :=
  ⟨[1000, 1000, 1000, 3000, 3000, 3000, 3000, 5000, 5000, 5000, 5000, 7000],
    [errWouldBlock, errWouldBlock, errWouldBlock], [], []⟩

def slowStart (retries : Int) : Counted Nat Unit Script :=
  Counted.start (fun _ => { Script.config with connectRetries := retries }) (fun _ => 1)
    (fun _ => .synch) (fun _ => Script.noResponse) (fun _ => none) ⟨none, 0, .reset, 0⟩ slowNetwork

def slowStep : Counted Nat Unit Script → ConnectLock.Action Nat Unit → Counted Nat Unit Script :=
  Counted.step (fun _ => Script.env) ()

theorem attempts_before_failure_slow :
    (run slowStep (slowStart 1) (List.replicate 8 (.task ()))).total = 3 ∧
      (∀ k, ((run slowStep (slowStart 1) ((List.replicate 8 (.task ())).take k)).count : Int) ≤ 1) ∧
      (run slowStep (slowStart 2) (List.replicate 6 (.task ()))).total = 3 ∧
      ∀ k, ((run slowStep (slowStart 2) ((List.replicate 6 (.task ())).take k)).timed.system.sms
        ()).state ≠ .failure :=
  ⟨by decide,
    (attempts_before_failure (fun _ => Script.env)
      (fun _ => { Script.config with connectRetries := 1 }) (fun _ => 1) (fun _ => .synch)
      (fun _ => Script.noResponse) (fun _ => none) ⟨none, 0, .reset, 0⟩ slowNetwork ()
      (List.replicate 8 (.task ()))).1 rfl (by decide),
    by decide,
    ((attempts_before_failure (fun _ => Script.env)
      (fun _ => { Script.config with connectRetries := 2 }) (fun _ => 1) (fun _ => .synch)
      (fun _ => Script.noResponse) (fun _ => none) ⟨none, 0, .reset, 0⟩ slowNetwork ()
      (List.replicate 6 (.task ()))).2 (by decide) (by decide)).1 (by decide)⟩

/-- With two connect retries the third attempt in a row times out, and the machine has not failed. -/
theorem third_attempt_does_not_fail :
    ¬ (Guarded slowStep (Stalls (fun _ => Script.env) ()) (slowStart 2) (List.replicate 6 (.task ())) →
      ∀ k, ((run slowStep (slowStart 2) ((List.replicate 6 (.task ())).take k)).count : Int) ≤ 2) := by
  intro h
  exact absurd (h (by decide) 6) (by decide)

end

end ErSdk.ConnectRetries
