import ErSdk.Runs
import ErSdk.Statics
import ErSdk.Sessions
import Mathlib.Logic.Function.Basic

namespace ErSdk.ConnectLock

open ProtocolClientSm Statics Sessions Runs Error

variable {R ι W : Type}

@[simp] theorem startConnecting_lock (env : Env R W) (s : St R ι W) :
    (startConnecting env s).globals.connectingSm = s.globals.connectingSm := by
  unfold startConnecting
  split <;> rfl

theorem continueConnect_lock (env : Env R W) (s : St R ι W) :
    (continueConnect env s).2.globals.connectingSm = s.globals.connectingSm := by
  rw [← startConnecting_lock env s]
  unfold continueConnect
  dsimp only
  split
  · rfl
  · split
    · split
      · split <;> rfl
      · rfl
    · rfl

theorem continueConnect_next (env : Env R W) (s : St R ι W)
    (h : (continueConnect env s).1.error = errWouldBlock) :
    (continueConnect env s).1.next ≠ .transmit := by
  unfold continueConnect at h ⊢
  dsimp only at h ⊢
  split
  · rename_i he
    rw [if_pos he] at h
    exact absurd (he.symm.trans h) (by decide)
  · split
    · split
      · split <;> simp
      · simp
    · simp

/-- connect_socket gives the lock back unless the connect is still going on. -/
theorem connectSocket_cases (env : Env R W) (s : St R ι W) :
    ((connectSocket env s).1.error = errWouldBlock ∧ (connectSocket env s).1.next ≠ .transmit ∧
        (connectSocket env s).2.globals.connectingSm = s.globals.connectingSm) ∨
      ((connectSocket env s).1.error ≠ errWouldBlock ∧
        (connectSocket env s).2.globals.connectingSm = none) := by
  have hnext := continueConnect_next env s
  have hlock := continueConnect_lock env s
  unfold connectSocket
  dsimp only
  by_cases hc : s.sm.connected = true
  · simp only [hc, if_true]
    exact .inr ⟨by decide, rfl⟩
  · simp only [hc, Bool.false_eq_true, if_false]
    split
    · rename_i he
      exact .inr ⟨he, rfl⟩
    · rename_i he
      rw [ne_eq, not_not] at he
      exact .inl ⟨he, hnext he, hlock⟩

section

variable [DecidableEq ι]

/-- Another state machine has the connect lock. -/
def Busy (self : ι) (s : St R ι W) : Prop :=
  s.globals.connectingSm ≠ none ∧ s.globals.connectingSm ≠ some self

instance (self : ι) (s : St R ι W) : Decidable (Busy self s) :=
  inferInstanceAs (Decidable (_ ∧ _))

/-- With the lock taken, create_socket returns an error. -/
def SocketFails (env : Env R W) (self : ι) (s : St R ι W) : Prop :=
  ¬ Busy self s ∧ (ensureSocket env (connectWait self s)).1 ≠ errSuccess ∧
    (ensureSocket env (connectWait self s)).1 ≠ errWouldBlock

instance (env : Env R W) (self : ι) (s : St R ι W) : Decidable (SocketFails env self s) :=
  inferInstanceAs (Decidable (_ ∧ _))

theorem connectWait_busy {self : ι} {s : St R ι W} (h : Busy self s) :
    connectWait self s = (errBusy, s) := by
  unfold connectWait
  rw [if_neg (not_or.mpr h)]

theorem connectWait_free {self : ι} {s : St R ι W} (h : ¬ Busy self s) :
    connectWait self s =
      (errSuccess, s.mapGlobals (fun g => { g with connectingSm := some self })) := by
  unfold connectWait
  rw [if_pos (by by_contra hn; exact h (not_or.mp hn))]

/-- The exits of st_connect, by what they do to the lock. -/
inductive Exit (env : Env R W) (self : ι) (s : St R ι W) : ConnectResult → Option ι → Prop
  | busy (hb : Busy self s) : Exit env self s ⟨errBusy, .connect⟩ s.globals.connectingSm
  | noSocket {e} (hf : SocketFails env self s) (he : e ≠ errWouldBlock) :
      Exit env self s ⟨e, .reset⟩ (some self)
  | pending {next} (hb : ¬ Busy self s) (hf : ¬ SocketFails env self s) (hn : next ≠ .transmit) :
      Exit env self s ⟨errWouldBlock, next⟩ (some self)
  | released {e next} (hb : ¬ Busy self s) (hf : ¬ SocketFails env self s)
      (he : e ≠ errWouldBlock) : Exit env self s ⟨e, next⟩ none

theorem stConnect_exit (env : Env R W) (self : ι) (s : St R ι W) :
    Exit env self s (stConnect env self s).1 (stConnect env self s).2.globals.connectingSm := by
  by_cases hb : Busy self s
  · unfold stConnect
    rw [connectWait_busy hb]
    exact .busy hb
  · have hlock : (ensureSocket env (connectWait self s)).2.globals.connectingSm = some self := by
      rw [ensureSocket_globals, connectWait_free hb]
      rfl
    have hw : (connectWait self s).1 = errSuccess := by rw [connectWait_free hb]
    unfold stConnect
    dsimp only
    rw [if_neg (by simp [hw])]
    by_cases hp : (ensureSocket env (connectWait self s)).1 = errWouldBlock
    · rw [if_pos hp, hp]
      dsimp only
      rw [hlock]
      exact .pending hb (fun hf => hf.2.2 hp) (by decide)
    · rw [if_neg hp]
      by_cases hs : (ensureSocket env (connectWait self s)).1 = errSuccess
      · have hf : ¬ SocketFails env self s := fun hf => hf.2.1 hs
        rw [if_neg (by simp [hs])]
        obtain ⟨he, hn, hl⟩ | ⟨he, hl⟩ :=
          connectSocket_cases env (ensureSocket env (connectWait self s)).2
        · rw [hl, hlock]
          generalize (connectSocket env _).1 = r at he hn
          obtain ⟨e, next⟩ := r
          cases he
          exact .pending hb hf hn
        · rw [hl]
          exact .released hb hf he
      · rw [if_pos hs]
        dsimp only
        rw [hlock]
        exact .noSocket ⟨hb, hs, hp⟩ hp

variable (env : Env R W) (self : ι)

/-- st_transmit up to the overrides of its next state, with whether a request was
completed. -/
def settled (s : St R ι W) : Bool × St R ι W :=
  let responded := respond env self s
  let expired := checkTimeout env responded.2
  let aborted := abortTransfers (completeIf env expired)
  (responded.1.2 || expired.1 || aborted.1, completeIf env aborted)

theorem stTransmit_settled (s : St R ι W) :
    stTransmit env self s = finishTransmit env (attempt env self s).1.next (settled env self s).1
      (settled env self s).2 := rfl

/-- The conditions that send a state machine to reset or failure after st_connect. -/
def GivesUp (completed : Bool) (sm : ProtocolClientSmClass R) : Prop :=
  sm.abortDone = true ∨ tooManyTimeouts sm = true ∨ (sm.alwaysDisconnect = true ∧ completed = true) ∨
    (sm.transmitFailures : Int) > sm.transmissionConfig.transmissionRetries

instance (completed : Bool) (sm : ProtocolClientSmClass R) : Decidable (GivesUp completed sm) :=
  inferInstanceAs (Decidable (_ ∨ _ ∨ _ ∨ _))

/-- The task of a state machine ends a connect attempt and keeps the lock: no socket
could be created, the attempt took too long, or the machine gives up meanwhile. -/
def Leaks (s : St R ι W) : Prop :=
  s.sm.state = .transmit ∧ (SocketFails env self (stNewTransmit env s) ∨
    (attempt env self s).1.error = errWouldBlock ∧ ((attempt env self s).1.next ≠ .connect ∨
      GivesUp (settled env self s).1 (settled env self s).2.sm))

instance (s : St R ι W) : Decidable (Leaks env self s) :=
  inferInstanceAs (Decidable (_ ∧ (_ ∨ _ ∧ (_ ∨ _))))

omit [DecidableEq ι] in
theorem finishTransmit_failures (next : SmState) (completed : Bool) (s : St R ι W) :
    (finishTransmit env next completed s).2.sm.transmitFailures = s.sm.transmitFailures ∧
      (finishTransmit env next completed s).2.sm.transmissionConfig = s.sm.transmissionConfig := by
  unfold finishTransmit closeSocket
  dsimp only
  split
  · split <;> exact ⟨rfl, rfl⟩
  · exact ⟨rfl, rfl⟩

theorem task_state {s : St R ι W} (hs : s.sm.state = .transmit) :
    (protocolClientSmTask env self s).sm.state =
      if ((settled env self s).2.sm.transmitFailures : Int) >
          (settled env self s).2.sm.transmissionConfig.transmissionRetries then .failure
      else overrideNext (attempt env self s).1.next (settled env self s).1
        (settled env self s).2.sm := by
  obtain ⟨hf, hc⟩ := finishTransmit_failures env (attempt env self s).1.next
    (settled env self s).1 (settled env self s).2
  rw [← hf, ← hc]
  unfold protocolClientSmTask
  rw [hs]
  rfl

theorem task_lock {s : St R ι W} (hs : s.sm.state = .transmit) :
    (protocolClientSmTask env self s).globals.connectingSm =
      (attempt env self s).2.globals.connectingSm := by
  rw [← stTransmit_globals]
  unfold protocolClientSmTask
  rw [hs]
  rfl

theorem task_lock_idle {s : St R ι W} (hs : s.sm.state ≠ .transmit) :
    (protocolClientSmTask env self s).globals.connectingSm = s.globals.connectingSm := by
  rw [← stReset_globals env s]
  unfold protocolClientSmTask
  cases h : s.sm.state with
  | transmit => exact absurd h hs
  | reset => rfl
  | connect | failure => rw [stReset_globals]; rfl

theorem task_goes_on {s : St R ι W} (hs : s.sm.state = .transmit)
    (hn : (attempt env self s).1.next = .connect)
    (hg : ¬ GivesUp (settled env self s).1 (settled env self s).2.sm) :
    (protocolClientSmTask env self s).sm.state = .transmit := by
  simp only [GivesUp, not_or, not_and, Bool.not_eq_true] at hg
  obtain ⟨hdone, htimeouts, hdisconnect, hfailures⟩ := hg
  rw [task_state env self hs, if_neg hfailures, hn]
  simp only [overrideNext, hdone, htimeouts, Bool.false_or, Bool.and_eq_true, if_true]
  exact if_neg (fun h => by simp [hdisconnect h.1] at h)

theorem task_ends {s : St R ι W} (hs : s.sm.state = .transmit)
    (hn : (attempt env self s).1.next ≠ .transmit)
    (h : (attempt env self s).1.next ≠ .connect ∨
      GivesUp (settled env self s).1 (settled env self s).2.sm) :
    (protocolClientSmTask env self s).sm.state = .reset ∨
      (protocolClientSmTask env self s).sm.state = .failure := by
  rw [task_state env self hs]
  split
  · exact .inr rfl
  · rename_i hfailures
    unfold overrideNext
    split
    · exact .inl rfl
    · rename_i hreset
      simp only [Bool.or_eq_true, Bool.and_eq_true, not_or] at hreset
      have hconnect : (attempt env self s).1.next ≠ .connect := by
        refine h.resolve_right ?_
        rintro (hd | ht | hc | hf)
        · exact hreset.1.1 hd
        · exact hreset.1.2 ht
        · exact hreset.2 hc
        · exact hfailures hf
      rw [if_neg hconnect]
      cases hx : (attempt env self s).1.next with
      | reset => exact .inl rfl
      | failure => exact .inr rfl
      | connect => exact absurd hx hconnect
      | transmit => exact absurd hx hn

/-- st_connect would have blocked, and the machine has not gone to reset or failure. -/
def GoesOn (s : St R ι W) : Prop :=
  (attempt env self s).1.error = errWouldBlock ∧
    (protocolClientSmTask env self s).sm.state ≠ .reset ∧
    (protocolClientSmTask env self s).sm.state ≠ .failure

instance (s : St R ι W) : Decidable (GoesOn env self s) :=
  inferInstanceAs (Decidable (_ ∧ _ ∧ _))

theorem task_outcome {s : St R ι W} (hs : s.sm.state = .transmit) :
    let lock := (protocolClientSmTask env self s).globals.connectingSm
    (Busy self s ∧ lock = s.globals.connectingSm ∧ ¬ GoesOn env self s ∧ ¬ Leaks env self s) ∨
      (¬ Busy self s ∧ lock = none ∧ ¬ GoesOn env self s ∧ ¬ Leaks env self s) ∨
      (¬ Busy self s ∧ lock = some self ∧ (GoesOn env self s ↔ ¬ Leaks env self s) ∧
        (GoesOn env self s → (protocolClientSmTask env self s).sm.state = .transmit)) := by
  have hexit := stConnect_exit env self (stNewTransmit env s)
  have hbusy : Busy self (stNewTransmit env s) ↔ Busy self s := by
    unfold Busy
    rw [stNewTransmit_globals]
  dsimp only
  rw [task_lock env self hs]
  unfold attempt
  generalize hc : (stConnect env self (stNewTransmit env s)).1 = c at hexit
  generalize hl : (stConnect env self (stNewTransmit env s)).2.globals.connectingSm = l at hexit
  change (attempt env self s).1 = c at hc
  cases hexit with
  | busy hb =>
      refine .inl ⟨hbusy.mp hb, by rw [stNewTransmit_globals], ?_, ?_⟩
      · rintro ⟨he, -⟩
        rw [hc] at he
        exact absurd he (by decide)
      · rintro ⟨-, hf | ⟨he, -⟩⟩
        · exact hf.1 hb
        · rw [hc] at he
          exact absurd he (by decide)
  | @noSocket e hf he =>
      have hgo : ¬ GoesOn env self s := fun h => he (by rw [← h.1, hc])
      have hleak : Leaks env self s := ⟨hs, .inl hf⟩
      exact .inr (.inr ⟨fun hb => hf.1 (hbusy.mpr hb), rfl,
        ⟨fun h => absurd h hgo, fun h => absurd hleak h⟩, fun h => absurd h hgo⟩)
  | @pending next hb hf hn =>
      have he : (attempt env self s).1.error = errWouldBlock := by rw [hc]
      have hnext : (attempt env self s).1.next ≠ .transmit := by rw [hc]; exact hn
      refine .inr (.inr ⟨fun h => hb (hbusy.mpr h), rfl, ⟨?_, ?_⟩, ?_⟩)
      · rintro ⟨-, hreset, hfailure⟩ ⟨-, h | ⟨-, h⟩⟩
        · exact hf h
        · exact (task_ends env self hs hnext h).elim hreset hfailure
      · intro hleak
        have h := not_or.mp (fun h => hleak ⟨hs, .inr ⟨he, h⟩⟩)
        have hgo := task_goes_on env self hs (not_not.mp h.1) h.2
        exact ⟨he, by rw [hgo]; decide, by rw [hgo]; decide⟩
      · rintro ⟨-, hreset, hfailure⟩
        by_contra hstate
        have h : ¬ ((attempt env self s).1.next ≠ .connect ∨
            GivesUp (settled env self s).1 (settled env self s).2.sm) :=
          fun h => (task_ends env self hs hnext h).elim hreset hfailure
        obtain ⟨h₁, h₂⟩ := not_or.mp h
        exact hstate (task_goes_on env self hs (not_not.mp h₁) h₂)
  | @released e next hb hf he =>
      refine .inr (.inl ⟨fun h => hb (hbusy.mpr h), rfl, fun h => he (by rw [← h.1, hc]), ?_⟩)
      rintro ⟨-, h | ⟨h, -⟩⟩
      · exact hf h
      · exact he (by rw [← h, hc])

/-- Any number of state machines that share the statics. `attempting` is not part of
the source: it says which of them has a connect attempt in progress. -/
structure System (R ι W : Type) where
  sms : ι → ProtocolClientSmClass R
  globals : Globals ι
  world : W
  attempting : ι → Bool

inductive Action (R ι : Type)
  | transmit (sm : ι) (type : RequestType) (request : R) (messageId : Int)
  | clear (sm : ι)
  | task (sm : ι)

namespace System

def view (s : System R ι W) (i : ι) : St R ι W := ⟨s.sms i, s.globals, s.world⟩

def put (s : System R ι W) (i : ι) (t : St R ι W) : System R ι W :=
  { s with sms := Function.update s.sms i t.sm, globals := t.globals, world := t.world }

/-- The latest st_connect call of the machine returned because an operation would
block, and the machine has not gone to reset or failure since. -/
def stillAttempting (env : Env R W) (i : ι) (s : System R ι W) : Bool :=
  if (s.sms i).state = .transmit then GoesOn env i (s.view i)
  else s.attempting i && (protocolClientSmTask env i (s.view i)).sm.state ≠ .reset &&
    (protocolClientSmTask env i (s.view i)).sm.state ≠ .failure

/-- Each machine has its own network interface and protocol client. -/
def step (env : ι → Env R W) (s : System R ι W) : Action R ι → System R ι W
  | .transmit i type request messageId =>
      s.put i (protocolClientSmTransmit (env i) type request messageId (s.view i)).2
  | .clear i => s.put i ((s.view i).mapSm protocolClientSmClear)
  | .task i =>
      { s.put i (protocolClientSmTask (env i) i (s.view i)) with
        attempting := Function.update s.attempting i (stillAttempting (env i) i s) }

/-- No machine has called st_connect yet. -/
def start (sms : ι → ProtocolClientSmClass R) (startTime : SysTime) (nextState : SmState)
    (heap : Nat) (world : W) : System R ι W :=
  { sms, globals := ⟨none, startTime, nextState, heap⟩, world, attempting := fun _ => false }

def Locked (s : System R ι W) : Prop :=
  ∀ i, s.globals.connectingSm = some i → s.attempting i = true

/-- Whoever has a connect attempt in progress has the lock. -/
def Exclusive (s : System R ι W) : Prop :=
  ∀ i, s.attempting i = true → s.globals.connectingSm = some i ∧ (s.sms i).state = .transmit

/-- The task that is called next does not keep the lock after its attempt. -/
def Releases (env : ι → Env R W) (s : System R ι W) : Action R ι → Prop
  | .task i => ¬ Leaks (env i) i (s.view i)
  | _ => True

omit [DecidableEq ι] in
theorem Exclusive.unique {s : System R ι W} (h : Exclusive s) {i j : ι}
    (hi : s.attempting i = true) (hj : s.attempting j = true) : i = j :=
  Option.some.inj ((h i hi).1.symm.trans (h j hj).1)

theorem put_frame {s : System R ι W} {i : ι} {t : St R ι W}
    (hl : t.globals.connectingSm = s.globals.connectingSm) (hst : t.sm.state = (s.sms i).state)
    (he : Exclusive s) : Exclusive (s.put i t) ∧ (Locked (s.put i t) ↔ Locked s) := by
  refine ⟨fun j hj => ?_, ?_⟩
  · obtain ⟨hlock, hstate⟩ := he j hj
    refine ⟨hl.trans hlock, ?_⟩
    by_cases hij : j = i
    · subst hij
      simpa [put] using hst.trans hstate
    · simpa [put, hij] using hstate
  · unfold Locked put
    dsimp only
    rw [hl]

omit [DecidableEq ι] in
theorem transmit_frame (env : Env R W) (type : RequestType) (request : R) (messageId : Int)
    (s : St R ι W) :
    (protocolClientSmTransmit env type request messageId s).2.globals.connectingSm =
        s.globals.connectingSm ∧
      (protocolClientSmTransmit env type request messageId s).2.sm.state = s.sm.state := by
  unfold protocolClientSmTransmit cqueuePushTail
  dsimp only
  split
  · exact ⟨rfl, rfl⟩
  · split
    · split <;> exact ⟨rfl, rfl⟩
    · exact ⟨rfl, rfl⟩

theorem Exclusive.eq_of_free {s : System R ι W} (he : Exclusive s) {i j : ι}
    (hb : ¬ Busy i (s.view i)) (hj : s.attempting j = true) : j = i := by
  have hlock := (he j hj).1
  by_contra hne
  refine hb ⟨?_, ?_⟩
  · rw [show (s.view i).globals.connectingSm = some j from hlock]
    exact nofun
  · rw [show (s.view i).globals.connectingSm = some j from hlock]
    exact fun h => hne (Option.some.inj h)

section

variable {s n : System R ι W} {i : ι} {b : Bool}
  (hatt : n.attempting = Function.update s.attempting i b)
  (hsms : ∀ j, j ≠ i → (n.sms j).state = (s.sms j).state)

include hatt

omit hsms in
theorem attempting_of_ne {j : ι} (hj : j ≠ i) : n.attempting j = s.attempting j := by
  rw [hatt, Function.update_of_ne hj]

omit hsms in
theorem attempting_self : n.attempting i = b := by
  rw [hatt, Function.update_self]

include hsms in
theorem stays_locked (hlock : n.globals.connectingSm = s.globals.connectingSm) (hb : b = false)
    (he : Exclusive s) :
    Exclusive n ∧ (s.globals.connectingSm ≠ some i → Locked s → Locked n) := by
  constructor
  · intro j hj
    have hji : j ≠ i := by
      rintro rfl
      rw [attempting_self hatt, hb] at hj
      exact absurd hj (by decide)
    obtain ⟨h, hstate⟩ := he j (attempting_of_ne hatt hji ▸ hj)
    exact ⟨hlock.trans h, (hsms j hji).trans hstate⟩
  · intro hne hl j hj
    rw [hlock] at hj
    have hji : j ≠ i := by
      rintro rfl
      exact hne hj
    rw [attempting_of_ne hatt hji]
    exact hl j hj

theorem keeps_lock (hfree : ¬ Busy i (s.view i)) (hlock : n.globals.connectingSm = some i)
    (hstate : b = true → (n.sms i).state = .transmit) (he : Exclusive s) :
    Exclusive n ∧ (Locked n ↔ b = true) := by
  refine ⟨fun j hj => ?_, fun h => ?_, fun hb j hj => ?_⟩
  · by_cases hji : j = i
    · subst hji
      exact ⟨hlock, hstate ((attempting_self hatt).symm.trans hj)⟩
    · exact absurd (he.eq_of_free hfree (attempting_of_ne hatt hji ▸ hj)) hji
  · exact (attempting_self hatt).symm.trans (h i hlock)
  · obtain rfl : i = j := Option.some.inj (hlock.symm.trans hj)
    exact (attempting_self hatt).trans hb

theorem frees_lock (hfree : ¬ Busy i (s.view i)) (hlock : n.globals.connectingSm = none)
    (hb : b = false) (he : Exclusive s) : Exclusive n ∧ Locked n := by
  refine ⟨fun j hj => ?_, fun j hj => ?_⟩
  · by_cases hji : j = i
    · subst hji
      rw [attempting_self hatt, hb] at hj
      exact absurd hj (by decide)
    · exact absurd (he.eq_of_free hfree (attempting_of_ne hatt hji ▸ hj)) hji
  · rw [hlock] at hj
    exact absurd hj nofun

end

/-- One task call: the lock is left with a machine that has no attempt in progress
exactly when the call leaks it. -/
theorem task_step (env : ι → Env R W) {s : System R ι W} (i : ι) (he : Exclusive s) :
    Exclusive (step env s (.task i)) ∧
      (Locked s → (Locked (step env s (.task i)) ↔ ¬ Leaks (env i) i (s.view i))) := by
  have hatt : (step env s (.task i)).attempting =
      Function.update s.attempting i (stillAttempting (env i) i s) := rfl
  have hsms (j : ι) (hj : j ≠ i) : ((step env s (.task i)).sms j).state = (s.sms j).state := by
    simp [step, put, hj]
  have hself : ((step env s (.task i)).sms i).state =
      (protocolClientSmTask (env i) i (s.view i)).sm.state := by simp [step, put]
  by_cases hs : (s.sms i).state = .transmit
  · have hstill : stillAttempting (env i) i s = true ↔ GoesOn (env i) i (s.view i) := by
      unfold stillAttempting
      rw [if_pos hs, decide_eq_true_iff]
    obtain ⟨hb, hlock, hgo, hleak⟩ | ⟨hb, hlock, hgo, hleak⟩ | ⟨hb, hlock, hgo, hstate⟩ :=
      task_outcome (env i) i (s := s.view i) hs
    · obtain ⟨h₁, h₂⟩ := stays_locked hatt hsms hlock
        (Bool.eq_false_iff.mpr (hstill.not.mpr hgo)) he
      exact ⟨h₁, fun hl => iff_of_true (h₂ hb.2 hl) hleak⟩
    · obtain ⟨h₁, h₂⟩ := frees_lock hatt hb hlock (Bool.eq_false_iff.mpr (hstill.not.mpr hgo)) he
      exact ⟨h₁, fun _ => iff_of_true h₂ hleak⟩
    · obtain ⟨h₁, h₂⟩ := keeps_lock hatt hb hlock
        (fun h => hself.trans (hstate (hstill.mp h))) he
      exact ⟨h₁, fun _ => h₂.trans (hstill.trans hgo)⟩
  · have hidle : s.attempting i = false := by
      by_contra h
      exact hs (he i (by simpa using h)).2
    have hstill : stillAttempting (env i) i s = false := by
      unfold stillAttempting
      rw [if_neg hs, hidle]
      rfl
    obtain ⟨h₁, h₂⟩ := stays_locked hatt hsms (task_lock_idle (env i) i (s := s.view i) hs) hstill he
    refine ⟨h₁, fun hl => iff_of_true (h₂ (fun h => ?_) hl) (fun h => hs h.1)⟩
    have hi := hl i h
    rw [hidle] at hi
    exact absurd hi (by decide)

theorem Exclusive.step (env : ι → Env R W) (s : System R ι W) (a : Action R ι)
    (he : Exclusive s) : Exclusive (step env s a) ∧
      (Locked s → (Locked (step env s a) ↔ Releases env s a)) := by
  cases a with
  | task i => exact task_step env i he
  | transmit i type request messageId =>
      obtain ⟨hlock, hstate⟩ := transmit_frame (env i) type request messageId (s.view i)
      obtain ⟨h₁, h₂⟩ := put_frame (t := (protocolClientSmTransmit (env i) type request messageId
        (s.view i)).2) hlock hstate he
      exact ⟨h₁, fun hl => iff_of_true (h₂.mpr hl) trivial⟩
  | clear i =>
      obtain ⟨h₁, h₂⟩ := put_frame (t := (s.view i).mapSm protocolClientSmClear) rfl rfl he
      exact ⟨h₁, fun hl => iff_of_true (h₂.mpr hl) trivial⟩

section

variable (env : ι → Env R W) (sms : ι → ProtocolClientSmClass R) (startTime : SysTime)
  (nextState : SmState) (heap : Nat) (world : W) (acts : List (Action R ι))

theorem exclusive_run :
    Exclusive (run (System.step env) (start sms startTime nextState heap world) acts) :=
  Runs.invariant (fun s a he => (he.step env s a).1) acts (fun _ h => absurd h nofun)

/-- In every run at most one machine has a connect attempt in progress. The lock is
with that machine in all states of the run exactly when no task call of it keeps the
lock after the end of its attempt. -/
theorem connect_lock_released :
    (∀ i j, (run (System.step env) (start sms startTime nextState heap world) acts).attempting i = true →
      (run (System.step env) (start sms startTime nextState heap world) acts).attempting j = true →
      i = j) ∧
    ((∀ k, Locked (run (System.step env) (start sms startTime nextState heap world)
        (acts.take k))) ↔
      Guarded (System.step env) (Releases env) (start sms startTime nextState heap world) acts) := by
  refine ⟨fun i j hi hj => (exclusive_run env sms startTime nextState heap world acts).unique hi hj, ?_⟩
  have hstep : ∀ (s : System R ι W) a, Exclusive s ∧ Locked s →
      (Exclusive (System.step env s a) ∧ Locked (System.step env s a) ↔ Releases env s a) := by
    rintro s a ⟨he, hl⟩
    obtain ⟨h₁, h₂⟩ := he.step env s a
    exact ⟨fun h => (h₂ hl).mp h.2, fun h => ⟨h₁, (h₂ hl).mpr h⟩⟩
  have hstart : Exclusive (start sms startTime nextState heap world) ∧
      Locked (start sms startTime nextState heap world) :=
    ⟨fun _ h => absurd h nofun, fun _ h => absurd h nofun⟩
  rw [guarded_iff hstep hstart]
  exact ⟨fun h k => ⟨exclusive_run env sms startTime nextState heap world _, h k⟩,
    fun h k => (h k).2⟩

end

/-- The connect of the first machine takes too long: it goes to reset and its lock
stays. -/
theorem connect_timeout_keeps_lock :
    ¬ Locked (run (System.step (fun _ : Bool => Script.env))
      (start (fun _ => protocolClientSmNew Script.config 1 .synch Script.noResponse none) 0 .reset 0
        ⟨[1000, 1000, 1000, 9000], [errWouldBlock], [], []⟩)
      [.task false, .task false]) := by
  intro h
  exact absurd (h false (by decide)) (by decide)

end System

end

end ErSdk.ConnectLock
