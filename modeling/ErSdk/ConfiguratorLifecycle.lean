import ErSdk.ConfiguratorSend
import ErSdk.Pclb

namespace ErSdk.ConfiguratorLifecycle

open ConfiguratorServer ConfiguratorRounds ConfiguratorSend Pclb Runs Strings Error

variable {P W : Type}

def configuratorServerPclbPeriod : UInt64 := 10

/-- An operation that does not read through a pointer without a block. -/
def uncounted {α : Type} (f : W → α × W) (w : W × Nat) : α × (W × Nat) :=
  ((f w.1).1, ((f w.1).2, w.2))

/-- The same environment, with the number of reads through a pointer that is NULL or whose
block was freed. -/
def counting (env : Env P W) : Env P (W × Nat) where
  serverSocket := uncounted env.serverSocket
  accept listener := uncounted (env.accept listener)
  close socket w := (env.close socket w.1, w.2)
  recv socket := uncounted (env.recv socket)
  send socket response offset := uncounted (env.send socket response offset)
  malloc := uncounted env.malloc
  staleText w := ((env.staleText w.1).1, ((env.staleText w.1).2, w.2 + 1))
  onSet wifi := uncounted (env.onSet wifi)
  httpParserInit := env.httpParserInit
  httpParserExecute := env.httpParserExecute

/-- The arguments of start_configurator_server, and which of its allocations get memory. -/
structure StartArgs where
  sn : Option (List UInt8)
  onSet : Bool
  snAllocated : Bool
  recordAllocated : Bool
  deriving DecidableEq

/-- Whether the call returns ERR_SUCCESS. -/
def StartArgs.succeeds (args : StartArgs) : Bool := args.snAllocated && args.recordAllocated

inductive Action
  | start (args : StartArgs)
  | stop
  | pclbTask (ms now later : SysTime)
  deriving DecidableEq

def Action.starts : Action → Bool
  | .start args => args.succeeds
  | _ => false

/-- The device: the callbacks that are registered and the server. `started` tells what the
application asked for last, and `late` counts the tasks that ran while it was false. -/
structure Device (P W : Type) where
  registry : Registry
  st : St P (W × Nat)
  started : Bool
  late : Nat

section

variable (env : Env P W) (systemGetSn : List UInt8) (configuratorServerTaskFn : Nat)

def startConfiguratorServer (args : StartArgs) (d : Device P W) : Int × Device P W :=
  let devSn := args.sn.getD systemGetSn
  let st := d.st.mapServer (fun server => { server with clbSet := args.onSet })
  if args.snAllocated then
    let st := st.mapServer (fun server => { server with sn := .live devSn })
    let registry := d.registry.register
      ⟨configuratorServerPclbPeriod, configuratorServerTaskFn, 0, args.recordAllocated⟩
    if args.recordAllocated then (errSuccess, { d with registry, st, started := true })
    else (errNoMemory, { d with registry, st })
  else (errNoMemory, { d with st })

def stopConfiguratorServer (d : Device P W) : Int × Device P W :=
  (errSuccess, { d with
    st := d.st.mapServer (fun server => { server with sn := .freed })
    started := false })

/-- How many of the callbacks that a pclb_task calls are the task of the server. -/
def taskCalls (ms now later : SysTime) (r : Registry) : Nat :=
  (r.registrations.filter (Registry.due (elapsed ms now later r.lastSystemTime).1)).countP
    (fun e => e.clb = configuratorServerTaskFn)

/-- The callbacks of other modules do not reach the server. -/
def pclbTask (ms now later : SysTime) (d : Device P W) : Device P W :=
  let n := taskCalls configuratorServerTaskFn ms now later d.registry
  { d with
    registry := d.registry.task ms now later (fun _ => [])
    st := (configuratorServerTask (counting env))^[n] d.st
    late := if d.started then d.late else d.late + n }

def step (d : Device P W) : Action → Device P W
  | .start args => (startConfiguratorServer systemGetSn configuratorServerTaskFn args d).2
  | .stop => (stopConfiguratorServer d).2
  | .pclbTask ms now later => pclbTask env configuratorServerTaskFn ms now later d

end

def initialDevice (registry : Registry) (server : CfgServer P) (w : W) : Device P W :=
  ⟨registry, ⟨server, (w, 0)⟩, false, 0⟩

def Allowed (d : Device P W) (a : Action) : Prop := a = .stop → d.started

def registered (fn : Nat) (r : Registry) : Nat := r.registrations.countP (fun e => e.clb = fn)

/-- The task is registered once while the server is started, and never otherwise; it has
not run while the server was stopped, and has read only from blocks that are allocated. -/
structure Orderly (fn : Nat) (d : Device P W) : Prop where
  registered : registered fn d.registry = if d.started then 1 else 0
  late : d.late = 0
  stale : d.st.world.2 = 0

structure Invariant (fn : Nat) (d : Device P W) : Prop extends Orderly fn d where
  sn : d.started → ∃ text, d.st.server.sn = .live text

/-- Nothing stops the server, and it is started only once. -/
def Ok (d : Device P W) : Action → Prop
  | .start args => args.succeeds → d.started = false
  | .stop => False
  | .pclbTask _ _ _ => True

theorem counting_silent (env : Env P W) (text : List UInt8) :
    Silent (counting env) (.live text) (fun w w' => w'.2 = w.2) where
  refl _ := rfl
  trans h h' := h'.trans h
  malloc _ := rfl
  recv _ _ := rfl
  onSet _ _ := rfl
  read _ := rfl
  serverSocket _ := rfl
  accept _ _ := rfl
  close _ _ := rfl
  send _ _ _ _ := rfl

section

variable {fn : Nat} (r : Registry)

theorem register_registrations (args : RegisterArgs) :
    (r.register args).registrations =
      r.registrations ++
        if args.allocated then [⟨args.fn, args.period, 0, r.made, args.param⟩] else [] := by
  unfold Registry.register Registry.registrations
  split
  · simp
  · simp

theorem registered_register (period : UInt64) (param : Nat) (allocated : Bool) :
    registered fn (r.register ⟨period, fn, param, allocated⟩) =
      registered fn r + if allocated then 1 else 0 := by
  unfold registered
  rw [register_registrations, List.countP_append]
  cases allocated with
  | false => simp
  | true => simp

theorem registered_task (ms now later : SysTime) :
    registered fn (r.task ms now later (fun _ => [])) = registered fn r := by
  have hwithin (dtime : SysTime) (l : List Registration) :
      Registry.calledWithin dtime (fun _ => []) l = [] := by
    simp [Registry.calledWithin]
  unfold Registry.task
  split
  · rfl
  · simp only [hwithin, List.foldl_nil]
    unfold registered Registry.registrations
    rw [List.append_nil, List.countP_map]
    rfl

theorem taskCalls_eq_zero (h : registered fn r = 0) (ms now later : SysTime) :
    taskCalls fn ms now later r = 0 := by
  unfold registered at h
  unfold taskCalls
  rw [List.countP_eq_zero] at h ⊢
  intro e he
  exact h e (List.mem_of_mem_filter he)

end

section

variable (env : Env P W) (systemGetSn : List UInt8) {fn : Nat} {d : Device P W}

theorem invariant_start (h : Invariant fn d) (args : StartArgs)
    (hok : args.succeeds → d.started = false) :
    Invariant fn (startConfiguratorServer systemGetSn fn args d).2 := by
  unfold startConfiguratorServer
  dsimp only
  split
  · rename_i hsn
    split
    · rename_i hrecord
      have hstopped := hok (by simp [StartArgs.succeeds, hsn, hrecord])
      have hnone := h.registered
      rw [hstopped] at hnone
      refine ⟨⟨?_, h.late, h.stale⟩, fun _ => ⟨_, rfl⟩⟩
      show registered fn (d.registry.register _) = 1
      rw [registered_register, hnone, hrecord]
      rfl
    · rename_i hrecord
      refine ⟨⟨?_, h.late, h.stale⟩, fun _ => ⟨_, rfl⟩⟩
      refine (registered_register d.registry _ _ _).trans ?_
      rw [if_neg hrecord]
      exact h.registered
  · exact ⟨⟨h.registered, h.late, h.stale⟩, h.sn⟩

theorem invariant_pclbTask (h : Invariant fn d) (ms now later : SysTime) :
    Invariant fn (pclbTask env fn ms now later d) := by
  have hregistered : registered fn (d.registry.task ms now later (fun _ => [])) =
      if d.started then 1 else 0 := (registered_task d.registry ms now later).trans h.registered
  by_cases hstarted : d.started
  · obtain ⟨text, htext⟩ := h.sn hstarted
    obtain ⟨hworld, hsn⟩ := tasks_silent (counting_silent env text) d.st htext
      (taskCalls fn ms now later d.registry)
    refine ⟨⟨hregistered, ?_, hworld.trans h.stale⟩, fun _ => ⟨text, hsn.trans htext⟩⟩
    exact (if_pos hstarted).trans h.late
  · have hcalls := taskCalls_eq_zero d.registry
      (h.registered.trans (if_neg hstarted)) ms now later
    refine ⟨⟨hregistered, ?_, ?_⟩, fun hs => absurd hs hstarted⟩
    · refine (if_neg hstarted).trans ?_
      rw [hcalls, h.late]
    · show ((configuratorServerTask (counting env))^[_] d.st).world.2 = 0
      rw [hcalls]
      exact h.stale

theorem invariant_step (h : Invariant fn d) {a : Action} (hok : Ok d a) :
    Invariant fn (step env systemGetSn fn d a) := by
  cases a with
  | start args => exact invariant_start systemGetSn h args hok
  | stop => exact absurd hok id
  | pclbTask ms now later => exact invariant_pclbTask env h ms now later

theorem ok_of_orderly (h : Invariant fn d) {a : Action} (hallowed : Allowed d a)
    (ho : Orderly fn (step env systemGetSn fn d a)) : Ok d a := by
  have hregistered := ho.registered
  cases a with
  | start args =>
      intro hs
      obtain ⟨hsn, hrecord⟩ : args.snAllocated ∧ args.recordAllocated := by
        simpa [StartArgs.succeeds] using hs
      simp only [step, startConfiguratorServer, hsn, hrecord, if_true, registered_register,
        h.registered] at hregistered
      by_contra hstarted
      simp [hstarted] at hregistered
  | stop =>
      have hone := h.registered
      rw [if_pos (hallowed rfl)] at hone
      exact absurd (hone.symm.trans hregistered) (by simp [step, stopConfiguratorServer])
  | pclbTask ms now later => exact trivial

theorem started_step {a : Action} (hok : Ok d a) :
    (step env systemGetSn fn d a).started = (d.started || a.starts) := by
  cases a with
  | start args =>
      obtain ⟨sn, onSet, snAllocated, recordAllocated⟩ := args
      cases snAllocated <;> cases recordAllocated <;>
        simp [step, startConfiguratorServer, Action.starts, StartArgs.succeeds]
  | stop => exact absurd hok id
  | pclbTask ms now later => simp [step, pclbTask, Action.starts]

theorem ok_iff (d : Device P W) (a : Action) :
    Ok d a ↔ a ≠ .stop ∧ (a.starts → d.started = false) := by
  cases a with
  | start args => simp [Ok, Action.starts]
  | stop => simp [Ok]
  | pclbTask ms now later => simp [Ok, Action.starts]

theorem guarded_ok_iff (d : Device P W) (acts : List Action) :
    Guarded (step env systemGetSn fn) Ok d acts ↔
      Action.stop ∉ acts ∧ acts.countP Action.starts + (if d.started then 1 else 0) ≤ 1 := by
  induction acts generalizing d with
  | nil =>
      simp only [Guarded, List.not_mem_nil, not_false_eq_true, List.countP_nil, true_and, true_iff]
      split
      · simp
      · simp
  | cons a acts ih =>
      have hok := ok_iff d a
      by_cases h : Ok d a
      · obtain ⟨hstop, hstart⟩ := hok.mp h
        simp only [Guarded, h, true_and, ih, started_step env systemGetSn h, List.mem_cons,
          List.countP_cons, not_or, hstop.symm]
        cases hs : a.starts with
        | false => simp
        | true => simp [hstart hs]
      · simp only [Guarded, h, false_and, false_iff, List.mem_cons, List.countP_cons]
        rintro ⟨hstop, hcount⟩
        apply h
        refine hok.mpr ⟨fun ha => hstop (.inl ha.symm), fun hs => ?_⟩
        by_contra hstarted
        rw [if_pos hs, if_pos (eq_true_of_ne_false hstarted)] at hcount
        omega

end

/-- In all states of a run the task is registered as the application asked for, runs only
then and reads no freed serial number, exactly when the server is never stopped and no
second start succeeds. -/
theorem lifecycle_iff (env : Env P W) (systemGetSn : List UInt8) (fn : Nat) (registry : Registry)
    (server : CfgServer P) (w : W) (acts : List Action) (hregistry : registered fn registry = 0)
    (hallowed : Guarded (step env systemGetSn fn) Allowed (initialDevice registry server w) acts) :
    (∀ n, Orderly fn
      (run (step env systemGetSn fn) (initialDevice registry server w) (acts.take n))) ↔
      Action.stop ∉ acts ∧ acts.countP Action.starts ≤ 1 := by
  have hinitial : Invariant fn (initialDevice registry server w) :=
    ⟨⟨hregistry, rfl, rfl⟩, Bool.noConfusion⟩
  have hruns := hallowed.iff_of_invariant (fun _ h => h.toOrderly)
    (fun _ _ hok h => invariant_step env systemGetSn h hok)
    (fun _ _ ha h ho => ok_of_orderly env systemGetSn h ha ho) hinitial
  exact hruns.symm.trans (guarded_ok_iff env systemGetSn _ acts)

/-- A device on whose network clients ask for the page all the time. -/
def servingDevice : Device Unit Unit :=
  initialDevice Registry.empty (initialServer () ⟨.unsecured, [], []⟩ false .null) ()

def startedArgs : StartArgs := ⟨some (bytes "0123"), true, true, true⟩

theorem lifecycle_iff_started :
    Action.stop ∉ [.start startedArgs, .pclbTask 11 0 0, .pclbTask 11 0 0] ∧
      ∀ n, Orderly 7 (run (step (serving id) [] 7) servingDevice
        ([.start startedArgs, .pclbTask 11 0 0, .pclbTask 11 0 0].take n)) :=
  ⟨by decide,
    (lifecycle_iff (serving id) [] 7 Registry.empty (initialServer () ⟨.unsecured, [], []⟩ false .null)
      () [.start startedArgs, .pclbTask 11 0 0, .pclbTask 11 0 0] rfl
      ⟨nofun, nofun, nofun, trivial⟩).mpr ⟨by decide, by decide⟩⟩

/-- A client is answered after the stop, with what is found behind the freed serial number. -/
theorem answered_after_stop :
    let acts : List Action := [.start startedArgs, .stop, .pclbTask 11 0 0]
    let d := run (step (serving id) [] 7) servingDevice acts
    Guarded (step (serving id) [] 7) Allowed servingDevice acts ∧ d.started = false ∧
      registered 7 d.registry = 1 ∧ d.late = 1 ∧ d.st.world.2 = 1 ∧ ¬ Orderly 7 d := by
  have hlate : (run (step (serving id) [] 7) servingDevice
      [.start startedArgs, .stop, .pclbTask 11 0 0]).late = 1 := by decide
  refine ⟨⟨nofun, fun _ => rfl, nofun, trivial⟩, rfl, by decide +kernel, hlate, by decide +kernel, ?_⟩
  intro h
  exact absurd (hlate.symm.trans h.late) (by decide)

end ErSdk.ConfiguratorLifecycle
