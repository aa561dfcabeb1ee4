import ErSdk.PclbRegistry
import Mathlib.Order.Monotone.Defs

namespace ErSdk.SystemPoll

open Pclb Runs

/-- The start_time and the argument of a system_delay_and_poll call that is in its loop. -/
structure Delay where
  start : SysTime
  ms : SysTime
deriving DecidableEq

/-- A pclb_task call that found a registered callback: what it added to the counters,
the time of the last reading of the clock, and the records it visited. -/
structure Tick where
  dtime : SysTime
  time : Nat
  visits : List Visit
deriving DecidableEq

/-- The registered callbacks, how often the clock was read, the system_delay_and_poll
call in progress, and the pclb_task calls so far. -/
structure System where
  registry : Registry
  hasThread : Bool
  reads : Nat
  delay : Option Delay
  ticks : List Tick

/-- The callbacks that a poll runs register others. -/
inductive Action
  | poll (within : Int → List RegisterArgs)
  | delay (ms : SysTime) (within : Int → List RegisterArgs)
  | round (within : Int → List RegisterArgs)

/-- The times of the calls in which the callback of the `i`-th record ran. -/
def ranAt (i : Nat) (ticks : List Tick) : List Nat :=
  (ticks.filter (fun t => (t.visits[i]?.map Visit.called).getD false)).map Tick.time

namespace System

variable (clock : Nat → Nat)

/-- The `n`-th reading of the system clock. -/
def systemGetTime (n : Nat) : SysTime := UInt32.ofNat (clock n)

def read (s : System) : System := { s with reads := s.reads + 1 }

def readsAfter (ms : SysTime) (s : System) : Nat := if ms = 0 then s.reads + 2 else s.reads

def elapsed (ms : SysTime) (s : System) : SysTime × SysTime :=
  Pclb.elapsed ms (systemGetTime clock s.reads) (systemGetTime clock (s.reads + 1))
    s.registry.lastSystemTime

def pclbTask (ms : SysTime) (within : Int → List RegisterArgs) (s : System) : System :=
  if s.registry.registrations = [] then s
  else
    { s with
      registry := s.registry.task ms (systemGetTime clock s.reads)
        (systemGetTime clock (s.reads + 1)) within
      reads := s.readsAfter ms
      ticks := s.ticks ++ [⟨(s.elapsed clock ms).1, clock (s.readsAfter ms - 1),
        s.registry.registrations.map (Registry.visit (s.elapsed clock ms).1)⟩] }

def systemPoll (ms : SysTime) (within : Int → List RegisterArgs) (s : System) : System :=
  if s.hasThread = false then s.pclbTask clock ms within else s

/-- system_delay_and_poll up to its loop. -/
def systemDelayAndPoll (ms : SysTime) (within : Int → List RegisterArgs) (s : System) : System :=
  let polled := s.read.systemPoll clock 0 within
  if s.hasThread then polled
  else { polled with delay := some ⟨systemGetTime clock s.reads, ms⟩ }

def diffTime (d : Delay) (s : System) : SysTime := systemGetTime clock s.reads - d.start

/-- One evaluation of the condition of the loop, and its body. -/
def delayRound (within : Int → List RegisterArgs) (d : Delay) (s : System) : System :=
  if s.diffTime clock d < d.ms then s.read.systemPoll clock (s.diffTime clock d) within
  else { s.read with delay := none }

/-- The next call begins when the loop of the one before has ended. -/
def step (s : System) (a : Action) : System :=
  match s.delay, a with
  | none, .poll within => s.systemPoll clock 0 within
  | none, .delay ms within => s.systemDelayAndPoll clock ms within
  | some d, .round within => s.delayRound clock within d
  | _, _ => s

def start (registry : Registry) (hasThread : Bool) : System := ⟨registry, hasThread, 0, none, []⟩

/-- Since the first call, what was added to the counters is what the clock has advanced,
and last_system_time is the time on the clock. -/
def OnTime (s : System) : Prop :=
  ∀ first rest, s.ticks = first :: rest →
    ∀ last, s.ticks.getLast? = some last → last.time - first.time < 2 ^ 32 →
      (rest.map (fun t => t.dtime.toNat)).sum = last.time - first.time ∧
        s.registry.lastSystemTime = UInt32.ofNat last.time

/-- No callback runs again before its period is over. -/
def NeverEarly (s : System) : Prop :=
  ∀ first last, s.ticks.head? = some first → s.ticks.getLast? = some last →
    last.time - first.time < 2 ^ 32 → ∀ i e, s.registry.registrations[i]? = some e →
      (ranAt i s.ticks).Pairwise (fun t u => e.period.toNat < u - t)

/-- Whether a call whose last reading is `time` adds to counters within 2^32 ms of the first call. -/
def Counts (time : Nat) (s : System) : Prop :=
  s.registry.registrations ≠ [] ∧ ∃ first, s.ticks.head? = some first ∧ time - first.time < 2 ^ 32

/-- The clock stands still between the two readings of pclb_task(0). -/
def Still (s : System) : Prop :=
  s.Counts (clock (s.reads + 1)) → clock s.reads = clock (s.reads + 1)

/-- A poll with an elapsed time comes when nothing was counted since start_time was read. -/
def Precise (s : System) : Action → Prop
  | .poll _ => s.delay = none → s.Still clock
  | .delay _ _ => s.delay = none → s.read.Still clock
  | .round _ => ∀ d, s.delay = some d → s.diffTime clock d < d.ms →
      if s.diffTime clock d = 0 then s.read.Still clock
      else s.Counts (clock s.reads) → s.registry.lastSystemTime = d.start

theorem toNat_ofNat_sub {a b : Nat} (hle : b ≤ a) (hlt : a - b < 2 ^ 32) :
    (UInt32.ofNat a - UInt32.ofNat b).toNat = a - b := by
  rw [UInt32.toNat_sub, UInt32.toNat_ofNat', UInt32.toNat_ofNat']
  omega

theorem last_mem {l : List Tick} {t : Tick} (h : l.getLast? = some t) : t ∈ l :=
  List.mem_of_getLast? h

/-- What holds whatever the polls add: the times of the calls are in order, and behind
a start_time that was read there is a call. -/
structure Ordered (s : System) : Prop where
  thread : s.hasThread = false
  begun : s.delay.isSome = true → s.registry.registrations ≠ [] → s.ticks ≠ []
  past : ∀ t ∈ s.ticks, ∀ n, s.reads ≤ n → t.time ≤ clock n
  sorted : s.ticks.Pairwise (fun t u => t.time ≤ u.time)

variable {clock} {s : System}

theorem Ordered.first_le (h : Ordered clock s) {first last : Tick} {rest : List Tick}
    (hticks : s.ticks = first :: rest) (hlast : s.ticks.getLast? = some last) :
    first.time ≤ last.time := by
  have hsorted := h.sorted
  have hmem := last_mem hlast
  rw [hticks] at hsorted hmem
  obtain rfl | hmem := List.mem_cons.mp hmem
  · exact Nat.le_refl _
  · exact (List.pairwise_cons.mp hsorted).1 last hmem

/-- One more call leaves everything on time if it adds what the clock has advanced
since the call before it. -/
theorem onTime_append (h : Ordered clock s) (hs : s.OnTime) {s' : System} {t first last : Tick}
    {rest : List Tick} (hticks : s.ticks = first :: rest) (hlast : s.ticks.getLast? = some last)
    (hle : last.time ≤ t.time) (hnew : s'.ticks = s.ticks ++ [t]) :
    s'.OnTime ↔ (t.time - first.time < 2 ^ 32 → t.dtime.toNat = t.time - last.time ∧
      s'.registry.lastSystemTime = UInt32.ofNat t.time) := by
  have hfirst := h.first_le hticks hlast
  have hcons : s'.ticks = first :: (rest ++ [t]) := by rw [hnew, hticks, List.cons_append]
  have hend : s'.ticks.getLast? = some t := by rw [hnew, List.getLast?_concat]
  have hsum : ((rest ++ [t]).map (fun t => t.dtime.toNat)).sum =
      (rest.map (fun t => t.dtime.toNat)).sum + t.dtime.toNat := by simp
  constructor
  · intro h' hlt
    obtain ⟨hadded, htime⟩ := h' first (rest ++ [t]) hcons t hend hlt
    obtain ⟨hbefore, -⟩ := hs first rest hticks last hlast (by omega)
    rw [hsum] at hadded
    exact ⟨by omega, htime⟩
  · intro hcond first' rest' hticks' last' hlast' hlt
    rw [hcons] at hticks'
    obtain ⟨rfl, rfl⟩ := List.cons.inj hticks'
    rw [hend] at hlast'
    obtain rfl := Option.some.inj hlast'
    obtain ⟨hdtime, htime⟩ := hcond hlt
    obtain ⟨hbefore, -⟩ := hs first rest hticks last hlast (by omega)
    refine ⟨?_, htime⟩
    rw [hsum]
    omega

@[simp] theorem read_registry (s : System) : s.read.registry = s.registry := rfl

@[simp] theorem read_ticks (s : System) : s.read.ticks = s.ticks := rfl

@[simp] theorem read_reads (s : System) : s.read.reads = s.reads + 1 := rfl

@[simp] theorem read_hasThread (s : System) : s.read.hasThread = s.hasThread := rfl

@[simp] theorem read_delay (s : System) : s.read.delay = s.delay := rfl

theorem foldl_lastSystemTime (l : List RegisterArgs) (r : Registry) :
    (l.foldl Registry.register r).lastSystemTime = r.lastSystemTime := by
  induction l generalizing r with
  | nil => rfl
  | cons args l ih =>
      rw [List.foldl_cons, ih, Registry.register]
      split <;> rfl

theorem task_lastSystemTime {r : Registry} (h : r.registrations ≠ []) (ms now later : SysTime)
    (within : Int → List RegisterArgs) :
    (r.task ms now later within).lastSystemTime =
      (Pclb.elapsed ms now later r.lastSystemTime).2 := by
  rw [Registry.task, if_neg h]
  exact foldl_lastSystemTime _ _

variable (within : Int → List RegisterArgs)

theorem pclbTask_none {ms : SysTime} (h : s.registry.registrations = []) :
    s.pclbTask clock ms within = s := if_pos h

variable (clock) in
theorem pclbTask_ticks (ms : SysTime) (h : s.registry.registrations ≠ []) :
    (s.pclbTask clock ms within).ticks =
      s.ticks ++ [⟨(s.elapsed clock ms).1, clock (s.readsAfter ms - 1),
        s.registry.registrations.map (Registry.visit (s.elapsed clock ms).1)⟩] := by
  rw [pclbTask, if_neg h]

variable (clock) in
theorem pclbTask_lastSystemTime (ms : SysTime) (h : s.registry.registrations ≠ []) :
    (s.pclbTask clock ms within).registry.lastSystemTime = (s.elapsed clock ms).2 := by
  rw [pclbTask, if_neg h]
  exact task_lastSystemTime h _ _ _ _

theorem onTime_first {s' : System} {t : Tick} (hticks : s'.ticks = [t])
    (htime : s'.registry.lastSystemTime = UInt32.ofNat t.time) : s'.OnTime := by
  intro first rest hcons last hlast _
  rw [hticks] at hcons hlast
  obtain ⟨rfl, rfl⟩ := List.cons.inj hcons
  obtain rfl := Option.some.inj hlast
  exact ⟨by simp, htime⟩

/-- The call at the beginning of the records is on time; each other one is if the clock
stands still between its two readings. -/
theorem onTime_zero (hclock : Monotone clock) (h : Ordered clock s) (hs : s.OnTime) :
    (s.pclbTask clock 0 within).OnTime ↔ s.Still clock := by
  by_cases hnone : s.registry.registrations = []
  · rw [pclbTask_none within hnone]
    exact iff_of_true hs (fun hcounts => absurd hnone hcounts.1)
  have htick := pclbTask_ticks clock within 0 hnone
  have htime := pclbTask_lastSystemTime clock within 0 hnone
  rw [readsAfter, if_pos rfl] at htick
  cases hticks : s.ticks with
  | nil =>
      rw [hticks] at htick
      refine iff_of_true (onTime_first htick htime) ?_
      rintro ⟨-, first, hfirst, -⟩
      rw [hticks] at hfirst
      cases hfirst
  | cons first rest =>
      obtain ⟨last, hlast⟩ : ∃ last, s.ticks.getLast? = some last :=
        ⟨_, List.getLast?_eq_some_getLast (by simp [hticks])⟩
      have hle : clock s.reads ≤ clock (s.reads + 1) := hclock (Nat.le_succ s.reads)
      have hpast := h.past last (last_mem hlast) s.reads (Nat.le_refl _)
      have hfirst := h.first_le hticks hlast
      rw [onTime_append h hs hticks hlast (hpast.trans hle) htick]
      dsimp only
      have hcounts : s.Counts (clock (s.reads + 1)) ↔ clock (s.reads + 1) - first.time < 2 ^ 32 := by
        simp [Counts, hnone, hticks]
      rw [Still, hcounts, show s.reads + 2 - 1 = s.reads + 1 from rfl]
      refine forall_congr' (fun hlt => ?_)
      have hlasttime : s.registry.lastSystemTime = UInt32.ofNat last.time :=
        (hs first rest hticks last hlast (by omega)).2
      have hdtime : (s.elapsed clock 0).1.toNat = clock s.reads - last.time := by
        show (UInt32.ofNat (clock s.reads) - s.registry.lastSystemTime).toNat = _
        rw [hlasttime]
        exact toNat_ofNat_sub hpast (by omega)
      rw [htime]
      constructor
      · rintro ⟨hadded, -⟩
        omega
      · intro hstill
        exact ⟨hdtime.trans (by rw [hstill]), rfl⟩

theorem onTime_diff (h : Ordered clock s) (hs : s.OnTime) {start : SysTime}
    (hticks : s.registry.registrations ≠ [] → s.ticks ≠ [])
    (hne : systemGetTime clock s.reads - start ≠ 0) :
    (s.read.pclbTask clock (systemGetTime clock s.reads - start) within).OnTime ↔
      (s.Counts (clock s.reads) → s.registry.lastSystemTime = start) := by
  by_cases hnone : s.registry.registrations = []
  · rw [pclbTask_none (s := s.read) within hnone]
    exact iff_of_true hs (fun hcounts => absurd hnone hcounts.1)
  have htick := pclbTask_ticks clock (s := s.read) within
    (systemGetTime clock s.reads - start) hnone
  have htime := pclbTask_lastSystemTime clock (s := s.read) within
    (systemGetTime clock s.reads - start) hnone
  rw [readsAfter, if_neg hne, read_reads, Nat.add_sub_cancel] at htick
  rw [elapsed, Pclb.elapsed, if_neg hne] at htick htime
  cases hcons : s.ticks with
  | nil => exact absurd hcons (hticks hnone)
  | cons first rest =>
      obtain ⟨last, hlast⟩ : ∃ last, s.ticks.getLast? = some last :=
        ⟨_, List.getLast?_eq_some_getLast (by simp [hcons])⟩
      have hpast := h.past last (last_mem hlast) s.reads (Nat.le_refl _)
      have hfirst := h.first_le hcons hlast
      rw [onTime_append h hs hcons hlast hpast htick, htime]
      dsimp only
      have hcounts : s.Counts (clock s.reads) ↔ clock s.reads - first.time < 2 ^ 32 := by
        simp [Counts, hnone, hcons]
      rw [hcounts]
      refine forall_congr' (fun hlt => ?_)
      have hlasttime : s.registry.lastSystemTime = UInt32.ofNat last.time :=
        (hs first rest hcons last hlast (by omega)).2
      have hdtime : (UInt32.ofNat (clock s.reads) - UInt32.ofNat last.time).toNat =
          clock s.reads - last.time := toNat_ofNat_sub hpast (by omega)
      constructor
      · rintro ⟨-, hsum⟩
        have hsum : s.registry.lastSystemTime + (UInt32.ofNat (clock s.reads) - start) =
            UInt32.ofNat (clock s.reads) := hsum
        grind
      · intro hstart
        rw [hlasttime] at hstart
        rw [read_registry, hlasttime, ← hstart]
        refine ⟨hdtime, ?_⟩
        show UInt32.ofNat last.time + (UInt32.ofNat (clock s.reads) - UInt32.ofNat last.time) =
          UInt32.ofNat (clock s.reads)
        grind

theorem foldl_registrations (l : List RegisterArgs) (r : Registry) :
    ∃ new, (l.foldl Registry.register r).registrations = r.registrations ++ new := by
  induction l generalizing r with
  | nil => exact ⟨[], (List.append_nil _).symm⟩
  | cons args l ih =>
      obtain ⟨new, hnew⟩ := ih (r.register args)
      rw [List.foldl_cons, hnew, Registry.register]
      split
      · exact ⟨⟨args.fn, args.period, 0, r.made, args.param⟩ :: new, by
          simp [Registry.registrations]⟩
      · exact ⟨new, rfl⟩

variable (clock) in
theorem pclbTask_registrations (ms : SysTime) (h : s.registry.registrations ≠ []) :
    ∃ new, (s.pclbTask clock ms within).registry.registrations =
      s.registry.registrations.map (Registry.tick (s.elapsed clock ms).1) ++ new := by
  rw [pclbTask, if_neg h]
  dsimp only
  rw [Registry.task, if_neg h]
  obtain ⟨new, hnew⟩ := foldl_registrations (Registry.calledWithin (s.elapsed clock ms).1 within
    s.registry.registrations) { s.registry with
      seen := s.registry.registrations.map (Registry.tick (s.elapsed clock ms).1)
      fresh := []
      lastSystemTime := (s.elapsed clock ms).2 }
  refine ⟨new, hnew.trans ?_⟩
  rw [Registry.registrations, List.append_nil]

/-- The counter of a record shows at most the time since each run of its callback. -/
structure Counted (s : System) : Prop where
  visited : ∀ t ∈ s.ticks, t.visits.length ≤ s.registry.registrations.length
  shown : ∀ first last, s.ticks.head? = some first → s.ticks.getLast? = some last →
    last.time - first.time < 2 ^ 32 → ∀ i e, s.registry.registrations[i]? = some e →
      ∀ t ∈ ranAt i s.ticks, e.cnt.toNat + t ≤ last.time
  early : s.NeverEarly

theorem ranAt_append (i : Nat) (l : List Tick) (t : Tick) :
    ranAt i (l ++ [t]) =
      ranAt i l ++ if (t.visits[i]?.map Visit.called).getD false then [t.time] else [] := by
  unfold ranAt
  rw [List.filter_append, List.map_append, List.filter_cons, List.filter_nil]
  split <;> rfl

theorem ranAt_of_short {i : Nat} {l : List Tick} (h : ∀ t ∈ l, t.visits.length ≤ i) :
    ranAt i l = [] := by
  unfold ranAt
  rw [List.map_eq_nil_iff, List.filter_eq_nil_iff]
  intro t ht
  rw [List.getElem?_eq_none (h t ht)]
  simp

theorem counted_visit {e : Registration} {dtime : SysTime} {past : List Nat} {last time : Nat}
    (hle : last ≤ time) (hshown : ∀ t ∈ past, e.cnt.toNat + t ≤ last)
    (hearly : past.Pairwise (fun t u => e.period.toNat < u - t))
    (hdtime : past ≠ [] → dtime.toNat = time - last) :
    let past' := past ++ if Registry.due dtime e then [time] else []
    (∀ t ∈ past', (Registry.tick dtime e).cnt.toNat + t ≤ time) ∧
      past'.Pairwise (fun t u => e.period.toNat < u - t) := by
  have hsum : (e.cnt + dtime.toUInt64).toNat ≤ e.cnt.toNat + dtime.toNat := by
    rw [UInt64.toNat_add, UInt32.toNat_toUInt64]
    exact Nat.mod_le _ _
  have hold : ∀ t ∈ past, e.cnt.toNat + dtime.toNat + t ≤ time := by
    intro t ht
    have hs := hshown t ht
    have hd := hdtime (List.ne_nil_of_mem ht)
    omega
  cases hdue : Registry.due dtime e with
  | true =>
      simp only [Registry.tick, hdue, if_true]
      constructor
      · intro t ht
        obtain ht | ht := List.mem_append.mp ht
        · have hs := hshown t ht
          show 0 + t ≤ time
          omega
        · rw [List.mem_singleton.mp ht]
          exact Nat.le_of_eq (Nat.zero_add time)
      · refine List.pairwise_append.mpr ⟨hearly, List.pairwise_singleton _ _, fun t ht u hu => ?_⟩
        have hperiod : e.period < e.cnt + dtime.toUInt64 := by simpa [Registry.due] using hdue
        have hlt := UInt64.lt_iff_toNat_lt.mp hperiod
        have hs := hold t ht
        rw [List.mem_singleton.mp hu]
        omega
  | false =>
      simp only [Registry.tick, hdue, Bool.false_eq_true, if_false, List.append_nil]
      refine ⟨fun t ht => ?_, hearly⟩
      have hs := hold t ht
      omega

theorem pclbTask_counted (h : Ordered clock s) (hs : s.OnTime) (hc : s.Counted) {ms : SysTime}
    (hnext : ∀ t ∈ s.ticks, t.time ≤ clock (s.readsAfter ms - 1))
    (hs' : (s.pclbTask clock ms within).OnTime) : (s.pclbTask clock ms within).Counted := by
  by_cases hnone : s.registry.registrations = []
  · rw [pclbTask_none within hnone]
    exact hc
  have hticks := pclbTask_ticks clock within ms hnone
  obtain ⟨new, hnew⟩ := pclbTask_registrations clock within ms hnone
  generalize s.pclbTask clock ms within = s' at hs' hticks hnew ⊢
  generalize hdtime : (s.elapsed clock ms).1 = dtime at hticks hnew
  generalize clock (s.readsAfter ms - 1) = time at hnext hticks
  have hvisited : ∀ t ∈ s'.ticks, t.visits.length ≤ s.registry.registrations.length := by
    intro t ht
    rw [hticks, List.mem_append, List.mem_singleton] at ht
    obtain ht | rfl := ht
    · exact hc.visited t ht
    · exact Nat.le_of_eq (List.length_map _)
  have hrecord : ∀ first, s'.ticks.head? = some first → time - first.time < 2 ^ 32 →
      ∀ i e, s'.registry.registrations[i]? = some e →
        (∀ t ∈ ranAt i s'.ticks, e.cnt.toNat + t ≤ time) ∧
          (ranAt i s'.ticks).Pairwise (fun t u => e.period.toNat < u - t) := by
    intro first hfirst hlt i e he
    by_cases hi : i < s.registry.registrations.length
    · obtain ⟨e₀, he₀⟩ : ∃ e₀, s.registry.registrations[i]? = some e₀ := ⟨_, List.getElem?_eq_getElem hi⟩
      rw [hnew, List.getElem?_append_left (by simpa using hi), List.getElem?_map, he₀] at he
      obtain rfl := Option.some.inj he
      have hran : ranAt i s'.ticks =
          ranAt i s.ticks ++ if Registry.due dtime e₀ then [time] else [] := by
        rw [hticks, ranAt_append]
        simp [List.getElem?_map, he₀, Registry.visit]
      rw [hran]
      show _ ∧ List.Pairwise (fun t u => e₀.period.toNat < u - t) _
      cases hcons : s.ticks with
      | nil => exact counted_visit (Nat.zero_le time) (List.forall_mem_nil _) .nil (fun hn => absurd rfl hn)
      | cons first₀ rest =>
          obtain ⟨last, hlast⟩ : ∃ last, s.ticks.getLast? = some last :=
            ⟨_, List.getLast?_eq_some_getLast (by simp [hcons])⟩
          have hhead : first₀ = first := by
            rw [hticks, hcons] at hfirst
            exact Option.some.inj hfirst
          have hlastle := hnext last (last_mem hlast)
          have hfirstle := h.first_le hcons hlast
          have hdt := ((onTime_append h hs hcons hlast hlastle hticks).mp hs' (hhead ▸ hlt)).1
          have hbefore : last.time - first₀.time < 2 ^ 32 := by
            rw [hhead]
            omega
          have hhead₀ : s.ticks.head? = some first₀ := by rw [hcons]; rfl
          rw [← hcons]
          exact counted_visit hlastle (hc.shown first₀ last hhead₀ hlast hbefore i e₀ he₀)
            (hc.early first₀ last hhead₀ hlast hbefore i e₀ he₀) (fun _ => hdt)
    · have hran : ranAt i s'.ticks = [] :=
        ranAt_of_short (fun t ht => (hvisited t ht).trans (Nat.le_of_not_lt hi))
      rw [hran]
      exact ⟨List.forall_mem_nil _, .nil⟩
  have hend (last) (hlast : s'.ticks.getLast? = some last) : last.time = time := by
    rw [hticks, List.getLast?_concat] at hlast
    exact congrArg Tick.time (Option.some.inj hlast).symm
  constructor
  · intro t ht
    have hlen : s.registry.registrations.length ≤ s'.registry.registrations.length := by
      rw [hnew, List.length_append, List.length_map]
      exact Nat.le_add_right _ _
    exact (hvisited t ht).trans hlen
  · intro first last hfirst hlast hlt i e he
    rw [hend last hlast] at hlt ⊢
    exact (hrecord first hfirst hlt i e he).1
  · intro first last hfirst hlast hlt i e he
    rw [hend last hlast] at hlt
    exact (hrecord first hfirst hlt i e he).2

theorem Ordered.read (h : Ordered clock s) : Ordered clock s.read :=
  ⟨h.thread, h.begun, fun t ht n hn => h.past t ht n (Nat.le_of_succ_le hn), h.sorted⟩

theorem Ordered.pclbTask (h : Ordered clock s) (ms : SysTime) (hclock : Monotone clock)
    (hread : 0 < s.readsAfter ms) (hnext : ∀ t ∈ s.ticks, t.time ≤ clock (s.readsAfter ms - 1)) :
    Ordered clock (s.pclbTask clock ms within) ∧
      ((s.pclbTask clock ms within).registry.registrations ≠ [] →
        (s.pclbTask clock ms within).ticks ≠ []) := by
  by_cases hnone : s.registry.registrations = []
  · rw [pclbTask_none within hnone]
    exact ⟨h, fun hne => absurd hnone hne⟩
  have hticks := pclbTask_ticks clock within ms hnone
  have hne : (s.pclbTask clock ms within).ticks ≠ [] := by simp [hticks]
  have hreads : (s.pclbTask clock ms within).reads = s.readsAfter ms := by
    rw [System.pclbTask, if_neg hnone]
  have hmore : s.reads ≤ s.readsAfter ms := by
    unfold readsAfter
    split <;> omega
  refine ⟨⟨?_, fun _ _ => hne, ?_, ?_⟩, fun _ => hne⟩
  · rw [System.pclbTask, if_neg hnone]
    exact h.thread
  · intro t ht n hn
    rw [hreads] at hn
    rw [hticks, List.mem_append, List.mem_singleton] at ht
    obtain ht | rfl := ht
    · exact h.past t ht n (hmore.trans hn)
    · exact hclock (by omega)
  · rw [hticks]
    refine List.pairwise_append.mpr ⟨h.sorted, List.pairwise_singleton _ _, fun t ht u hu => ?_⟩
    rw [List.mem_singleton.mp hu]
    exact hnext t ht

theorem pclbTask_follows {ms : SysTime} {t : Statics} {linked fresh : List Nat}
    (hrep : PclbRegistry.Represents t s.registry linked fresh)
    (hremoved : s.registry.removed = false)
    (hmade : (s.pclbTask clock ms within).registry.made ≤ int32Max) :
    ∃ visits t' linked' fresh',
      Pclb.pclbTask ms (systemGetTime clock s.reads) (systemGetTime clock (s.reads + 1)) within t =
        .ok (visits, t') ∧
      PclbRegistry.Represents t' (s.pclbTask clock ms within).registry linked' fresh' := by
  have hregistry : (s.pclbTask clock ms within).registry = s.registry.task ms
      (systemGetTime clock s.reads) (systemGetTime clock (s.reads + 1)) within := by
    unfold System.pclbTask
    split
    · rename_i hnone
      rw [Registry.task, if_pos hnone]
    · rfl
  rw [hregistry] at hmade ⊢
  obtain ⟨t', linked', fresh', htask, hrep'⟩ :=
    (PclbRegistry.task_follows hrep hremoved).1 hmade
  exact ⟨_, t', linked', fresh', htask, hrep'⟩

/-- All that the steps preserve as long as they are precise. -/
structure Sound (clock : Nat → Nat) (s : System) : Prop where
  ordered : Ordered clock s
  onTime : s.OnTime
  counted : s.Counted

theorem Ordered.next_zero (h : Ordered clock s) :
    ∀ t ∈ s.ticks, t.time ≤ clock (s.readsAfter 0 - 1) := by
  intro t ht
  refine h.past t ht _ ?_
  rw [readsAfter, if_pos rfl]
  omega

/-- What a pclb_task call does to a sound state, given when it is on time. -/
theorem Sound.pclbTask (h : s.Sound clock) (hclock : Monotone clock) {ms : SysTime} {ok : Prop}
    (hread : 0 < s.readsAfter ms) (hnext : ∀ t ∈ s.ticks, t.time ≤ clock (s.readsAfter ms - 1))
    (hok : (s.pclbTask clock ms within).OnTime ↔ ok) :
    ((s.pclbTask clock ms within).OnTime ↔ ok) ∧
      (ok → (s.pclbTask clock ms within).Sound clock) :=
  ⟨hok, fun hcond => ⟨(h.ordered.pclbTask within ms hclock hread hnext).1, hok.mpr hcond,
    pclbTask_counted within h.ordered h.onTime h.counted hnext (hok.mpr hcond)⟩⟩

theorem Sound.read (h : s.Sound clock) : s.read.Sound clock :=
  ⟨h.ordered.read, h.onTime, h.counted.visited, h.counted.shown, h.counted.early⟩

theorem systemPoll_eq (h : s.hasThread = false) (ms : SysTime) :
    s.systemPoll clock ms within = s.pclbTask clock ms within := if_pos h

theorem Sound.poll (h : s.Sound clock) (hclock : Monotone clock) :
    ((s.systemPoll clock 0 within).OnTime ↔ s.Still clock) ∧
      (s.Still clock → (s.systemPoll clock 0 within).Sound clock) := by
  rw [systemPoll_eq within h.ordered.thread]
  exact h.pclbTask within hclock (Nat.succ_pos _) h.ordered.next_zero
    (onTime_zero within hclock h.ordered h.onTime)

theorem Sound.withDelay (h : s.Sound clock) (d : Option Delay)
    (hbegun : s.registry.registrations ≠ [] → s.ticks ≠ []) :
    ({ s with delay := d } : System).Sound clock :=
  ⟨⟨h.ordered.thread, fun _ => hbegun, h.ordered.past, h.ordered.sorted⟩, h.onTime,
    h.counted.visited, h.counted.shown, h.counted.early⟩

theorem Sound.delayAndPoll (h : s.Sound clock) (hclock : Monotone clock) (ms : SysTime) :
    ((s.systemDelayAndPoll clock ms within).OnTime ↔ s.read.Still clock) ∧
      (s.read.Still clock → (s.systemDelayAndPoll clock ms within).Sound clock) := by
  obtain ⟨honTime, hsound⟩ := h.read.poll within hclock
  have hthread : ¬ s.hasThread = true := by simp [h.ordered.thread]
  have hbegun := (h.read.ordered.pclbTask within 0 hclock (Nat.succ_pos _)
    h.read.ordered.next_zero).2
  rw [systemDelayAndPoll, if_neg hthread]
  refine ⟨honTime, fun hstill => (hsound hstill).withDelay _ ?_⟩
  rw [systemPoll_eq within h.read.ordered.thread]
  exact hbegun

theorem Sound.round (h : s.Sound clock) (hclock : Monotone clock) {d : Delay}
    (hd : s.delay = some d) :
    ((s.delayRound clock within d).OnTime ↔ s.Precise clock (.round within)) ∧
      (s.Precise clock (.round within) → (s.delayRound clock within d).Sound clock) := by
  have hbegun := h.ordered.begun (by rw [hd]; rfl)
  have hprecise : s.Precise clock (.round within) ↔ (s.diffTime clock d < d.ms →
      if s.diffTime clock d = 0 then s.read.Still clock
      else s.Counts (clock s.reads) → s.registry.lastSystemTime = d.start) := by
    simp [Precise, hd]
  rw [hprecise, delayRound]
  by_cases hlt : s.diffTime clock d < d.ms
  · rw [if_pos hlt, forall_prop_of_true hlt]
    by_cases hzero : s.diffTime clock d = 0
    · rw [if_pos hzero, hzero]
      exact h.read.poll within hclock
    · rw [if_neg hzero, systemPoll_eq within h.read.ordered.thread]
      have hreads : s.read.readsAfter (s.diffTime clock d) = s.reads + 1 := if_neg hzero
      refine h.read.pclbTask within hclock ?_ ?_
        (onTime_diff within h.ordered h.onTime hbegun hzero)
      · rw [hreads]
        exact Nat.succ_pos _
      · rw [hreads]
        exact fun t ht => h.ordered.past t ht s.reads (Nat.le_refl _)
  · rw [if_neg hlt, forall_prop_of_false hlt]
    exact ⟨iff_of_true h.onTime trivial, fun _ => h.read.withDelay none hbegun⟩

theorem Sound.step (h : s.Sound clock) (hclock : Monotone clock) (a : Action) :
    ((s.step clock a).OnTime ↔ s.Precise clock a) ∧
      (s.Precise clock a → (s.step clock a).Sound clock) := by
  cases hd : s.delay with
  | none =>
      cases a with
      | poll within =>
          have hp : s.Precise clock (.poll within) ↔ s.Still clock := by simp [Precise, hd]
          rw [hp]
          simp only [System.step, hd]
          exact h.poll within hclock
      | delay ms within =>
          have hp : s.Precise clock (.delay ms within) ↔ s.read.Still clock := by simp [Precise, hd]
          rw [hp]
          simp only [System.step, hd]
          exact h.delayAndPoll within hclock ms
      | round within =>
          have hp : s.Precise clock (.round within) := by simp [Precise, hd]
          simp only [System.step, hd]
          exact ⟨iff_of_true h.onTime hp, fun _ => h⟩
  | some d =>
      cases a with
      | poll within =>
          have hp : s.Precise clock (.poll within) := by simp [Precise, hd]
          simp only [System.step, hd]
          exact ⟨iff_of_true h.onTime hp, fun _ => h⟩
      | delay ms within =>
          have hp : s.Precise clock (.delay ms within) := by simp [Precise, hd]
          simp only [System.step, hd]
          exact ⟨iff_of_true h.onTime hp, fun _ => h⟩
      | round within =>
          simp only [System.step, hd]
          exact h.round within hclock hd

theorem sound_start (clock : Nat → Nat) (registry : Registry) :
    (start registry false).Sound clock where
  ordered := ⟨rfl, nofun, nofun, .nil⟩
  onTime := nofun
  counted := ⟨nofun, nofun, nofun⟩

/-- The counters follow the clock in all states of a run if and only if every poll of it
is precise, and then no callback runs early. -/
theorem on_time_iff (hclock : Monotone clock) (registry : Registry) (acts : List Action) :
    (Guarded (step clock) (Precise clock) (start registry false) acts ↔
      ∀ n, (run (step clock) (start registry false) (acts.take n)).OnTime) ∧
    (Guarded (step clock) (Precise clock) (start registry false) acts →
      ∀ n, (run (step clock) (start registry false) (acts.take n)).NeverEarly) := by
  have hkeep : ∀ (s : System) (a : Action), s.Precise clock a → s.Sound clock → (s.step clock a).Sound clock :=
    fun s a hok h => (h.step hclock a).2 hok
  have hstart := sound_start clock registry
  exact ⟨guarded_iff_of_invariant (fun _ h => h.onTime) hkeep
      (fun s a h honTime => (h.step hclock a).1.mp honTime) hstart,
    fun hg n => (hg.always hkeep hstart n).counted.early⟩

end System

def oneCallback : Registry := ⟨[⟨1, 25, 0, 0, 0⟩], [], 1, false, 0⟩

/-- Two polls, with a clock that moves between them. -/
theorem on_time_iff_two_polls : Monotone (fun n : Nat => n / 2) ∧
    ∀ n, (run (System.step (· / 2)) (System.start oneCallback false)
      ([.poll (fun _ => []), .poll (fun _ => [])].take n)).OnTime := by
  have hclock : Monotone (fun n : Nat => n / 2) := fun _ _ h => Nat.div_le_div_right h
  refine ⟨hclock, (System.on_time_iff hclock oneCallback _).1.mp ⟨fun _ _ => rfl, fun _ _ => rfl, trivial⟩⟩

/-- A delay of 30 ms whose loop sleeps for 10 ms twice: 30 ms are counted after 20 ms, and
last_system_time is ahead of the clock. -/
theorem delay_counts_twice : Monotone (fun n : Nat => 1000 + 10 * (n - 2)) ∧
    ¬ (run (System.step (fun n => 1000 + 10 * (n - 2))) (System.start oneCallback false)
      [.delay 30 (fun _ => []), .round (fun _ => []), .round (fun _ => [])]).OnTime := by
  refine ⟨fun a b h => by dsimp only; omega, fun h => ?_⟩
  have hlast := (h _ _ rfl _ rfl (by decide)).1
  revert hlast
  decide

end ErSdk.SystemPoll
