import ErSdk.CriticalSections
import ErSdk.Ownership
import ErSdk.Preemption

namespace ErSdk.ExosMutex

open CriticalSections Conformance Ownership Preemption Runs

variable {H δ ι : Type}

/-- The bytes of the mutexes and the data that each of them guards, with a record of who has
taken a mutex, worked on its data and given it back. -/
structure Store (ι δ : Type) where
  mutexValue : Nat → UInt8
  data : Nat → δ
  uses : Nat → List (Use ι δ)

namespace Store

def setValue (m : Nat) (value : UInt8) (d : Store ι δ) : Store ι δ :=
  { d with mutexValue := Function.update d.mutexValue m value }

def setData (m : Nat) (f : δ → δ) (d : Store ι δ) : Store ι δ :=
  { d with data := Function.update d.data m (f (d.data m)) }

def record (m : Nat) (u : Use ι δ) (d : Store ι δ) : Store ι δ :=
  { d with uses := Function.update d.uses m (d.uses m ++ [u]) }

end Store

/-- A function of mutex.c that runs inside a critical section, and its mutex. -/
inductive Body
  | lock (m : Nat)
  | tryLock (m : Nat)
  | unlock (m : Nat)
  deriving DecidableEq, Repr

inductive Entering
  | test
  | disable
  | mark
  deriving DecidableEq, Repr

inductive Leaving
  | test
  | unmark
  | restore
  deriving DecidableEq, Repr

/-- The place of a thread in the code, statement by statement. Behind `entering` comes the body of
a function, or nothing where other code enters a section; behind `leaving` the next round of
system_mutex_lock, or nothing. -/
inductive Place
  | idle
  | entering (at_ : Entering) (body : Option Body)
  | testing (body : Body)
  | storing (body : Body)
  | leaving (at_ : Leaving) (again : Option Nat)
  deriving DecidableEq, Repr

/-- A thread, and the mutexes that it has taken and not given back. -/
structure Thread (ι : Type) where
  id : ι
  place : Place
  holds : Nat → Bool

namespace Thread

def goTo (place : Place) (t : Thread ι) : Thread ι := { t with place }

def hold (m : Nat) (b : Bool) (t : Thread ι) : Thread ι :=
  { t with holds := Function.update t.holds m b }

end Thread

inductive Call (δ : Type)
  | function (body : Body)
  | enterSection
  | leaveSection
  | work (m : Nat) (f : δ → δ)

abbrev Shared (H ι δ : Type) := System H (Store ι δ)

def mapStore (f : Store ι δ → Store ι δ) (s : Shared H ι δ) : Shared H ι δ := { s with data := f s.data }

section

variable (p : Platform H)

def begin : Call δ → Shared H ι δ → Thread ι → Shared H ι δ × Thread ι
  | .function body, s, t => (s, t.goTo (.entering .test (some body)))
  | .enterSection, s, t => (s, t.goTo (.entering .test none))
  | .leaveSection, s, t => (s, t.goTo (.leaving .test none))
  | .work m f, s, t => (mapStore (fun d => (d.setData m f).record m (.worked t.id f)) s, t)

/-- system_enter_critical_section. -/
def enter : Entering → Option Body → Shared H ι δ → Shared H ι δ × Place
  | .test, body, s => (s, .entering (if s.isCriticalSection = false then .disable else .mark) body)
  | .disable, body, s =>
      let r := p.platformSetGlobalInterrupts false s.hw
      ({ s with csIntStatus := r.1, hw := r.2 }, .entering .mark body)
  | .mark, body, s =>
      ({ s with isCriticalSection := true },
        match body with
        | none => .idle
        -- system_mutex_unlock has no test of the value
        | some (.unlock m) => .storing (.unlock m)
        | some body => .testing body)

/-- The place behind a leave: system_mutex_lock begins its next round. -/
def afterLeave : Option Nat → Place
  | none => .idle
  | some m => .entering .test (some (.lock m))

/-- system_leave_critical_section. -/
def leave : Leaving → Option Nat → Shared H ι δ → Shared H ι δ × Place
  | .test, again, s => (s, if s.isCriticalSection = true then .leaving .unmark again else afterLeave again)
  | .unmark, again, s => ({ s with isCriticalSection := false }, .leaving .restore again)
  | .restore, again, s =>
      ({ s with hw := (p.platformSetGlobalInterrupts s.csIntStatus s.hw).2 }, afterLeave again)

/-- The test of the value in system_mutex_lock and in system_mutex_trylock. -/
def testValue (d : Store ι δ) : Body → Place
  | .lock m => if d.mutexValue m ≠ 0 then .storing (.lock m) else .leaving .test (some m)
  | .tryLock m => if d.mutexValue m ≠ 0 then .storing (.tryLock m) else .leaving .test none
  | .unlock m => .storing (.unlock m)

def storeValue : Body → Shared H ι δ → Thread ι → Shared H ι δ × Thread ι
  | .lock m, s, t | .tryLock m, s, t =>
      (mapStore (fun d => (d.setValue m 0).record m (.taken t.id)) s, t.hold m true)
  | .unlock m, s, t =>
      (mapStore (fun d => (d.setValue m 1).record m (.given t.id)) s, t.hold m false)

/-- The next step of a thread, and what it does if it is not in any function. -/
def exec (call : Call δ) (s : Shared H ι δ) (t : Thread ι) : Shared H ι δ × Thread ι :=
  match t.place with
  | .idle => begin call s t
  | .entering stage body =>
      let r := enter p stage body s
      (r.1, t.goTo r.2)
  | .testing body => (s, t.goTo (testValue s.data body))
  | .storing body =>
      let r := storeValue body s t
      (r.1, r.2.goTo (.leaving .test none))
  | .leaving stage again =>
      let r := leave p stage again s
      (r.1, t.goTo r.2)

def masked (s : Shared H ι δ) : Bool := !p.interrupts s.hw

/-- The statics of system.c agree with the interrupts, which were `before` outside of sections. -/
structure Settled (before : Bool) (s : Shared H ι δ) : Prop where
  interrupts : p.interrupts s.hw = if s.isCriticalSection then false else before
  saved : s.isCriticalSection = true → s.csIntStatus = before

/-- What the statics are when a thread is at a place of the code. -/
def Reached (before : Bool) (s : Shared H ι δ) : Place → Prop
  | .idle | .entering .test _ | .leaving .test _ => Settled p before s
  | .entering .disable _ => Settled p before s ∧ s.isCriticalSection = false
  | .entering .mark _ => p.interrupts s.hw = false ∧ s.csIntStatus = before
  | .testing _ | .leaving .unmark _ => Settled p before s ∧ s.isCriticalSection = true
  | .storing body =>
      (Settled p before s ∧ s.isCriticalSection = true) ∧
        ∀ m, body = .lock m ∨ body = .tryLock m → s.data.mutexValue m ≠ 0
  | .leaving .restore _ =>
      (p.interrupts s.hw = false ∧ s.csIntStatus = before) ∧ s.isCriticalSection = false

end

namespace Place

/-- The places at which an interrupt can come. -/
def Open : Place → Prop
  | .idle | .entering .test _ | .entering .disable _ | .leaving .test _ => True
  | _ => False

def body : Place → Option Body
  | .entering _ body => body
  | .testing body | .storing body => some body
  | _ => none

end Place

def Owns (t : Thread ι) : Prop := ∀ m, t.place.body = some (.unlock m) → t.holds m = true

/-- A mutex is given back, and its data changed, by a thread that has it. -/
def Disciplined (_ : Shared H ι δ) (t : Thread ι) : Call δ → Prop
  | .function (.unlock m) | .work m _ => t.place = .idle → t.holds m = true
  | _ => True

instance (s : Shared H ι δ) (t : Thread ι) (call : Call δ) : Decidable (Disciplined s t call) :=
  match call with
  | .function (.unlock m) | .work m _ => inferInstanceAs (Decidable (t.place = .idle → t.holds m = true))
  | .function (.lock _) | .function (.tryLock _) | .enterSection | .leaveSection => .isTrue trivial

section

variable {p : Platform H} {before : Bool}

theorem Settled.unmasked {s : Shared H ι δ} (h : Settled p before s) (hm : masked p s = false) :
    s.isCriticalSection = false := by
  by_contra hflag
  have hinterrupts := h.interrupts
  rw [if_pos (by simpa using hflag)] at hinterrupts
  unfold masked at hm
  rw [hinterrupts] at hm
  cases hm

theorem enter_reached {stage : Entering} {body : Option Body} {s : Shared H ι δ}
    (h : Reached p before s (.entering stage body)) :
    Reached p before (enter p stage body s).1 (enter p stage body s).2 := by
  cases stage with
  | test =>
      unfold enter
      dsimp only
      split
      · exact ⟨h, ‹_›⟩
      · rename_i hflag
        have htrue : s.isCriticalSection = true := by simpa using hflag
        exact ⟨by rw [h.interrupts, if_pos htrue], h.saved htrue⟩
  | disable =>
      obtain ⟨hsettled, hflag⟩ := h
      have hinterrupts := hsettled.interrupts
      rw [hflag] at hinterrupts
      exact ⟨p.required false s.hw, (p.previous false s.hw).trans hinterrupts⟩
  | mark =>
      have hsettled : Settled p before { s with isCriticalSection := true } := ⟨h.1, fun _ => h.2⟩
      unfold enter
      dsimp only
      split
      · exact hsettled
      · exact ⟨⟨hsettled, rfl⟩, fun m hm => by simp at hm⟩
      · exact ⟨hsettled, rfl⟩

theorem afterLeave_reached {s : Shared H ι δ} (h : Settled p before s) (again : Option Nat) :
    Reached p before s (afterLeave again) := by
  cases again with
  | none => exact h
  | some m => exact h

theorem leave_reached {stage : Leaving} {again : Option Nat} {s : Shared H ι δ}
    (h : Reached p before s (.leaving stage again)) :
    Reached p before (leave p stage again s).1 (leave p stage again s).2 := by
  cases stage with
  | test =>
      unfold leave
      dsimp only
      split
      · exact ⟨h, ‹_›⟩
      · exact afterLeave_reached h again
  | unmark =>
      obtain ⟨hsettled, hflag⟩ := h
      have hinterrupts := hsettled.interrupts
      rw [if_pos hflag] at hinterrupts
      exact ⟨⟨hinterrupts, hsettled.saved hflag⟩, rfl⟩
  | restore =>
      obtain ⟨⟨-, hsaved⟩, hflag⟩ := h
      refine afterLeave_reached ⟨?_, fun htrue => ?_⟩ again
      · show p.interrupts (p.platformSetGlobalInterrupts s.csIntStatus s.hw).2 =
          if s.isCriticalSection then false else before
        rw [p.required, hflag, hsaved]
        rfl
      · exact absurd (hflag.symm.trans htrue) (by decide)

theorem testValue_reached {body : Body} {s : Shared H ι δ} (h : Reached p before s (.testing body)) :
    Reached p before s (testValue s.data body) := by
  cases body with
  | lock m =>
      unfold testValue
      dsimp only
      split
      · exact ⟨h, fun k hk => by simp at hk; exact hk ▸ ‹_›⟩
      · exact h.1
  | tryLock m =>
      unfold testValue
      dsimp only
      split
      · exact ⟨h, fun k hk => by simp at hk; exact hk ▸ ‹_›⟩
      · exact h.1
  | unlock m => exact ⟨h, fun k hk => by simp at hk⟩

theorem exec_reached (call : Call δ) {s : Shared H ι δ} {t : Thread ι}
    (h : Reached p before s t.place) :
    Reached p before (exec p call s t).1 (exec p call s t).2.place := by
  obtain ⟨id, place, holds⟩ := t
  cases place with
  | idle =>
      cases call with
      | function body => exact h
      | enterSection | leaveSection => exact h
      | work m f => exact ⟨h.interrupts, h.saved⟩
  | entering stage body => exact enter_reached h
  | testing body => exact testValue_reached h
  | storing body =>
      obtain ⟨⟨hsettled, -⟩, -⟩ := h
      cases body with
      | lock m | tryLock m | unlock m => exact ⟨hsettled.interrupts, hsettled.saved⟩
  | leaving stage again => exact leave_reached h

theorem enter_body (stage : Entering) (body : Option Body) (s : Shared H ι δ) (m : Nat)
    (h : (enter p stage body s).2.body = some (.unlock m)) : body = some (.unlock m) := by
  cases stage with
  | test | disable => exact h
  | mark =>
      unfold enter at h
      dsimp only at h
      split at h
      · cases h
      · exact h
      · exact h

theorem leave_body (stage : Leaving) (again : Option Nat) (s : Shared H ι δ) (m : Nat) :
    (leave p stage again s).2.body ≠ some (.unlock m) := by
  cases stage with
  | test => cases again <;> (unfold leave afterLeave; dsimp only; split <;> simp [Place.body])
  | unmark => simp [leave, Place.body]
  | restore => cases again <;> simp [leave, afterLeave, Place.body]

theorem exec_owns {call : Call δ} {s : Shared H ι δ} {t : Thread ι} (hok : Disciplined s t call)
    (h : Owns t) : Owns (exec p call s t).2 := by
  obtain ⟨id, place, holds⟩ := t
  cases place with
  | idle =>
      cases call with
      | function body =>
          intro m hm
          obtain rfl : body = .unlock m := Option.some.inj hm
          exact hok rfl
      | enterSection | leaveSection | work => exact nofun
  | entering stage body => exact fun m hm => h m (enter_body stage body s m hm)
  | testing body =>
      intro m hm
      cases body with
      | lock k | tryLock k =>
          have hcases : (testValue s.data (.lock k)).body ≠ some (.unlock m) ∧
              (testValue s.data (.tryLock k)).body ≠ some (.unlock m) := by
            constructor <;> (unfold testValue; dsimp only; split <;> simp [Place.body])
          first | exact absurd hm hcases.1 | exact absurd hm hcases.2
      | unlock k => exact h m hm
  | storing body => exact fun m hm => by cases hm
  | leaving stage again => exact fun m hm => absurd hm (leave_body stage again s m)

theorem outline : Outline (masked p) (exec (ι := ι) (δ := δ) p) Disciplined
    (fun s t => Reached p before s t.place ∧ Owns t) (fun t => t.place.Open ∧ Owns t)
    (fun s => Settled p before s ∧ s.isCriticalSection = false) where
  exec hok h := ⟨exec_reached _ h.1, exec_owns hok h.2⟩
  pause := by
    rintro s ⟨id, place, holds⟩ hm ⟨hreached, howns⟩
    have hon : p.interrupts s.hw = true := by simpa [masked] using hm
    have hopen : place.Open ∧ Settled p before s := by
      cases place with
      | idle => exact ⟨trivial, hreached⟩
      | entering stage body =>
          cases stage with
          | test => exact ⟨trivial, hreached⟩
          | disable => exact ⟨trivial, hreached.1⟩
          | mark => exact absurd (hreached.1.symm.trans hon) (by decide)
      | testing body =>
          exact absurd ((hreached.1.unmasked hm).symm.trans hreached.2) (by decide)
      | storing body =>
          exact absurd ((hreached.1.1.unmasked hm).symm.trans hreached.1.2) (by decide)
      | leaving stage again =>
          cases stage with
          | test => exact ⟨trivial, hreached⟩
          | unmark => exact absurd ((hreached.1.unmasked hm).symm.trans hreached.2) (by decide)
          | restore => exact absurd (hreached.1.1.symm.trans hon) (by decide)
    exact ⟨⟨hopen.2, hopen.2.unmasked hm⟩, hopen.1, howns⟩
  resume := by
    rintro s ⟨id, place, holds⟩ - ⟨hsettled, hflag⟩ ⟨hopen, howns⟩
    refine ⟨?_, howns⟩
    cases place with
    | idle => exact hsettled
    | entering stage body =>
        cases stage with
        | test => exact hsettled
        | disable => exact ⟨hsettled, hflag⟩
        | mark => exact hopen.elim
    | testing body | storing body => exact hopen.elim
    | leaving stage again =>
        cases stage with
        | test => exact hsettled
        | unmark | restore => exact hopen.elim

end

section

variable [DecidableEq ι]

abbrev Threads (H ι δ : Type) := Processor ι (Shared H ι δ) (Thread ι)

/-- The record of a mutex, with its owner, is what the threads, the byte and the data say. -/
structure Recorded (initial : δ) (s : Threads H ι δ) (m : Nat) (owner : Option ι) : Prop where
  uses : after next none (s.shared.data.uses m) = some owner
  holds : ∀ i, (s.threads i).holds m = true ↔ owner = some i
  value : s.shared.data.mutexValue m ≠ 0 ↔ owner = none
  data : s.shared.data.data m = applied initial (s.shared.data.uses m)

structure Locked (initial : Nat → δ) (s : Threads H ι δ) : Prop where
  ids : ∀ i, (s.threads i).id = i
  recorded : ∀ m, ∃ owner, Recorded (initial m) s m owner

/-- The fields that the assertions about mutexes are about. -/
def Same (s s' : Threads H ι δ) : Prop :=
  s'.shared.data = s.shared.data ∧ ∀ i, (s'.threads i).id = (s.threads i).id ∧
    (s'.threads i).holds = (s.threads i).holds

theorem Locked.same {initial : Nat → δ} {s s' : Threads H ι δ} (h : Locked initial s)
    (hs : Same s s') : Locked initial s' := by
  refine ⟨fun i => (hs.2 i).1.trans (h.ids i), fun m => ?_⟩
  obtain ⟨owner, hr⟩ := h.recorded m
  refine ⟨owner, ?_, fun i => ?_, ?_, ?_⟩
  · rw [hs.1]
    exact hr.uses
  · rw [(hs.2 i).2]
    exact hr.holds i
  · rw [hs.1]
    exact hr.value
  · rw [hs.1]
    exact hr.data

variable (p : Platform H)

theorem thread_update {α : Type} {s : Threads H ι δ} {t : Thread ι} (f : Thread ι → α)
    (h : f t = f (s.threads s.running)) (i : ι) :
    f (Function.update s.threads s.running t i) = f (s.threads i) := by
  by_cases hi : i = s.running
  · rw [hi, Function.update_self, h]
  · rw [Function.update_of_ne hi]

theorem same_of_goTo {s : Threads H ι δ} {shared : Shared H ι δ} {place : Place}
    (hdata : shared.data = s.shared.data) :
    Same s { s with
      shared
      threads := Function.update s.threads s.running ((s.threads s.running).goTo place) } := by
  exact ⟨hdata, fun i => ⟨thread_update Thread.id (by rfl) i, thread_update Thread.holds (by rfl) i⟩⟩

omit [DecidableEq ι] in
theorem enter_data (stage : Entering) (body : Option Body) (s : Shared H ι δ) :
    (enter p stage body s).1.data = s.data := by
  cases stage <;> rfl

omit [DecidableEq ι] in
theorem leave_data (stage : Leaving) (again : Option Nat) (s : Shared H ι δ) :
    (leave p stage again s).1.data = s.data := by
  cases stage <;> rfl

theorem Recorded.use {initial : δ} {s s' : Threads H ι δ} {m : Nat} {owner owner' : Option ι}
    {u : Use ι δ} (h : Recorded initial s m owner) (hnext : next owner u = some owner')
    (huses : s'.shared.data.uses m = s.shared.data.uses m ++ [u])
    (hdata : s'.shared.data.data m = applied (s.shared.data.data m) [u])
    (hholds : ∀ i, (s'.threads i).holds m = true ↔ owner' = some i)
    (hvalue : s'.shared.data.mutexValue m ≠ 0 ↔ owner' = none) : Recorded initial s' m owner' where
  uses := by
    rw [huses, after_concat h.uses]
    exact hnext
  holds := hholds
  value := hvalue
  data := by rw [huses, applied_append, ← h.data, hdata]

theorem Locked.change {initial : Nat → δ} {s s' : Threads H ι δ} (h : Locked initial s) {m : Nat}
    (hids : ∀ i, (s'.threads i).id = (s.threads i).id)
    (hothers : ∀ k, k ≠ m → s'.shared.data.uses k = s.shared.data.uses k ∧
      s'.shared.data.data k = s.shared.data.data k ∧
      s'.shared.data.mutexValue k = s.shared.data.mutexValue k ∧
      ∀ i, (s'.threads i).holds k = (s.threads i).holds k)
    (hm : ∃ owner, Recorded (initial m) s' m owner) : Locked initial s' := by
  refine ⟨fun i => (hids i).trans (h.ids i), fun k => ?_⟩
  by_cases hk : k = m
  · rw [hk]
    exact hm
  · obtain ⟨owner, hr⟩ := h.recorded k
    obtain ⟨huses, hdata, hvalue, hholds⟩ := hothers k hk
    exact ⟨owner, huses ▸ hr.uses, fun i => hholds i ▸ hr.holds i, hvalue ▸ hr.value,
      hdata ▸ huses ▸ hr.data⟩

section

variable {p} {before : Bool} {initial : Nat → δ} {s : Threads H ι δ} {m : Nat}

theorem locked_work (h : Locked initial s) (f : δ → δ)
    (hhold : (s.threads s.running).holds m = true) :
    Locked initial { s with
      shared :=
        mapStore (fun d => (d.setData m f).record m (.worked (s.threads s.running).id f)) s.shared } := by
  obtain ⟨owner, hr⟩ := h.recorded m
  have howner : owner = some s.running := (hr.holds s.running).mp hhold
  refine h.change (m := m) (fun i => rfl) (fun k hk => ?_) ⟨owner, hr.use
    (u := .worked (s.threads s.running).id f) ?_ ?_ ?_ hr.holds hr.value⟩
  · simp [mapStore, Store.setData, Store.record, hk]
  · rw [howner, h.ids]
    exact if_pos rfl
  · simp [mapStore, Store.setData, Store.record]
  · simp [mapStore, Store.setData, Store.record, applied]

theorem locked_take (h : Locked initial s) (hvalue : s.shared.data.mutexValue m ≠ 0) :
    Locked initial { s with
      shared := mapStore (fun d => (d.setValue m 0).record m (.taken (s.threads s.running).id)) s.shared
      threads := Function.update s.threads s.running
        (((s.threads s.running).hold m true).goTo (.leaving .test none)) } := by
  obtain ⟨owner, hr⟩ := h.recorded m
  have howner : owner = none := hr.value.mp hvalue
  refine h.change (m := m) (fun i => ?_) (fun k hk => ⟨?_, rfl, ?_, fun i => ?_⟩)
    ⟨some s.running, hr.use (u := .taken (s.threads s.running).id) ?_ ?_ rfl (fun i => ?_) ?_⟩
  · exact thread_update Thread.id (by rfl) i
  · simp [mapStore, Store.setValue, Store.record, hk]
  · simp [mapStore, Store.setValue, Store.record, hk]
  · refine thread_update (fun t => t.holds k) ?_ i
    simp [Thread.hold, Thread.goTo, hk]
  · rw [howner, h.ids]
    rfl
  · simp [mapStore, Store.setValue, Store.record]
  · by_cases hi : i = s.running
    · subst hi
      simp [Thread.hold, Thread.goTo]
    · have hother := hr.holds i
      rw [howner] at hother
      simpa [hi, Ne.symm hi] using hother
  · simp [mapStore, Store.setValue, Store.record]

theorem locked_give (h : Locked initial s) (hhold : (s.threads s.running).holds m = true) :
    Locked initial { s with
      shared := mapStore (fun d => (d.setValue m 1).record m (.given (s.threads s.running).id)) s.shared
      threads := Function.update s.threads s.running
        (((s.threads s.running).hold m false).goTo (.leaving .test none)) } := by
  obtain ⟨owner, hr⟩ := h.recorded m
  have howner : owner = some s.running := (hr.holds s.running).mp hhold
  refine h.change (m := m) (fun i => ?_) (fun k hk => ⟨?_, rfl, ?_, fun i => ?_⟩)
    ⟨none, hr.use (u := .given (s.threads s.running).id) ?_ ?_ rfl (fun i => ?_) ?_⟩
  · exact thread_update Thread.id (by rfl) i
  · simp [mapStore, Store.setValue, Store.record, hk]
  · simp [mapStore, Store.setValue, Store.record, hk]
  · refine thread_update (fun t => t.holds k) ?_ i
    simp [Thread.hold, Thread.goTo, hk]
  · rw [howner, h.ids]
    exact if_pos rfl
  · simp [mapStore, Store.setValue, Store.record]
  · by_cases hi : i = s.running
    · subst hi
      simp [Thread.hold, Thread.goTo]
    · have hother := hr.holds i
      rw [howner] at hother
      simpa [hi, Ne.symm hi] using hother
  · simp [mapStore, Store.setValue, Store.record]

theorem locked_exec {call : Call δ} (h : Locked initial s)
    (hok : Disciplined s.shared (s.threads s.running) call)
    (hreached : Reached p before s.shared (s.threads s.running).place)
    (howns : Owns (s.threads s.running)) :
    Locked initial (Preemption.step (masked p) (exec p) s (.run call)) := by
  unfold Preemption.step
  dsimp only
  cases hplace : (s.threads s.running).place with
  | idle =>
      unfold exec
      rw [hplace]
      cases call with
      | function body => exact h.same (same_of_goTo rfl)
      | enterSection | leaveSection => exact h.same (same_of_goTo rfl)
      | work m f =>
          have hwork := locked_work h f (hok hplace)
          dsimp only [begin]
          rw [Function.update_eq_self]
          exact hwork
  | entering stage body =>
      unfold exec
      rw [hplace]
      exact h.same (same_of_goTo (enter_data p stage body s.shared))
  | testing body =>
      unfold exec
      rw [hplace]
      exact h.same (same_of_goTo rfl)
  | storing body =>
      unfold exec
      rw [hplace]
      rw [hplace] at hreached
      cases body with
      | lock m => exact locked_take h (hreached.2 m (.inl rfl))
      | tryLock m => exact locked_take h (hreached.2 m (.inr rfl))
      | unlock m => exact locked_give h (howns m (by rw [hplace]; rfl))
  | leaving stage again =>
      unfold exec
      rw [hplace]
      exact h.same (same_of_goTo (leave_data p stage again s.shared))

end

/-- Threads that are not in any function, no section open, and every mutex new and unlocked. -/
def start (hw : H) (csIntStatus : Bool) (data : Nat → δ) (first : ι) : Threads H ι δ where
  shared := ⟨hw, csIntStatus, false, ⟨fun _ => 1, data, fun _ => []⟩⟩
  threads i := ⟨i, .idle, fun _ => false⟩
  running := first

structure Guards (before : Bool) (initial : Nat → δ) (s : Threads H ι δ) : Prop where
  sound : Sound (fun s t => Reached p before s t.place ∧ Owns t) (fun t => t.place.Open ∧ Owns t) s
  locked : Locked initial s

theorem guards_start (hw : H) (csIntStatus : Bool) (data : Nat → δ) (first : ι) :
    Guards p (p.interrupts hw) data (start hw csIntStatus data first) where
  sound := ⟨⟨⟨rfl, nofun⟩, nofun⟩, fun _ _ => ⟨trivial, nofun⟩⟩
  locked := ⟨fun _ => rfl, fun _ => ⟨none, rfl, fun _ => ⟨nofun, nofun⟩, ⟨fun _ => rfl,
    fun _ => show (1 : UInt8) ≠ 0 by decide⟩, rfl⟩⟩

theorem guards_step {before : Bool} {initial : Nat → δ} (s : Threads H ι δ) (a : Act ι (Call δ))
    (ha : Allowed Disciplined s a) (h : Guards p before initial s) :
    Guards p before initial (Preemption.step (masked p) (exec p) s a) := by
  refine ⟨outline.step ha h.sound, ?_⟩
  cases a with
  | run call => exact locked_exec h.locked ha h.sound.running.1 h.sound.running.2
  | switch i =>
      have hsame : Same s (Preemption.step (masked p) (exec p) s (.switch i)) := by
        unfold Preemption.step
        dsimp only
        split
        · exact ⟨rfl, fun _ => ⟨rfl, rfl⟩⟩
        · exact ⟨rfl, fun _ => ⟨rfl, rfl⟩⟩
      exact h.locked.same hsame

variable (hw : H) (csIntStatus : Bool) (data : Nat → δ) (first : ι) (acts : List (Act ι (Call δ)))

/-- At most one thread has the mutex, exactly if its byte is zero. The data is what whole blocks
leave, one behind the other, and the open block of the thread that has the mutex. -/
structure Exclusive (initial : δ) (s : Threads H ι δ) (m : Nat) : Prop where
  one : ∀ i j, (s.threads i).holds m = true → (s.threads j).holds m = true → i = j
  value : s.shared.data.mutexValue m = 0 ↔ ∃ i, (s.threads i).holds m = true
  serial : ∃ (blocks : List (Block ι δ)) (rest : List (Use ι δ)),
    s.shared.data.uses m = blocks.flatMap Block.uses ++ rest ∧
    s.shared.data.data m = applied (blocks.foldl (fun d b => b.effect d) initial) rest ∧
    (rest = [] ∨ ∃ b : Block ι δ, rest = b.opened ∧ (s.threads b.owner).holds m = true)

/-- The next steps of a thread that wants the mutex 0. -/
def locking (n : Nat) : List (Act Bool (Call Nat)) := List.replicate n (.run (.function (.lock 0)))

/-- Two threads want the mutex. The first one is interrupted between its test of the flag and the
disabling of interrupts, and waits for the second one after that. -/
def contention : List (Act Bool (Call Nat)) :=
  locking 2 ++ [.switch true] ++ locking 9 ++ [.run (.work 0 (· + 1)), .switch false] ++ locking 6 ++
    [.switch true, .run (.function (.unlock 0))] ++ locking 7 ++ [.switch false] ++ locking 8 ++
    [.run (.work 0 (· + 5))]

theorem Recorded.exclusive {initial : δ} {s : Threads H ι δ} {m : Nat} {owner : Option ι}
    (h : Recorded initial s m owner) : Exclusive initial s m := by
  refine ⟨fun i j hi hj => ?_, ?_, ?_⟩
  · exact Option.some.inj (((h.holds i).mp hi).symm.trans ((h.holds j).mp hj))
  · rw [← not_iff_not, ← ne_eq, h.value]
    constructor
    · rintro rfl ⟨i, hi⟩
      cases (h.holds i).mp hi
    · intro hnone
      by_contra howner
      obtain ⟨i, hi⟩ := Option.ne_none_iff_exists'.mp howner
      exact hnone ⟨i, (h.holds i).mpr hi⟩
  · obtain ⟨blocks, rest, huses, hcurrent⟩ := serial h.uses
    refine ⟨blocks, rest, huses, ?_, ?_⟩
    · rw [h.data, huses, applied_append, applied_blocks]
    · cases owner with
      | none => exact .inl hcurrent
      | some i =>
          obtain ⟨works, rfl⟩ := hcurrent
          exact .inr ⟨⟨i, works⟩, rfl, (h.holds i).mpr rfl⟩

theorem guards_run (h : Guarded (Preemption.step (masked p) (exec p)) (Allowed Disciplined)
      (start hw csIntStatus data first) acts) :
    Guards p (p.interrupts hw) data (run (Preemption.step (masked p) (exec p))
      (start hw csIntStatus data first) acts) :=
  h.invariant (guards_step p) (guards_start p hw csIntStatus data first)

/-- The spin lock of the port excludes threads from each other, in all interleavings that
interrupts can bring about, and whatever sections other code enters and leaves. -/
theorem mutexes_exclude (h : Guarded (Preemption.step (masked p) (exec p)) (Allowed Disciplined)
      (start hw csIntStatus data first) acts) (m : Nat) :
    Exclusive (data m) (run (Preemption.step (masked p) (exec p))
      (start hw csIntStatus data first) acts) m := by
  obtain ⟨owner, hr⟩ := (guards_run p hw csIntStatus data first acts h).locked.recorded m
  exact hr.exclusive

theorem mutexes_exclude_contention :
    Exclusive 0 (run (Preemption.step (masked flag) (exec flag))
      (start true false (fun _ => 0) false) contention) 0 :=
  mutexes_exclude flag true false (fun _ => 0) false contention (by decide +kernel) 0

end

def Place.InLock (m : Nat) : Place → Prop
  | .entering _ body => body = some (.lock m)
  | .testing body | .storing body => body = .lock m
  | .leaving _ again => again = some m
  | .idle => False

instance (m : Nat) (place : Place) : Decidable (place.InLock m) :=
  match place with
  | .entering _ body => inferInstanceAs (Decidable (body = some (.lock m)))
  | .testing body | .storing body => inferInstanceAs (Decidable (body = .lock m))
  | .leaving _ again => inferInstanceAs (Decidable (again = some m))
  | .idle => .isFalse id

/-- A thread that is not interrupted gets there in at most so many steps. -/
def Within (p : Platform H) (call : Call δ) (n : Nat) (x : Shared H ι δ × Thread ι)
    (goal : Shared H ι δ × Thread ι → Prop) : Prop :=
  ∃ k, k ≤ n ∧ goal (solo (exec p) call k x)

section

variable {p : Platform H} {before : Bool} {call : Call δ} {s : Shared H ι δ} {t : Thread ι}
  {goal : Shared H ι δ × Thread ι → Prop} {n : Nat} {m : Nat}

theorem Within.here {x : Shared H ι δ × Thread ι} (h : goal x) : Within p call n x goal :=
  ⟨0, Nat.zero_le n, h⟩

theorem Within.step {x : Shared H ι δ × Thread ι} (h : Within p call n (exec p call x.1 x.2) goal) :
    Within p call (n + 1) x goal := by
  obtain ⟨k, hk, hgoal⟩ := h
  exact ⟨k + 1, Nat.succ_le_succ hk, hgoal⟩

theorem Within.mono {n' : Nat} {x : Shared H ι δ × Thread ι} (h : Within p call n x goal)
    (hn : n ≤ n') : Within p call n' x goal := by
  obtain ⟨k, hk, hgoal⟩ := h
  exact ⟨k, hk.trans hn, hgoal⟩

theorem enters_section (ht : t.place = .entering .test none) :
    Within p call 3 (s, t) (· = (systemEnterCriticalSection p s, t.goTo .idle)) := by
  obtain ⟨id, place, holds⟩ := t
  obtain rfl : place = .entering .test none := ht
  by_cases hflag : s.isCriticalSection = false
  · exact ⟨3, le_rfl, by
      simp [solo, exec, enter, systemEnterCriticalSection, hflag, Thread.goTo]⟩
  · exact ⟨2, by decide, by
      simp [solo, exec, enter, systemEnterCriticalSection, hflag, Thread.goTo]⟩

theorem leaves_section (ht : t.place = .leaving .test none) :
    Within p call 3 (s, t) (· = (systemLeaveCriticalSection p s, t.goTo .idle)) := by
  obtain ⟨id, place, holds⟩ := t
  obtain rfl : place = .leaving .test none := ht
  by_cases hflag : s.isCriticalSection = true
  · exact ⟨3, le_rfl, by
      simp [solo, exec, leave, afterLeave, systemLeaveCriticalSection, hflag, Thread.goTo]⟩
  · exact ⟨1, by decide, by
      simp [solo, exec, leave, afterLeave, systemLeaveCriticalSection, hflag, Thread.goTo]⟩

theorem leaves {stage : Leaving} {again : Option Nat} (ht : t.place = .leaving stage again)
    (h : Reached p before s t.place)
    (hgoal : ∀ s' : Shared H ι δ, Settled p before s' → s'.isCriticalSection = false →
      s'.data = s.data → Within p call n (s', t.goTo (afterLeave again)) goal) :
    Within p call (n + 3) (s, t) goal := by
  obtain ⟨id, place, holds⟩ := t
  obtain rfl : place = .leaving stage again := ht
  have hrestore {s : Shared H ι δ} (h : Reached p before s (.leaving .restore again))
      (hgoal : ∀ s' : Shared H ι δ, Settled p before s' → s'.isCriticalSection = false →
        s'.data = s.data → Within p call n (s', Thread.goTo (afterLeave again)
          ⟨id, .leaving .restore again, holds⟩) goal) :
      Within p call (n + 1) (s, ⟨id, .leaving .restore again, holds⟩) goal := by
    obtain ⟨⟨-, hsaved⟩, hflag⟩ := h
    refine Within.step (hgoal _ ⟨?_, ?_⟩ hflag rfl)
    · show p.interrupts (p.platformSetGlobalInterrupts s.csIntStatus s.hw).2 =
        if s.isCriticalSection then false else before
      rw [p.required, hflag, hsaved]
      rfl
    · exact fun htrue => absurd (hflag.symm.trans htrue) (by decide)
  have hunmark {s : Shared H ι δ} (h : Reached p before s (.leaving .unmark again))
      (hgoal : ∀ s' : Shared H ι δ, Settled p before s' → s'.isCriticalSection = false →
        s'.data = s.data → Within p call n (s', Thread.goTo (afterLeave again)
          ⟨id, .leaving .restore again, holds⟩) goal) :
      Within p call (n + 2) (s, ⟨id, .leaving .unmark again, holds⟩) goal :=
    Within.step (hrestore (leave_reached h) hgoal)
  cases stage with
  | test =>
      by_cases hflag : s.isCriticalSection = true
      · refine Within.step ?_
        have hexec : exec p call s ⟨id, .leaving .test again, holds⟩ =
            (s, ⟨id, .leaving .unmark again, holds⟩) := by
          simp [exec, leave, hflag, Thread.goTo]
        rw [hexec]
        exact hunmark ⟨h, hflag⟩ hgoal
      · have hexec : exec p call s ⟨id, .leaving .test again, holds⟩ =
            (s, Thread.goTo (afterLeave again) ⟨id, .leaving .test again, holds⟩) := by
          simp [exec, leave, hflag]
        refine Within.mono (Within.step ?_) (Nat.add_le_add_left (by decide : 1 ≤ 3) n)
        rw [hexec]
        exact hgoal s h (by simpa using hflag) rfl
  | unmark => exact (hunmark h hgoal).mono (Nat.le_succ _)
  | restore => exact (hrestore h hgoal).mono (Nat.add_le_add_left (by decide : 1 ≤ 3) n)

theorem enters {stage : Entering} {body : Body} (ht : t.place = .entering stage (some body))
    (h : Reached p before s t.place)
    (hgoal : ∀ s' : Shared H ι δ, Settled p before s' → s'.isCriticalSection = true →
      s'.data = s.data → Within p call n (s', t.goTo (enter p .mark (some body) s').2) goal) :
    Within p call (n + 3) (s, t) goal := by
  obtain ⟨id, place, holds⟩ := t
  obtain rfl : place = .entering stage (some body) := ht
  have hmark {s : Shared H ι δ} (h : Reached p before s (.entering .mark (some body)))
      (hgoal : ∀ s' : Shared H ι δ, Settled p before s' → s'.isCriticalSection = true →
        s'.data = s.data → Within p call n (s', Thread.goTo (enter p .mark (some body) s').2
          ⟨id, .entering .mark (some body), holds⟩) goal) :
      Within p call (n + 1) (s, ⟨id, .entering .mark (some body), holds⟩) goal :=
    Within.step (hgoal { s with isCriticalSection := true } ⟨h.1, fun _ => h.2⟩ rfl rfl)
  have hdisable {s : Shared H ι δ} (h : Reached p before s (.entering .disable (some body)))
      (hgoal : ∀ s' : Shared H ι δ, Settled p before s' → s'.isCriticalSection = true →
        s'.data = s.data → Within p call n (s', Thread.goTo (enter p .mark (some body) s').2
          ⟨id, .entering .mark (some body), holds⟩) goal) :
      Within p call (n + 2) (s, ⟨id, .entering .disable (some body), holds⟩) goal :=
    Within.step (hmark (enter_reached h) hgoal)
  cases stage with
  | test =>
      by_cases hflag : s.isCriticalSection = true
      · have hreached : Reached p before s (.entering .mark (some body)) :=
          ⟨by rw [h.interrupts, if_pos hflag], h.saved hflag⟩
        have hexec : exec p call s ⟨id, .entering .test (some body), holds⟩ =
            (s, ⟨id, .entering .mark (some body), holds⟩) := by
          simp [exec, enter, hflag, Thread.goTo]
        refine Within.mono (Within.step ?_) (Nat.le_succ (n + 2))
        rw [hexec]
        exact hmark hreached hgoal
      · have hfalse : s.isCriticalSection = false := by simpa using hflag
        have hexec : exec p call s ⟨id, .entering .test (some body), holds⟩ =
            (s, ⟨id, .entering .disable (some body), holds⟩) := by
          simp [exec, enter, hfalse, Thread.goTo]
        refine Within.step ?_
        rw [hexec]
        exact hdisable ⟨h, hfalse⟩ hgoal
  | disable => exact (hdisable h hgoal).mono (Nat.le_succ _)
  | mark => exact (hmark h hgoal).mono (Nat.add_le_add_left (by decide : 1 ≤ 3) n)

/-- Back in the caller, with the mutex. -/
def Taken (m : Nat) (x : Shared H ι δ × Thread ι) : Prop :=
  x.2.place = .idle ∧ x.2.holds m = true

/-- At the beginning of the next round, with interrupts as they are outside of sections. -/
def NextRound (p : Platform H) (before : Bool) (m : Nat) (x : Shared H ι δ × Thread ι) : Prop :=
  x.2.place = .entering .test (some (.lock m)) ∧ p.interrupts x.1.hw = before

theorem storing_takes (ht : t.place = .storing (.lock m)) (h : Reached p before s t.place) :
    Within p call 4 (s, t) (Taken m) := by
  have hleaving := exec_reached call h
  obtain ⟨id, place, holds⟩ := t
  obtain rfl : place = .storing (.lock m) := ht
  refine Within.step (leaves (n := 0) rfl hleaving (fun _ _ _ _ => Within.here ⟨rfl, ?_⟩))
  exact Function.update_self m true holds

theorem testing_takes (ht : t.place = .testing (.lock m)) (h : Reached p before s t.place)
    (hv : s.data.mutexValue m ≠ 0) : Within p call 5 (s, t) (Taken m) := by
  have hstoring := exec_reached call h
  obtain ⟨id, place, holds⟩ := t
  obtain rfl : place = .testing (.lock m) := ht
  exact Within.step (storing_takes (if_pos hv) hstoring)

theorem entering_takes {stage : Entering} (ht : t.place = .entering stage (some (.lock m)))
    (h : Reached p before s t.place) (hv : s.data.mutexValue m ≠ 0) :
    Within p call 8 (s, t) (Taken m) :=
  enters (n := 5) ht h (fun _ hs hflag hdata =>
    testing_takes rfl ⟨hs, hflag⟩ (hdata ▸ hv))

/-- A thread in system_mutex_lock takes a mutex that is unlocked. -/
theorem takes (call : Call δ) (ht : t.place.InLock m) (h : Reached p before s t.place)
    (hv : s.data.mutexValue m ≠ 0) : Within p call 11 (s, t) (Taken m) := by
  cases hplace : t.place with
  | idle =>
      rw [hplace] at ht
      exact ht.elim
  | entering stage body =>
      rw [hplace] at ht
      obtain rfl : body = some (.lock m) := ht
      exact (entering_takes hplace h hv).mono (by decide)
  | testing body =>
      rw [hplace] at ht
      obtain rfl : body = .lock m := ht
      exact (testing_takes hplace h hv).mono (by decide)
  | storing body =>
      rw [hplace] at ht
      obtain rfl : body = .lock m := ht
      exact (storing_takes hplace h).mono (by decide)
  | leaving stage again =>
      rw [hplace] at ht
      obtain rfl : again = some m := ht
      exact leaves (n := 8) hplace h (fun _ hs _ hdata =>
        entering_takes rfl hs (hdata ▸ hv))

theorem leaving_waits {stage : Leaving} (ht : t.place = .leaving stage (some m))
    (h : Reached p before s t.place) : Within p call 3 (s, t) (NextRound p before m) :=
  leaves (n := 0) ht h (fun _ hs hflag _ => Within.here ⟨rfl, by rw [hs.interrupts, hflag]; rfl⟩)

theorem testing_waits (ht : t.place = .testing (.lock m)) (h : Reached p before s t.place)
    (hv : s.data.mutexValue m = 0) : Within p call 4 (s, t) (NextRound p before m) := by
  have hleaving := exec_reached call h
  obtain ⟨id, place, holds⟩ := t
  obtain rfl : place = .testing (.lock m) := ht
  exact Within.step (leaving_waits (if_neg (fun hne => hne hv)) hleaving)

theorem waits (call : Call δ) (ht : t.place.InLock m) (h : Reached p before s t.place)
    (hv : s.data.mutexValue m = 0) : Within p call 7 (s, t) (NextRound p before m) := by
  cases hplace : t.place with
  | idle =>
      rw [hplace] at ht
      exact ht.elim
  | entering stage body =>
      rw [hplace] at ht
      obtain rfl : body = some (.lock m) := ht
      exact enters (n := 4) hplace h (fun _ hs hflag hdata =>
        testing_waits rfl ⟨hs, hflag⟩ (hdata ▸ hv))
  | testing body =>
      rw [hplace] at ht
      obtain rfl : body = .lock m := ht
      exact (testing_waits hplace h hv).mono (by decide)
  | storing body =>
      rw [hplace] at ht h
      obtain rfl : body = .lock m := ht
      exact absurd hv (h.2 m (.inl rfl))
  | leaving stage again =>
      rw [hplace] at ht
      obtain rfl : again = some m := ht
      exact (leaving_waits hplace h).mono (by decide)

end

/-- In every state that is reached, a thread in system_mutex_lock gets the mutex in at most eleven
of its own steps once no thread has it, and until then no round keeps interrupts from coming. -/
theorem lock_goes_on [DecidableEq ι] (p : Platform H) (hw : H) (csIntStatus : Bool) (data : Nat → δ)
    (first : ι) (acts : List (Act ι (Call δ))) (call : Call δ) (m : Nat)
    (h : Guarded (Preemption.step (masked p) (exec p)) (Allowed Disciplined)
      (start hw csIntStatus data first) acts) :
    let s := run (Preemption.step (masked p) (exec p)) (start hw csIntStatus data first) acts
    let alone := fun k => run (Preemption.step (masked p) (exec p)) s (List.replicate k (.run call))
    (s.threads s.running).place.InLock m →
      ((∀ i, (s.threads i).holds m = false) →
        ∃ k ≤ 11, ((alone k).threads s.running).place = .idle ∧
          ((alone k).threads s.running).holds m = true) ∧
      ((∃ i, (s.threads i).holds m = true) →
        ∃ k ≤ 7, ((alone k).threads s.running).place = .entering .test (some (.lock m)) ∧
          p.interrupts (alone k).shared.hw = p.interrupts hw) := by
  intro s alone hin
  have hguards : Guards p (p.interrupts hw) data s := guards_run p hw csIntStatus data first acts h
  obtain ⟨owner, hr⟩ := hguards.locked.recorded m
  have hvalue : s.shared.data.mutexValue m = 0 ↔ ∃ i, (s.threads i).holds m = true :=
    hr.exclusive.value
  have hsolo (k : Nat) : solo (exec p) call k (s.shared, s.threads s.running) =
      ((alone k).shared, (alone k).threads s.running) := by
    obtain ⟨hstate, hrunning⟩ := run_solo (masked p) (exec p) call k s
    rw [← hstate, hrunning]
  constructor
  · intro hfree
    have hv : s.shared.data.mutexValue m ≠ 0 := by
      intro hzero
      obtain ⟨i, hi⟩ := hvalue.mp hzero
      rw [hfree i] at hi
      cases hi
    obtain ⟨k, hk, htaken⟩ := takes call hin hguards.sound.running.1 hv
    rw [hsolo] at htaken
    exact ⟨k, hk, htaken⟩
  · intro hheld
    obtain ⟨k, hk, hround⟩ := waits call hin hguards.sound.running.1 (hvalue.mpr hheld)
    rw [hsolo] at hround
    exact ⟨k, hk, hround⟩

/-- The first thread of the contention, while the second one has the mutex. -/
theorem lock_goes_on_contention :
    let s := run (Preemption.step (masked flag) (exec flag))
      (start true false (fun _ => 0) false) (contention.take 14)
    ∃ k ≤ 7,
      let t := run (Preemption.step (masked flag) (exec flag)) s (locking k)
      (t.threads s.running).place = .entering .test (some (.lock 0)) ∧ t.shared.hw = true :=
  (lock_goes_on flag true false (fun _ => 0) false (contention.take 14)
    (.function (.lock 0)) 0 (by decide +kernel) (by decide +kernel)).2 ⟨true, by decide +kernel⟩

end ErSdk.ExosMutex
