import ErSdk.ConcurrentQueue
import ErSdk.ExosMutex

namespace ErSdk.QueueThreads

open CriticalSections Ownership Preemption ExosMutex ConcurrentQueue Runs

variable {H ι : Type} [DecidableEq ι]

/-- A queue, and what its calls have returned, each with the thread that it was returned to. The
result is `none` for a call that follows a pointer to an entry that is not there. -/
structure Served (ι : Type) where
  queue : CQueue
  returned : List (ι × Option Result)

/-- One call of a thread, without any other thread. -/
def serve (s : Served ι) (a : ι × Action) : Served ι :=
  ⟨ConcurrentQueue.step s.queue a.2, s.returned ++ [(a.1, (call s.queue a.2).map Prod.fst)]⟩

/-- What a thread does between lock and unlock is the body of a call, in steps of any size, with
the result that the thread gets. -/
def Implements (b : Block ι (Served ι)) (a : ι × Action) : Prop :=
  a.1 = b.owner ∧ ∀ s, b.effect s = serve s a

/-- Every block on the data of a mutex is a call of the queue that it belongs to. -/
def AllCalls (uses : List (Use ι (Served ι))) : Prop :=
  ∀ (b : Block ι (Served ι)) earlier later, uses = earlier ++ b.uses ++ later → ∃ a, Implements b a

abbrev Calls (blocks : List (Block ι (Served ι))) (calls : List (ι × Action)) : Prop :=
  List.Forall₂ Implements blocks calls

def results (c : CQueue) : List (ι × Action) → List (ι × Option Result)
  | [] => []
  | a :: calls => (a.1, (call c a.2).map Prod.fst) :: results (ConcurrentQueue.step c a.2) calls

omit [DecidableEq ι] in
theorem calls_of_all {blocks : List (Block ι (Served ι))} (earlier later : List (Use ι (Served ι)))
    (h : AllCalls (earlier ++ blocks.flatMap Block.uses ++ later)) : ∃ calls, Calls blocks calls := by
  induction blocks generalizing earlier with
  | nil => exact ⟨[], .nil⟩
  | cons b blocks ih =>
      obtain ⟨a, ha⟩ := h b earlier (blocks.flatMap Block.uses ++ later) (by simp)
      obtain ⟨calls, hcalls⟩ := ih (earlier ++ b.uses) (by simpa using h)
      exact ⟨a :: calls, .cons ha hcalls⟩

omit [DecidableEq ι] in
theorem effect_calls {blocks : List (Block ι (Served ι))} {calls : List (ι × Action)}
    (h : Calls blocks calls) (s : Served ι) : blocks.foldl (fun s b => b.effect s) s =
      ⟨run ConcurrentQueue.step s.queue (calls.map Prod.snd), s.returned ++ results s.queue calls⟩ := by
  induction h generalizing s with
  | nil => rw [results, List.append_nil]; rfl
  | cons ha _ ih =>
      rw [List.foldl_cons, ha.2 s, ih, results, List.append_cons]
      rfl

/-- Calls by threads that the mutex of the queue excludes from each other have the effects that
they have one behind the other, in the order in which the mutex is taken, and return to every
thread what they return there. -/
theorem queue_calls_serial (p : Platform H) (hw : H) (csIntStatus : Bool) (queues : Nat → CQueue)
    (first : ι) (acts : List (Act ι (Call (Served ι)))) (m : Nat) (hbounded : Bounded (queues m))
    (h : Guarded (Preemption.step (masked p) (exec p)) (Allowed Disciplined)
      (start hw csIntStatus (fun k => ⟨queues k, []⟩) first) acts) :
    let s := run (Preemption.step (masked p) (exec p))
      (start hw csIntStatus (fun k => ⟨queues k, []⟩) first) acts
    AllCalls (s.shared.data.uses m) → ∃ blocks rest calls,
      s.shared.data.uses m = blocks.flatMap Block.uses ++ rest ∧ Calls blocks calls ∧
      ((∀ i, (s.threads i).holds m = false) →
        (s.shared.data.data m).queue = run ConcurrentQueue.step (queues m) (calls.map Prod.snd) ∧
          (s.shared.data.data m).returned = results (queues m) calls) ∧
      (Guarded ConcurrentQueue.step Spare (queues m) (calls.map Prod.snd) →
        Guarded ConcurrentQueue.step Conforms (queues m) (calls.map Prod.snd) ∧
          Bounded (run ConcurrentQueue.step (queues m) (calls.map Prod.snd))) := by
  intro s hall
  obtain ⟨owner, hr⟩ :=
    (guards_run p hw csIntStatus (fun k => ⟨queues k, []⟩) first acts h).locked.recorded m
  obtain ⟨blocks, rest, huses, hdata, hrest⟩ := hr.exclusive.serial
  obtain ⟨calls, hcalls⟩ := calls_of_all [] rest
    (by rw [List.nil_append, ← huses]; exact hall)
  refine ⟨blocks, rest, calls, huses, hcalls, fun hfree => ?_, fun hspare => ?_⟩
  · rcases hrest with rfl | ⟨b, -, hholds⟩
    · have hend := effect_calls hcalls ⟨queues m, []⟩
      rw [List.nil_append] at hend
      have hlast : s.shared.data.data m =
          ⟨run ConcurrentQueue.step (queues m) (calls.map Prod.snd), results (queues m) calls⟩ := by
        rw [hdata, ← hend]
        rfl
      rw [hlast]
      exact ⟨rfl, rfl⟩
    · exact absurd (hholds.symm.trans (hfree b.owner)) (by decide)
  · have hkeep (c : CQueue) (a : Action) (hs : Spare c a) (hc : Bounded c) :
        Bounded (ConcurrentQueue.step c a) := bounded_step (conforms_of_spare hc hs)
    exact ⟨hspare.imp hkeep (fun _ _ hc hs => conforms_of_spare hc hs) hbounded,
      hspare.invariant hkeep hbounded⟩

/-- A call of the mutex 0 by a thread from its beginning to its end. -/
def locked (i : Bool) (a : Action) : List (Act Bool (Call (Served Bool))) :=
  List.replicate 9 (.run (.function (.lock 0))) ++ [.run (.work 0 (serve · (i, a)))] ++
    List.replicate 8 (.run (.function (.unlock 0)))

def twoCalls : List (Act Bool (Call (Served Bool))) :=
  locked false (.pushTail 5 true) ++ [.switch true] ++ locked true .popHead

def twoBlocks : List (Block Bool (Served Bool)) :=
  [⟨false, [(serve · (false, .pushTail 5 true))]⟩, ⟨true, [(serve · (true, .popHead))]⟩]

theorem queue_calls_serial_two :
    let s := run (Preemption.step (masked flag) (exec flag))
      (start true false (fun _ => ⟨⟨⟨[], LinkedQueue.queueNew⟩, 2⟩, []⟩) false) twoCalls
    ∃ (blocks : List (Block Bool (Served Bool))) (rest : List (Use Bool (Served Bool)))
      (calls : List (Bool × Action)),
      s.shared.data.uses 0 = blocks.flatMap Block.uses ++ rest ∧ Calls blocks calls ∧
      ((∀ i, (s.threads i).holds 0 = false) →
        (s.shared.data.data 0).queue =
            run ConcurrentQueue.step ⟨⟨[], LinkedQueue.queueNew⟩, 2⟩ (calls.map Prod.snd) ∧
          (s.shared.data.data 0).returned = results ⟨⟨[], LinkedQueue.queueNew⟩, 2⟩ calls) ∧
      (Guarded ConcurrentQueue.step Spare ⟨⟨[], LinkedQueue.queueNew⟩, 2⟩ (calls.map Prod.snd) →
        Guarded ConcurrentQueue.step Conforms ⟨⟨[], LinkedQueue.queueNew⟩, 2⟩ (calls.map Prod.snd) ∧
          Bounded (run ConcurrentQueue.step ⟨⟨[], LinkedQueue.queueNew⟩, 2⟩ (calls.map Prod.snd))) := by
  refine queue_calls_serial flag true false (fun _ => ⟨⟨[], LinkedQueue.queueNew⟩, 2⟩) false
    twoCalls 0 ⟨.empty, LinkedQueue.holds_new []⟩ (by decide +kernel) ?_
  intro b earlier later huses
  have hblocks : twoBlocks.flatMap Block.uses ++ [] = earlier ++ b.uses ++ later := by
    rw [← huses]
    simp [twoBlocks, Block.uses, Block.opened, run, twoCalls, locked, List.replicate_succ,
      Preemption.step, ExosMutex.exec, begin, enter, leave, start, Thread.goTo, flag, masked,
      testValue, storeValue, mapStore, Store.setValue, Store.record, Store.setData, Thread.hold,
      afterLeave]
  have hmem : b ∈ twoBlocks := mem_blocks none rfl hblocks
  rcases List.mem_cons.mp hmem with rfl | hmem
  · exact ⟨(false, .pushTail 5 true), rfl, fun _ => rfl⟩
  · obtain rfl := List.mem_singleton.mp hmem
    exact ⟨(true, .popHead), rfl, fun _ => rfl⟩

end ErSdk.QueueThreads
