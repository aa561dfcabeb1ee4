import ErSdk.LinkedQueue
import ErSdk.Runs

namespace ErSdk.ConcurrentQueue

open Linked LinkedQueue Runs Error

/-- A double-ended queue that never holds more than `max` values. -/
structure BoundedDeque (V : Type) (max : Nat) where
  content : List V
  bounded : content.length ≤ max

namespace BoundedDeque

variable {V : Type} {max : Nat}

def empty : BoundedDeque V max := ⟨[], Nat.zero_le max⟩

def pushFront (v : V) (q : BoundedDeque V max) : Option (BoundedDeque V max) :=
  if h : q.content.length < max then some ⟨v :: q.content, h⟩ else none

def pushBack (v : V) (q : BoundedDeque V max) : Option (BoundedDeque V max) :=
  if h : q.content.length < max then
    some ⟨q.content ++ [v], (List.length_append).trans_le h⟩
  else none

def popFront (q : BoundedDeque V max) : Option V × BoundedDeque V max :=
  (q.content.head?, ⟨q.content.tail, by
    rw [List.length_tail]
    exact (Nat.sub_le _ 1).trans q.bounded⟩)

def popBack (q : BoundedDeque V max) : Option V × BoundedDeque V max :=
  (q.content.getLast?, ⟨q.content.dropLast, by
    rw [List.length_dropLast]
    exact (Nat.sub_le _ 1).trans q.bounded⟩)

end BoundedDeque

/-- `struct _CQueue`. Between lock and unlock no other call comes, so that each call is one step. -/
structure CQueue where
  state : State
  maxSize : Nat

/-- The memory for the object and for its queue, and the mutex, are there or not. -/
def cqueueNew (maxSize : Nat) (object queue mutex : Bool) (m : Memory QueueEntry) : Option CQueue :=
  if object = false then none
  else if queue = false then none
  else if mutex = false then none
  else some ⟨⟨m, queueNew⟩, maxSize⟩

def cqueueGetSize (c : CQueue) : Nat := queueGetSize c.state.queue

def cqueuePushHead (data : QueueValue) (allocates : Bool) (c : CQueue) : Option (Int × CQueue) := do
  let (ret, s) ← queuePushHead data allocates c.state
  some (ret, { c with state := s })

def cqueuePopHead (c : CQueue) : Option (QueueValue × CQueue) := do
  let (ret, s) ← queuePopHead c.state
  some (ret, { c with state := s })

def cqueuePeekHead (c : CQueue) : Option QueueValue := queuePeekHead c.state

def cqueuePushTail (data : QueueValue) (allocates : Bool) (c : CQueue) : Option (Int × CQueue) :=
  if queueGetSize c.state.queue < c.maxSize then do
    let (ret, s) ← queuePushTail data allocates c.state
    some (ret, { c with state := s })
  else some (errFailure, c)

def cqueuePopTail (c : CQueue) : Option (QueueValue × CQueue) := do
  let (ret, s) ← queuePopTail c.state
  some (ret, { c with state := s })

def cqueuePeekTail (c : CQueue) : Option QueueValue := queuePeekTail c.state

def cqueueIsEmpty (c : CQueue) : Bool := queueIsEmpty c.state.queue

/-- A call. Whether a push gets the memory for its entry is not up to the queue. -/
inductive Action
  | pushHead (data : QueueValue) (allocates : Bool)
  | pushTail (data : QueueValue) (allocates : Bool)
  | popHead
  | popTail
  | peekHead
  | peekTail
  | getSize
  | isEmpty
deriving DecidableEq

inductive Result
  | status (error : Int)
  | value (v : QueueValue)
  | size (n : Nat)
  | empty (b : Bool)
deriving DecidableEq

/-- A call with its result; none where it follows a pointer to an entry that is not there. -/
def call (c : CQueue) : Action → Option (Result × CQueue)
  | .pushHead data allocates => (cqueuePushHead data allocates c).map (Prod.map .status id)
  | .pushTail data allocates => (cqueuePushTail data allocates c).map (Prod.map .status id)
  | .popHead => (cqueuePopHead c).map (Prod.map .value id)
  | .popTail => (cqueuePopTail c).map (Prod.map .value id)
  | .peekHead => (cqueuePeekHead c).map (fun v => (.value v, c))
  | .peekTail => (cqueuePeekTail c).map (fun v => (.value v, c))
  | .getSize => some (.size (cqueueGetSize c), c)
  | .isEmpty => some (.empty (cqueueIsEmpty c), c)

def step (c : CQueue) (a : Action) : CQueue := ((call c a).map Prod.snd).getD c

/-- What a bounded double-ended queue answers. -/
inductive Outcome
  | stored
  | rejected
  | value (v : Option QueueValue)
  | size (n : Nat)
  | empty (b : Bool)

/-- The result of a call says what the bounded queue answers. -/
def Says : Result → Outcome → Prop
  | .status e, .stored => e = errSuccess
  | .status e, .rejected => e < 0
  | .value v, .value o => v = o.getD queueNull
  | .size n, .size k => n = k
  | .empty b, .empty b' => b = b'
  | _, _ => False

/-- A push into a bounded queue needs memory and room. -/
def pushed {max : Nat} (allocates : Bool) (q : BoundedDeque QueueValue max)
    (next : Option (BoundedDeque QueueValue max)) : Outcome × BoundedDeque QueueValue max :=
  if allocates then
    match next with
    | some q' => (.stored, q')
    | none => (.rejected, q)
  else (.rejected, q)

def perform {max : Nat} (q : BoundedDeque QueueValue max) :
    Action → Outcome × BoundedDeque QueueValue max
  | .pushHead data allocates => pushed allocates q (q.pushFront data)
  | .pushTail data allocates => pushed allocates q (q.pushBack data)
  | .popHead => (.value q.popFront.1, q.popFront.2)
  | .popTail => (.value q.popBack.1, q.popBack.2)
  | .peekHead => (.value q.content.head?, q)
  | .peekTail => (.value q.content.getLast?, q)
  | .getSize => (.size q.content.length, q)
  | .isEmpty => (.empty q.content.isEmpty, q)

def Bounded (c : CQueue) : Prop :=
  ∃ q : BoundedDeque QueueValue c.maxSize, Holds c.state q.content

/-- The call has the effect and the result that it has on a bounded queue, and if it returns an
error the content is as before. -/
def Conforms (c : CQueue) (a : Action) : Prop :=
  ∃ q : BoundedDeque QueueValue c.maxSize, Holds c.state q.content ∧
    ∃ r s, call c a = some (r, ⟨s, c.maxSize⟩) ∧ Holds s (perform q a).2.content ∧
      Says r (perform q a).1 ∧ ∀ e, r = .status e → e ≠ errSuccess → Holds s q.content

/-- No push to the head gets its memory while the queue is full. -/
def Spare (c : CQueue) : Action → Prop
  | .pushHead _ allocates => allocates = true → cqueueGetSize c < c.maxSize
  | _ => True

instance (c : CQueue) (a : Action) : Decidable (Spare c a) :=
  match a with
  | .pushHead _ allocates => inferInstanceAs (Decidable (allocates = true → cqueueGetSize c < c.maxSize))
  | .pushTail _ _ | .popHead | .popTail | .peekHead | .peekTail | .getSize | .isEmpty => .isTrue trivial

section

variable {c : CQueue} {q : BoundedDeque QueueValue c.maxSize}

theorem pushHead_conforms (h : Holds c.state q.content) (data : QueueValue) (allocates : Bool)
    (hspare : Spare c (.pushHead data allocates)) : Conforms c (.pushHead data allocates) := by
  refine ⟨q, h, ?_⟩
  cases allocates with
  | false =>
      exact ⟨.status errNoMemory, c.state, rfl, h, show errNoMemory < 0 by decide, fun _ _ _ => h⟩
  | true =>
      obtain ⟨s, hpush, hs⟩ := h.pushHead data
      have hroom : q.content.length < c.maxSize := by
        rw [← h.size]
        exact hspare rfl
      have hperform : perform q (.pushHead data true) = (.stored, ⟨data :: q.content, hroom⟩) := by
        simp [perform, pushed, BoundedDeque.pushFront, hroom]
      refine ⟨.status errSuccess, s, ?_, ?_, ?_, fun e he hne => ?_⟩
      · simp [call, cqueuePushHead, hpush]
      · rw [hperform]
        exact hs
      · rw [hperform]
        exact rfl
      · exact absurd (Result.status.inj he).symm hne

theorem pushTail_conforms (h : Holds c.state q.content) (data : QueueValue) (allocates : Bool) :
    Conforms c (.pushTail data allocates) := by
  refine ⟨q, h, ?_⟩
  have hsize : queueGetSize c.state.queue = q.content.length := h.size
  by_cases hroom : q.content.length < c.maxSize
  · cases allocates with
    | false =>
        refine ⟨.status errNoMemory, c.state, ?_, h, show errNoMemory < 0 by decide, fun _ _ _ => h⟩
        simp [call, cqueuePushTail, hsize, hroom, queuePushTail]
    | true =>
        obtain ⟨s, hpush, hs⟩ := h.pushTail data
        have hperform : perform q (.pushTail data true) =
            (.stored, ⟨q.content ++ [data], (List.length_append).trans_le hroom⟩) := by
          simp [perform, pushed, BoundedDeque.pushBack, hroom]
        refine ⟨.status errSuccess, s, ?_, ?_, ?_, fun e he hne => ?_⟩
        · simp [call, cqueuePushTail, hsize, hroom, hpush]
        · rw [hperform]
          exact hs
        · rw [hperform]
          exact rfl
        · exact absurd (Result.status.inj he).symm hne
  · have hperform : perform q (.pushTail data allocates) = (.rejected, q) := by
      cases allocates <;> simp [perform, pushed, BoundedDeque.pushBack, hroom]
    refine ⟨.status errFailure, c.state, ?_, ?_, ?_, fun _ _ _ => h⟩
    · simp [call, cqueuePushTail, hsize, hroom]
    · rw [hperform]
      exact h
    · rw [hperform]
      exact show errFailure < 0 by decide

theorem popHead_conforms (h : Holds c.state q.content) : Conforms c .popHead := by
  refine ⟨q, h, ?_⟩
  cases hcontent : q.content with
  | nil =>
      rw [hcontent] at h
      refine ⟨.value queueNull, c.state, ?_, ?_, ?_, nofun⟩
      · simp [call, cqueuePopHead, h.popHead_empty]
      · show Holds c.state q.content.tail
        rw [hcontent]
        exact h
      · show queueNull = q.content.head?.getD queueNull
        rw [hcontent]
        rfl
  | cons v l =>
      rw [hcontent] at h
      obtain ⟨s, hpop, hs⟩ := h.popHead
      refine ⟨.value v, s, ?_, ?_, ?_, nofun⟩
      · simp [call, cqueuePopHead, hpop]
      · show Holds s q.content.tail
        rw [hcontent]
        exact hs
      · show v = q.content.head?.getD queueNull
        rw [hcontent]
        rfl

theorem popTail_conforms (h : Holds c.state q.content) : Conforms c .popTail := by
  refine ⟨q, h, ?_⟩
  rcases List.eq_nil_or_concat q.content with hcontent | ⟨l, v, hcontent⟩
  · rw [hcontent] at h
    refine ⟨.value queueNull, c.state, ?_, ?_, ?_, nofun⟩
    · simp [call, cqueuePopTail, h.popTail_empty]
    · show Holds c.state q.content.dropLast
      rw [hcontent]
      exact h
    · show queueNull = q.content.getLast?.getD queueNull
      rw [hcontent]
      rfl
  · rw [List.concat_eq_append] at hcontent
    rw [hcontent] at h
    obtain ⟨s, hpop, hs⟩ := h.popTail
    refine ⟨.value v, s, ?_, ?_, ?_, nofun⟩
    · simp [call, cqueuePopTail, hpop]
    · show Holds s q.content.dropLast
      rw [hcontent, List.dropLast_concat]
      exact hs
    · show v = q.content.getLast?.getD queueNull
      rw [hcontent, List.getLast?_concat]
      rfl

theorem conforms_of_spare (h : Bounded c) {a : Action} (hspare : Spare c a) : Conforms c a := by
  obtain ⟨q, hq⟩ := h
  cases a with
  | pushHead data allocates => exact pushHead_conforms hq data allocates hspare
  | pushTail data allocates => exact pushTail_conforms hq data allocates
  | popHead => exact popHead_conforms hq
  | popTail => exact popTail_conforms hq
  | peekHead =>
      refine ⟨q, hq, .value (q.content.head?.getD queueNull), c.state, ?_, hq, rfl, nofun⟩
      exact congrArg (Option.map _) hq.peekHead
  | peekTail =>
      refine ⟨q, hq, .value (q.content.getLast?.getD queueNull), c.state, ?_, hq, rfl, nofun⟩
      exact congrArg (Option.map _) hq.peekTail
  | getSize => exact ⟨q, hq, _, c.state, rfl, hq, hq.size, nofun⟩
  | isEmpty =>
      refine ⟨q, hq, .empty (cqueueIsEmpty c), c.state, rfl, hq, ?_, nofun⟩
      show queueIsEmpty c.state.queue = q.content.isEmpty
      rw [Bool.eq_iff_iff, hq.empty_iff, List.isEmpty_iff]

theorem spare_of_conforms {a : Action} (h : Conforms c a) : Spare c a := by
  cases a with
  | pushHead data allocates =>
      rintro rfl
      by_contra hfull
      obtain ⟨q, hq, r, s, hcall, -, hsays, -⟩ := h
      obtain ⟨t, hpush, -⟩ := hq.pushHead data
      have hfull' : ¬ q.content.length < c.maxSize := hq.size ▸ hfull
      have hresult : call c (.pushHead data true) = some (.status errSuccess, ⟨t, c.maxSize⟩) := by
        simp [call, cqueuePushHead, hpush]
      have hperform : perform q (.pushHead data true) = (.rejected, q) := by
        simp [perform, pushed, BoundedDeque.pushFront, hfull']
      obtain ⟨hr, -⟩ := Prod.mk.inj (Option.some.inj (hcall.symm.trans hresult))
      rw [hr, hperform] at hsays
      exact absurd hsays (by decide : ¬ (errSuccess : Int) < 0)
  | pushTail | popHead | popTail | peekHead | peekTail | getSize | isEmpty => exact trivial

theorem bounded_step {a : Action} (h : Conforms c a) : Bounded (step c a) := by
  obtain ⟨q, -, r, s, hcall, hs, -⟩ := h
  have hstep : step c a = ⟨s, c.maxSize⟩ := by
    unfold step
    rw [hcall]
    rfl
  rw [hstep]
  exact ⟨(perform q a).2, hs⟩

end

theorem Bounded.size_le {c : CQueue} (h : Bounded c) : cqueueGetSize c ≤ c.maxSize := by
  obtain ⟨q, hq⟩ := h
  exact hq.size.trans_le q.bounded

/-- A new queue stays within its size, and every call is one of a bounded double-ended queue,
exactly as long as no push to the head succeeds while it is full. -/
theorem bounded_queue_iff {maxSize : Nat} {object queue mutex : Bool} {m : Memory QueueEntry}
    {c : CQueue} (hnew : cqueueNew maxSize object queue mutex m = some c) (acts : List Action) :
    Guarded step Conforms c acts ∧ (∀ k, Bounded (run step c (acts.take k))) ↔
      Guarded step Spare c acts := by
  have hstart : Bounded c := by
    unfold cqueueNew at hnew
    split_ifs at hnew
    obtain rfl := Option.some.inj hnew
    exact ⟨.empty, holds_new m⟩
  have hkeep (c : CQueue) (a : Action) (hspare : Spare c a) (h : Bounded c) : Bounded (step c a) :=
    bounded_step (conforms_of_spare h hspare)
  constructor
  · rintro ⟨h, -⟩
    exact h.imp (P := fun _ => True) (fun _ _ _ _ => trivial) (fun _ _ _ h => spare_of_conforms h) trivial
  · intro h
    exact ⟨h.imp hkeep (fun _ _ hc hspare => conforms_of_spare hc hspare) hstart,
      h.always hkeep hstart⟩

/-- Both ends in use, and a push that gets no memory. -/
theorem bounded_queue_iff_two :
    Guarded step Conforms ⟨⟨[], queueNew⟩, 2⟩
        [.pushTail 5 true, .pushHead 6 true, .pushHead 7 false, .pushTail 8 true, .popTail] ∧
      (∀ k, Bounded (run step ⟨⟨[], queueNew⟩, 2⟩
        ([.pushTail 5 true, .pushHead 6 true, .pushHead 7 false, .pushTail 8 true, .popTail].take k))) := by
  have hnew : cqueueNew 2 true true true [] = some ⟨⟨[], queueNew⟩, 2⟩ := rfl
  exact (bounded_queue_iff hnew _).mpr (by decide)

/-- A queue of size one with two values. -/
theorem head_push_overfills : cqueueGetSize (run step ⟨⟨[], queueNew⟩, 1⟩
      [.pushTail 5 true, .pushHead 6 true]) = 2 ∧
    ¬ Bounded (run step ⟨⟨[], queueNew⟩, 1⟩ [.pushTail 5 true, .pushHead 6 true]) :=
  ⟨rfl, fun h => absurd h.size_le (by decide)⟩

end ErSdk.ConcurrentQueue
