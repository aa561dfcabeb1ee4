import ErSdk.Basic
import ErSdk.TwoWayList

namespace ErSdk.LinkedQueue

open Linked Error

/-- A pointer to whatever is stored in a queue. -/
abbrev QueueValue := Nat

def queueNull : QueueValue := 0

structure QueueEntry where
  data : QueueValue
  prev : Option Nat
  next : Option Nat

structure Queue where
  head : Option Nat
  tail : Option Nat
  size : Nat

structure State where
  memory : Memory QueueEntry
  queue : Queue

/-- An assignment through a pointer to an entry; none if there is no entry any more. -/
def assign (m : Memory QueueEntry) (a : Nat) (f : QueueEntry → QueueEntry) :
    Option (Memory QueueEntry) :=
  (fetch m a).map (fun entry => store m a (f entry))

def queueNew : Queue := ⟨none, none, 0⟩

def queueGetSize (q : Queue) : Nat := q.size

def queueIsEmpty (q : Queue) : Bool := q.head.isNone

def queuePushHead (data : QueueValue) (allocates : Bool) (s : State) : Option (Int × State) :=
  if allocates = false then some (errNoMemory, s)
  else
    let newEntry := s.memory.length
    let m := allocate s.memory ⟨data, none, s.queue.head⟩
    match s.queue.head with
    | none => some (errSuccess, ⟨m, ⟨some newEntry, some newEntry, s.queue.size + 1⟩⟩)
    | some head => do
        let m ← assign m head (fun entry => { entry with prev := some newEntry })
        some (errSuccess, ⟨m, ⟨some newEntry, s.queue.tail, s.queue.size + 1⟩⟩)

def queuePopHead (s : State) : Option (QueueValue × State) :=
  if queueIsEmpty s.queue then some (queueNull, s)
  else do
    let a ← s.queue.head
    let entry ← fetch s.memory a
    match entry.next with
    | none => some (entry.data, ⟨release s.memory a, ⟨none, none, s.queue.size - 1⟩⟩)
    | some head => do
        let m ← assign s.memory head (fun entry => { entry with prev := none })
        some (entry.data, ⟨release m a, ⟨some head, s.queue.tail, s.queue.size - 1⟩⟩)

def queuePeekHead (s : State) : Option QueueValue :=
  if queueIsEmpty s.queue then some queueNull
  else do
    let a ← s.queue.head
    let entry ← fetch s.memory a
    some entry.data

def queuePushTail (data : QueueValue) (allocates : Bool) (s : State) : Option (Int × State) :=
  if allocates = false then some (errNoMemory, s)
  else
    let newEntry := s.memory.length
    let m := allocate s.memory ⟨data, s.queue.tail, none⟩
    match s.queue.tail with
    | none => some (errSuccess, ⟨m, ⟨some newEntry, some newEntry, s.queue.size + 1⟩⟩)
    | some tail => do
        let m ← assign m tail (fun entry => { entry with next := some newEntry })
        some (errSuccess, ⟨m, ⟨s.queue.head, some newEntry, s.queue.size + 1⟩⟩)

def queuePopTail (s : State) : Option (QueueValue × State) :=
  if queueIsEmpty s.queue then some (queueNull, s)
  else do
    let a ← s.queue.tail
    let entry ← fetch s.memory a
    match entry.prev with
    | none => some (entry.data, ⟨release s.memory a, ⟨none, none, s.queue.size - 1⟩⟩)
    | some tail => do
        let m ← assign s.memory tail (fun entry => { entry with next := none })
        some (entry.data, ⟨release m a, ⟨s.queue.head, some tail, s.queue.size - 1⟩⟩)

def queuePeekTail (s : State) : Option QueueValue :=
  if queueIsEmpty s.queue then some queueNull
  else do
    let a ← s.queue.tail
    let entry ← fetch s.memory a
    some entry.data

/-- The values of the entries at these addresses. -/
def values (m : Memory QueueEntry) (as : List Nat) : List QueueValue :=
  as.filterMap (fun a => (fetch m a).map QueueEntry.data)

/-- The entries of the queue are linked in both directions, and hold these values. -/
def Holds (s : State) (l : List QueueValue) : Prop :=
  ∃ as, TwoWay QueueEntry.next QueueEntry.prev s.memory s.queue.head s.queue.tail as ∧
    values s.memory as = l ∧ s.queue.size = as.length

theorem values_cons {m : Memory QueueEntry} {a : Nat} {entry : QueueEntry} (h : fetch m a = some entry)
    (as : List Nat) : values m (a :: as) = entry.data :: values m as := by
  unfold values
  rw [List.filterMap_cons, h, Option.map_some]

theorem values_congr {m m' : Memory QueueEntry} {as : List Nat}
    (h : ∀ a ∈ as, (fetch m' a).map QueueEntry.data = (fetch m a).map QueueEntry.data) :
    values m' as = values m as := List.filterMap_congr h

theorem Holds.size {s : State} {l : List QueueValue} (h : Holds s l) : s.queue.size = l.length := by
  obtain ⟨as, htwo, rfl, hsize⟩ := h
  rw [hsize]
  clear hsize
  have hall := htwo.forward.fetch
  clear htwo
  induction as with
  | nil => rfl
  | cons a as ih =>
      obtain ⟨entry, hentry⟩ := hall a List.mem_cons_self
      rw [values_cons hentry, List.length_cons, List.length_cons,
        ih (fun b hb => hall b (List.mem_cons_of_mem a hb))]

theorem holds_new (m : Memory QueueEntry) : Holds ⟨m, queueNew⟩ [] := ⟨[], .nil, rfl, rfl⟩

theorem Holds.empty_iff {s : State} {l : List QueueValue} (h : Holds s l) :
    queueIsEmpty s.queue = true ↔ l = [] := by
  obtain ⟨as, htwo, rfl, -⟩ := h
  unfold queueIsEmpty
  rw [htwo.first_eq]
  cases as with
  | nil => exact iff_of_true rfl rfl
  | cons a as =>
      obtain ⟨entry, hentry, -⟩ := htwo.fetch_first
      rw [values_cons hentry]
      exact iff_of_false nofun nofun

theorem Holds.pushHead {s : State} {l : List QueueValue} (h : Holds s l) (data : QueueValue) :
    ∃ s', queuePushHead data true s = some (errSuccess, s') ∧ Holds s' (data :: l) := by
  obtain ⟨as, htwo, rfl, hsize⟩ := h
  unfold queuePushHead
  rw [if_neg (by decide)]
  dsimp only
  have hfirst := htwo.first_eq
  have hold (a : Nat) (ha : a ∈ as) (entry : QueueEntry) :
      fetch (allocate s.memory entry) a = fetch s.memory a := by
    obtain ⟨c, hc⟩ := htwo.forward.fetch a ha
    exact fetch_allocate_of_lt (lt_of_fetch hc) entry
  cases as with
  | nil =>
      rw [hfirst]
      have hnew := fetch_allocate_self s.memory (⟨data, none, none⟩ : QueueEntry)
      refine ⟨_, rfl, [s.memory.length], .single hnew rfl rfl, ?_, by rw [hsize]; rfl⟩
      exact values_cons hnew []
  | cons b bs =>
      rw [hfirst]
      obtain ⟨d, hd, -⟩ := htwo.fetch_first
      have hd' := (hold b List.mem_cons_self ⟨data, none, some b⟩).trans hd
      have hfresh : s.memory.length ∉ b :: bs := by
        intro hmem
        obtain ⟨c, hc⟩ := htwo.forward.fetch _ hmem
        exact Nat.lt_irrefl _ (lt_of_fetch hc)
      have hnotin : b ∉ bs := (List.nodup_cons.mp htwo.nodup).1
      have hne : s.memory.length ≠ b := fun he => hfresh (he ▸ List.mem_cons_self)
      dsimp only [List.head?_cons, assign]
      rw [hd']
      have hnew : fetch (store (allocate s.memory ⟨data, none, some b⟩) b
          { d with prev := some s.memory.length }) s.memory.length = some ⟨data, none, some b⟩ :=
        (fetch_store_ne hne _).trans (fetch_allocate_self _ _)
      have hback := fetch_store_self hd' { d with prev := some s.memory.length }
      have hsame (x : Nat) (hx : x ∈ bs) : fetch (store (allocate s.memory ⟨data, none, some b⟩) b
          { d with prev := some s.memory.length }) x = fetch s.memory x :=
        (fetch_store_ne (fun he : x = b => hnotin (he ▸ hx)) _).trans
          (hold x (List.mem_cons_of_mem b hx) _)
      refine ⟨_, rfl, s.memory.length :: b :: bs, ?_, ?_, by rw [hsize]; rfl⟩
      · exact htwo.cons hfresh hnew rfl rfl hd hback rfl rfl hsame
      · have hrest := values_congr (fun x hx => congrArg (Option.map QueueEntry.data) (hsame x hx))
        dsimp only
        rw [values_cons hnew, values_cons hback, values_cons hd, hrest]

theorem Holds.popHead {s : State} {v : QueueValue} {l : List QueueValue} (h : Holds s (v :: l)) :
    ∃ s', queuePopHead s = some (v, s') ∧ Holds s' l := by
  have hopen : queueIsEmpty s.queue ≠ true := fun he => absurd (h.empty_iff.mp he) nofun
  obtain ⟨as, htwo, hvalues, hsize⟩ := h
  unfold queuePopHead
  rw [if_neg hopen, htwo.first_eq]
  cases as with
  | nil => exact absurd hvalues nofun
  | cons a as =>
      obtain ⟨entry, hentry, hnext⟩ := htwo.fetch_first
      rw [values_cons hentry] at hvalues
      obtain ⟨rfl, rfl⟩ := List.cons.inj hvalues
      have hnotin : a ∉ as := (List.nodup_cons.mp htwo.nodup).1
      dsimp only [List.head?_cons, Option.bind_eq_bind, Option.bind_some]
      rw [hentry]
      dsimp only [Option.bind_some]
      rw [hnext]
      cases as with
      | nil => exact ⟨_, rfl, [], .nil, rfl, by rw [hsize]; rfl⟩
      | cons b bs =>
          obtain ⟨-, c, hc, hrest⟩ := seg_cons.mp htwo.forward
          obtain ⟨-, d, hd, -⟩ := seg_cons.mp hrest
          have hba : b ≠ a := fun he => hnotin (he ▸ List.mem_cons_self)
          have hnotin' : b ∉ bs := (List.nodup_cons.mp (List.nodup_cons.mp htwo.nodup).2).1
          have hback : fetch (release (store s.memory b { d with prev := none }) a) b =
              some { d with prev := none } := by
            rw [fetch_release_ne hba]
            exact fetch_store_self hd _
          have hsame (x : Nat) (hx : x ∈ bs) :
              fetch (release (store s.memory b { d with prev := none }) a) x = fetch s.memory x := by
            have hxa : x ≠ a := fun he => hnotin (he ▸ List.mem_cons_of_mem b hx)
            have hxb : x ≠ b := fun he => hnotin' (he ▸ hx)
            rw [fetch_release_ne hxa, fetch_store_ne hxb]
          have hvalues' := values_congr (fun x hx => congrArg (Option.map QueueEntry.data) (hsame x hx))
          dsimp only [List.head?_cons, assign]
          rw [hd]
          refine ⟨_, rfl, b :: bs, htwo.tail hd hback rfl rfl hsame, ?_, by rw [hsize]; rfl⟩
          dsimp only
          rw [values_cons hback, values_cons hd, hvalues']

theorem Holds.popHead_empty {s : State} (h : Holds s []) : queuePopHead s = some (queueNull, s) := by
  unfold queuePopHead
  rw [if_pos (h.empty_iff.mpr rfl)]

theorem Holds.peekHead {s : State} {l : List QueueValue} (h : Holds s l) :
    queuePeekHead s = some (l.head?.getD queueNull) := by
  cases l with
  | nil =>
      unfold queuePeekHead
      rw [if_pos (h.empty_iff.mpr rfl)]
      rfl
  | cons v l =>
      have hopen : queueIsEmpty s.queue ≠ true := fun he => absurd (h.empty_iff.mp he) nofun
      obtain ⟨as, htwo, hvalues, -⟩ := h
      unfold queuePeekHead
      rw [if_neg hopen, htwo.first_eq]
      cases as with
      | nil => exact absurd hvalues nofun
      | cons a as =>
          obtain ⟨entry, hentry, -⟩ := htwo.fetch_first
          rw [values_cons hentry] at hvalues
          obtain ⟨rfl, -⟩ := List.cons.inj hvalues
          dsimp only [List.head?_cons, Option.bind_eq_bind, Option.bind_some]
          rw [hentry]
          rfl

/-- The same entry, queue and memory with the two directions exchanged. -/
def QueueEntry.mirror (entry : QueueEntry) : QueueEntry := ⟨entry.data, entry.next, entry.prev⟩

def mirrorMemory (m : Memory QueueEntry) : Memory QueueEntry := m.map (Option.map QueueEntry.mirror)

def State.mirror (s : State) : State :=
  ⟨mirrorMemory s.memory, ⟨s.queue.tail, s.queue.head, s.queue.size⟩⟩

theorem fetch_mirror (m : Memory QueueEntry) (a : Nat) :
    fetch (mirrorMemory m) a = (fetch m a).map QueueEntry.mirror := by
  unfold fetch mirrorMemory
  rw [List.getElem?_map]
  cases m[a]? with
  | none => rfl
  | some c => rfl

@[simp] theorem mirror_mirror (s : State) : s.mirror.mirror = s := by
  obtain ⟨m, q⟩ := s
  have hmemory : mirrorMemory (mirrorMemory m) = m := by
    unfold mirrorMemory
    rw [List.map_map]
    refine (List.map_congr_left (fun c _ => ?_)).trans (List.map_id m)
    cases c <;> rfl
  exact congrArg (State.mk · q) hmemory

theorem mirror_release (m : Memory QueueEntry) (a : Nat) :
    mirrorMemory (release m a) = release (mirrorMemory m) a := List.map_set

theorem mirror_store (m : Memory QueueEntry) (a : Nat) (entry : QueueEntry) :
    mirrorMemory (store m a entry) = store (mirrorMemory m) a entry.mirror := List.map_set

theorem mirror_allocate (m : Memory QueueEntry) (entry : QueueEntry) :
    mirrorMemory (allocate m entry) = allocate (mirrorMemory m) entry.mirror := List.map_append

theorem Holds.mirror {s : State} {l : List QueueValue} (h : Holds s l) : Holds s.mirror l.reverse := by
  obtain ⟨as, htwo, rfl, hsize⟩ := h
  have hrelabel (f : QueueEntry → Option Nat) (a : Nat) :
      (fetch s.mirror.memory a).map (fun c => f c.mirror) = (fetch s.memory a).map f := by
    show (fetch (mirrorMemory s.memory) a).map _ = _
    rw [fetch_mirror, Option.map_map]
    rfl
  refine ⟨as.reverse, ⟨?_, ?_, List.nodup_reverse.mpr htwo.nodup⟩, ?_, ?_⟩
  · exact htwo.backward.relabel (fun a _ => hrelabel QueueEntry.prev a)
  · rw [List.reverse_reverse]
    exact htwo.forward.relabel (fun a _ => hrelabel QueueEntry.next a)
  · unfold values
    rw [List.filterMap_reverse]
    congr 1
    refine values_congr (fun a _ => ?_)
    show (fetch (mirrorMemory s.memory) a).map _ = _
    rw [fetch_mirror, Option.map_map]
    rfl
  · rw [List.length_reverse]
    exact hsize

theorem assign_mirror {f g : QueueEntry → QueueEntry} (h : ∀ entry, g entry.mirror = (f entry).mirror)
    (m : Memory QueueEntry) (a : Nat) :
    assign (mirrorMemory m) a g = (assign m a f).map mirrorMemory := by
  unfold assign
  rw [fetch_mirror, Option.map_map, Option.map_map]
  refine congrArg (Option.map · (fetch m a)) (funext (fun entry => ?_))
  exact (congrArg (store (mirrorMemory m) a) (h entry)).trans (mirror_store m a (f entry)).symm

theorem queuePushTail_mirror (data : QueueValue) (allocates : Bool) (s : State) :
    queuePushTail data allocates s.mirror =
      (queuePushHead data allocates s).map (fun r => (r.1, r.2.mirror)) := by
  obtain ⟨m, head, tail, size⟩ := s
  have hlength : (mirrorMemory m).length = m.length := List.length_map _
  have hallocate : allocate (mirrorMemory m) ⟨data, head, none⟩ =
      mirrorMemory (allocate m ⟨data, none, head⟩) := (mirror_allocate m ⟨data, none, head⟩).symm
  unfold queuePushTail queuePushHead State.mirror
  dsimp only
  rw [hlength, hallocate]
  cases allocates with
  | false => rfl
  | true =>
      rw [if_neg (by decide), if_neg (by decide)]
      cases head with
      | none => rfl
      | some head =>
          have hassign := assign_mirror (f := fun entry => { entry with prev := some m.length })
            (g := fun entry => { entry with next := some m.length }) (fun _ => rfl)
            (allocate m ⟨data, none, some head⟩) head
          dsimp only
          rw [hassign]
          cases assign (allocate m ⟨data, none, some head⟩) head
            (fun entry => { entry with prev := some m.length }) with
          | none => rfl
          | some m' => rfl

theorem Holds.empty_mirror {s : State} {l : List QueueValue} (h : Holds s l) :
    queueIsEmpty s.mirror.queue = queueIsEmpty s.queue := by
  rw [Bool.eq_iff_iff, h.mirror.empty_iff, h.empty_iff]
  exact List.reverse_eq_nil_iff

theorem Holds.popTail_mirror {s : State} {l : List QueueValue} (h : Holds s l) :
    queuePopTail s.mirror = (queuePopHead s).map (fun r => (r.1, r.2.mirror)) := by
  have hempty := h.empty_mirror
  unfold queuePopTail queuePopHead
  rw [hempty]
  split
  · rfl
  · obtain ⟨m, head, tail, size⟩ := s
    unfold State.mirror
    dsimp only
    cases head with
    | none => rfl
    | some a =>
        dsimp only [Option.bind_eq_bind, Option.bind_some]
        rw [fetch_mirror]
        cases fetch m a with
        | none => rfl
        | some entry =>
            obtain ⟨data, prev, next⟩ := entry
            dsimp only [Option.map_some, Option.bind_some, QueueEntry.mirror]
            cases next with
            | none => exact congrArg (fun m => some (data, State.mk m _)) (mirror_release m a).symm
            | some b =>
                have hassign := assign_mirror (f := fun entry => { entry with prev := none })
                  (g := fun entry => { entry with next := none }) (fun _ => rfl) m b
                dsimp only
                rw [hassign]
                cases assign m b (fun entry => { entry with prev := none }) with
                | none => rfl
                | some m' => exact congrArg (fun m => some (data, State.mk m _)) (mirror_release m' a).symm

theorem Holds.peekTail_mirror {s : State} {l : List QueueValue} (h : Holds s l) :
    queuePeekTail s.mirror = queuePeekHead s := by
  have hempty := h.empty_mirror
  unfold queuePeekTail queuePeekHead
  rw [hempty]
  split
  · rfl
  · obtain ⟨m, head, tail, size⟩ := s
    unfold State.mirror
    dsimp only
    cases head with
    | none => rfl
    | some a =>
        dsimp only [Option.bind_eq_bind, Option.bind_some]
        rw [fetch_mirror]
        cases fetch m a with
        | none => rfl
        | some entry => rfl

theorem Holds.pushTail {s : State} {l : List QueueValue} (h : Holds s l) (data : QueueValue) :
    ∃ s', queuePushTail data true s = some (errSuccess, s') ∧ Holds s' (l ++ [data]) := by
  obtain ⟨t, hpush, ht⟩ := h.mirror.pushHead data
  have hmirror := queuePushTail_mirror data true s.mirror
  rw [mirror_mirror, hpush] at hmirror
  refine ⟨t.mirror, hmirror, ?_⟩
  have hback := ht.mirror
  rw [List.reverse_cons, List.reverse_reverse] at hback
  exact hback

theorem Holds.popTail {s : State} {v : QueueValue} {l : List QueueValue} (h : Holds s (l ++ [v])) :
    ∃ s', queuePopTail s = some (v, s') ∧ Holds s' l := by
  have hturned := h.mirror
  rw [List.reverse_append, List.reverse_singleton, List.singleton_append] at hturned
  obtain ⟨t, hpop, ht⟩ := hturned.popHead
  have hmirror := hturned.popTail_mirror
  rw [mirror_mirror, hpop] at hmirror
  refine ⟨t.mirror, hmirror, ?_⟩
  have hback := ht.mirror
  rw [List.reverse_reverse] at hback
  exact hback

theorem Holds.popTail_empty {s : State} (h : Holds s []) : queuePopTail s = some (queueNull, s) := by
  unfold queuePopTail
  rw [if_pos (h.empty_iff.mpr rfl)]

theorem Holds.peekTail {s : State} {l : List QueueValue} (h : Holds s l) :
    queuePeekTail s = some (l.getLast?.getD queueNull) := by
  have hmirror := h.mirror.peekTail_mirror
  rw [mirror_mirror, h.mirror.peekHead, List.head?_reverse] at hmirror
  exact hmirror

end ErSdk.LinkedQueue
