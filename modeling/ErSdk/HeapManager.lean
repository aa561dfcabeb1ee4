import Mathlib.Data.List.Forall2
import ErSdk.Basic
import ErSdk.Regions

namespace ErSdk.HeapManager

open Regions Error

variable {w : Nat}

def maxNumberOfHeaps : Nat := 5

def mainHeap : Int := 12120001

/-- What create_mspace_with_base compares a capacity with: `msize + TOP_FOOT_SIZE`, and the page
size of the system. -/
structure Mparams (w : Nat) where
  overhead : BitVec w
  pageSize : BitVec w

/-- A memory space, by the segment that it begins with. -/
structure Mspace (w : Nat) where
  base : BitVec w
  size : BitVec w
  deriving DecidableEq, Repr

def Mparams.admits (m : Mparams w) (capacity : BitVec w) : Bool :=
  m.overhead < capacity && capacity < -(m.overhead + m.pageSize)

def createMspaceWithBase (m : Mparams w) (base capacity : BitVec w) : Option (Mspace w) :=
  if m.admits capacity then some ⟨base, capacity⟩ else none

structure HeapConfig (w : Nat) where
  size : BitVec w
  name : List UInt8
  id : Int
  deriving DecidableEq, Repr

structure HeapSpace (w : Nat) where
  space : Option (Mspace w)
  heapUsage : BitVec w
  peakHeapUsage : BitVec w
  name : List UInt8
  id : Int
  base : BitVec w
  size : BitVec w
  deriving DecidableEq, Repr

/-- A heap that got no memory space keeps its other fields. -/
def hsConstruct (m : Mparams w) (heap : HeapSpace w) (base size : BitVec w) (name : List UInt8)
    (id : Int) : Int × HeapSpace w :=
  if base = 0 then (errSuccess, ⟨none, 0, 0, name.take 7, id, base, size⟩)
  else
    match createMspaceWithBase m base size with
    | none => (errFailure, { heap with space := none })
    | some space => (errSuccess, ⟨some space, 0, 0, name.take 7, id, base, size⟩)

/-- A call of hs_construct, and what it returned. -/
structure Construction (w : Nat) where
  base : BitVec w
  size : BitVec w
  id : Int
  error : Int
  deriving DecidableEq, Repr

def Construction.region (c : Construction w) : Region := ⟨c.base.toNat, c.size.toNat⟩

abbrev HeapArray (w : Nat) := Vector (HeapSpace w) maxNumberOfHeaps

/-- The running pointers of hm_init, `heap_array`, and the calls of hs_construct so far. -/
structure Layout (w : Nat) where
  heaps : HeapArray w
  heap : Nat
  heapBase : BitVec w
  calls : List (Construction w)

/-- `hs_construct(heap++, heap_base, ..)`, and then `heap_base += size`. The test of the number of
heaps keeps the pointer inside of the array. -/
def Layout.construct (m : Mparams w) (l : Layout w) (c : HeapConfig w) : Int × Layout w :=
  match l.heaps[l.heap]? with
  | none => (errFailure, l)
  | some heap =>
      let r := hsConstruct m heap l.heapBase c.size c.name c.id
      (r.1, { heaps := l.heaps.setIfInBounds l.heap r.2
              heap := l.heap + 1
              heapBase := l.heapBase + c.size
              calls := l.calls ++ [⟨l.heapBase, c.size, c.id, r.1⟩] })

/-- The loop over the configured heaps, in which no result stays. -/
def Layout.constructAll (m : Mparams w) (l : Layout w) (confs : List (HeapConfig w)) : Layout w :=
  confs.foldl (fun l c => (l.construct m c).2) l

def totalSize (confs : List (HeapConfig w)) : BitVec w := confs.foldl (fun t c => t + c.size) 0#w

/-- The first free entry of the table of mem_check.c gets the heap. -/
def memCheckRegisterHeap : List (Option Nat) → Nat → List (Option Nat)
  | [], _ => []
  | none :: table, heap => some heap :: table
  | some h :: table, heap => some h :: memCheckRegisterHeap table heap

def registerHeaps (heaps : HeapArray w) (table : List (Option Nat)) : List (Option Nat) :=
  (List.range maxNumberOfHeaps).foldl (fun table i =>
    if heaps[i]?.any (fun h => h.id ≠ 0) then memCheckRegisterHeap table i else table) table

/-- The error code, and what hm_init leaves behind. -/
structure Outcome (w : Nat) where
  code : Int
  heaps : HeapArray w
  table : List (Option Nat)
  calls : List (Construction w)

/-- The configuration that the main heap is constructed by, in the registered buffer. -/
def mainConfig (confs : List (HeapConfig w)) (size : BitVec w) : HeapConfig w :=
  ⟨size - totalSize confs, bytes "Main", mainHeap⟩

/-- Without a buffer the main heap is that of the allocator, and the others get a block of it. -/
def hmInit (m : Mparams w) (malloc : BitVec w → Option (BitVec w)) (confs : List (HeapConfig w))
    (heaps : HeapArray w) (table : List (Option Nat)) (base size : BitVec w) : Outcome w :=
  if confs.length + 1 > maxNumberOfHeaps then ⟨errFailure, heaps, table, []⟩
  else if base ≠ 0 then
    let l := Layout.constructAll m ⟨heaps, 0, base, []⟩ confs
    let (error, l) := l.construct m (mainConfig confs size)
    if error ≠ errSuccess then ⟨error, l.heaps, table, l.calls⟩
    else ⟨errSuccess, l.heaps, registerHeaps l.heaps table, l.calls⟩
  else
    let (_, l) := Layout.construct m ⟨heaps, 0, 0, []⟩ ⟨0, bytes "Normal", mainHeap⟩
    match malloc (totalSize confs) with
    | none => ⟨errFailure, l.heaps, table, l.calls⟩
    | some block =>
        let l := Layout.constructAll m { l with heapBase := block } confs
        ⟨errSuccess, l.heaps, registerHeaps l.heaps table, l.calls⟩

def hmFindHeap (heaps : HeapArray w) (id : Int) : Option (HeapSpace w) :=
  heaps.find? (fun h => h.id = id)

/-- Whether hs_construct succeeds: a NULL base gives a heap without a space of its own. -/
def Mparams.constructs (m : Mparams w) (base size : BitVec w) : Bool := base = 0 || m.admits size

def Mparams.outcome (m : Mparams w) (base size : BitVec w) : Int :=
  if m.constructs base size then errSuccess else errFailure

def Built (c : Construction w) (h : HeapSpace w) : Prop :=
  c.error = errSuccess → h.id = c.id ∧ (c.base ≠ 0 → h.space = some ⟨c.base, c.size⟩)

theorem hsConstruct_built (m : Mparams w) (heap : HeapSpace w) (base size : BitVec w)
    (name : List UInt8) (id : Int) :
    (hsConstruct m heap base size name id).1 = m.outcome base size ∧
      Built ⟨base, size, id, m.outcome base size⟩ (hsConstruct m heap base size name id).2 := by
  unfold hsConstruct createMspaceWithBase Built Mparams.outcome Mparams.constructs
  by_cases hbase : base = 0
  · rw [if_pos hbase]
    simp [hbase]
  · rw [if_neg hbase]
    have hzero : base ≠ 0#w := hbase
    cases hsize : m.admits size <;> simp [hzero]

def constructions (m : Mparams w) : BitVec w → List (HeapConfig w) → List (Construction w)
  | _, [] => []
  | base, c :: confs =>
      ⟨base, c.size, c.id, m.outcome base c.size⟩ :: constructions m (base + c.size) confs

theorem construct_spec (m : Mparams w) {l : Layout w} (hroom : l.heap < maxNumberOfHeaps)
    (c : HeapConfig w) : ∃ h, Built ⟨l.heapBase, c.size, c.id, m.outcome l.heapBase c.size⟩ h ∧
      l.construct m c = (m.outcome l.heapBase c.size, ⟨l.heaps.setIfInBounds l.heap h, l.heap + 1,
        l.heapBase + c.size,
        l.calls ++ [⟨l.heapBase, c.size, c.id, m.outcome l.heapBase c.size⟩]⟩) := by
  obtain ⟨hcode, hbuilt⟩ :=
    hsConstruct_built m l.heaps[l.heap] l.heapBase c.size c.name c.id
  refine ⟨_, hbuilt, ?_⟩
  unfold Layout.construct
  rw [Vector.getElem?_eq_getElem hroom]
  dsimp only
  rw [hcode]

theorem totalSize_cons (c : HeapConfig w) (confs : List (HeapConfig w)) :
    totalSize (c :: confs) = c.size + totalSize confs := by
  have hfold (t : BitVec w) : confs.foldl (fun t c => t + c.size) t = t + totalSize confs := by
    unfold totalSize
    induction confs generalizing t with
    | nil => exact (BitVec.add_zero t).symm
    | cons d confs ih =>
        rw [List.foldl_cons, List.foldl_cons, ih, ih (0#w + d.size), ← BitVec.add_assoc,
          ← BitVec.add_assoc, BitVec.add_zero]
  exact (hfold (0#w + c.size)).trans (by rw [BitVec.zero_add])

theorem totalSize_append (confs : List (HeapConfig w)) (c : HeapConfig w) :
    totalSize (confs ++ [c]) = totalSize confs + c.size := by
  unfold totalSize
  rw [List.foldl_append]
  rfl

theorem constructions_append (m : Mparams w) (base : BitVec w) (confs : List (HeapConfig w))
    (c : HeapConfig w) : constructions m base (confs ++ [c]) = constructions m base confs ++
      [⟨base + totalSize confs, c.size, c.id, m.outcome (base + totalSize confs) c.size⟩] := by
  induction confs generalizing base with
  | nil =>
      have hzero : base + totalSize [] = base := BitVec.add_zero base
      rw [hzero]
      rfl
  | cons d confs ih =>
      rw [totalSize_cons, ← BitVec.add_assoc]
      exact congrArg (_ :: ·) (ih (base + d.size))

/-- The heaps of a list have been constructed, in the first entries of the array. -/
structure Made (m : Mparams w) (base : BitVec w) (done : List (HeapConfig w)) (l : Layout w) :
    Prop where
  heap : l.heap = done.length
  heapBase : l.heapBase = base + totalSize done
  calls : l.calls = constructions m base done
  built : ∃ made rest, l.heaps.toList = made ++ rest ∧ List.Forall₂ Built l.calls made

theorem length_constructions (m : Mparams w) (base : BitVec w) (confs : List (HeapConfig w)) :
    (constructions m base confs).length = confs.length := by
  induction confs generalizing base with
  | nil => rfl
  | cons c confs ih => exact congrArg (· + 1) (ih _)

theorem construct_made {m : Mparams w} {base : BitVec w} {done : List (HeapConfig w)}
    {l : Layout w} (h : Made m base done l) (hroom : done.length < maxNumberOfHeaps)
    (c : HeapConfig w) : Made m base (done ++ [c]) (l.construct m c).2 ∧
      (l.construct m c).1 = m.outcome (base + totalSize done) c.size := by
  obtain ⟨made, rest, hheaps, hbuilt⟩ := h.built
  obtain ⟨new, hnew, hstep⟩ := construct_spec m (h.heap ▸ hroom) c
  have hlen : made.length = l.heap := by
    rw [← hbuilt.length_eq, h.calls, length_constructions, h.heap]
  rw [hstep]
  refine ⟨⟨?_, ?_, ?_, made ++ [new], rest.tail, ?_, ?_⟩, by rw [h.heapBase]⟩
  · rw [List.length_append, h.heap]
    rfl
  · rw [totalSize_append, ← BitVec.add_assoc, h.heapBase]
  · rw [constructions_append, h.calls, h.heapBase]
  · have hfull : rest ≠ [] := by
      rintro rfl
      have htotal := congrArg List.length hheaps
      rw [Vector.length_toList, List.append_nil, hlen, h.heap] at htotal
      omega
    obtain ⟨old, rest, rfl⟩ := List.exists_cons_of_ne_nil hfull
    rw [Vector.toList_setIfInBounds, hheaps, ← hlen]
    simp
  · exact List.rel_append hbuilt (.cons hnew .nil)

theorem constructAll_made {m : Mparams w} {base : BitVec w} {done : List (HeapConfig w)}
    (confs : List (HeapConfig w)) {l : Layout w} (h : Made m base done l)
    (hroom : done.length + confs.length ≤ maxNumberOfHeaps) :
    Made m base (done ++ confs) (l.constructAll m confs) := by
  induction confs generalizing done l with
  | nil =>
      rw [List.append_nil]
      exact h
  | cons c confs ih =>
      rw [List.length_cons] at hroom
      have hnext := ih (construct_made h (by omega) c).1
        (by rw [List.length_append, List.length_singleton]; omega)
      rw [List.append_assoc] at hnext
      exact hnext

theorem hmInit_spec (m : Mparams w) (malloc : BitVec w → Option (BitVec w))
    {confs : List (HeapConfig w)} (heaps : HeapArray w) (table : List (Option Nat))
    {base : BitVec w} (size : BitVec w) (hbase : base ≠ 0)
    (hroom : confs.length + 1 ≤ maxNumberOfHeaps) : ∃ l, Made m base (confs ++ [mainConfig confs size]) l ∧
      (hmInit m malloc confs heaps table base size).code =
        m.outcome (base + totalSize confs) (size - totalSize confs) ∧
      (hmInit m malloc confs heaps table base size).heaps = l.heaps ∧
      (hmInit m malloc confs heaps table base size).calls = l.calls := by
  have hstart : Made m base [] ⟨heaps, 0, base, []⟩ :=
    ⟨rfl, (BitVec.add_zero base).symm, rfl, [], heaps.toList, rfl, .nil⟩
  have hconfs := constructAll_made confs hstart (by simp; omega)
  obtain ⟨hmade, hcode⟩ := construct_made hconfs (by exact hroom) (mainConfig confs size)
  refine ⟨_, hmade, ?_⟩
  unfold hmInit
  rw [if_neg (by omega), if_pos hbase]
  dsimp only
  split
  · exact ⟨hcode, rfl, rfl⟩
  · rename_i hok
    rw [ne_eq, not_not] at hok
    exact ⟨hok.symm.trans hcode, rfl, rfl⟩

theorem hmFindHeap_built {heaps : HeapArray w} {calls : List (Construction w)}
    {made rest : List (HeapSpace w)} (hheaps : heaps.toList = made ++ rest)
    (hbuilt : List.Forall₂ Built calls made) (hok : ∀ c ∈ calls, c.error = errSuccess)
    (hbase : ∀ c ∈ calls, c.base ≠ 0) {c : Construction w} (hc : c ∈ calls) :
    ∃ h, hmFindHeap heaps c.id = some h ∧ h.id = c.id ∧ h.space.isSome := by
  have hmade : ∃ h ∈ made, h.id = c.id := by
    obtain ⟨n, hn, rfl⟩ := List.mem_iff_getElem.mp hc
    have hn' : n < made.length := hbuilt.length_eq ▸ hn
    exact ⟨made[n], List.getElem_mem hn', (hbuilt.get hn hn' (hok _ (List.getElem_mem hn))).1⟩
  have hspace : ∀ h ∈ made, h.space.isSome := by
    intro h hh
    obtain ⟨n, hn', rfl⟩ := List.mem_iff_getElem.mp hh
    have hn : n < calls.length := hbuilt.length_eq ▸ hn'
    have hmem := List.getElem_mem hn
    exact Option.isSome_of_eq_some ((hbuilt.get hn hn' (hok _ hmem)).2 (hbase _ hmem))
  obtain ⟨h₀, hh₀, hid₀⟩ := hmade
  obtain ⟨h, hfind⟩ := Option.isSome_iff_exists.mp
    ((List.find?_isSome (p := fun h => decide (h.id = c.id))).mpr ⟨h₀, hh₀, decide_eq_true hid₀⟩)
  have hid := List.find?_some hfind
  refine ⟨h, ?_, of_decide_eq_true hid, hspace h (List.mem_of_find?_eq_some hfind)⟩
  unfold hmFindHeap
  rw [← Vector.find?_toList, hheaps, List.find?_append, hfind]
  rfl

/-- The sizes of the configured heaps, as numbers that do not wrap around. -/
def sizes (confs : List (HeapConfig w)) : List Nat := confs.map (fun c => c.size.toNat)

theorem toNat_totalSize {confs : List (HeapConfig w)} (h : (sizes confs).sum < 2 ^ w) :
    (totalSize confs).toNat = (sizes confs).sum := by
  induction confs with
  | nil => rfl
  | cons c confs ih =>
      have hsum : (sizes (c :: confs)).sum = c.size.toNat + (sizes confs).sum := List.sum_cons
      rw [hsum] at h ⊢
      have hrest := ih (by omega)
      rw [totalSize_cons, BitVec.toNat_add_of_lt (by omega), hrest]

theorem regions_consecutive (m : Mparams w) {base : BitVec w} {confs : List (HeapConfig w)}
    (h : base.toNat + (sizes confs).sum < 2 ^ w) :
    (constructions m base confs).map Construction.region =
      consecutive base.toNat (sizes confs) := by
  induction confs generalizing base with
  | nil => rfl
  | cons c confs ih =>
      have hsum : (sizes (c :: confs)).sum = c.size.toNat + (sizes confs).sum := List.sum_cons
      rw [hsum] at h
      have hnext : (base + c.size).toNat = base.toNat + c.size.toNat :=
        BitVec.toNat_add_of_lt (by omega)
      have hrest := ih (show (base + c.size).toNat + (sizes confs).sum < 2 ^ w by omega)
      rw [hnext] at hrest
      exact congrArg (_ :: ·) hrest

theorem sizes_mainConfig {confs : List (HeapConfig w)} {size : BitVec w}
    (h : (sizes confs).sum < size.toNat) :
    (sizes (confs ++ [mainConfig confs size])).sum = size.toNat := by
  have htotal := toNat_totalSize (h.trans size.isLt)
  have hmain : (size - totalSize confs).toNat = size.toNat - (sizes confs).sum := by
    rw [BitVec.toNat_sub_of_le (by rw [BitVec.le_def]; omega), htotal]
  unfold sizes at *
  rw [List.map_append, List.sum_append]
  show _ + (size - totalSize confs).toNat + 0 = _
  omega

/-- What a successful hm_init promises of the buffer and of the heaps in it. -/
structure LaidOut (confs : List (HeapConfig w)) (base size : BitVec w) (o : Outcome w) : Prop where
  calls : ∃ rest, o.calls.map (fun c => (c.id, c.size)) =
    confs.map (fun c => (c.id, c.size)) ++ [(mainHeap, rest)]
  apart : o.calls.Pairwise (fun c d => c.region.Apart d.region)
  inside : ∀ c ∈ o.calls, c.region.Inside ⟨base.toNat, size.toNat⟩
  constructed : ∀ c ∈ o.calls, c.error = errSuccess
  found : ∀ c ∈ o.calls, ∃ h, hmFindHeap o.heaps c.id = some h ∧ h.id = c.id ∧ h.space.isSome

/-- The result of hm_init tells whether the heaps are there. -/
def Reliable (confs : List (HeapConfig w)) (base size : BitVec w) (o : Outcome w) : Prop :=
  (o.code = errSuccess → LaidOut confs base size o) ∧
    (size.toNat ≤ (sizes confs).sum ∨ (∃ c ∈ o.calls, c.error ≠ errSuccess) → o.code ≠ errSuccess)

theorem map_constructions (m : Mparams w) (base : BitVec w) (confs : List (HeapConfig w)) :
    (constructions m base confs).map (fun c => (c.id, c.size)) =
      confs.map (fun c => (c.id, c.size)) := by
  induction confs generalizing base with
  | nil => rfl
  | cons c confs ih => exact congrArg (_ :: ·) (ih (base + c.size))

theorem error_constructions {m : Mparams w} {base : BitVec w} {confs : List (HeapConfig w)} :
    ∀ c ∈ constructions m base confs, c.error = m.outcome c.base c.size := by
  induction confs generalizing base with
  | nil => exact nofun
  | cons d confs ih =>
      intro c hc
      rcases List.mem_cons.mp hc with rfl | hc
      · rfl
      · exact ih c hc

theorem constructions_inside {m : Mparams w} {base : BitVec w} {confs : List (HeapConfig w)}
    (h : base.toNat + (sizes confs).sum < 2 ^ w) :
    ∀ c ∈ constructions m base confs, c.region.Inside ⟨base.toNat, (sizes confs).sum⟩ := by
  intro c hc
  have hmem := List.mem_map_of_mem (f := Construction.region) hc
  rw [regions_consecutive m h] at hmem
  exact consecutive_inside _ hmem

theorem constructions_apart {m : Mparams w} {base : BitVec w} {confs : List (HeapConfig w)}
    (h : base.toNat + (sizes confs).sum < 2 ^ w) :
    (constructions m base confs).Pairwise (fun c d => c.region.Apart d.region) := by
  have happart := consecutive_apart base.toNat (sizes confs)
  rw [← regions_consecutive m h, List.pairwise_map] at happart
  exact happart

theorem outcome_success {m : Mparams w} {base size : BitVec w} :
    m.outcome base size = errSuccess ↔ m.constructs base size = true := by
  unfold Mparams.outcome
  split
  · rename_i h
    exact iff_of_true rfl h
  · rename_i h
    exact iff_of_false (by decide) h

/-- The heaps of a list lie at places that are not NULL, and are there just when their sizes are
admitted. -/
theorem constructed_iff {m : Mparams w} {base : BitVec w} {confs : List (HeapConfig w)}
    (hbase : ∀ c ∈ constructions m base confs, c.base ≠ 0) :
    (∀ c ∈ constructions m base confs, c.error = errSuccess) ↔
      ∀ c ∈ confs, m.admits c.size = true := by
  have hcall (c : Construction w) (hc : c ∈ constructions m base confs) :
      c.error = errSuccess ↔ m.admits c.size = true := by
    rw [error_constructions c hc, outcome_success, Mparams.constructs, Bool.or_eq_true,
      decide_eq_true_iff, or_iff_right (hbase c hc)]
  have hmap := map_constructions m base confs
  constructor
  · intro h c hc
    have hmem := List.mem_map_of_mem (f := fun c => (c.id, c.size)) hc
    rw [← hmap] at hmem
    obtain ⟨call, hcalled, heq⟩ := List.mem_map.mp hmem
    rw [← (Prod.mk.inj heq).2]
    exact (hcall call hcalled).mp (h call hcalled)
  · intro h call hcalled
    have hmem := List.mem_map_of_mem (f := fun c => (c.id, c.size)) hcalled
    rw [hmap] at hmem
    obtain ⟨c, hc, heq⟩ := List.mem_map.mp hmem
    rw [hcall call hcalled, ← (Prod.mk.inj heq).2]
    exact h c hc

section

variable {confs : List (HeapConfig w)} {base size : BitVec w}

theorem wraps_not (hbuffer : base.toNat + size.toNat < 2 ^ w)
    (hfits : (sizes confs).sum < size.toNat) :
    base.toNat + (sizes (confs ++ [mainConfig confs size])).sum < 2 ^ w := by
  rw [sizes_mainConfig hfits]
  exact hbuffer

theorem bases_ne_zero (m : Mparams w) (hbase : base ≠ 0) (hbuffer : base.toNat + size.toNat < 2 ^ w)
    (hfits : (sizes confs).sum < size.toNat) :
    ∀ c ∈ constructions m base (confs ++ [mainConfig confs size]), c.base ≠ 0 := by
  intro c hc hzero
  have hin := (constructions_inside (wraps_not hbuffer hfits) c hc).1
  have hstart : c.base.toNat = 0 := by
    rw [hzero]
    rfl
  exact hbase (BitVec.eq_of_toNat_eq (Nat.le_zero.mp (hin.trans hstart.le)))

theorem laidOut {m : Mparams w} {o : Outcome w} (hbase : base ≠ 0)
    (hbuffer : base.toNat + size.toNat < 2 ^ w) (hfits : (sizes confs).sum < size.toNat)
    (hcalls : o.calls = constructions m base (confs ++ [mainConfig confs size]))
    (hbuilt : ∃ made rest, o.heaps.toList = made ++ rest ∧ List.Forall₂ Built o.calls made)
    (hok : ∀ c ∈ constructions m base (confs ++ [mainConfig confs size]), c.error = errSuccess) :
    LaidOut confs base size o := by
  have hwraps := wraps_not hbuffer hfits
  obtain ⟨made, rest, harray, hbuilt⟩ := hbuilt
  rw [hcalls] at hbuilt
  refine ⟨⟨size - totalSize confs, ?_⟩, ?_, ?_, hcalls ▸ hok, ?_⟩
  · rw [hcalls, map_constructions, List.map_append]
    rfl
  · rw [hcalls]
    exact constructions_apart hwraps
  · rw [hcalls]
    intro c hc
    have hin := constructions_inside hwraps c hc
    rwa [sizes_mainConfig hfits] at hin
  · rw [hcalls]
    exact fun c hc => hmFindHeap_built harray hbuilt hok (bases_ne_zero m hbase hbuffer hfits) hc

end

/-- hm_init is reliable just when it rejects the configuration, when the main heap fails in what
is left of the buffer, or when nothing fails and there is something left. -/
theorem reliable_iff (m : Mparams w) (malloc : BitVec w → Option (BitVec w))
    (confs : List (HeapConfig w)) (heaps : HeapArray w) (table : List (Option Nat))
    {base size : BitVec w} (hbase : base ≠ 0) (hbuffer : base.toNat + size.toNat < 2 ^ w) :
    Reliable confs base size (hmInit m malloc confs heaps table base size) ↔
      confs.length + 1 > maxNumberOfHeaps ∨
      m.constructs (base + totalSize confs) (size - totalSize confs) = false ∨
      (∀ c ∈ confs, m.admits c.size = true) ∧ (sizes confs).sum < size.toNat := by
  by_cases hroom : confs.length + 1 > maxNumberOfHeaps
  · have hcode : (hmInit m malloc confs heaps table base size).code ≠ errSuccess := by
      unfold hmInit
      rw [if_pos hroom]
      show errFailure ≠ errSuccess
      decide
    exact iff_of_true ⟨fun h => absurd h hcode, fun _ => hcode⟩ (.inl hroom)
  · obtain ⟨l, hmade, hcode, hheaps, hcalls⟩ :=
      hmInit_spec m malloc heaps table size hbase (Nat.not_lt.mp hroom)
    rw [or_iff_right hroom]
    cases hmain : m.constructs (base + totalSize confs) (size - totalSize confs) with
    | false =>
        have hfailed : (hmInit m malloc confs heaps table base size).code ≠ errSuccess := by
          rw [hcode, ne_eq, outcome_success, hmain]
          exact nofun
        exact iff_of_true ⟨fun h => absurd h hfailed, fun _ => hfailed⟩ (.inl rfl)
    | true =>
        have hok : (hmInit m malloc confs heaps table base size).code = errSuccess := by
          rw [hcode, outcome_success, hmain]
        rw [or_iff_right nofun]
        constructor
        · rintro ⟨-, hfails⟩
          have hfits : (sizes confs).sum < size.toNat := by
            by_contra hge
            exact hfails (.inl (Nat.not_lt.mp hge)) hok
          refine ⟨fun c hc => ?_, hfits⟩
          refine (constructed_iff (bases_ne_zero m hbase hbuffer hfits)).mp (fun call hcall => ?_) c
            (List.mem_append_left _ hc)
          by_contra herror
          exact hfails (.inr ⟨call, by rw [hcalls, hmade.calls]; exact hcall, herror⟩) hok
        · rintro ⟨hadmits, hfits⟩
          have hbases := bases_ne_zero m hbase hbuffer hfits
          have hconstructed : ∀ c ∈ constructions m base (confs ++ [mainConfig confs size]),
              c.error = errSuccess := by
            intro c hc
            rw [constructions_append] at hc hbases
            rcases List.mem_append.mp hc with hc | hc
            · exact (constructed_iff (fun c hc => hbases c (List.mem_append_left _ hc))).mpr hadmits c hc
            · obtain rfl := List.mem_singleton.mp hc
              exact outcome_success.mpr hmain
          have hcalled := hcalls.trans hmade.calls
          refine ⟨fun _ => laidOut hbase hbuffer hfits hcalled (by rw [hheaps, hcalls]; exact hmade.built)
            hconstructed, ?_⟩
          rw [hcalled]
          rintro (hge | ⟨c, hc, herror⟩)
          · exact absurd hge (Nat.not_le.mpr hfits)
          · exact absurd (hconstructed c hc) herror

def emptyArray (w : Nat) : HeapArray w := Vector.replicate maxNumberOfHeaps ⟨none, 0, 0, [], 0, 0, 0⟩

def stringHeap : Int := 12120002

/-- A buffer of 20000 bytes with a string heap of 2000. -/
theorem reliable_iff_string : Reliable [⟨2000, bytes "String", stringHeap⟩] 4096 20000
    (hmInit (w := 32) ⟨600, 4096⟩ (fun _ => none) [⟨2000, bytes "String", stringHeap⟩] (emptyArray 32) []
      4096 20000) :=
  (reliable_iff ⟨600, 4096⟩ (fun _ => none) [⟨2000, bytes "String", stringHeap⟩] (emptyArray 32) []
    (by decide) (by decide)).mpr (.inr (.inr ⟨by decide, by decide⟩))

/-- A string heap that is too small for its memory space: the failure is overwritten by the main
heap's success. -/
theorem string_heap_missing : ¬ Reliable [⟨500, bytes "String", stringHeap⟩] 4096 20000
    (hmInit (w := 32) ⟨600, 4096⟩ (fun _ => none) [⟨500, bytes "String", stringHeap⟩] (emptyArray 32) []
      4096 20000) :=
  fun h => h.2 (.inr ⟨⟨4096, 500, stringHeap, errFailure⟩, by decide, by decide⟩) (by decide)

end ErSdk.HeapManager
