import Mathlib.Data.List.Sublists
import ErSdk.Basic
import ErSdk.OverwritingRing
import ErSdk.Runs

namespace ErSdk.Packets

open CyclicIndex OverwritingRing Runs

variable {n m : Nat}

/-- An entry; its buffer is a place in the pool. -/
structure PacketBufferEntry where
  buffer : Nat
  size : Nat
  deriving DecidableEq, Repr

/-- A packet buffer of `n` entries, for packets of at most `m` bytes. -/
structure PacketBuffer (n m : Nat) where
  packets : Vector PacketBufferEntry n
  readIndex : Fin n
  writeIndex : Fin n
  pool : Vector UInt8 (n * m)
  placed : ∀ i : Fin n, (packets.get i).buffer = i * m
  short : ∀ i : Fin n, (packets.get i).size ≤ m

def memcpy {k : Nat} (pool : Vector UInt8 k) (place : Nat) (src : List UInt8) : Vector UInt8 k :=
  Vector.ofFn (fun i => if place ≤ i ∧ i < place + src.length then src.getD (i - place) 0 else pool.get i)

def bytesAt {k : Nat} (pool : Vector UInt8 k) (place size : Nat) : List UInt8 :=
  (pool.toList.drop place).take size

def emptyBuffer (hn : 0 < n) (pool : Vector UInt8 (n * m)) : PacketBuffer n m where
  packets := Vector.ofFn (fun i => ⟨i * m, 0⟩)
  readIndex := ⟨0, hn⟩
  writeIndex := ⟨0, hn⟩
  pool
  placed i := by simp [get_eq]
  short i := by simp [get_eq]

/-- The three allocations. An error goes through a `bool` and becomes 1. -/
def packetBufferNew (hn : 0 < n) (object packets : Bool) (pool : Option (Vector UInt8 (n * m))) :
    Except Int (PacketBuffer n m) :=
  if !object then .error 1
  else if !packets then .error 1
  else
    match pool with
    | none => .error 1
    | some pool => .ok (emptyBuffer hn pool)

def resize (packets : Vector PacketBufferEntry n) (i : Fin n) (size : Nat) :
    Vector PacketBufferEntry n :=
  packets.set i { packets.get i with size } i.isLt

@[simp] theorem resize_buffer (packets : Vector PacketBufferEntry n) (i : Fin n) (size : Nat)
    (j : Fin n) : ((resize packets i size).get j).buffer = (packets.get j).buffer := by
  simp only [resize, get_eq, Fin.getElem_fin, Vector.getElem_set]
  split
  · rename_i heq
    simp only [heq]
  · rfl

theorem resize_size (packets : Vector PacketBufferEntry n) (i : Fin n) (size : Nat) (j : Fin n) :
    ((resize packets i size).get j).size = if i = j then size else (packets.get j).size := by
  simp only [resize, get_eq, Fin.getElem_fin, Vector.getElem_set, Fin.ext_iff]
  split <;> rfl

theorem resize_short {packets : Vector PacketBufferEntry n} (h : ∀ i : Fin n, (packets.get i).size ≤ m)
    (i : Fin n) {size : Nat} (hsize : size ≤ m) (j : Fin n) : ((resize packets i size).get j).size ≤ m := by
  rw [resize_size]
  split
  · exact hsize
  · exact h j

def packetBufferPush (self : PacketBuffer n m) (buf : List UInt8) : PacketBuffer n m :=
  if buf.length = 0 then self
  else
    let size := min buf.length m
    { self with
      packets := resize self.packets self.writeIndex size
      pool := memcpy self.pool (self.packets.get self.writeIndex).buffer (buf.take size)
      writeIndex := next self.writeIndex
      placed := fun i => by rw [resize_buffer]; exact self.placed i
      short := resize_short self.short _ (Nat.min_le_right _ _) }

/-- With the bytes that are copied to the reader's buffer of `buflen` bytes. -/
def packetBufferPop (self : PacketBuffer n m) (buflen : Nat) : List UInt8 × PacketBuffer n m :=
  let currentPacket := self.packets.get self.readIndex
  if currentPacket.size = 0 then ([], self)
  else
    let toCopy := min currentPacket.size buflen
    (bytesAt self.pool currentPacket.buffer toCopy,
      { self with
        packets := resize self.packets self.readIndex 0
        readIndex := next self.readIndex
        placed := fun i => by rw [resize_buffer]; exact self.placed i
        short := resize_short self.short _ (Nat.zero_le _) })

theorem bytesAt_getElem {k : Nat} {pool : Vector UInt8 k} {place size j : Nat}
    (hj : j < (bytesAt pool place size).length) (hk : place + j < k) :
    (bytesAt pool place size)[j] = pool[place + j] := by
  simp [bytesAt]

theorem length_bytesAt {k : Nat} (pool : Vector UInt8 k) {place size : Nat} (h : place + size ≤ k) :
    (bytesAt pool place size).length = size := by
  simp only [bytesAt, List.length_take, List.length_drop, Vector.length_toList]
  omega

theorem bytesAt_memcpy {k : Nat} (pool : Vector UInt8 k) (place : Nat) (src : List UInt8)
    (h : place + src.length ≤ k) : bytesAt (memcpy pool place src) place src.length = src := by
  apply List.ext_getElem
  · exact length_bytesAt _ h
  · intro j hj hsrc
    rw [bytesAt_getElem hj (by omega)]
    simp [memcpy, hsrc]

theorem bytesAt_memcpy_other {k : Nat} (pool : Vector UInt8 k) {place place' size : Nat}
    {src : List UInt8} (hsize : place' + size ≤ k)
    (h : place' + size ≤ place ∨ place + src.length ≤ place') :
    bytesAt (memcpy pool place src) place' size = bytesAt pool place' size := by
  apply List.ext_getElem
  · rw [length_bytesAt _ hsize, length_bytesAt _ hsize]
  · intro j hj hj'
    have hlt : j < size := by
      rw [length_bytesAt _ hsize] at hj
      exact hj
    rw [bytesAt_getElem hj (by omega), bytesAt_getElem hj' (by omega)]
    simp only [memcpy, Vector.getElem_ofFn]
    rw [if_neg (by omega)]
    rfl

def content (self : PacketBuffer n m) (i : Fin n) : Option (List UInt8) :=
  if (self.packets.get i).size = 0 then none
  else some (bytesAt self.pool (self.packets.get i).buffer (self.packets.get i).size)

def ring (self : PacketBuffer n m) : CellRing (List UInt8) n :=
  ⟨Vector.ofFn (content self), self.readIndex, self.writeIndex⟩

theorem ring_cells (self : PacketBuffer n m) (i : Fin n) : (ring self).cells.get i = content self i := by
  simp [ring, get_eq]

theorem place_fits (i : Fin n) : i * m + m ≤ n * m := by
  rw [← Nat.succ_mul]
  exact Nat.mul_le_mul_right m i.isLt

theorem places_apart {i j : Fin n} (h : i ≠ j) : i * m + m ≤ j * m ∨ j * m + m ≤ i * m := by
  rw [← Nat.succ_mul, ← Nat.succ_mul]
  have hne : i.val ≠ j.val := fun heq => h (Fin.ext heq)
  obtain hlt | hlt := Nat.lt_or_gt_of_ne hne
  · exact .inl (Nat.mul_le_mul_right m hlt)
  · exact .inr (Nat.mul_le_mul_right m hlt)

theorem content_push (hm : 0 < m) (self : PacketBuffer n m) {buf : List UInt8} (hbuf : buf ≠ []) :
    content (packetBufferPush self buf) self.writeIndex = some (buf.take m) := by
  have hpos : 0 < buf.length := List.length_pos_iff.mpr hbuf
  have hfits := place_fits (m := m) self.writeIndex
  have htake : buf.take (min buf.length m) = buf.take m := by
    rw [List.take_eq_take_iff]
    omega
  have hlen : (buf.take m).length = min buf.length m := by
    rw [List.length_take, Nat.min_comm]
  have hcopy := bytesAt_memcpy self.pool (self.writeIndex * m) (buf.take m) (by omega)
  rw [hlen] at hcopy
  unfold packetBufferPush content
  rw [if_neg (Nat.ne_of_gt hpos)]
  dsimp only
  rw [resize_size, if_pos rfl, if_neg (by omega), resize_buffer, self.placed, htake, hcopy]

theorem content_push_other (self : PacketBuffer n m) {buf : List UInt8} {i : Fin n}
    (h : self.writeIndex ≠ i) : content (packetBufferPush self buf) i = content self i := by
  unfold packetBufferPush
  split
  · rfl
  · unfold content
    dsimp only
    have hsize := self.short i
    have hfits := place_fits (m := m) i
    have hapart := places_apart (m := m) h
    have hlen : (buf.take (min buf.length m)).length ≤ m := by
      rw [List.length_take]
      omega
    rw [resize_size, if_neg h, resize_buffer, self.placed, self.placed,
      bytesAt_memcpy_other _ (by omega) (by omega)]

theorem ring_push (hm : 0 < m) (self : PacketBuffer n m) {buf : List UInt8} (hbuf : buf ≠ []) :
    ring (packetBufferPush self buf) = (ring self).push (buf.take m) := by
  have hwrite : (packetBufferPush self buf).writeIndex = next self.writeIndex := by
    unfold packetBufferPush
    rw [if_neg (fun hz => hbuf (List.eq_nil_of_length_eq_zero hz))]
  have hread : (packetBufferPush self buf).readIndex = self.readIndex := by
    unfold packetBufferPush
    split <;> rfl
  refine CellRing.ext (fun i => ?_) hread hwrite
  rw [ring_cells, CellRing.push_cells]
  split
  · rename_i heq
    rw [← heq]
    exact content_push hm self hbuf
  · rename_i hne
    rw [ring_cells]
    exact content_push_other self hne

theorem ring_pop (self : PacketBuffer n m) (buflen : Nat) :
    ring (packetBufferPop self buflen).2 = (ring self).pop.2 ∧
      (packetBufferPop self buflen).1 = ((ring self).pop.1.elim [] (List.take buflen)) := by
  have hcell := ring_cells self self.readIndex
  by_cases hzero : (self.packets.get self.readIndex).size = 0
  · have hnone : (ring self).cells.get (ring self).readIndex = none := by
      show (ring self).cells.get self.readIndex = none
      rw [hcell, content, if_pos hzero]
    rw [CellRing.pop_none hnone]
    unfold packetBufferPop
    rw [if_pos hzero]
    exact ⟨rfl, rfl⟩
  · have hsome : (ring self).cells.get (ring self).readIndex = some (bytesAt self.pool
        (self.packets.get self.readIndex).buffer (self.packets.get self.readIndex).size) := by
      show (ring self).cells.get self.readIndex = _
      rw [hcell, content, if_neg hzero]
    rw [CellRing.pop_some hsome]
    unfold packetBufferPop
    rw [if_neg hzero]
    constructor
    · refine CellRing.ext (fun i => ?_) rfl rfl
      rw [ring_cells, CellRing.take_cells, ring_cells, show (ring self).readIndex = self.readIndex from rfl]
      unfold content
      dsimp only
      rw [resize_size]
      by_cases heq : self.readIndex = i
      · rw [if_pos heq, if_pos heq, if_pos rfl]
      · rw [if_neg heq, if_neg heq, resize_buffer]
    · show bytesAt _ _ _ = List.take buflen (bytesAt _ _ _)
      unfold bytesAt
      rw [List.take_take, Nat.min_comm]

def stored (self : PacketBuffer n m) : Nat := self.packets.toList.countP (fun entry => entry.size ≠ 0)

theorem stored_ring (self : PacketBuffer n m) : (ring self).stored = stored self := by
  have hpackets : self.packets.toList = (List.finRange n).map self.packets.get := by
    apply List.ext_getElem <;> simp [get_eq]
  have hcells : (ring self).cells.toList = (List.finRange n).map (content self) := by
    apply List.ext_getElem <;> simp [ring]
  rw [CellRing.stored, stored, hpackets, hcells, List.countP_map, List.countP_map]
  congr 1
  funext i
  simp only [Function.comp_apply, content]
  split <;> simp_all

/-- The calls of the users of the buffer. -/
inductive Action
  | push (buf : List UInt8)
  | pop (buflen : Nat)
  deriving DecidableEq

/-- The buffer with the packets that were pushed, those that were returned with the length of the
reader's buffer, and for each packet that was overwritten how many were stored then. -/
structure Books (n m : Nat) where
  pb : PacketBuffer n m
  pushed : List (List UInt8)
  returned : List (Nat × List UInt8)
  dropped : List Nat

def step (s : Books n m) : Action → Books n m
  | .push buf =>
      if buf = [] then { s with pb := packetBufferPush s.pb buf }
      else
        { s with
          pb := packetBufferPush s.pb buf
          pushed := s.pushed ++ [buf]
          dropped := if (content s.pb s.pb.writeIndex).isSome then s.dropped ++ [stored s.pb]
            else s.dropped }
  | .pop buflen =>
      let r := packetBufferPop s.pb buflen
      if (content s.pb s.pb.readIndex).isSome then
        { s with pb := r.2, returned := s.returned ++ [(buflen, r.1)] }
      else { s with pb := r.2 }

def Cut (m : Nat) (packet : List UInt8) (r : Nat × List UInt8) : Prop := r.2 = (packet.take m).take r.1

instance (m : Nat) (packet : List UInt8) (r : Nat × List UInt8) : Decidable (Cut m packet r) :=
  inferInstanceAs (Decidable (_ = _))

/-- The packets come back in the order in which they were pushed, each one at most once, and none
is dropped unless `n` are stored. -/
structure Kept (s : Books n m) : Prop where
  order : ∃ packets, packets.Sublist s.pushed ∧ List.Forall₂ (Cut m) packets s.returned
  complete : s.pushed.length = s.returned.length + s.dropped.length + stored s.pb
  dropped : ∀ k ∈ s.dropped, k = n

/-- A packet is popped out of a full buffer when the indices meet. -/
def InStep (s : Books n m) : Action → Prop
  | .push _ => True
  | .pop _ => (content s.pb s.pb.readIndex).isSome → stored s.pb = n →
      s.pb.readIndex = s.pb.writeIndex

instance (s : Books n m) (a : Action) : Decidable (InStep s a) :=
  match a with
  | .push _ => .isTrue trivial
  | .pop _ => inferInstanceAs (Decidable (_ → _ → _))

/-- The invariant: the ring holds the last packets that were pushed, from some cell on. -/
def Ordered (s : Books n m) : Prop :=
  ∃ start front back, Holds (ring s.pb) start (back.map (List.take m)) ∧
    (front ++ back).Sublist s.pushed ∧ List.Forall₂ (Cut m) front s.returned ∧
    s.pushed.length = s.returned.length + s.dropped.length + back.length ∧ ∀ k ∈ s.dropped, k = n

theorem Ordered.kept {s : Books n m} (h : Ordered s) : Kept s := by
  obtain ⟨start, front, back, hholds, hsub, hcut, hlen, hdropped⟩ := h
  have hstored := hholds.stored
  rw [stored_ring, List.length_map] at hstored
  exact ⟨⟨front, (List.sublist_append_left _ _).trans hsub, hcut⟩, hstored ▸ hlen, hdropped⟩

theorem overwrites_iff (self : PacketBuffer n m) :
    (ring self).Overwrites ↔ (content self self.writeIndex).isSome :=
  iff_of_eq (congrArg (fun c => Option.isSome c = true) (ring_cells self self.writeIndex))

theorem Ordered.push (hm : 0 < m) {s : Books n m} (h : Ordered s) (buf : List UInt8) :
    Ordered (step s (.push buf)) := by
  obtain ⟨start, front, back, hholds, hsub, hcut, hlen, hdropped⟩ := h
  have hover := overwrites_iff s.pb
  rw [hholds.overwrites_iff, List.length_map] at hover
  have hstored := hholds.stored
  rw [stored_ring, List.length_map] at hstored
  have hle := hholds.length_le
  rw [List.length_map] at hle
  unfold step
  dsimp only
  split
  · rename_i hnil
    subst hnil
    exact ⟨start, front, back, hholds, hsub, hcut, hlen, hdropped⟩
  · rename_i hbuf
    split
    · rename_i hfull
      have hn := hover.mpr hfull
      obtain ⟨b, rest, rfl⟩ : ∃ b rest, back = b :: rest :=
        List.exists_cons_of_length_pos (hn ▸ Nat.lt_of_le_of_lt (Nat.zero_le _) start.isLt)
      refine ⟨next start, front, rest ++ [buf], ?_, ?_, hcut, ?_, ?_⟩
      · show Holds (ring (packetBufferPush s.pb buf)) _ _
        rw [ring_push hm s.pb hbuf, List.map_append]
        exact hholds.push_full _ (by rw [← List.map_cons, List.length_map]; exact hn)
      · rw [← List.append_assoc]
        exact (((List.sublist_cons_self b rest).append_left front).trans hsub).append_right [buf]
      · simp only [List.length_append, List.length_cons, List.length_nil] at hlen ⊢
        omega
      · intro k hk
        obtain hk | hk := List.mem_append.mp hk
        · exact hdropped k hk
        · exact (List.mem_singleton.mp hk).trans (hstored.trans hn)
    · rename_i hroom
      have hn : back.length < n := Nat.lt_of_le_of_ne hle (fun heq => hroom (hover.mp heq))
      refine ⟨start, front, back ++ [buf], ?_, ?_, hcut, ?_, hdropped⟩
      · show Holds (ring (packetBufferPush s.pb buf)) _ _
        rw [ring_push hm s.pb hbuf, List.map_append]
        exact hholds.push _ (by rw [List.length_map]; exact hn)
      · rw [← List.append_assoc]
        exact hsub.append_right [buf]
      · simp only [List.length_append, List.length_cons, List.length_nil] at hlen ⊢
        omega

theorem inStep_ring (s : Books n m) (buflen : Nat) : (ring s.pb).InStep ↔ InStep s (.pop buflen) := by
  unfold CellRing.InStep
  rw [stored_ring]
  exact iff_of_eq (congrArg (fun c : Option (List UInt8) => Option.isSome c = true →
    stored s.pb = n → s.pb.readIndex = s.pb.writeIndex) (ring_cells s.pb s.pb.readIndex))

theorem Ordered.pop {s : Books n m} (h : Ordered s) {buflen : Nat} (hstep : InStep s (.pop buflen)) :
    Ordered (step s (.pop buflen)) := by
  obtain ⟨start, front, back, hholds, hsub, hcut, hlen, hdropped⟩ := h
  obtain ⟨hring, hbytes⟩ := ring_pop s.pb buflen
  have hread : (ring s.pb).pop.1 = content s.pb s.pb.readIndex :=
    (ring s.pb).pop_fst.trans (ring_cells s.pb s.pb.readIndex)
  have hin := (inStep_ring s buflen).mpr hstep
  unfold step
  dsimp only
  cases back with
  | nil =>
      rw [hholds.pop_nil] at hring hread
      rw [← hread, if_neg nofun]
      refine ⟨start, front, [], ?_, hsub, hcut, ?_, hdropped⟩
      · show Holds (ring _) _ _
        rw [hring]
        exact hholds
      · exact hlen
  | cons b rest =>
      obtain ⟨r', hpop, hholds'⟩ := hholds.pop_cons hin
      rw [hpop] at hring hbytes hread
      rw [← hread, if_pos (by rfl)]
      refine ⟨next start, front ++ [b], rest, ?_, ?_, ?_, ?_, hdropped⟩
      · show Holds (ring _) _ _
        rw [hring]
        exact hholds'
      · rw [List.append_assoc]
        exact hsub
      · exact List.rel_append hcut (.cons hbytes .nil)
      · simp only [List.length_append, List.length_cons, List.length_nil] at hlen ⊢
        omega

theorem Ordered.step (hm : 0 < m) {s : Books n m} {a : Action} (hstep : InStep s a) (h : Ordered s) :
    Ordered (step s a) := by
  cases a with
  | push buf => exact h.push hm buf
  | pop buflen => exact h.pop hstep

theorem ring_emptyBuffer (hn : 0 < n) (pool : Vector UInt8 (n * m)) :
    ring (emptyBuffer hn pool) = CellRing.empty ⟨0, hn⟩ := by
  refine CellRing.ext (fun i => ?_) rfl rfl
  rw [ring_cells]
  simp [content, emptyBuffer, CellRing.empty, get_eq]

/-- In a buffer that is new, the packets keep their order and none is dropped without need as long
as every pop out of the full buffer finds the two indices at one entry. -/
theorem kept_in_step (hn : 0 < n) (hm : 0 < m) {object packets : Bool}
    {pool : Option (Vector UInt8 (n * m))} {pb : PacketBuffer n m}
    (hnew : packetBufferNew hn object packets pool = .ok pb) {acts : List Action}
    (hstep : Guarded step InStep ⟨pb, [], [], []⟩ acts) (k : Nat) :
    Kept (run step ⟨pb, [], [], []⟩ (acts.take k)) := by
  have hpb : ring pb = CellRing.empty ⟨0, hn⟩ := by
    unfold packetBufferNew at hnew
    split at hnew
    · exact absurd hnew nofun
    · split at hnew
      · exact absurd hnew nofun
      · split at hnew
        · exact absurd hnew nofun
        · obtain rfl := Except.ok.inj hnew
          exact ring_emptyBuffer hn _
  have hordered : Ordered (⟨pb, [], [], []⟩ : Books n m) := by
    refine ⟨⟨0, hn⟩, [], [], ?_, .slnil, .nil, rfl, List.forall_mem_nil _⟩
    show Holds (ring pb) _ _
    rw [hpb]
    exact Holds.empty _
  exact (hstep.always (fun _ _ hs h => h.step hm hs) hordered k).kept

/-- Two packets overwrite the two that are stored, so that the indices meet again. -/
theorem kept_in_step_round : Kept (run step
    (⟨emptyBuffer (m := 1) (by decide) #v[0, 0], [], [], []⟩ : Books 2 1)
    ([.push [1], .push [2], .push [3], .push [4], .pop 5, .push [5], .pop 5, .pop 5].take 8)) := by
  have hnew : packetBufferNew (n := 2) (m := 1) (by decide) true true (some #v[0, 0]) =
      .ok (emptyBuffer (by decide) #v[0, 0]) := rfl
  exact kept_in_step (by decide) (by decide) hnew (by decide) 8

/-- One packet overwrites the older one of two, and is returned before the other. -/
theorem overtaken : ¬ Kept (run step
    (⟨emptyBuffer (m := 1) (by decide) #v[0, 0], [], [], []⟩ : Books 2 1)
    [.push [1], .push [2], .push [3], .pop 1, .pop 1]) := by
  rintro ⟨⟨packets, hsub, hcut⟩, -, -⟩
  have hnone : ∀ ps ∈ ([[1], [2], [3]] : List (List UInt8)).sublists,
      ¬ List.Forall₂ (Cut 1) ps [(1, [3]), (1, [2])] := by decide
  exact hnone packets (List.mem_sublists.mpr hsub) hcut

/-- A packet that is popped out of step leaves an older one behind, which the next packet
overwrites in a buffer with room. -/
theorem out_of_step_drops {s : Books n m} {buflen : Nat} (h : ¬ InStep s (.pop buflen))
    {buf : List UInt8} (hbuf : buf ≠ []) : ¬ Kept (step (step s (.pop buflen)) (.push buf)) := by
  obtain ⟨hring, -⟩ := ring_pop s.pb buflen
  obtain ⟨hover, hroom⟩ := CellRing.pop_late (mt (inStep_ring s buflen).mp h)
  rw [← hring] at hover hroom
  rw [overwrites_iff] at hover
  rw [stored_ring] at hroom
  have hpb : (step s (.pop buflen)).pb = (packetBufferPop s.pb buflen).2 := by
    unfold step
    dsimp only
    split <;> rfl
  intro hkept
  have hmem : stored (packetBufferPop s.pb buflen).2 ∈
      (step (step s (.pop buflen)) (.push buf)).dropped := by
    generalize step s (.pop buflen) = t at hpb
    unfold step
    dsimp only
    rw [if_neg hbuf, hpb, if_pos hover]
    exact List.mem_append_right _ List.mem_cons_self
  exact absurd (hkept.dropped _ hmem) (Nat.ne_of_lt hroom)

end ErSdk.Packets
