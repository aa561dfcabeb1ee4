import ErSdk.Basic
import ErSdk.CyclicIndex
import ErSdk.Runs

namespace ErSdk.Cbuffer

open CyclicIndex Runs

variable {n : Nat}

/-- `struct cbuffer_class` of size `n`; both indices stay inside the buffer. -/
structure CbufferClass (n : Nat) where
  buffer : Vector UInt8 n
  readPointer : Fin n
  writePointer : Fin n

/-- `cbuffer_new`: the object is allocated or not, and then the memory of the buffer, with
whatever it holds. -/
def cbufferNew (hsize : 0 < n) (object : Bool) (memory : Option (Vector UInt8 n)) :
    Except Int (CbufferClass n) :=
  if object then
    match memory with
    | none => .error (-1)
    | some memory => .ok ⟨memory, ⟨0, hsize⟩, ⟨0, hsize⟩⟩
  else .error (-1)

/-- The bytes that are written to `buf`, whose number is returned. -/
def cbufferPop (cb : CbufferClass n) : Nat → List UInt8 × CbufferClass n
  | 0 => ([], cb)
  | maxLen + 1 =>
      if cb.readPointer ≠ cb.writePointer then
        let rest := cbufferPop { cb with readPointer := next cb.readPointer } maxLen
        (cb.buffer.get cb.readPointer :: rest.1, rest.2)
      else ([], cb)

def cbufferPush (cb : CbufferClass n) (ch : UInt8) : CbufferClass n :=
  { cb with buffer := cb.buffer.set cb.writePointer ch, writePointer := next cb.writePointer }

def cbufferGetUsed (cb : CbufferClass n) : Nat :=
  if cb.writePointer.val ≥ cb.readPointer.val then cb.writePointer.val - cb.readPointer.val
  else n - (cb.readPointer.val - cb.writePointer.val)

def cbufferGetFree (cb : CbufferClass n) : Nat := n - cbufferGetUsed cb

/-- `tcp_buffer_push`, which does not look at the free space. -/
def tcpBufferPush (cb : CbufferClass n) (buf : List UInt8) : CbufferClass n := buf.foldl cbufferPush cb

/-- The bytes between the two indices. -/
def stored (cb : CbufferClass n) : List UInt8 := window cb.buffer cb.readPointer (cbufferGetUsed cb)

theorem used_distance (cb : CbufferClass n) :
    cbufferGetUsed cb = distance cb.readPointer cb.writePointer := rfl

@[simp] theorem length_stored (cb : CbufferClass n) : (stored cb).length = cbufferGetUsed cb :=
  length_window _ _ _

theorem used_lt (cb : CbufferClass n) : cbufferGetUsed cb < n := distance_lt _ _

theorem free_pos (cb : CbufferClass n) : 0 < cbufferGetFree cb := Nat.sub_pos_of_lt (used_lt cb)

/-- The push that lets the write index catch up with the read index. -/
def Fills (cb : CbufferClass n) : Prop := next cb.writePointer = cb.readPointer

instance (cb : CbufferClass n) : Decidable (Fills cb) :=
  inferInstanceAs (Decidable (next cb.writePointer = cb.readPointer))

theorem used_push {cb : CbufferClass n} (h : ¬ Fills cb) (ch : UInt8) :
    cbufferGetUsed (cbufferPush cb ch) = cbufferGetUsed cb + 1 := distance_next h

theorem stored_push {cb : CbufferClass n} (h : ¬ Fills cb) (ch : UInt8) :
    stored (cbufferPush cb ch) = stored cb ++ [ch] := by
  rw [stored, used_push h]
  exact window_set cb.buffer cb.readPointer cb.writePointer ch

theorem used_fill {cb : CbufferClass n} (h : Fills cb) (ch : UInt8) :
    cbufferGetUsed (cbufferPush cb ch) = 0 := distance_eq_zero.mpr h.symm

theorem fills_iff (cb : CbufferClass n) : Fills cb ↔ cbufferGetFree cb = 1 := by
  have hused := used_distance cb
  have hlt := used_lt cb
  rw [cbufferGetFree]
  constructor
  · intro h
    have hn : distance cb.readPointer cb.writePointer + 1 = n := by
      have hw := cb.writePointer.isLt
      have hval := congrArg Fin.val h
      rw [next_val] at hval
      rw [distance]
      split_ifs at hval ⊢ <;> omega
    omega
  · intro h
    by_contra hne
    have hnext := distance_lt cb.readPointer (next cb.writePointer)
    rw [distance_next hne] at hnext
    omega

theorem pop_stored (cb : CbufferClass n) (maxLen : Nat) :
    (cbufferPop cb maxLen).1 ++ stored (cbufferPop cb maxLen).2 = stored cb := by
  induction maxLen generalizing cb with
  | zero => rfl
  | succ maxLen ih =>
      rw [cbufferPop]
      split_ifs with hne
      · have hrest := ih { cb with readPointer := next cb.readPointer }
        have hsplit : stored cb =
            cb.buffer[cb.readPointer] :: stored { cb with readPointer := next cb.readPointer } := by
          rw [stored, used_distance, ← next_distance hne, window]
          rfl
        rw [hsplit, ← hrest]
        rfl
      · rfl

theorem length_pop (cb : CbufferClass n) (maxLen : Nat) :
    (cbufferPop cb maxLen).1.length = min maxLen (cbufferGetUsed cb) := by
  induction maxLen generalizing cb with
  | zero => simp [cbufferPop]
  | succ maxLen ih =>
      rw [cbufferPop]
      split_ifs with hne
      · have hused := next_distance hne
        rw [List.length_cons, ih, used_distance, used_distance]
        dsimp only
        omega
      · have hzero : cbufferGetUsed cb = 0 := distance_eq_zero.mpr (not_not.mp hne)
        rw [hzero]
        rfl

theorem tcp_push {cb : CbufferClass n} {buf : List UInt8} (h : buf.length < cbufferGetFree cb) :
    stored (tcpBufferPush cb buf) = stored cb ++ buf := by
  induction buf generalizing cb with
  | nil => simp [tcpBufferPush]
  | cons ch buf ih =>
      have hroom : ¬ Fills cb := by
        rw [fills_iff]
        rw [List.length_cons] at h
        omega
      have hfree : buf.length < cbufferGetFree (cbufferPush cb ch) := by
        rw [cbufferGetFree, used_push hroom]
        rw [cbufferGetFree, List.length_cons] at h
        omega
      rw [tcpBufferPush, List.foldl_cons]
      exact (ih hfree).trans (by rw [stored_push hroom, List.append_assoc, List.singleton_append])

theorem tcp_push_free {cb : CbufferClass n} {buf : List UInt8} (h : buf.length = cbufferGetFree cb) :
    stored (tcpBufferPush cb buf) = [] := by
  rcases List.eq_nil_or_concat buf with rfl | ⟨front, ch, rfl⟩
  · have hpos := free_pos cb
    rw [← h] at hpos
    exact absurd hpos (Nat.lt_irrefl 0)
  · rw [List.concat_eq_append, List.length_append, List.length_singleton] at h
    have hfront := congrArg List.length (@tcp_push _ cb front (by omega))
    rw [length_stored, List.length_append, length_stored] at hfront
    have hfills : Fills (tcpBufferPush cb front) := by
      have hlt := used_lt cb
      rw [fills_iff, cbufferGetFree, hfront]
      rw [cbufferGetFree] at h
      omega
    apply List.eq_nil_of_length_eq_zero
    rw [length_stored, tcpBufferPush, List.concat_eq_append, List.foldl_append]
    exact used_fill hfills ch

/-- The calls of a user of the buffer. -/
inductive Action
  | push (ch : UInt8)
  | pop (maxLen : Nat)
deriving DecidableEq

structure Books (n : Nat) where
  cb : CbufferClass n
  pushed : List UInt8
  popped : List UInt8

def step (s : Books n) : Action → Books n
  | .push ch => { s with cb := cbufferPush s.cb ch, pushed := s.pushed ++ [ch] }
  | .pop maxLen =>
      let r := cbufferPop s.cb maxLen
      { s with cb := r.2, popped := s.popped ++ r.1 }

def initial (hsize : 0 < n) (memory : Vector UInt8 n) : Books n :=
  ⟨⟨memory, ⟨0, hsize⟩, ⟨0, hsize⟩⟩, [], []⟩

/-- A push is made when a byte is reported free. -/
def Permitted (s : Books n) : Action → Prop
  | .push _ => 1 ≤ cbufferGetFree s.cb
  | .pop _ => True

/-- A push is made when the write index does not catch up with the read index. -/
def Spare (s : Books n) : Action → Prop
  | .push _ => ¬ Fills s.cb
  | .pop _ => True

instance (s : Books n) (a : Action) : Decidable (Permitted s a) :=
  match a with
  | .push _ => inferInstanceAs (Decidable (1 ≤ cbufferGetFree s.cb))
  | .pop _ => .isTrue trivial

instance (s : Books n) (a : Action) : Decidable (Spare s a) :=
  match a with
  | .push _ => inferInstanceAs (Decidable (¬ Fills s.cb))
  | .pop _ => .isTrue trivial

/-- What is popped and what is stored is what was pushed, and the count says so. -/
structure Kept (s : Books n) : Prop where
  bytes : s.popped ++ stored s.cb = s.pushed
  used : cbufferGetUsed s.cb = s.pushed.length - s.popped.length

theorem kept_of_bytes {s : Books n} (h : s.popped ++ stored s.cb = s.pushed) : Kept s := by
  refine ⟨h, ?_⟩
  rw [← h, List.length_append, length_stored, Nat.add_sub_cancel_left]

theorem kept_step {s : Books n} {a : Action} (hspare : Spare s a) (h : Kept s) : Kept (step s a) := by
  apply kept_of_bytes
  cases a with
  | push ch =>
      show s.popped ++ stored (cbufferPush s.cb ch) = s.pushed ++ [ch]
      rw [stored_push hspare, ← List.append_assoc, h.bytes]
  | pop maxLen =>
      show (s.popped ++ (cbufferPop s.cb maxLen).1) ++ stored (cbufferPop s.cb maxLen).2 = s.pushed
      rw [List.append_assoc, pop_stored, h.bytes]

theorem spare_of_kept {s : Books n} {a : Action} (h : Kept s) (hnext : Kept (step s a)) :
    Spare s a := by
  cases a with
  | push ch =>
      intro hfills
      have hempty := used_fill hfills ch
      have hused := hnext.used
      have hle := congrArg List.length h.bytes
      simp only [step, List.length_append, List.length_singleton] at hused hle
      omega
  | pop maxLen => trivial

/-- `cbuffer_get_free` permits one push too many: the bytes are kept exactly as long as no
push lets the write index catch up with the read index. -/
theorem kept_iff (hsize : 0 < n) (memory : Vector UInt8 n) (acts : List Action)
    (hpermitted : Guarded step Permitted (initial hsize memory) acts) :
    (∀ k, Kept (run step (initial hsize memory) (acts.take k))) ↔
      Guarded step Spare (initial hsize memory) acts :=
  (hpermitted.iff_of_invariant (fun _ h => h) (fun _ _ hspare h => kept_step hspare h)
    (fun _ _ _ h hnext => spare_of_kept h hnext) (kept_of_bytes rfl)).symm

/-- A ring of three cells used round its end. -/
theorem kept_iff_wrapped :
    run step (initial (by decide) #v[0, 0, 0]) [.push 1, .push 2, .pop 1, .push 3, .pop 5] =
        ⟨⟨#v[1, 2, 3], 0, 0⟩, [1, 2, 3], [1, 2, 3]⟩ ∧
      ∀ k, Kept (run step (initial (by decide) #v[0, 0, 0])
        ([.push 1, .push 2, .pop 1, .push 3, .pop 5].take k)) :=
  ⟨rfl, (kept_iff (by decide) #v[0, 0, 0] [.push 1, .push 2, .pop 1, .push 3, .pop 5]
    (by decide)).mpr (by decide)⟩

/-- Two permitted pushes into two cells: none of the bytes is left. -/
theorem full_is_empty :
    Guarded step Permitted (initial (by decide) #v[0, 0]) [.push 1, .push 2] ∧
      stored (run step (initial (by decide) #v[0, 0]) [.push 1, .push 2]).cb = [] ∧
      ¬ Kept (run step (initial (by decide) #v[0, 0]) [.push 1, .push 2]) :=
  ⟨by decide, by decide, fun h => absurd h.used (by decide)⟩

end ErSdk.Cbuffer
