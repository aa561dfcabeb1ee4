import Mathlib.Data.List.Basic
import Mathlib.Logic.Function.Basic
import Mathlib.Logic.Relation

namespace ErSdk.SocketLog

inductive Op
  | opened
  | connecting (done : Bool)
  | given
  | closed
  | used
  deriving DecidableEq, Repr

/-- An operation on a socket, for a machine. A client that is given no socket is cleared. -/
structure Event (ι : Type) where
  machine : ι
  op : Op
  socket : Option Nat
  deriving DecidableEq, Repr

/-- The latest event comes first. -/
abbrev Log (ι : Type) := List (Event ι)

section

variable {ι : Type} [DecidableEq ι]

/-- The machine that has opened a socket, as long as that is not closed. -/
def owner (k : Nat) : Log ι → Option ι
  | [] => none
  | e :: log =>
      if e.socket = some k then
        if e.op = .opened then some e.machine
        else if e.op = .closed then none
        else owner k log
      else owner k log

def held (i : ι) : Log ι → Option Nat
  | [] => none
  | e :: log => if e.machine = i ∧ e.op = .given then e.socket else held i log

def connection (i : ι) : Log ι → Option Nat
  | [] => none
  | e :: log =>
      if e.machine = i ∧ e.op = .connecting true then e.socket
      else if e.machine = i ∧ e.op = .closed then none
      else connection i log

/-- What an event needs of the ones before it. -/
def Fair (log : Log ι) (e : Event ι) : Prop :=
  match e.op with
  | .opened => ∃ k, e.socket = some k ∧ ∀ d ∈ log, d.socket ≠ some k
  | .connecting _ => ∃ k, e.socket = some k ∧ owner k log = some e.machine
  | .given => ∀ k, e.socket = some k →
      owner k log = some e.machine ∧ connection e.machine log = some k
  | .closed => ∃ k, e.socket = some k ∧ owner k log = some e.machine
  | .used => ∃ k, e.socket = some k ∧ owner k log = some e.machine ∧ held e.machine log = some k ∧
      connection e.machine log = some k

def AllFair : Log ι → Prop
  | [] => True
  | e :: log => Fair log e ∧ AllFair log

theorem AllFair.of_append {later earlier : Log ι} {e : Event ι}
    (h : AllFair (later ++ e :: earlier)) : Fair earlier e ∧ AllFair earlier := by
  induction later with
  | nil => exact h
  | cons d later ih => exact ih h.2

omit [DecidableEq ι] in
theorem owner_mem {k : Nat} {i : ι} {log : Log ι} (h : owner k log = some i) :
    ∃ d ∈ log, d.socket = some k := by
  induction log with
  | nil => cases h
  | cons e log ih =>
      rw [owner] at h
      split at h
      · rename_i hk
        exact ⟨e, List.mem_cons_self, hk⟩
      · obtain ⟨d, hd, hk⟩ := ih h
        exact ⟨d, List.mem_cons_of_mem e hd, hk⟩

theorem Fair.new_or_owned {log : Log ι} {e : Event ι} (h : Fair log e) {k : Nat}
    (hk : e.socket = some k) :
    (∀ d ∈ log, d.socket ≠ some k) ∨ owner k log = some e.machine := by
  unfold Fair at h
  split at h
  · obtain ⟨j, hj, hnew⟩ := h
    obtain rfl := Option.some.inj (hj.symm.trans hk)
    exact Or.inl hnew
  · obtain ⟨j, hj, howner⟩ := h
    obtain rfl := Option.some.inj (hj.symm.trans hk)
    exact Or.inr howner
  · exact Or.inr (h k hk).1
  · obtain ⟨j, hj, howner⟩ := h
    obtain rfl := Option.some.inj (hj.symm.trans hk)
    exact Or.inr howner
  · obtain ⟨j, hj, howner, -⟩ := h
    obtain rfl := Option.some.inj (hj.symm.trans hk)
    exact Or.inr howner

theorem AllFair.closed_for_good {later earlier : Log ι} {e : Event ι}
    (h : AllFair (later ++ e :: earlier)) (hop : e.op = .closed) {k : Nat}
    (hk : e.socket = some k) :
    owner k (later ++ e :: earlier) = none ∧ ∀ d ∈ later, d.socket ≠ some k := by
  induction later with
  | nil =>
      refine ⟨?_, List.forall_mem_nil _⟩
      rw [List.nil_append, owner, if_pos hk, hop]
      rfl
  | cons d later ih =>
      obtain ⟨hnone, hlater⟩ := ih h.2
      have hd : d.socket ≠ some k := by
        intro hsocket
        have hfair : Fair (later ++ e :: earlier) d := h.1
        rcases hfair.new_or_owned hsocket with hnew | howner
        · exact hnew e (List.mem_append_right later List.mem_cons_self) hk
        · rw [hnone] at howner
          cases howner
      refine ⟨?_, List.forall_mem_cons.mpr ⟨hd, hlater⟩⟩
      rw [List.cons_append, owner, if_neg hd]
      exact hnone

omit [DecidableEq ι] in
theorem owner_of_ne {e : Event ι} {k : Nat} {log : Log ι} (h : e.socket ≠ some k) :
    owner k (e :: log) = owner k log := by
  rw [owner, if_neg h]

omit [DecidableEq ι] in
theorem owner_of_op {i : ι} {op : Op} {socket : Option Nat} (ho : op ≠ .opened) (hc : op ≠ .closed)
    (k : Nat) (log : Log ι) : owner k (⟨i, op, socket⟩ :: log) = owner k log := by
  rw [owner, if_neg ho, if_neg hc, ite_self]

theorem held_of_op {j : ι} {op : Op} {socket : Option Nat} (h : op ≠ .given) (i : ι) (log : Log ι) :
    held i (⟨j, op, socket⟩ :: log) = held i log := by
  rw [held, if_neg (fun hand => h hand.2)]

theorem held_given (i : ι) (socket : Option Nat) (log : Log ι) :
    held i (⟨i, .given, socket⟩ :: log) = socket := if_pos ⟨rfl, rfl⟩

theorem connection_connected (i : ι) (socket : Option Nat) (log : Log ι) :
    connection i (⟨i, .connecting true, socket⟩ :: log) = socket := if_pos ⟨rfl, rfl⟩

theorem connection_closed (i : ι) (socket : Option Nat) (log : Log ι) :
    connection i (⟨i, .closed, socket⟩ :: log) = none := by
  rw [connection, if_neg (fun h => by cases h.2)]
  exact if_pos ⟨rfl, rfl⟩

theorem held_of_ne {e : Event ι} {i : ι} (h : e.machine ≠ i) (log : Log ι) :
    held i (e :: log) = held i log := by
  rw [held, if_neg (fun hand => h hand.1)]

theorem connection_of_op {j : ι} {op : Op} {socket : Option Nat} (ho : op ≠ .connecting true)
    (hc : op ≠ .closed) (i : ι) (log : Log ι) :
    connection i (⟨j, op, socket⟩ :: log) = connection i log := by
  rw [connection, if_neg (fun hand => ho hand.2), if_neg (fun hand => hc hand.2)]

theorem connection_of_ne {e : Event ι} {i : ι} (h : e.machine ≠ i) (log : Log ι) :
    connection i (e :: log) = connection i log := by
  rw [connection, if_neg (fun hand => h hand.1), if_neg (fun hand => h hand.1)]

end

structure Line where
  socket : Option Nat
  connected : Bool
  deriving DecidableEq, Repr

/-- One machine's line, the number of sockets handed out so far, and the log. -/
structure Book (ι : Type) where
  line : Line
  opened : Nat
  log : Log ι

section

variable {ι : Type} [DecidableEq ι]

inductive Move (i : ι) : Book ι → Book ι → Prop
  | opens {b : Book ι} (h : b.line = ⟨none, false⟩) :
      Move i b ⟨⟨some b.opened, false⟩, b.opened + 1, ⟨i, .opened, some b.opened⟩ :: b.log⟩
  | tries {b : Book ι} {k : Nat} (h : b.line = ⟨some k, false⟩) :
      Move i b { b with log := ⟨i, .connecting false, some k⟩ :: b.log }
  | connects {b : Book ι} {k : Nat} (h : b.line = ⟨some k, false⟩) :
      Move i b ⟨⟨some k, true⟩, b.opened,
        ⟨i, .given, some k⟩ :: ⟨i, .connecting true, some k⟩ :: b.log⟩
  | uses {b : Book ι} (h : b.line.connected = true) :
      Move i b { b with log := ⟨i, .used, held i b.log⟩ :: b.log }
  | closes {b : Book ι} {k : Nat} (h : b.line.socket = some k) :
      Move i b ⟨⟨none, false⟩, b.opened, ⟨i, .closed, some k⟩ :: ⟨i, .given, none⟩ :: b.log⟩

abbrev Moves (i : ι) : Book ι → Book ι → Prop := Relation.ReflTransGen (Move i)

/-- What holds of the lines of all machines, the number of sockets and the log. -/
structure Tidy (lines : ι → Line) (opened : Nat) (log : Log ι) : Prop where
  fair : AllFair log
  fresh : ∀ e ∈ log, ∀ k, e.socket = some k → k < opened
  owned : ∀ i k, (lines i).socket = some k → owner k log = some i
  socket : ∀ i, (lines i).connected = true → (lines i).socket.isSome = true
  held : ∀ i, held i log = if (lines i).connected then (lines i).socket else none
  connection : ∀ i, connection i log = if (lines i).connected then (lines i).socket else none

theorem tidy_start {lines : ι → Line} (h : ∀ i, lines i = ⟨none, false⟩) (opened : Nat) :
    Tidy lines opened [] where
  fair := trivial
  fresh := List.forall_mem_nil _
  owned i k hk := by
    rw [h i] at hk
    cases hk
  socket i hc := by
    rw [h i] at hc
    cases hc
  held i := by
    rw [h i]
    rfl
  connection i := by
    rw [h i]
    rfl

section

variable {lines : ι → Line} {n : Nat} {log : Log ι}

theorem Tidy.event (h : Tidy lines n log) {e : Event ι} (hfair : Fair log e)
    (hop : e.op = .connecting false ∨ e.op = .used) : Tidy lines n (e :: log) := by
  have hopened : e.op ≠ .opened := by rcases hop with hop | hop <;> rw [hop] <;> decide
  have hclosed : e.op ≠ .closed := by rcases hop with hop | hop <;> rw [hop] <;> decide
  have hgiven : e.op ≠ .given := by rcases hop with hop | hop <;> rw [hop] <;> decide
  have hconnect : e.op ≠ .connecting true := by rcases hop with hop | hop <;> rw [hop] <;> decide
  have howned : ∀ k, e.socket = some k → owner k log = some e.machine := by
    intro k hk
    unfold Fair at hfair
    rcases hop with hop | hop
    · rw [hop] at hfair
      obtain ⟨j, hj, howner⟩ := hfair
      obtain rfl := Option.some.inj (hj.symm.trans hk)
      exact howner
    · rw [hop] at hfair
      obtain ⟨j, hj, howner, -⟩ := hfair
      obtain rfl := Option.some.inj (hj.symm.trans hk)
      exact howner
  refine ⟨⟨hfair, h.fair⟩, ?_, ?_, h.socket, ?_, ?_⟩
  · refine List.forall_mem_cons.mpr ⟨fun k hk => ?_, h.fresh⟩
    obtain ⟨d, hd, hdk⟩ := owner_mem (howned k hk)
    exact h.fresh d hd k hdk
  · intro j k hk
    rw [owner_of_op hopened hclosed]
    exact h.owned j k hk
  · intro j
    rw [held_of_op hgiven]
    exact h.held j
  · intro j
    rw [connection_of_op hconnect hclosed]
    exact h.connection j

theorem Tidy.opens (h : Tidy lines n log) {i : ι} (hi : lines i = ⟨none, false⟩) :
    Tidy (Function.update lines i ⟨some n, false⟩) (n + 1) (⟨i, .opened, some n⟩ :: log) := by
  have hnew : ∀ d ∈ log, d.socket ≠ some n := fun d hd hk => Nat.lt_irrefl n (h.fresh d hd n hk)
  have hquiet : ∀ j, (if (lines j).connected then (lines j).socket else none) =
      if (Function.update lines i ⟨some n, false⟩ j).connected then
        (Function.update lines i ⟨some n, false⟩ j).socket else none := by
    intro j
    by_cases hj : j = i
    · subst hj
      rw [Function.update_self, hi]
      rfl
    · rw [Function.update_of_ne hj]
  refine ⟨⟨⟨n, rfl, hnew⟩, h.fair⟩, ?_, ?_, ?_, ?_, ?_⟩
  · refine List.forall_mem_cons.mpr ⟨fun k hk => ?_, fun d hd k hk => ?_⟩
    · obtain rfl := Option.some.inj hk
      exact Nat.lt_succ_self n
    · exact Nat.lt_succ_of_lt (h.fresh d hd k hk)
  · intro j k hk
    by_cases hj : j = i
    · subst hj
      rw [Function.update_self] at hk
      rw [owner, if_pos hk, if_pos rfl]
    · rw [Function.update_of_ne hj] at hk
      have howner := h.owned j k hk
      obtain ⟨d, hd, hdk⟩ := owner_mem howner
      rw [owner_of_ne (fun heq => hnew d hd (hdk.trans heq.symm))]
      exact howner
  · intro j hc
    by_cases hj : j = i
    · subst hj
      rw [Function.update_self] at hc
      cases hc
    · rw [Function.update_of_ne hj] at hc ⊢
      exact h.socket j hc
  · intro j
    rw [held_of_op (by decide), h.held j, hquiet j]
  · intro j
    rw [connection_of_op (by decide) (by decide), h.connection j, hquiet j]

theorem Tidy.connects (h : Tidy lines n log) {i : ι} {k : Nat} (hi : lines i = ⟨some k, false⟩) :
    Tidy (Function.update lines i ⟨some k, true⟩) n
      (⟨i, .given, some k⟩ :: ⟨i, .connecting true, some k⟩ :: log) := by
  have howner : owner k log = some i := h.owned i k (by rw [hi])
  obtain ⟨d, hd, hdk⟩ := owner_mem howner
  have hk := h.fresh d hd k hdk
  have hsame (j : Nat) : owner j (⟨i, .given, some k⟩ :: ⟨i, .connecting true, some k⟩ :: log) =
      owner j log := by
    rw [owner_of_op (by decide) (by decide), owner_of_op (by decide) (by decide)]
  refine ⟨⟨?_, ⟨k, rfl, howner⟩, h.fair⟩, ?_, ?_, ?_, ?_, ?_⟩
  · intro j hj
    obtain rfl := Option.some.inj hj
    refine ⟨?_, ?_⟩
    · rw [owner_of_op (by decide) (by decide)]
      exact howner
    · exact connection_connected i (some k) log
  · refine List.forall_mem_cons.mpr ⟨fun j hj => ?_, List.forall_mem_cons.mpr
      ⟨fun j hj => ?_, h.fresh⟩⟩
    · exact Option.some.inj hj ▸ hk
    · exact Option.some.inj hj ▸ hk
  · intro j l hl
    rw [hsame]
    by_cases hj : j = i
    · subst hj
      rw [Function.update_self] at hl
      exact h.owned j l (by rw [hi]; exact hl)
    · rw [Function.update_of_ne hj] at hl
      exact h.owned j l hl
  · intro j hc
    by_cases hj : j = i
    · subst hj
      rw [Function.update_self]
      rfl
    · rw [Function.update_of_ne hj] at hc ⊢
      exact h.socket j hc
  · intro j
    by_cases hj : j = i
    · subst hj
      rw [Function.update_self, held_given]
      rfl
    · rw [Function.update_of_ne hj, held_of_ne (Ne.symm hj), held_of_ne (Ne.symm hj)]
      exact h.held j
  · intro j
    rw [connection_of_op (by decide) (by decide)]
    by_cases hj : j = i
    · subst hj
      rw [Function.update_self, connection_connected]
      rfl
    · rw [Function.update_of_ne hj, connection_of_ne (Ne.symm hj)]
      exact h.connection j

theorem Tidy.closes (h : Tidy lines n log) {i : ι} {k : Nat} (hi : (lines i).socket = some k) :
    Tidy (Function.update lines i ⟨none, false⟩) n
      (⟨i, .closed, some k⟩ :: ⟨i, .given, none⟩ :: log) := by
  have howner : owner k log = some i := h.owned i k hi
  obtain ⟨d, hd, hdk⟩ := owner_mem howner
  have hk := h.fresh d hd k hdk
  refine ⟨⟨⟨k, rfl, ?_⟩, nofun, h.fair⟩, ?_, ?_, ?_, ?_, ?_⟩
  · rw [owner_of_op (by decide) (by decide)]
    exact howner
  · refine List.forall_mem_cons.mpr ⟨fun j hj => ?_, List.forall_mem_cons.mpr ⟨nofun, h.fresh⟩⟩
    exact Option.some.inj hj ▸ hk
  · intro j l hl
    by_cases hj : j = i
    · subst hj
      rw [Function.update_self] at hl
      cases hl
    · rw [Function.update_of_ne hj] at hl
      have hl' := h.owned j l hl
      have hne : (some k : Option Nat) ≠ some l := by
        intro heq
        obtain rfl := Option.some.inj heq
        exact hj (Option.some.inj (hl'.symm.trans howner))
      rw [owner_of_ne hne, owner_of_op (by decide) (by decide)]
      exact hl'
  · intro j hc
    by_cases hj : j = i
    · subst hj
      rw [Function.update_self] at hc
      cases hc
    · rw [Function.update_of_ne hj] at hc ⊢
      exact h.socket j hc
  · intro j
    rw [held_of_op (by decide)]
    by_cases hj : j = i
    · subst hj
      rw [Function.update_self, held_given]
      rfl
    · rw [Function.update_of_ne hj, held_of_ne (Ne.symm hj)]
      exact h.held j
  · intro j
    by_cases hj : j = i
    · subst hj
      rw [Function.update_self, connection_closed]
      rfl
    · rw [Function.update_of_ne hj, connection_of_ne (Ne.symm hj), connection_of_op (by decide) (by decide)]
      exact h.connection j

theorem Tidy.move (h : Tidy lines n log) {i : ι} {b : Book ι} (hm : Move i ⟨lines i, n, log⟩ b) :
    Tidy (Function.update lines i b.line) b.opened b.log := by
  cases hm with
  | opens hi => exact h.opens hi
  | tries hi =>
      rw [Function.update_eq_self]
      exact h.event ⟨_, rfl, h.owned i _ (congrArg Line.socket hi)⟩ (Or.inl rfl)
  | connects hi => exact h.connects hi
  | uses hc =>
      obtain ⟨k, hk⟩ := Option.isSome_iff_exists.mp (h.socket i hc)
      have hheld : SocketLog.held i log = some k := by
        rw [h.held i, if_pos hc]
        exact hk
      have hconn : SocketLog.connection i log = some k := by
        rw [h.connection i, if_pos hc]
        exact hk
      rw [Function.update_eq_self]
      exact h.event ⟨k, hheld, h.owned i k hk, hheld, hconn⟩ (Or.inr rfl)
  | closes hi => exact h.closes hi

theorem Tidy.moves (h : Tidy lines n log) {i : ι} {b : Book ι}
    (hm : Moves i ⟨lines i, n, log⟩ b) :
    Tidy (Function.update lines i b.line) b.opened b.log := by
  induction hm with
  | refl =>
      rw [Function.update_eq_self]
      exact h
  | tail _ hstep ih =>
      have hmove := ih.move (i := i) (b := _) (by rw [Function.update_self]; exact hstep)
      rw [Function.update_idem] at hmove
      exact hmove

end

end

end ErSdk.SocketLog
