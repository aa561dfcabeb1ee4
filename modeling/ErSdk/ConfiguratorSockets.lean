import ErSdk.ConfiguratorTurns
import Mathlib.Data.Fintype.Card
import Mathlib.Data.Finset.Card

namespace ErSdk.ConfiguratorSockets

open ConfiguratorServer ConfiguratorFields ConfiguratorTurns Runs Error

variable {P W : Type}

abbrev Slot := Fin maxConfiguratorConnection

def occupied (clients : Slot → ClientSocket P) : Nat :=
  (Finset.univ.filter (fun i => (clients i).status ≠ .closed)).card

theorem occupied_le (clients : Slot → ClientSocket P) :
    occupied clients ≤ maxConfiguratorConnection := by
  have h := Finset.card_filter_le Finset.univ (fun i => (clients i).status ≠ .closed)
  rwa [Finset.card_univ, Fintype.card_fin] at h

section

variable {clients : Slot → ClientSocket P} {i : Slot} {client : ClientSocket P}

theorem occupied_open (hi : (clients i).status = .closed) (hc : client.status ≠ .closed) :
    occupied (Function.update clients i client) = occupied clients + 1 := by
  unfold occupied
  rw [← Finset.card_insert_of_notMem (a := i) (s := Finset.univ.filter _) (by simp [hi])]
  refine congrArg Finset.card (Finset.ext (fun j => ?_))
  by_cases hj : j = i
  · simp [hj, hc]
  · simp [hj]

theorem occupied_close (hi : (clients i).status ≠ .closed) (hc : client.status = .closed) :
    occupied clients = occupied (Function.update clients i client) + 1 := by
  rw [← @occupied_open _ (Function.update clients i client) i (clients i)
    (by rw [Function.update_self]; exact hc) hi]
  rw [Function.update_idem, Function.update_eq_self]

end

section

variable (s : St P (W × Log))

def holder (i : Slot) : Option Nat := (s.server.clientSocket i).socket

/-- Every accepted socket is in exactly one slot, or closed once, and the connections are
counted right. -/
structure Owned : Prop where
  owned : ∀ n < accepts s.world.2,
    ((∃! i, holder s i = some n) ∧ closes n s.world.2 = 0) ∨
      ((∀ i, holder s i ≠ some n) ∧ closes n s.world.2 = 1)
  connections : s.server.connections = occupied s.server.clientSocket
  limit : s.server.connections ≤ maxConfiguratorConnection

def Room (env : Env P W) : Turn → Prop
  | .accept => (accepting (record env) s).isSome = true → ∃ i, (s.server.clientSocket i).status = .closed
  | .slot _ => True

/-- add_client_socket reports success for a socket that it stores, and failure for one
that it refuses and closes. -/
def Answered (env : Env P W) : Turn → Prop
  | .accept => ∀ n t, accepting (record env) s = some (n, t) →
      ((addClientSocket (record env) n t).1 = errSuccess ∧
        ∃ i, holder (addClientSocket (record env) n t).2 i = some n) ∨
      ((addClientSocket (record env) n t).1 = errFailure ∧
        closes n (addClientSocket (record env) n t).2.world.2 = 1)
  | .slot _ => True

structure Books : Prop where
  idle : ∀ i, (s.server.clientSocket i).status = .closed ↔ holder s i = none
  distinct : ∀ i j n, holder s i = some n → holder s j = some n → i = j
  held : ∀ i n, holder s i = some n → n < accepts s.world.2 ∧ closes n s.world.2 = 0
  closed : ∀ n, accepts s.world.2 ≤ n → closes n s.world.2 = 0
  connections : s.server.connections = occupied s.server.clientSocket
  placed : ∀ n < accepts s.world.2, (∃ i, holder s i = some n) ∨ closes n s.world.2 = 1

end

variable {env : Env P W} {s : St P (W × Log)}

theorem Books.owned (h : Books s) : Owned s where
  owned n hn := by
    by_cases hex : ∃ i, holder s i = some n
    · obtain ⟨i, hi⟩ := hex
      exact .inl ⟨⟨i, hi, fun j hj => h.distinct j i n hj hi⟩, (h.held i n hi).2⟩
    · have hnone : ∀ i, holder s i ≠ some n := fun i hi => hex ⟨i, hi⟩
      obtain hi | hc := h.placed n hn
      · exact absurd hi hex
      · exact .inr ⟨hnone, hc⟩
  connections := h.connections
  limit := h.connections ▸ occupied_le _

theorem Books.connections_le (h : Books s) : s.server.connections ≤ maxConfiguratorConnection :=
  h.owned.limit

@[simp] theorem accepts_accepted (log : Log) (n : Nat) :
    accepts (log ++ [.accepted n]) = accepts log + 1 := by
  simp [accepts, List.countP_append]

@[simp] theorem accepts_sent (log : Log) (k r o st n) :
    accepts (log ++ [.sent k r o st n]) = accepts log := by
  simp [accepts, List.countP_append]

@[simp] theorem accepts_closed (log : Log) (n : Nat) :
    accepts (log ++ [.closed n]) = accepts log := by
  simp [accepts, List.countP_append]

@[simp] theorem closes_accepted (log : Log) (n m : Nat) :
    closes n (log ++ [.accepted m]) = closes n log := by
  simp [closes, List.count_append]

@[simp] theorem closes_sent (log : Log) (m : Nat) (k r o st n) :
    closes m (log ++ [.sent k r o st n]) = closes m log := by
  simp [closes, List.count_append]

theorem closes_closed (log : Log) (n m : Nat) :
    closes n (log ++ [.closed m]) = closes n log + if m = n then 1 else 0 := by
  simp [closes, List.count_append, List.count_singleton]

theorem Books.congr {t : St P (W × Log)} (h : Books s)
    (hholder : ∀ i, holder t i = holder s i)
    (hidle : ∀ i, (t.server.clientSocket i).status = .closed ↔
      (s.server.clientSocket i).status = .closed)
    (hcount : t.server.connections = s.server.connections)
    (haccepts : accepts t.world.2 = accepts s.world.2)
    (hcloses : ∀ n, closes n t.world.2 = closes n s.world.2) : Books t where
  idle i := by rw [hidle, hholder, h.idle]
  distinct i j n := by
    rw [hholder, hholder]
    exact h.distinct i j n
  held i n := by
    rw [hholder, haccepts, hcloses]
    exact h.held i n
  closed n := by
    rw [haccepts, hcloses]
    exact h.closed n
  connections := by
    rw [hcount, h.connections]
    exact congrArg Finset.card (Finset.filter_congr (fun i _ => not_congr (hidle i).symm))
  placed n := by
    rw [haccepts, hcloses]
    simp only [hholder]
    exact h.placed n

theorem holder_update {server : CfgServer P} {w : W × Log} {i : Slot} {client : ClientSocket P}
    (hs : s.server.clientSocket = Function.update server.clientSocket i client) (j : Slot) :
    holder s j = if j = i then client.socket else holder ⟨server, w⟩ j := by
  unfold holder
  rw [hs]
  by_cases hj : j = i
  · rw [hj, Function.update_self, if_pos rfl]
  · rw [Function.update_of_ne hj, if_neg hj]

theorem status_update {server : CfgServer P} {i : Slot} {client : ClientSocket P}
    (hs : s.server.clientSocket = Function.update server.clientSocket i client) (j : Slot) :
    (s.server.clientSocket j).status =
      if j = i then client.status else (server.clientSocket j).status := by
  rw [hs]
  by_cases hj : j = i
  · rw [hj, Function.update_self, if_pos rfl]
  · rw [Function.update_of_ne hj, if_neg hj]

theorem Books.store {t : St P (W × Log)} (h : Books s) {i : Slot} (client : ClientSocket P)
    (hi : (s.server.clientSocket i).status = .closed)
    (hsocket : client.socket = some (accepts s.world.2)) (hstatus : client.status ≠ .closed)
    (hclients : t.server.clientSocket = Function.update s.server.clientSocket i client)
    (hcount : t.server.connections = s.server.connections + 1)
    (hlog : t.world.2 = s.world.2 ++ [.accepted (accepts s.world.2)]) : Books t := by
  have hholder (j) : holder t j = if j = i then some (accepts s.world.2) else holder s j := by
    rw [holder_update (w := s.world) hclients j, hsocket]
  constructor
  · intro j
    rw [status_update hclients, hholder]
    split
    · simp [hstatus]
    · exact h.idle j
  · intro j k n hj hk
    rw [hholder] at hj hk
    split at hj
    · split at hk
      · rename_i hji hki
        exact hji.trans hki.symm
      · have hlt := (h.held k n hk).1
        rw [← Option.some.inj hj] at hlt
        exact absurd hlt (Nat.lt_irrefl _)
    · split at hk
      · have hlt := (h.held j n hj).1
        rw [← Option.some.inj hk] at hlt
        exact absurd hlt (Nat.lt_irrefl _)
      · exact h.distinct j k n hj hk
  · intro j n hj
    rw [hholder] at hj
    rw [hlog, accepts_accepted, closes_accepted]
    split at hj
    · obtain rfl := Option.some.inj hj
      exact ⟨Nat.lt_succ_self _, h.closed _ (Nat.le_refl _)⟩
    · obtain ⟨hlt, hc⟩ := h.held j n hj
      exact ⟨Nat.lt_succ_of_lt hlt, hc⟩
  · intro n hn
    rw [hlog, accepts_accepted] at hn
    rw [hlog, closes_accepted]
    exact h.closed n (Nat.le_of_succ_le hn)
  · rw [hcount, hclients, occupied_open hi hstatus, h.connections]
  · intro n hn
    rw [hlog, accepts_accepted] at hn
    rw [hlog, closes_accepted]
    obtain rfl | hlt := Nat.eq_or_lt_of_le (Nat.le_of_lt_succ hn)
    · exact .inl ⟨i, by rw [hholder, if_pos rfl]⟩
    · obtain ⟨j, hj⟩ | hc := h.placed n hlt
      · refine .inl ⟨j, ?_⟩
        rw [hholder, if_neg ?_]
        · exact hj
        · rintro rfl
          rw [(h.idle j).mp hi] at hj
          cases hj
      · exact .inr hc

theorem Books.release {t : St P (W × Log)} (h : Books s) {i : Slot} {client : ClientSocket P}
    {n : Nat} (hi : holder s i = some n) (hsocket : client.socket = none)
    (hstatus : client.status = .closed)
    (hclients : t.server.clientSocket = Function.update s.server.clientSocket i client)
    (hcount : t.server.connections = s.server.connections - 1)
    (hlog : t.world.2 = s.world.2 ++ [.closed n]) : Books t := by
  have hholder (j) : holder t j = if j = i then none else holder s j := by
    rw [holder_update (w := s.world) hclients j, hsocket]
  obtain ⟨hlt, hzero⟩ := h.held i n hi
  have hopen : (s.server.clientSocket i).status ≠ .closed := by
    intro hc
    rw [(h.idle i).mp hc] at hi
    cases hi
  constructor
  · intro j
    rw [status_update hclients, hholder]
    split
    · simp [hstatus]
    · exact h.idle j
  · intro j k m hj hk
    rw [hholder] at hj hk
    split at hj
    · cases hj
    · split at hk
      · cases hk
      · exact h.distinct j k m hj hk
  · intro j m hj
    rw [hholder] at hj
    rw [hlog, accepts_closed, closes_closed]
    split at hj
    · cases hj
    · rename_i hji
      obtain ⟨hmlt, hc⟩ := h.held j m hj
      have hne : n ≠ m := by
        rintro rfl
        exact hji (h.distinct j i n hj hi)
      rw [if_neg hne]
      exact ⟨hmlt, hc⟩
  · intro m hm
    rw [hlog, accepts_closed] at hm
    rw [hlog, closes_closed, h.closed m hm, if_neg (by omega)]
  · have hclose := occupied_close hopen hstatus
    rw [hcount, hclients, h.connections]
    omega
  · intro m hm
    rw [hlog, accepts_closed] at hm
    rw [hlog, closes_closed]
    by_cases hmn : n = m
    · obtain rfl := hmn
      exact .inr (by rw [hzero, if_pos rfl])
    · rw [if_neg hmn]
      obtain ⟨j, hj⟩ | hc := h.placed m hm
      · refine .inl ⟨j, ?_⟩
        rw [hholder, if_neg ?_]
        · exact hj
        · rintro rfl
          exact hmn (Option.some.inj (hi.symm.trans hj))
      · exact .inr hc

theorem finished_not_closed {status : ClientStatus} (h : finished status = true) :
    status ≠ .closed := by
  rintro rfl
  cases h

theorem Books.slot (h : Books s) (i : Slot) : Books (slotTask (record env) s i) := by
  obtain ⟨hsocket, hfree, hopen, hlog⟩ := clientTask_keeps env s.server.sn s.server.clbSet
    ⟨s.server.clientSocket i, s.server.settings, s.world⟩
  unfold slotTask
  dsimp only
  generalize clientTask (record env) s.server.sn s.server.clbSet
    ⟨s.server.clientSocket i, s.server.settings, s.world⟩ = c at hsocket hfree hopen hlog ⊢
  dsimp only at hsocket hfree hopen hlog
  let t : St P (W × Log) :=
    ⟨{ s.server with
        clientSocket := Function.update s.server.clientSocket i c.client
        settings := c.settings }, c.world⟩
  have hholder (j) : holder t j = holder s j := by
    rw [holder_update (w := s.world) rfl j]
    split
    · rename_i hj
      rw [hj, hsocket]
      rfl
    · rfl
  have hidle (j) : (t.server.clientSocket j).status = .closed ↔
      (s.server.clientSocket j).status = .closed := by
    rw [status_update rfl j]
    split
    · rename_i hj
      rw [hj]
      refine ⟨fun hc => ?_, fun hc => by rw [hfree hc, hc]⟩
      by_contra hne
      exact hopen hne hc
    · exact Iff.rfl
  have ht : Books t := by
    refine h.congr hholder hidle rfl ?_ (fun n => ?_)
    · obtain he | ⟨r, o, st, nb, he⟩ := hlog
      · exact congrArg accepts he
      · exact (congrArg accepts he).trans (accepts_sent _ _ _ _ _ _)
    · obtain he | ⟨r, o, st, nb, he⟩ := hlog
      · exact congrArg (closes n) he
      · exact (congrArg (closes n) he).trans (closes_sent _ _ _ _ _ _ _)
  split
  · rename_i hfinished
    have hne : holder t i ≠ none := by
      intro hn
      have hc := (ht.idle i).mpr hn
      rw [status_update rfl i, if_pos rfl] at hc
      exact finished_not_closed hfinished hc
    obtain ⟨n, hn⟩ := Option.ne_none_iff_exists'.mp hne
    have hci : (t.server.clientSocket i).socket = some n := hn
    refine ht.release (t := closeClientSocket (record env) i t) hn rfl rfl rfl rfl ?_
    unfold closeClientSocket
    dsimp only
    rw [hci]
    rfl
  · exact ht

/-- Where a turn adds a socket, the books stay right if there is a free slot, and the socket
is lost otherwise. -/
theorem Books.add (h : Books s) {n : Nat} {t : St P (W × Log)}
    (ha : accepting (record env) s = some (n, t)) :
    ((∃ i, (s.server.clientSocket i).status = .closed) →
      Books (addClientSocket (record env) n t).2 ∧
        (addClientSocket (record env) n t).1 = errSuccess ∧
        ∃ i, holder (addClientSocket (record env) n t).2 i = some n) ∧
    ((∀ i, (s.server.clientSocket i).status ≠ .closed) →
      ¬ Owned (addClientSocket (record env) n t).2) := by
  obtain ⟨hn, hlog, hclients, hcount⟩ := accepting_record ha
  have hle : t.server.connections ≤ maxConfiguratorConnection := by
    rw [hcount]
    exact h.connections_le
  unfold addClientSocket
  rw [if_pos hle]
  cases hfirst : firstClosed t.server with
  | some i =>
      have hfree : (s.server.clientSocket i).status = .closed := by
        rw [← hclients]
        exact firstClosed_some hfirst
      refine ⟨fun _ => ⟨?_, rfl, i, ?_⟩, fun hfull => absurd hfree (hfull i)⟩
      · refine h.store { t.server.clientSocket i with
            socket := some n
            parser := (record env).httpParserInit
            status := .opened } hfree (by rw [hn]) (by simp) ?_ ?_ ?_
        · rw [← hclients]
          rfl
        · rw [← hcount]
          rfl
        · rw [← hn]
          exact hlog
      · unfold holder St.setClient St.mapServer
        dsimp only
        rw [Function.update_self]
  | none =>
      have hfull := firstClosed_none hfirst
      rw [hclients] at hfull
      refine ⟨fun ⟨i, hi⟩ => absurd hi (hfull i), fun _ ho => ?_⟩
      have hnot : ∀ i, holder t i ≠ some n := by
        intro i hi
        have hs : holder s i = some n := by
          unfold holder at hi ⊢
          rw [← hclients]
          exact hi
        have hlt := (h.held i n hs).1
        rw [hn] at hlt
        exact absurd hlt (Nat.lt_irrefl _)
      have hlt : n < accepts t.world.2 := by
        rw [hlog, accepts_accepted, hn]
        exact Nat.lt_succ_self _
      have hzero : closes n t.world.2 = 0 := by
        rw [hlog, closes_accepted]
        exact h.closed n (Nat.le_of_eq hn.symm)
      obtain ⟨⟨i, hi, -⟩, -⟩ | ⟨-, hc⟩ := ho.owned n hlt
      · exact hnot i hi
      · have hone : closes n t.world.2 = 1 := hc
        omega

theorem Books.idleAccept (h : Books s) (ha : accepting (record env) s = none) :
    Books (acceptTask (record env) s) := by
  obtain ⟨hlog, hclients, hcount⟩ := acceptTask_none ha
  refine h.congr (fun i => ?_) (fun i => by rw [hclients]) hcount (congrArg accepts hlog)
    (fun n => congrArg (closes n) hlog)
  unfold holder
  rw [hclients]

theorem books_initial (parser : P) (wifi : WifiSettings) (clbSet : Bool) (sn : Block) (world : W) :
    Books (⟨initialServer parser wifi clbSet sn, (world, [])⟩ : St P (W × Log)) where
  idle _ := ⟨fun _ => rfl, fun _ => rfl⟩
  distinct _ _ _ h := nomatch h
  held _ _ h := nomatch h
  closed _ _ := rfl
  connections := by
    have hempty : Finset.univ.filter (fun i => ((initialServer parser wifi clbSet sn).clientSocket i).status
        ≠ .closed) = ∅ := Finset.filter_eq_empty_iff.mpr (fun _ _ hne => hne rfl)
    exact (Finset.card_eq_zero.mpr hempty).symm
  placed _ hn := absurd hn (Nat.not_lt_zero _)

theorem Books.turn (h : Books s) (a : Turn) (hroom : Room s env a) :
    Books (ConfiguratorTurns.turn (record env) s a) := by
  cases a with
  | slot i => exact h.slot i
  | accept =>
      cases ha : accepting (record env) s with
      | none => exact h.idleAccept ha
      | some r =>
          show Books (acceptTask (record env) s)
          rw [acceptTask_some ha]
          exact ((h.add ha).1 (hroom (by rw [ha]; rfl))).1

theorem room_of_owned (h : Books s) (a : Turn)
    (ho : Owned (ConfiguratorTurns.turn (record env) s a)) : Room s env a := by
  cases a with
  | slot i => exact trivial
  | accept =>
      intro hsome
      obtain ⟨r, ha⟩ := Option.isSome_iff_exists.mp hsome
      by_contra hfull
      have ho : Owned (acceptTask (record env) s) := ho
      rw [acceptTask_some ha] at ho
      exact (h.add ha).2 (fun i hi => hfull ⟨i, hi⟩) ho

theorem answered_of_room (h : Books s) (a : Turn) (hroom : Room s env a) : Answered s env a := by
  cases a with
  | slot i => exact trivial
  | accept =>
      intro n t ha
      exact .inl ((h.add ha).1 (hroom (by rw [ha]; rfl))).2

/-- At all times the sockets of the clients are owned if and only if no socket is accepted
while every slot is taken; and then add_client_socket always tells what it did. -/
theorem sockets_owned_iff (env : Env P W) (parser : P) (wifi : WifiSettings) (clbSet : Bool)
    (sn : Block) (world : W) (n : Nat) :
    (Guarded (turn (record env)) (fun s a => Room s env a)
        ⟨initialServer parser wifi clbSet sn, (world, [])⟩ (turns n) ↔
      ∀ m, Owned (run (turn (record env)) ⟨initialServer parser wifi clbSet sn, (world, [])⟩
        ((turns n).take m))) ∧
    (Guarded (turn (record env)) (fun s a => Room s env a)
        ⟨initialServer parser wifi clbSet sn, (world, [])⟩ (turns n) →
      Guarded (turn (record env)) (fun s a => Answered s env a)
        ⟨initialServer parser wifi clbSet sn, (world, [])⟩ (turns n)) := by
  have hstart := books_initial parser wifi clbSet sn world
  have hkeep : ∀ (s : St P (W × Log)) (a : Turn), Room s env a → Books s →
      Books (turn (record env) s a) := fun s a hroom h => h.turn a hroom
  refine ⟨guarded_iff_of_invariant (fun s h => h.owned) hkeep
      (fun s a h ho => room_of_owned h a ho) hstart, fun hg => ?_⟩
  exact hg.imp hkeep (fun s a h hroom => answered_of_room h a hroom) hstart

/-- A network on which every accept succeeds and nothing arrives. -/
def crowded : Env Unit Unit where
  serverSocket := fun w => ((errSuccess, 0), w)
  accept := fun _ w => ((errSuccess, 0), w)
  close := fun _ w => w
  recv := fun _ w => ((errWouldBlock, []), w)
  send := fun _ _ _ w => ((errWouldBlock, 0), w)
  malloc := fun w => (true, w)
  staleText := fun w => ([], w)
  onSet := fun _ w => (errSuccess, w)
  httpParserInit := ()
  httpParserExecute := fun _ chunk => (([], chunk.length), ())

/-- The third client fits into no slot, and its socket is neither stored nor closed. -/
theorem third_client_lost :
    ¬ Owned (run (turn (record crowded))
      ⟨initialServer () ⟨.unsecured, [], []⟩ false .null, ((), [])⟩ (turns 3)) := by
  intro h
  have hlost : ∀ i, holder (run (turn (record crowded))
      ⟨initialServer () ⟨.unsecured, [], []⟩ false .null, ((), [])⟩ (turns 3)) i ≠ some 2 := by
    decide +kernel
  obtain ⟨⟨i, hi, -⟩, -⟩ | ⟨-, hc⟩ := h.owned 2 (by decide +kernel)
  · exact hlost i hi
  · revert hc
    decide +kernel

end ErSdk.ConfiguratorSockets
