import ErSdk.ProtocolClientSm
import Mathlib.Data.List.Nodup
import Mathlib.Logic.Relation

namespace ErSdk.Ledger

open ProtocolClientSm Error

/-- Where the requests of one state machine are, with its counter of sent
requests and the abort flag: all that decides which request is completed. -/
structure Holdings (R : Type) where
  type : StateMachineType
  limit : Nat
  queue : List (ProtocolClientRequest R)
  active : Option (ProtocolClientRequest R)
  sent : List (ProtocolClientRequest R)
  num : Nat
  aborting : Bool

variable {R X : Type}

def Holdings.held (h : Holdings R) : List (ProtocolClientRequest R) :=
  h.queue ++ (h.active.toList ++ h.sent)

def Holdings.addrs (h : Holdings R) : List Nat := h.held.map ProtocolClientRequest.addr

inductive Why
  | response
  | timeout
  | abort
  deriving DecidableEq

inductive Place
  | queue
  | active
  | sent
  deriving DecidableEq

/-- One completion: the request chosen, where it was found, and the response its
callback gets. -/
structure Completion (R : Type) where
  why : Why
  place : Place
  request : ProtocolClientRequest R
  response : ProtocolClientResponse
  before : Holdings R

namespace Completion

def taken (c : Completion R) : Holdings R :=
  match c.why, c.place with
  | .response, _ => c.before
  | _, .queue => { c.before with queue := c.before.queue.tail, active := none }
  | _, _ => { c.before with active := none }

def stays (c : Completion R) : Bool :=
  c.before.type = .asynch && c.request.type = .subscribeAsynch
    && !c.before.aborting && c.response.status

def after (c : Completion R) : Holdings R :=
  if c.stays then c.taken
  else { c.taken with sent := listDel c.request c.taken.sent, num := c.taken.num - 1 }

/-- Another request loses the active place when this one is completed. -/
def Drops (c : Completion R) : Prop :=
  c.why ≠ .response ∧ c.place ≠ .active ∧ c.before.active.isSome = true

instance (c : Completion R) : Decidable c.Drops :=
  inferInstanceAs (Decidable (_ ∧ _ ∧ _))

inductive Selected : Completion R → Prop
  | answered {r resp h} (hs : r ∈ h.sent) (hid : r.messageId = resp.id) :
      Selected ⟨.response, .sent, r, resp, h⟩
  | sentTimeout {r resp h} (hs : r ∈ h.sent) (hc : resp.responseCode = errTimeout)
      (hn : ¬ (h.type = .asynch ∧ r.type = .subscribeAsynch)) :
      Selected ⟨.timeout, .sent, r, resp, h⟩
  | activeTimeout {r resp h} (ha : h.active = some r) (hc : resp.responseCode = errTimeout) :
      Selected ⟨.timeout, .active, r, resp, h⟩
  | queueAbort {r resp h} (rest) (hb : h.aborting = true) (hq : h.queue = r :: rest)
      (hc : resp.responseCode = errRequestAborted) : Selected ⟨.abort, .queue, r, resp, h⟩
  | sentAbort {r resp h} (rest) (hb : h.aborting = true) (hq : h.queue = [])
      (hs : h.sent = r :: rest) (hc : resp.responseCode = errRequestAborted) :
      Selected ⟨.abort, .sent, r, resp, h⟩
  | activeAbort {r resp h} (hb : h.aborting = true) (hq : h.queue = []) (hs : h.sent = [])
      (ha : h.active = some r) (hc : resp.responseCode = errRequestAborted) :
      Selected ⟨.abort, .active, r, resp, h⟩

end Completion

/-- What an observer of the world sees of the calls a state machine makes. -/
structure Hooks (R X : Type) where
  sends : ProtocolClientRequest R → Int → X → X → Prop
  receives : Received → X → X → Prop
  closes : X → X → Prop
  status : Int → Bool → Prop
  calls : ProtocolClientRequest R → ProtocolClientResponse → X → X → Prop

/-- The response handed to the callback holds what recv_response delivered. -/
structure Delivers (k : Hooks R X) (received : Received) (response : ProtocolClientResponse) :
    Prop where
  id : response.id = received.id
  payload : response.payload = received.payload
  success : received.error = errSuccess →
    response.responseCode = received.responseCode ∧
    response.payloadSize = received.payloadSize ∧
    k.status received.responseCode response.status
  overflow : received.error ≠ errSuccess → received.error = errOverflow ∧
    response.responseCode = errOverflow

/-- One change of the holdings together with what the observer sees of it. Every
completion that is made has to satisfy `ok`. -/
inductive Move (k : Hooks R X) (ok : Completion R → Prop) :
    Holdings R × X → Holdings R × X → Prop
  | take {h x r rest} (t : SysTime) (hb : h.aborting = false) (ha : h.active = none)
      (hq : h.queue = r :: rest) (hl : h.limit = noRequestLimit ∨ h.num < h.limit) :
      Move k ok (h, x) ({ h with queue := rest, active := some { r with startOfTransmit := t } }, x)
  | send {h x x' r} (ha : h.active = some r) (hx : k.sends r errSuccess x x') :
      Move k ok (h, x) ({ h with active := none, sent := r :: h.sent, num := h.num + 1 }, x')
  | refused {h x x' r e} (ha : h.active = some r) (he : e ≠ errSuccess) (hx : k.sends r e x x') :
      Move k ok (h, x) (h, x')
  | received {h x x'} (rcv : Received) (hx : k.receives rcv x x') : Move k ok (h, x) (h, x')
  | answer {x x₁ x'} (c : Completion R) (rcv : Received) (hw : c.why = .response)
      (hs : c.Selected) (hok : ok c) (hr : k.receives rcv x x₁)
      (hd : Delivers k rcv c.response) (hx : k.calls c.request c.response x₁ x')
      (ht : c.response.requestType = c.request.type) :
      Move k ok (c.before, x) (c.after, x')
  | complete {x x'} (c : Completion R) (hw : c.why ≠ .response) (hs : c.Selected) (hok : ok c)
      (hx : k.calls c.request c.response x x') (ht : c.response.requestType = c.request.type) :
      Move k ok (c.before, x) (c.after, x')
  | aborted {h x} (hb : h.aborting = true) (hq : h.queue = []) (hs : h.sent = [])
      (ha : h.active = none) : Move k ok (h, x) ({ h with aborting := false }, x)
  | closed {h x x'} (hx : k.closes x x') : Move k ok (h, x) (h, x')

abbrev Moves (k : Hooks R X) (ok : Completion R → Prop) :
    Holdings R × X → Holdings R × X → Prop := Relation.ReflTransGen (Move k ok)

theorem Moves.invariant {k : Hooks R X} {ok : Completion R → Prop}
    {P : Holdings R × X → Prop} (hstep : ∀ p q, Move k ok p q → P p → P q)
    {p q : Holdings R × X} (h : Moves k ok p q) (hp : P p) : P q := by
  induction h with
  | refl => exact hp
  | tail _ hm ih => exact hstep _ _ hm ih

theorem Move.mono {k : Hooks R X} {ok ok' : Completion R → Prop} (h : ∀ c, ok c → ok' c)
    {p q : Holdings R × X} (hm : Move k ok p q) : Move k ok' p q := by
  cases hm with
  | take t hb ha hq hl => exact .take t hb ha hq hl
  | send ha hx => exact .send ha hx
  | refused ha he hx => exact .refused ha he hx
  | received rcv hx => exact .received rcv hx
  | answer c rcv hw hs hok hr hd hx ht => exact .answer c rcv hw hs (h c hok) hr hd hx ht
  | complete c hw hs hok hx ht => exact .complete c hw hs (h c hok) hx ht
  | aborted hb hq hs ha => exact .aborted hb hq hs ha
  | closed hx => exact .closed hx

abbrev Still (k : Hooks R X) : Holdings R × X → Holdings R × X → Prop := Move k (fun _ => False)

inductive Completes (k : Hooks R X) (c : Completion R) : Holdings R × X → Holdings R × X → Prop
  | answer {x x₁ x'} (rcv : Received) (hw : c.why = .response) (hs : c.Selected)
      (hr : k.receives rcv x x₁) (hd : Delivers k rcv c.response)
      (hx : k.calls c.request c.response x₁ x') (ht : c.response.requestType = c.request.type) :
      Completes k c (c.before, x) (c.after, x')
  | complete {x x'} (hw : c.why ≠ .response) (hs : c.Selected)
      (hx : k.calls c.request c.response x x') (ht : c.response.requestType = c.request.type) :
      Completes k c (c.before, x) (c.after, x')

/-- A row of moves, with all the completions among them in their order. -/
inductive Trace (k : Hooks R X) : List (Completion R) → Holdings R × X → Holdings R × X → Prop
  | refl {p} : Trace k [] p p
  | still {l p q r} (h : Trace k l p q) (hm : Still k q r) : Trace k l p r
  | completes {l c p q r} (h : Trace k l p q) (hc : Completes k c q r) : Trace k (l ++ [c]) p r

section

variable {k : Hooks R X} {ok : Completion R → Prop} {c : Completion R} {l l' : List (Completion R)}
variable {p q r : Holdings R × X}

theorem Completes.move (h : Completes k c p q) (hok : ok c) : Move k ok p q := by
  cases h with
  | answer rcv hw hs hr hd hx ht => exact .answer c rcv hw hs hok hr hd hx ht
  | complete hw hs hx ht => exact .complete c hw hs hok hx ht

theorem Completes.trace (h : Completes k c p q) : Trace k [c] p q := .completes .refl h

theorem Trace.trans (h : Trace k l p q) (h' : Trace k l' q r) : Trace k (l ++ l') p r := by
  induction h' with
  | refl => rwa [List.append_nil]
  | still _ hm ih => exact .still (ih h) hm
  | completes _ hc ih =>
      rw [← List.append_assoc]
      exact .completes (ih h) hc

theorem Trace.invariant {P : List (Completion R) → Holdings R × X → Prop}
    (hstill : ∀ l p q, Still k p q → P l p → P l q)
    (hcompletes : ∀ l c p q, Completes k c p q → P l p → P (l ++ [c]) q)
    (h : Trace k l p q) (hp : P [] p) : P l q := by
  induction h with
  | refl => exact hp
  | still _ hm ih => exact hstill _ _ _ hm (ih hp)
  | completes _ hc ih => exact hcompletes _ _ _ _ hc (ih hp)

theorem Trace.of_moves (h : Moves k (fun _ => False) p q) : Trace k [] p q := by
  induction h with
  | refl => exact .refl
  | tail _ hm ih => exact .still ih hm

theorem Trace.moves (h : Trace k l p q) (hok : ∀ c ∈ l, ok c) : Moves k ok p q := by
  induction h with
  | refl => exact .refl
  | still _ hm ih => exact (ih hok).tail (hm.mono fun _ h => h.elim)
  | completes _ hc ih =>
      obtain ⟨hrest, hlast⟩ := List.forall_mem_append.mp hok
      exact (ih hrest).tail (hc.move (List.forall_mem_singleton.mp hlast))

end

theorem listDel_sublist (r : ProtocolClientRequest R) (l : List (ProtocolClientRequest R)) :
    (listDel r l).Sublist l := List.eraseP_sublist

theorem listDel_eq_self {r : ProtocolClientRequest R} {l : List (ProtocolClientRequest R)}
    (h : r.addr ∉ l.map ProtocolClientRequest.addr) : listDel r l = l := by
  apply List.eraseP_of_forall_not
  intro q hq he
  exact h (List.mem_map.mpr ⟨q, hq, by simpa using he⟩)

theorem addr_not_mem_listDel {r : ProtocolClientRequest R} {l : List (ProtocolClientRequest R)}
    (h : (l.map ProtocolClientRequest.addr).Nodup) :
    r.addr ∉ (listDel r l).map ProtocolClientRequest.addr := by
  induction l with
  | nil => simp [listDel]
  | cons q l ih =>
      obtain ⟨hq, hl⟩ := List.nodup_cons.mp h
      by_cases he : q.addr = r.addr
      · have hd : listDel r (q :: l) = l := by simp [listDel, he]
        rw [hd, ← he]
        exact hq
      · have hd : listDel r (q :: l) = q :: listDel r l := by simp [listDel, he]
        rw [hd, List.map_cons, List.mem_cons, not_or]
        exact ⟨Ne.symm he, ih hl⟩

theorem mem_listDel_of_ne {r q : ProtocolClientRequest R} {l : List (ProtocolClientRequest R)}
    (hq : q ∈ l) (hne : q.addr ≠ r.addr) : q ∈ listDel r l := by
  exact (List.mem_eraseP_of_neg (by simpa using hne)).mpr hq

theorem length_listDel {r : ProtocolClientRequest R} {l : List (ProtocolClientRequest R)}
    (h : r ∈ l) : (listDel r l).length = l.length - 1 :=
  List.length_eraseP_of_mem h (by simp)

theorem le_length_listDel (r : ProtocolClientRequest R) (l : List (ProtocolClientRequest R)) :
    l.length - 1 ≤ (listDel r l).length := by
  by_cases h : ∃ q ∈ l, q.addr = r.addr
  · obtain ⟨q, hq, he⟩ := h
    exact Nat.le_of_eq (List.length_eraseP_of_mem hq (by simpa using he)).symm
  · have hself : listDel r l = l := listDel_eq_self (fun hm => by
      obtain ⟨q, hq, he⟩ := List.mem_map.mp hm
      exact h ⟨q, hq, he⟩)
    rw [hself]
    exact Nat.sub_le _ _

namespace Completion

@[simp] theorem taken_type (c : Completion R) : c.taken.type = c.before.type := by
  obtain ⟨why, place, r, resp, h⟩ := c
  cases why <;> cases place <;> rfl

@[simp] theorem taken_limit (c : Completion R) : c.taken.limit = c.before.limit := by
  obtain ⟨why, place, r, resp, h⟩ := c
  cases why <;> cases place <;> rfl

@[simp] theorem taken_sent (c : Completion R) : c.taken.sent = c.before.sent := by
  obtain ⟨why, place, r, resp, h⟩ := c
  cases why <;> cases place <;> rfl

@[simp] theorem taken_num (c : Completion R) : c.taken.num = c.before.num := by
  obtain ⟨why, place, r, resp, h⟩ := c
  cases why <;> cases place <;> rfl

@[simp] theorem taken_aborting (c : Completion R) : c.taken.aborting = c.before.aborting := by
  obtain ⟨why, place, r, resp, h⟩ := c
  cases why <;> cases place <;> rfl

theorem taken_active (c : Completion R) :
    c.taken.active = none ∨ c.taken.active = c.before.active := by
  obtain ⟨why, place, r, resp, h⟩ := c
  cases why <;> cases place <;> simp [taken]

theorem length_taken_active (c : Completion R) :
    c.taken.active.toList.length ≤ c.before.active.toList.length := by
  obtain h | h := c.taken_active <;> simp [h]

theorem Selected.mem_sent {c : Completion R} (h : c.Selected) (hp : c.place = .sent) :
    c.request ∈ c.before.sent := by
  cases h with
  | answered hs | sentTimeout hs => exact hs
  | sentAbort rest _ _ hs => exact hs ▸ List.mem_cons_self
  | activeTimeout | queueAbort | activeAbort => cases hp

theorem mem_held {h : Holdings R} {r : ProtocolClientRequest R} :
    r ∈ h.held ↔ r ∈ h.queue ∨ h.active = some r ∨ r ∈ h.sent := by
  simp [Holdings.held]

theorem Selected.mem_held {c : Completion R} (h : c.Selected) : c.request ∈ c.before.held := by
  rw [Completion.mem_held]
  cases h with
  | answered hs | sentTimeout hs => exact .inr (.inr hs)
  | activeTimeout ha => exact .inr (.inl ha)
  | queueAbort rest _ hq => exact .inl (by rw [hq]; exact List.mem_cons_self)
  | sentAbort rest _ _ hs => exact .inr (.inr (by rw [hs]; exact List.mem_cons_self))
  | activeAbort _ _ _ ha => exact .inr (.inl ha)

theorem held_sublist {h g : Holdings R} (hq : g.queue.Sublist h.queue)
    (ha : g.active.toList.Sublist h.active.toList) (hs : g.sent.Sublist h.sent) :
    g.held.Sublist h.held := hq.append (ha.append hs)

theorem taken_sublist (c : Completion R) : c.taken.held.Sublist c.before.held := by
  obtain ⟨why, place, r, resp, h⟩ := c
  cases why <;> cases place <;>
    first
      | exact List.Sublist.refl _
      | exact held_sublist (List.tail_sublist _) (List.nil_sublist _) (.refl _)
      | exact held_sublist (.refl _) (List.nil_sublist _) (.refl _)

theorem after_sublist_taken (c : Completion R) : c.after.held.Sublist c.taken.held := by
  unfold after
  split
  · exact .refl _
  · exact held_sublist (.refl _) (.refl _) (listDel_sublist _ _)

theorem after_sublist (c : Completion R) : c.after.held.Sublist c.before.held :=
  (after_sublist_taken c).trans (taken_sublist c)

theorem stays_type {c : Completion R} (h : c.stays = true) :
    c.request.type = .subscribeAsynch := by
  simp only [stays, Bool.and_eq_true, decide_eq_true_eq] at h
  exact h.1.1.2

theorem nodup_places {h : Holdings R} (hn : h.addrs.Nodup) :
    (h.queue.map ProtocolClientRequest.addr).Nodup ∧
      (h.sent.map ProtocolClientRequest.addr).Nodup ∧
      (∀ a ∈ h.queue.map ProtocolClientRequest.addr, a ∉ h.sent.map ProtocolClientRequest.addr) ∧
      (∀ r, h.active = some r → r.addr ∉ h.queue.map ProtocolClientRequest.addr ∧
        r.addr ∉ h.sent.map ProtocolClientRequest.addr) := by
  simp only [Holdings.addrs, Holdings.held, List.map_append, List.nodup_append] at hn
  obtain ⟨hq, ⟨_, hs, has⟩, hqs⟩ := hn
  refine ⟨hq, hs, fun a ha hb => hqs a ha a (List.mem_append_right _ hb) rfl, ?_⟩
  rintro r hr
  have hm : r.addr ∈ h.active.toList.map ProtocolClientRequest.addr := by simp [hr]
  exact ⟨fun ha => hqs _ ha _ (List.mem_append_left _ hm) rfl, fun ha => has _ hm _ ha rfl⟩

theorem Selected.taken_not_mem {c : Completion R} (h : c.Selected) (hn : c.before.addrs.Nodup) :
    c.request.addr ∉ c.taken.queue.map ProtocolClientRequest.addr ∧
      ∀ q, c.taken.active = some q → q.addr ≠ c.request.addr := by
  obtain ⟨hq, hs, hqs, ha⟩ := nodup_places hn
  cases h with
  | answered hr =>
      exact ⟨fun hm => hqs _ hm (List.mem_map_of_mem hr),
        fun q hqa he => (ha q hqa).2 (he ▸ List.mem_map_of_mem hr)⟩
  | sentTimeout hr =>
      exact ⟨fun hm => hqs _ hm (List.mem_map_of_mem hr), fun _ hqa => nomatch hqa⟩
  | activeTimeout har => exact ⟨(ha _ har).1, fun _ hqa => nomatch hqa⟩
  | @queueAbort r _ g rest _ hqr =>
      have hc : ((r :: rest).map ProtocolClientRequest.addr).Nodup := hqr ▸ hq
      refine ⟨?_, fun _ hqa => nomatch hqa⟩
      simpa only [taken, hqr, List.tail_cons] using (List.nodup_cons.mp hc).1
  | sentAbort rest _ hqe _ =>
      exact ⟨by simp [taken, hqe], fun _ hqa => nomatch hqa⟩
  | activeAbort _ hqe =>
      exact ⟨by simp [taken, hqe], fun _ hqa => nomatch hqa⟩

theorem Selected.gone {c : Completion R} (h : c.Selected) (hn : c.before.addrs.Nodup)
    (hst : c.stays = false) : c.request.addr ∉ c.after.addrs := by
  obtain ⟨hq, ha⟩ := h.taken_not_mem hn
  have ht : c.taken.addrs.Nodup := hn.sublist ((taken_sublist c).map _)
  have hs := addr_not_mem_listDel (r := c.request) (nodup_places ht).2.1
  intro hm
  rw [after, hst] at hm
  simp only [Bool.false_eq_true, if_false, Holdings.addrs, Holdings.held, List.map_append,
    List.mem_append] at hm
  obtain hm | hm | hm := hm
  · exact hq hm
  · obtain ⟨q, hqm, he⟩ := List.mem_map.mp hm
    exact ha q (by simpa using hqm) he
  · exact hs hm

theorem Selected.keeps {c : Completion R} (h : c.Selected) (hd : ¬ c.Drops)
    {q : ProtocolClientRequest R} (hq : q ∈ c.before.held) (hne : q.addr ≠ c.request.addr) :
    q ∈ c.after.held := by
  have hdrop : c.why = .response ∨ c.place = .active ∨ c.before.active = none := by
    simpa only [Drops, ne_eq, not_and_or, not_not, Bool.not_eq_true, Option.isSome_eq_false_iff,
      Option.isNone_iff_eq_none] using hd
  have ht : q ∈ c.taken.held := by
    rw [Completion.mem_held] at hq ⊢
    cases h with
    | answered => exact hq
    | sentTimeout hr | sentAbort _ _ _ hr =>
        simp only [reduceCtorEq, false_or] at hdrop
        simpa only [taken, hdrop] using hq
    | activeTimeout har | activeAbort _ _ _ har =>
        obtain hq | hq | hq := hq
        · exact .inl hq
        · exact absurd (Option.some.inj (hq.symm.trans har) ▸ rfl) hne
        · exact .inr (.inr hq)
    | queueAbort rest _ hqr =>
        simp only [reduceCtorEq, false_or] at hdrop
        obtain hq | hq | hq := hq
        · rw [hqr, List.mem_cons] at hq
          obtain rfl | hq := hq
          · exact absurd rfl hne
          · exact .inl (by simpa only [taken, hqr, List.tail_cons] using hq)
        · exact absurd (hdrop.symm.trans hq) nofun
        · exact .inr (.inr hq)
  unfold after
  split
  · exact ht
  · rw [Completion.mem_held] at ht ⊢
    obtain ht | ht | ht := ht
    · exact .inl ht
    · exact .inr (.inl ht)
    · exact .inr (.inr (mem_listDel_of_ne ht hne))

/-- A request is in the list of sent requests behind its completion only if it got a
response and stays listed. -/
def listed (c : Completion R) : Bool := c.why = .response && c.stays

/-- What a completion takes away: the request, if it does not stay listed, and another
request that was active. -/
def left (c : Completion R) : List (ProtocolClientRequest R) :=
  (if c.listed then [] else [c.request]) ++ if c.Drops then c.before.active.toList else []

theorem perm_listDel {r : ProtocolClientRequest R} {l : List (ProtocolClientRequest R)} (hr : r ∈ l)
    (hn : (l.map ProtocolClientRequest.addr).Nodup) : l.Perm (r :: listDel r l) := by
  induction l with
  | nil => exact absurd hr List.not_mem_nil
  | cons q l ih =>
      obtain ⟨hq, hl⟩ := List.nodup_cons.mp hn
      by_cases he : q.addr = r.addr
      · have hqr : q = r := List.inj_on_of_nodup_map hn List.mem_cons_self hr he
        have hd : listDel r (q :: l) = l := by simp [listDel, he]
        rw [hd, hqr]
      · have hd : listDel r (q :: l) = q :: listDel r l := by simp [listDel, he]
        have hm : r ∈ l := (List.mem_cons.mp hr).resolve_left (fun h => he (h ▸ rfl))
        rw [hd]
        exact ((ih hm hl).cons q).trans (.swap r q _)

theorem perm_held (r : ProtocolClientRequest R) (h : Holdings R) {l : List (ProtocolClientRequest R)}
    (hp : h.sent.Perm (r :: l)) : h.held.Perm (r :: { h with sent := l }.held) := by
  have hs : h.held.Perm (h.queue ++ (h.active.toList ++ r :: l)) :=
    (hp.append_left h.active.toList).append_left h.queue
  refine hs.trans ?_
  rw [← List.append_assoc]
  refine List.perm_middle.trans ?_
  rw [List.append_assoc]
  exact .refl _

theorem perm_active (h : Holdings R) :
    h.held.Perm (h.active.toList ++ { h with active := none }.held) := by
  unfold Holdings.held
  rw [← List.append_assoc, ← List.append_assoc]
  exact List.perm_append_comm.append_right h.sent

theorem toList_of_drops {c : Completion R} (hw : c.why ≠ .response) (hp : c.place ≠ .active) :
    (if c.Drops then c.before.active.toList else []) = c.before.active.toList := by
  split
  · rfl
  · rename_i hd
    cases ha : c.before.active with
    | none => rfl
    | some r => exact absurd ⟨hw, hp, by rw [ha]; rfl⟩ hd

theorem after_held_eq {c : Completion R}
    (hs : c.request.addr ∉ c.before.sent.map ProtocolClientRequest.addr) :
    c.after.held = c.taken.held := by
  unfold after
  split
  · rfl
  · rw [taken_sent, listDel_eq_self hs, ← taken_sent]
    rfl

theorem Selected.held_perm {c : Completion R} (h : c.Selected) (hn : c.before.addrs.Nodup) :
    c.before.held.Perm (c.left ++ c.after.held) := by
  obtain ⟨hq, hs, hqs, ha⟩ := nodup_places hn
  cases h with
  | @answered r resp g hr hid =>
      unfold left after listed
      cases hst : stays ⟨.response, .sent, r, resp, g⟩ with
      | true => exact .refl _
      | false => exact perm_held r g (perm_listDel hr hs)
  | @sentTimeout r resp g hr hc hnot =>
      have hst : stays ⟨.timeout, .sent, r, resp, g⟩ = false := by
        by_contra hst
        simp only [stays, Bool.and_eq_true, decide_eq_true_eq, Bool.not_eq_false] at hst
        exact hnot hst.1.1
      unfold left after
      rw [toList_of_drops (by simp) (by simp), hst]
      exact (perm_held r g (perm_listDel hr hs)).trans ((perm_active _).cons r)
  | @activeTimeout r resp g har hc =>
      rw [after_held_eq (ha r har).2]
      have hp := perm_active g
      rw [har] at hp
      exact hp
  | @queueAbort r resp g rest hb hqr hc =>
      have hmem : r.addr ∈ g.queue.map ProtocolClientRequest.addr := by
        rw [hqr]
        exact List.mem_cons_self
      unfold left
      rw [toList_of_drops (by simp) (by simp), after_held_eq (hqs _ hmem)]
      have hg : g.held = r :: { g with queue := rest }.held := by
        unfold Holdings.held
        rw [hqr]
        rfl
      have htaken : (taken ⟨.abort, .queue, r, resp, g⟩).held =
          { g with queue := rest, active := none }.held := by
        unfold taken
        dsimp only
        rw [hqr, List.tail_cons]
      rw [hg, htaken]
      exact (perm_active { g with queue := rest }).cons r
  | @sentAbort r resp g rest hb hqr hsr hc =>
      have hst : stays ⟨.abort, .sent, r, resp, g⟩ = false := by
        simp only [stays, hb, Bool.not_true, Bool.and_false, Bool.false_and]
      have hr : r ∈ g.sent := hsr ▸ List.mem_cons_self
      unfold left after
      rw [toList_of_drops (by simp) (by simp), hst]
      exact (perm_held r g (perm_listDel hr hs)).trans ((perm_active _).cons r)
  | @activeAbort r resp g hb hqr hsr har hc =>
      rw [after_held_eq (ha r har).2]
      have hp := perm_active g
      rw [har] at hp
      exact hp

end Completion

end ErSdk.Ledger
