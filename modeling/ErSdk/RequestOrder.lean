import ErSdk.Accounting

namespace ErSdk.RequestOrder

open ProtocolClientSm Ledger SmMoves Sessions Accounting Runs Error

variable {R ι W : Type}

/-- A request as it was accepted, before its transmission began. -/
def asAccepted (r : ProtocolClientRequest R) : ProtocolClientRequest R :=
  { r with startOfTransmit := 0 }

def underWay (h : Holdings R) : List (ProtocolClientRequest R) := h.sent ++ h.active.toList

def line (h : Holdings R) : List (ProtocolClientRequest R) := (underWay h ++ h.queue).map asAccepted

def answered (calls : List (Call R)) : List (ProtocolClientRequest R) :=
  calls.map (fun c => asAccepted c.request)

structure OneByOne (h : Holdings R) : Prop where
  type : h.type = .synch
  limit : h.limit = 1
  count : h.num = h.sent.length
  room : (underWay h).length ≤ 1

theorem OneByOne.start (config : TransmissionConfig) (response : ProtocolClientResponse)
    (completed : Option (ProtocolClientRequest R)) :
    OneByOne (holdings (protocolClientSmNew config 1 .synch response completed)) :=
  ⟨rfl, rfl, rfl, Nat.zero_le 1⟩

theorem eq_singleton_of_mem {α : Type} {a : α} {l : List α} (h : a ∈ l) (hl : l.length ≤ 1) :
    l = [a] := by
  match l, h, hl with
  | [b], h, _ => rw [List.mem_singleton.mp h]

theorem OneByOne.complete {c : Completion R} (h : OneByOne c.before) (hs : c.Selected)
    (hw : c.why ≠ .abort) : OneByOne c.after ∧ underWay c.before = [c.request] ∧
      underWay c.after = [] ∧ c.after.queue = c.before.queue := by
  have hstays : c.stays = false := by
    unfold Completion.stays
    rw [h.type]
    rfl
  have hafter : c.after = { c.taken with
      sent := listDel c.request c.taken.sent, num := c.taken.num - 1 } := by
    unfold Completion.after
    rw [hstays]
    rfl
  rw [hafter]
  obtain ⟨htype, hlimit, hcount, hroom⟩ := h
  cases hs with
  | @answered r resp g hr | @sentTimeout r resp g hr =>
      have hroom : g.sent.length + g.active.toList.length ≤ 1 := List.length_append ▸ hroom
      have hsent : g.sent = [r] := eq_singleton_of_mem hr (by omega)
      have hactive : g.active = none := by
        rw [hsent] at hroom
        exact Option.eq_none_iff_forall_ne_some.mpr fun q hq => by simp [hq] at hroom
      have hdel : listDel r g.sent = [] := by simp [hsent, listDel]
      refine ⟨⟨htype, hlimit, ?_, ?_⟩, ?_, ?_, rfl⟩ <;>
        simp_all [underWay, Completion.taken]
  | @activeTimeout r resp g ha =>
      have hroom : g.sent.length + g.active.toList.length ≤ 1 := List.length_append ▸ hroom
      have hsent : g.sent = [] := by
        rw [ha] at hroom
        exact List.eq_nil_of_length_eq_zero (Nat.le_zero.mp (Nat.le_of_succ_le_succ hroom))
      refine ⟨⟨htype, hlimit, ?_, ?_⟩, ?_, ?_, rfl⟩ <;>
        simp_all [underWay, Completion.taken, listDel]
  | queueAbort | sentAbort | activeAbort => exact absurd rfl hw

/-- The moves of a machine that complete no request. -/
inductive Quiet : Holdings R → Holdings R → Prop
  | still {h} : Quiet h h
  | take {h r rest} (t : SysTime) (ha : h.active = none) (hq : h.queue = r :: rest)
      (hl : h.limit = noRequestLimit ∨ h.num < h.limit) :
      Quiet h { h with queue := rest, active := some { r with startOfTransmit := t } }
  | send {h r} (ha : h.active = some r) :
      Quiet h { h with active := none, sent := r :: h.sent, num := h.num + 1 }
  | finish {h} : Quiet h { h with aborting := false }

theorem quiet_or_completes {X : Type} {k : Hooks R X} {ok : Completion R → Prop}
    {p q : Holdings R × X} (hm : Move k ok p q) :
    (Quiet p.1 q.1 ∧ (q.2 = p.2 ∨ (∃ r e, k.sends r e p.2 q.2) ∨ (∃ rcv, k.receives rcv p.2 q.2) ∨
        k.closes p.2 q.2)) ∨
      ∃ c : Completion R, p.1 = c.before ∧ q.1 = c.after ∧ c.Selected ∧ ok c ∧
        c.response.requestType = c.request.type ∧
        ∃ x, (x = p.2 ∨ ∃ rcv, k.receives rcv p.2 x) ∧ k.calls c.request c.response x q.2 := by
  cases hm with
  | take t hb ha hq hl => exact .inl ⟨.take t ha hq hl, .inl rfl⟩
  | send ha hx => exact .inl ⟨.send ha, .inr (.inl ⟨_, _, hx⟩)⟩
  | refused ha he hx => exact .inl ⟨.still, .inr (.inl ⟨_, _, hx⟩)⟩
  | received rcv hx => exact .inl ⟨.still, .inr (.inr (.inl ⟨rcv, hx⟩))⟩
  | answer c rcv hw hs hok hr hd hx ht => exact .inr ⟨c, rfl, rfl, hs, hok, ht, _, .inr ⟨rcv, hr⟩, hx⟩
  | complete c hw hs hok hx ht => exact .inr ⟨c, rfl, rfl, hs, hok, ht, _, .inl rfl, hx⟩
  | aborted => exact .inl ⟨.finish, .inl rfl⟩
  | closed hx => exact .inl ⟨.still, .inr (.inr (.inr hx))⟩

theorem OneByOne.quiet {h g : Holdings R} (hone : OneByOne h) (hq : Quiet h g) :
    OneByOne g ∧ line g = line h ∧ (underWay h = [] ∨ underWay g = underWay h) := by
  obtain ⟨htype, hlimit, hcount, hroom⟩ := hone
  cases hq with
  | still => exact ⟨⟨htype, hlimit, hcount, hroom⟩, rfl, .inr rfl⟩
  | finish => exact ⟨⟨htype, hlimit, hcount, hroom⟩, rfl, .inr rfl⟩
  | @take r rest t ha hq hl =>
      have hnum : h.num = 0 := by
        obtain hl | hl := hl
        · exact absurd (hlimit.symm.trans hl) (by decide)
        · rw [hlimit] at hl
          omega
      have hsent : h.sent = [] := List.eq_nil_of_length_eq_zero (hcount.symm.trans hnum)
      refine ⟨⟨htype, hlimit, hcount, ?_⟩, ?_, .inl ?_⟩
      · simp [underWay, hsent]
      · simp [line, underWay, hsent, ha, hq, asAccepted]
      · simp [underWay, hsent, ha]
  | @send r ha =>
      have hsent : h.sent = [] := by
        have hlength : h.sent.length + 1 ≤ 1 := by simpa [underWay, ha] using hroom
        exact List.eq_nil_of_length_eq_zero (by omega)
      have hsame : underWay { h with active := none, sent := r :: h.sent, num := h.num + 1 } =
          underWay h := by simp [underWay, hsent, ha]
      refine ⟨⟨htype, hlimit, ?_, hsame ▸ hroom⟩, ?_, .inr hsame⟩
      · simp [hcount]
      · exact congrArg (fun l => (l ++ h.queue).map asAccepted) hsame

section

variable {p q : Holdings R × List (Call R)}

/-- What a move leaves behind when it calls no callback. -/
structure Goes (p q : Holdings R × List (Call R)) : Prop where
  calls : q.2 = p.2
  line : line q.1 = line p.1
  underWay : underWay p.1 = [] ∨ underWay q.1 = underWay p.1

/-- A move that answers the first request of the line. -/
structure Answers (p q : Holdings R × List (Call R)) : Prop where
  queue : q.1.queue = p.1.queue
  free : underWay q.1 = []
  first : ∃ r response, underWay p.1 = [r] ∧ q.2 = p.2 ++ [⟨r, response⟩]

theorem OneByOne.move (h : OneByOne p.1) (hm : Move logHooks (fun c => c.why ≠ .abort) p q) :
    OneByOne q.1 ∧ (Goes p q ∨ Answers p q) := by
  obtain ⟨hquiet, hx⟩ | ⟨c, hbefore, hafter, hs, hok, -, x, hx, hcall⟩ := quiet_or_completes hm
  · obtain ⟨hone, hline, hunder⟩ := h.quiet hquiet
    refine ⟨hone, .inl ⟨?_, hline, hunder⟩⟩
    obtain hx | ⟨_, _, hx⟩ | ⟨_, hx⟩ | hx := hx <;> exact hx
  · obtain ⟨hone, hfirst, hfree, hqueue⟩ := (hbefore ▸ h).complete hs hok
    have hcalls : q.2 = p.2 ++ [⟨c.request, c.response⟩] := by
      obtain rfl | ⟨_, hx⟩ := hx
      · exact hcall
      · exact hx ▸ hcall
    refine ⟨hafter ▸ hone, .inr ⟨?_, hafter ▸ hfree, c.request, c.response, ?_, hcalls⟩⟩
    · rw [hbefore, hafter]
      exact hqueue
    · rw [hbefore]
      exact hfirst

/-- The requests that were accepted, in their order: the first ones were answered, and the rest
is in the line. -/
structure InLine (accepted : List (ProtocolClientRequest R)) (p : Holdings R × List (Call R)) :
    Prop where
  one : OneByOne p.1
  order : accepted = answered p.2 ++ line p.1

theorem InLine.move {accepted : List (ProtocolClientRequest R)} (h : InLine accepted p)
    (hm : Move logHooks (fun c => c.why ≠ .abort) p q) : InLine accepted q := by
  obtain ⟨hone, hgoes | hanswers⟩ := h.one.move hm
  · refine ⟨hone, ?_⟩
    rw [h.order, hgoes.calls, hgoes.line]
  · obtain ⟨hqueue, hfree, r, response, hfirst, hcalls⟩ := hanswers
    refine ⟨hone, ?_⟩
    rw [h.order, hcalls]
    simp [answered, line, hqueue, hfree, hfirst]

theorem InLine.accept {accepted : List (ProtocolClientRequest R)} (h : InLine accepted p)
    {r : ProtocolClientRequest R} (hr : asAccepted r = r) :
    InLine (accepted ++ [r]) ({ p.1 with queue := p.1.queue ++ [r] }, p.2) where
  one := ⟨h.one.type, h.one.limit, h.one.count, h.one.room⟩
  order := by
    rw [h.order]
    simp [line, underWay, hr]

end

section

variable [DecidableEq ι] (env : Env R W) (self : ι)

def AbortsNone (s : Session R ι W) : Action R ι → Prop
  | .task => ∀ c ∈ completions (logged env) self s.st, c.why ≠ .abort
  | _ => True

instance (s : Session R ι W) (a : Action R ι) : Decidable (AbortsNone env self s a) :=
  match a with
  | .task => inferInstanceAs (Decidable (∀ c ∈ completions (logged env) self s.st, c.why ≠ .abort))
  | .transmit _ _ _ | .clear | .interfere _ _ _ => .isTrue trivial

variable {env self}

theorem InLine.step {s : Session R ι W} {a : Action R ι} (hok : AbortsNone env self s a)
    (h : InLine s.accepted s.books) :
    InLine (Session.step env self s a).accepted (Session.step env self s a).books := by
  cases a with
  | transmit type request messageId =>
      obtain ⟨hb, ha, -⟩ | ⟨hb, ha, -⟩ := Session.transmit_cases env type request messageId s self
      · rw [hb, ha]
        exact h
      · rw [hb, ha]
        exact h.accept rfl
  | clear => exact ⟨⟨h.one.type, h.one.limit, h.one.count, h.one.room⟩, h.order⟩
  | task =>
      exact (protocolClientSmTask_moves (observes_logged env) self s.st hok).invariant
        (fun _ _ hm hp => hp.move hm) h
  | interfere connectingSm startTime nextState => exact h

variable (env self)

/-- A synchronous machine that sends one request at a time calls back for every request that it
accepts, once, in the order in which they were accepted, whatever the network does, as long as
nothing is aborted. -/
theorem answered_in_order (config : TransmissionConfig) (response : ProtocolClientResponse)
    (completed : Option (ProtocolClientRequest R)) (globals : Globals ι) (world : W)
    (acts : List (Action R ι))
    (h : Guarded (Session.step env self) (AbortsNone env self)
      (Session.start (protocolClientSmNew config 1 .synch response completed) globals world) acts) :
    let s := run (Session.step env self)
      (Session.start (protocolClientSmNew config 1 .synch response completed) globals world) acts
    s.accepted = answered s.calls ++ line s.books.1 ∧ (underWay s.books.1).length ≤ 1 := by
  intro s
  have hline : InLine s.accepted s.books :=
    h.invariant (P := fun s => InLine s.accepted s.books) (fun _ _ hok hs => hs.step hok)
      ⟨.start config response completed, rfl⟩
  exact ⟨hline.order, hline.one.room⟩

/-- The first one of two requests is answered, and the second one is being sent. -/
theorem answered_in_order_two :
    let s := run (Session.step Script.env ())
      (Script.session 1 .synch ⟨[], [], [], [Script.noData, ⟨errSuccess, 200, 1, [], 0⟩]⟩)
      [.transmit .normal 1 1, .transmit .normal 2 1, .task, .task, .task, .task]
    s.accepted = answered s.calls ++ line s.books.1 ∧ (underWay s.books.1).length ≤ 1 :=
  answered_in_order Script.env () Script.config Script.noResponse none ⟨none, 0, .reset, 0⟩ _ _
    (by decide)

end

end ErSdk.RequestOrder
