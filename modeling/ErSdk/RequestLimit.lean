import ErSdk.Sessions

namespace ErSdk.RequestLimit

open ProtocolClientSm Ledger SmMoves Sessions Runs Error

variable {R ι W X : Type}

/-- The completion of a request that was not sent lowers the count of sent requests. -/
def Miscounts (c : Completion R) : Prop :=
  c.place ≠ .sent ∧ c.stays = false ∧ 0 < c.before.num

instance (c : Completion R) : Decidable (Miscounts c) :=
  inferInstanceAs (Decidable (_ ∧ _ ∧ _))

/-- The count is right, and there is room below the limit for the active request. -/
structure Counted (h : Holdings R) : Prop where
  count : h.num = h.sent.length
  limit : h.limit ≠ noRequestLimit → h.sent.length + h.active.toList.length ≤ h.limit

theorem removed_count {c : Completion R} (hs : c.Selected) (hok : ¬ Miscounts c)
    (hst : c.stays = false) (hc : Counted c.before) :
    c.before.num - 1 = (listDel c.request c.before.sent).length := by
  by_cases hp : c.place = .sent
  · rw [length_listDel (hs.mem_sent hp), hc.count]
  · have hzero : c.before.num = 0 := by
      by_contra hn
      exact hok ⟨hp, hst, Nat.pos_of_ne_zero hn⟩
    have hnil : c.before.sent = [] := List.eq_nil_of_length_eq_zero (hc.count.symm.trans hzero)
    rw [hzero, hnil]
    rfl

theorem Counted.taken {c : Completion R} (hc : Counted c.before) : Counted c.taken := by
  constructor
  · rw [Completion.taken_num, Completion.taken_sent, hc.count]
  · intro hl
    rw [Completion.taken_limit] at hl ⊢
    rw [Completion.taken_sent]
    have hroom := hc.limit hl
    have hless := Completion.length_taken_active c
    omega

theorem Counted.complete {c : Completion R} (hs : c.Selected) (hok : ¬ Miscounts c)
    (hc : Counted c.before) : Counted c.after := by
  unfold Completion.after
  split
  · exact hc.taken
  · rename_i hst
    have hcount := removed_count hs hok (by simpa using hst) hc
    have hshort : (listDel c.request c.before.sent).length ≤ c.before.sent.length :=
      (listDel_sublist _ _).length_le
    constructor
    · dsimp only
      rw [Completion.taken_num, Completion.taken_sent]
      exact hcount
    · intro hl
      have hroom := hc.taken.limit hl
      dsimp only
      rw [Completion.taken_sent] at hroom ⊢
      omega

theorem Counted.move {k : Hooks R X} {p q : Holdings R × X}
    (hm : Move k (fun c => ¬ Miscounts c) p q) (hc : Counted p.1) : Counted q.1 := by
  cases hm with
  | @take h x r rest t hb ha hq hl =>
      refine ⟨hc.count, fun hne => ?_⟩
      have hlt : h.num < h.limit := hl.resolve_left hne
      have hcount : h.num = h.sent.length := hc.count
      show h.sent.length + 1 ≤ h.limit
      omega
  | @send h x x' r ha hx =>
      have hcount : h.num = h.sent.length := hc.count
      refine ⟨by simp [hcount], fun hne => ?_⟩
      have hroom : h.sent.length + h.active.toList.length ≤ h.limit := hc.limit hne
      simpa [ha] using hroom
  | refused | received | closed => exact hc
  | answer c rcv hw hs hok | complete c hw hs hok => exact hc.complete hs hok
  | aborted => exact ⟨hc.count, hc.limit⟩

/-- What is promised between two calls. -/
structure WithinLimit (sm : ProtocolClientSmClass R) : Prop where
  count : sm.sentRequestNum = sm.sentRequestList.length
  limit : sm.paralellRequestLimit ≠ noRequestLimit →
    sm.sentRequestList.length ≤ sm.paralellRequestLimit

theorem Counted.withinLimit {sm : ProtocolClientSmClass R} (h : Counted (holdings sm)) :
    WithinLimit sm :=
  ⟨h.count, fun hl => Nat.le_trans (Nat.le_add_right _ _) (h.limit hl)⟩

section

variable [DecidableEq ι] (env : Env R W) (self : ι)

/-- In the call of the task every request that is completed and let go of is one of
the sent requests, unless none is counted. -/
def KeepsCount (s : Session R ι W) : Action R ι → Prop
  | .task => ∀ c ∈ completions (logged env) self s.st, ¬ Miscounts c
  | _ => True

instance (s : Session R ι W) (a : Action R ι) : Decidable (KeepsCount env self s a) :=
  match a with
  | .task => inferInstanceAs (Decidable (∀ c ∈ completions (logged env) self s.st, ¬ Miscounts c))
  | .transmit _ _ _ | .clear | .interfere _ _ _ => .isTrue trivial

theorem Counted.step {s : Session R ι W} (a : Action R ι) (hok : KeepsCount env self s a)
    (hc : Counted s.books.1) : Counted (Session.step env self s a).books.1 := by
  cases a with
  | transmit type request messageId =>
      obtain ⟨hb, -, -⟩ | ⟨hb, -, -⟩ := Session.transmit_cases env type request messageId s self
      · rw [hb]
        exact hc
      · rw [hb]
        exact ⟨hc.count, hc.limit⟩
  | clear => exact ⟨hc.count, hc.limit⟩
  | task =>
      exact (protocolClientSmTask_moves (observes_logged env) self s.st hok).invariant
        (P := fun p => Counted p.1) (fun _ _ hm h => h.move hm) hc
  | interfere connectingSm startTime nextState => exact hc

/-- As long as the requests that leave are the counted ones, the count is right and
the limit is kept. -/
theorem sent_requests_within_limit (config : TransmissionConfig) (rqLimit : Nat)
    (stype : StateMachineType) (response : ProtocolClientResponse)
    (completed : Option (ProtocolClientRequest R)) (globals : Globals ι) (w : W)
    (acts : List (Action R ι))
    (h : Guarded (Session.step env self) (KeepsCount env self)
      (Session.start (protocolClientSmNew config rqLimit stype response completed) globals w)
      acts) :
    WithinLimit (run (Session.step env self)
      (Session.start (protocolClientSmNew config rqLimit stype response completed) globals w)
      acts).st.sm :=
  Counted.withinLimit (h.invariant (P := fun s => Counted s.books.1)
    (fun _ a hok hc => Counted.step env self a hok hc) ⟨rfl, fun _ => Nat.zero_le _⟩)

end

/-- Two requests under a limit of one, answered one after the other. -/
theorem sent_requests_within_limit_answered :
    WithinLimit (run (Session.step Script.env ())
      (Script.session 1 .synch
        ⟨[], [], [], [Script.noData, ⟨errSuccess, 200, 1, [], 0⟩]⟩)
      [.transmit .normal 1 1, .transmit .normal 2 1, .task, .task, .task, .task]).st.sm :=
  sent_requests_within_limit Script.env () Script.config 1 .synch Script.noResponse none
    ⟨none, 0, .reset, 0⟩ _ _ (by decide)

/-- An observed request is listed while an active one expires: one more request than
the limit allows is sent. -/
theorem expired_active_request_miscounted :
    ¬ WithinLimit (run (Session.step Script.env ())
      (Script.session 2 .asynch
        ⟨[1000, 1000, 1000, 1000, 1000, 1000, 5000], [], [errSuccess, errWouldBlock], []⟩)
      [.transmit .subscribeAsynch 1 1, .task, .task, .transmit .normal 2 2, .task,
        .transmit .normal 3 3, .task, .transmit .normal 4 4, .task]).st.sm := by
  intro h
  exact absurd (h.limit (by decide)) (by decide)

end ErSdk.RequestLimit
