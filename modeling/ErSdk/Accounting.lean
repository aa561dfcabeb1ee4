import ErSdk.Sessions
import ErSdk.Statics

namespace ErSdk.Accounting

open ProtocolClientSm Ledger SmMoves Sessions Statics Runs Error

variable {R ι W : Type}

def key (r : ProtocolClientRequest R) : Nat × RequestType := (r.addr, r.type)

def keys (h : Holdings R) : List (Nat × RequestType) := h.held.map key

def called (calls : List (Call R)) : List Nat := calls.map (fun c => c.request.addr)

/-- The books of a state machine that has accepted the requests `accepted`, as
pairs of address and type. -/
structure Kept (accepted : List (Nat × RequestType)) (p : Holdings R × List (Call R)) : Prop where
  nodup : (p.1.addrs).Nodup
  known : ∀ k ∈ keys p.1, k ∈ accepted
  calledKnown : ∀ a ∈ called p.2, a ∈ accepted.map Prod.fst
  placed : ∀ k ∈ accepted, k.1 ∈ p.1.addrs ∨ k.1 ∈ called p.2
  gone : ∀ k ∈ accepted, k.2 ≠ .subscribeAsynch → k.1 ∈ called p.2 → k.1 ∉ p.1.addrs
  once : ∀ k ∈ accepted, k.2 ≠ .subscribeAsynch → (called p.2).count k.1 ≤ 1

theorem addrs_eq (h : Holdings R) : h.addrs = (keys h).map Prod.fst := by
  simp [keys, Holdings.addrs, key]

theorem mem_addrs_of_held {h : Holdings R} {r : ProtocolClientRequest R} (hr : r ∈ h.held) :
    r.addr ∈ h.addrs := List.mem_map_of_mem hr

theorem Kept.rearrange {accepted : List (Nat × RequestType)} {h g : Holdings R}
    {calls : List (Call R)} (hp : (keys g).Perm (keys h)) (hk : Kept accepted (h, calls)) :
    Kept accepted (g, calls) := by
  have ha : g.addrs.Perm h.addrs := by
    rw [addrs_eq, addrs_eq]
    exact hp.map _
  exact
    { nodup := ha.nodup_iff.mpr hk.nodup
      known := fun k hm => hk.known k (hp.mem_iff.mp hm)
      calledKnown := hk.calledKnown
      placed := fun k hm => (hk.placed k hm).imp_left ha.mem_iff.mpr
      gone := fun k hm ht hc hg => hk.gone k hm ht hc (ha.mem_iff.mp hg)
      once := hk.once }

theorem keys_sublist {h g : Holdings R} (hs : g.held.Sublist h.held) :
    (keys g).Sublist (keys h) := hs.map _

theorem called_append (calls : List (Call R)) (r : ProtocolClientRequest R)
    (resp : ProtocolClientResponse) : called (calls ++ [⟨r, resp⟩]) = called calls ++ [r.addr] := by
  simp [called]

theorem mem_addrs {h : Holdings R} {a : Nat} : a ∈ h.addrs ↔ ∃ r ∈ h.held, r.addr = a := List.mem_map

theorem Kept.complete {accepted : List (Nat × RequestType)} (hacc : (accepted.map Prod.fst).Nodup)
    {c : Completion R} {calls : List (Call R)} (hsel : c.Selected) (hd : ¬ c.Drops)
    (hk : Kept accepted (c.before, calls)) :
    Kept accepted (c.after, calls ++ [⟨c.request, c.response⟩]) := by
  have hsub := Completion.after_sublist c
  have hkey : key c.request ∈ accepted := hk.known _ (List.mem_map_of_mem hsel.mem_held)
  have hheld : c.request.addr ∈ c.before.addrs := mem_addrs_of_held hsel.mem_held
  -- two accepted requests with one address are the same request
  have htype : ∀ k ∈ accepted, k.1 = c.request.addr → k.2 = c.request.type := by
    rintro k hm he
    exact congrArg Prod.snd (List.inj_on_of_nodup_map hacc hm hkey he)
  constructor
  · exact hk.nodup.sublist (hsub.map _)
  · exact fun k hm => hk.known k ((keys_sublist hsub).subset hm)
  · intro a ha
    rw [called_append, List.mem_append, List.mem_singleton] at ha
    obtain ha | rfl := ha
    · exact hk.calledKnown a ha
    · exact List.mem_map_of_mem hkey
  · intro k hm
    rw [called_append]
    obtain hh | hc := hk.placed k hm
    · obtain ⟨q, hq, he⟩ := mem_addrs.mp hh
      by_cases hne : q.addr = c.request.addr
      · exact .inr (List.mem_append_right _ (by simp [← he, hne]))
      · exact .inl (mem_addrs.mpr ⟨q, hsel.keeps hd hq hne, he⟩)
    · exact .inr (List.mem_append_left _ hc)
  · intro k hm ht hc
    rw [called_append, List.mem_append, List.mem_singleton] at hc
    obtain hc | he := hc
    · exact fun hg => hk.gone k hm ht hc ((hsub.map _).subset hg)
    · have hst : c.stays = false := by
        by_contra hst
        exact ht ((htype k hm he).trans (Completion.stays_type (by simpa using hst)))
      rw [he]
      exact hsel.gone hk.nodup hst
  · intro k hm ht
    rw [called_append, List.count_append]
    by_cases he : k.1 = c.request.addr
    · have hnot : k.1 ∉ called calls := fun hc => hk.gone k hm ht hc (he ▸ hheld)
      have hzero : (called calls).count k.1 = 0 := List.count_eq_zero_of_not_mem hnot
      rw [hzero, he]
      simp
    · have hzero : [c.request.addr].count k.1 = 0 :=
        List.count_eq_zero_of_not_mem (by simpa using he)
      have honce : (called calls).count k.1 ≤ 1 := hk.once k hm ht
      omega

theorem keys_take {h : Holdings R} {r : ProtocolClientRequest R} {rest} (t : SysTime)
    (ha : h.active = none) (hq : h.queue = r :: rest) :
    (keys { h with queue := rest, active := some { r with startOfTransmit := t } }).Perm
      (keys h) := by
  simp only [keys, Holdings.held, ha, hq, Option.toList, List.map_append, List.map_cons,
    List.nil_append, List.cons_append]
  exact List.perm_middle

theorem keys_send {h : Holdings R} {r : ProtocolClientRequest R} (ha : h.active = some r) :
    keys { h with active := none, sent := r :: h.sent, num := h.num + 1 } = keys h := by
  simp [keys, Holdings.held, ha]

theorem move_cases {ok : Completion R → Prop} {p q : Holdings R × List (Call R)}
    (hm : Move logHooks ok p q) :
    ((keys q.1).Perm (keys p.1) ∧ q.2 = p.2) ∨
      ∃ (c : Completion R) (calls : List (Call R)), c.Selected ∧ ok c ∧ p = (c.before, calls) ∧
        q = (c.after, calls ++ [⟨c.request, c.response⟩]) := by
  cases hm with
  | take t hb ha hq hl => exact .inl ⟨keys_take t ha hq, rfl⟩
  | send ha hx => exact .inl ⟨keys_send ha ▸ .refl _, hx⟩
  | refused ha he hx => exact .inl ⟨.refl _, hx⟩
  | received rcv hx => exact .inl ⟨.refl _, hx⟩
  | answer c rcv hw hs hok hr hd hx =>
      cases hr
      cases hx
      exact .inr ⟨c, _, hs, hok, rfl, rfl⟩
  | complete c hw hs hok hx =>
      cases hx
      exact .inr ⟨c, _, hs, hok, rfl, rfl⟩
  | aborted hb hq hs ha => exact .inl ⟨.refl _, rfl⟩
  | closed hx => exact .inl ⟨.refl _, hx⟩

theorem Kept.move {accepted : List (Nat × RequestType)} (hacc : (accepted.map Prod.fst).Nodup)
    {p q : Holdings R × List (Call R)} (hm : Move logHooks (fun c => ¬ c.Drops) p q)
    (hk : Kept accepted p) : Kept accepted q := by
  obtain ⟨hp, hc⟩ | ⟨c, calls, hs, hd, rfl, rfl⟩ := move_cases hm
  · obtain ⟨g, calls⟩ := q
    cases hc
    exact hk.rearrange hp
  · exact hk.complete hacc hs hd

def Leaves (p q : Holdings R × List (Call R)) : Prop :=
  ∃ new, q.2 = p.2 ++ new ∧ ∀ r ∈ p.1.held, r.addr ∈ q.1.addrs ∨ r.addr ∈ called new

theorem Leaves.refl (p : Holdings R × List (Call R)) : Leaves p p :=
  ⟨[], by simp, fun _ hr => .inl (mem_addrs_of_held hr)⟩

theorem Leaves.rearrange {p : Holdings R × List (Call R)} {h g : Holdings R}
    {calls : List (Call R)} (hp : (keys g).Perm (keys h)) (hl : Leaves p (h, calls)) :
    Leaves p (g, calls) := by
  obtain ⟨new, he, hn⟩ := hl
  have ha : g.addrs.Perm h.addrs := by
    rw [addrs_eq, addrs_eq]
    exact hp.map _
  exact ⟨new, he, fun r hr => (hn r hr).imp_left ha.mem_iff.mpr⟩

theorem Leaves.complete {p : Holdings R × List (Call R)} {c : Completion R}
    {calls : List (Call R)} (hsel : c.Selected) (hd : ¬ c.Drops) (hl : Leaves p (c.before, calls)) :
    Leaves p (c.after, calls ++ [⟨c.request, c.response⟩]) := by
  obtain ⟨new, he, hn⟩ := hl
  refine ⟨new ++ [⟨c.request, c.response⟩], by rw [← List.append_assoc, ← he], fun r hr => ?_⟩
  rw [called_append]
  obtain hh | hc := hn r hr
  · obtain ⟨q, hq, ha⟩ := mem_addrs.mp hh
    by_cases hne : q.addr = c.request.addr
    · exact .inr (List.mem_append_right _ (by simp [← ha, hne]))
    · exact .inl (mem_addrs.mpr ⟨q, hsel.keeps hd hq hne, ha⟩)
  · exact .inr (List.mem_append_left _ hc)

theorem Leaves.move {p q q' : Holdings R × List (Call R)}
    (hm : Move logHooks (fun c => ¬ c.Drops) q q') (hl : Leaves p q) : Leaves p q' := by
  obtain ⟨hp, hc⟩ | ⟨c, calls, hs, hd, rfl, rfl⟩ := move_cases hm
  · obtain ⟨g, calls⟩ := q'
    cases hc
    exact hl.rearrange hp
  · exact hl.complete hs hd

/-- Between two calls every accepted request is in one place, or its callback has
been called; no callback is called twice, asynchronous subscribes apart. -/
structure Accounted (s : Session R ι W) : Prop where
  placed : ∀ r ∈ s.accepted, s.books.1.addrs.count r.addr = 1 ∨
    s.books.1.addrs.count r.addr = 0 ∧ r.addr ∈ called s.calls
  once : ∀ r ∈ s.accepted, r.type ≠ .subscribeAsynch → (called s.calls).count r.addr ≤ 1

/-- The invariant behind `Accounted`: the addresses given out are below the next one. -/
structure Sound (s : Session R ι W) : Prop where
  fresh : ∀ r ∈ s.accepted, r.addr < s.st.globals.heap
  distinct : ((s.accepted.map key).map Prod.fst).Nodup
  kept : Kept (s.accepted.map key) s.books

theorem Sound.accounted {s : Session R ι W} (h : Sound s) : Accounted s where
  placed r hr := by
    obtain hm | hc := h.kept.placed (key r) (List.mem_map_of_mem hr)
    · exact .inl (List.count_eq_one_of_mem h.kept.nodup hm)
    · by_cases hm : r.addr ∈ s.books.1.addrs
      · exact .inl (List.count_eq_one_of_mem h.kept.nodup hm)
      · exact .inr ⟨List.count_eq_zero_of_not_mem hm, hc⟩
  once r hr ht := h.kept.once (key r) (List.mem_map_of_mem hr) ht

theorem Sound.start (sm : ProtocolClientSmClass R) (globals : Globals ι) (w : W)
    (hq : sm.transferQueue = []) (ha : sm.activeRequest = none) (hs : sm.sentRequestList = []) :
    Sound (Session.start sm globals w) := by
  have hheld : (holdings sm).held = [] := by simp [Holdings.held, hq, ha, hs]
  refine ⟨List.forall_mem_nil _, .nil, ?_, ?_, List.forall_mem_nil _, List.forall_mem_nil _,
    List.forall_mem_nil _, List.forall_mem_nil _⟩
  · show ((holdings sm).held.map _).Nodup
    rw [hheld]
    exact .nil
  · show ∀ k ∈ (holdings sm).held.map key, _
    rw [hheld]
    exact List.forall_mem_nil _

theorem sound_new (config : TransmissionConfig) (rqLimit : Nat) (stype : StateMachineType)
    (response : ProtocolClientResponse) (completed : Option (ProtocolClientRequest R))
    (globals : Globals ι) (w : W) :
    Sound (Session.start (protocolClientSmNew config rqLimit stype response completed) globals w) :=
  Sound.start _ _ _ rfl rfl rfl

/-- In the call of the task no timeout and no abort completes another request
while a request is active. -/
def KeepsActive [DecidableEq ι] (env : Env R W) (self : ι) (s : Session R ι W) :
    Action R ι → Prop
  | .task => ∀ c ∈ completions (logged env) self s.st, ¬ c.Drops
  | _ => True

instance [DecidableEq ι] (env : Env R W) (self : ι) (s : Session R ι W) (a : Action R ι) :
    Decidable (KeepsActive env self s a) :=
  match a with
  | .task => inferInstanceAs (Decidable (∀ c ∈ completions (logged env) self s.st, ¬ c.Drops))
  | .transmit _ _ _ | .clear | .interfere _ _ _ => .isTrue trivial

theorem keys_append (h : Holdings R) (r : ProtocolClientRequest R) :
    (keys { h with queue := h.queue ++ [r] }).Perm (key r :: keys h) := by
  simp only [keys, Holdings.held, List.map_append, List.append_assoc, List.map_cons,
    List.singleton_append]
  exact List.perm_middle

theorem Sound.accept {s t : Session R ι W} {r : ProtocolClientRequest R} (h : Sound s)
    (hr : r.addr = s.st.globals.heap)
    (hb : t.books = ({ s.books.1 with queue := s.books.1.queue ++ [r] }, s.books.2))
    (ha : t.accepted = s.accepted ++ [r]) (hh : t.st.globals.heap = s.st.globals.heap + 1) :
    Sound t := by
  have hperm := keys_append s.books.1 r
  have hnew : r.addr ∉ (s.accepted.map key).map Prod.fst := by
    intro hm
    rw [List.map_map] at hm
    obtain ⟨q, hq, he⟩ := List.mem_map.mp hm
    have hlt := h.fresh q hq
    have : q.addr = s.st.globals.heap := he.trans hr
    omega
  have hnotHeld : r.addr ∉ s.books.1.addrs := by
    rw [addrs_eq]
    intro hm
    obtain ⟨k, hk, he⟩ := List.mem_map.mp hm
    exact hnew (he ▸ List.mem_map_of_mem (h.kept.known k hk))
  have hnotCalled : r.addr ∉ called s.books.2 := fun hm => hnew (h.kept.calledKnown _ hm)
  have haddrs : (t.books.1.addrs).Perm (r.addr :: s.books.1.addrs) := by
    rw [hb, addrs_eq, addrs_eq]
    exact hperm.map Prod.fst
  have hcalls : t.books.2 = s.books.2 := by rw [hb]
  have hmem : ∀ k, k ∈ t.accepted.map key ↔ k ∈ s.accepted.map key ∨ k = key r := by
    intro k
    rw [ha, List.map_append, List.mem_append, List.map_singleton, List.mem_singleton]
  refine ⟨?_, ?_, ?_⟩
  · intro q hq
    rw [ha, List.mem_append, List.mem_singleton] at hq
    obtain hq | rfl := hq
    · have := h.fresh q hq
      omega
    · omega
  · rw [ha, List.map_append, List.map_append, List.map_singleton, List.map_singleton]
    exact List.nodup_append.mpr ⟨h.distinct, List.nodup_singleton _, fun a hm b hb he => by
      rw [List.mem_singleton] at hb
      exact hnew (by rwa [he, hb] at hm)⟩
  · constructor
    · exact haddrs.nodup_iff.mpr (List.nodup_cons.mpr ⟨hnotHeld, h.kept.nodup⟩)
    · intro k hk
      rw [hb] at hk
      rw [hmem]
      obtain rfl | hk := List.mem_cons.mp (hperm.mem_iff.mp hk)
      · exact .inr rfl
      · exact .inl (h.kept.known k hk)
    · intro a hm
      rw [hcalls] at hm
      rw [ha, List.map_append, List.map_append]
      exact List.mem_append_left _ (h.kept.calledKnown a hm)
    · intro k hk
      rw [hcalls, haddrs.mem_iff, List.mem_cons]
      obtain hk | rfl := (hmem k).mp hk
      · exact (h.kept.placed k hk).imp_left .inr
      · exact .inl (.inl rfl)
    · intro k hk ht hc
      rw [hcalls] at hc
      rw [haddrs.mem_iff, List.mem_cons, not_or]
      obtain hk | rfl := (hmem k).mp hk
      · exact ⟨fun he => hnotCalled (he ▸ hc), h.kept.gone k hk ht hc⟩
      · exact absurd hc hnotCalled
    · intro k hk ht
      rw [hcalls]
      obtain hk | rfl := (hmem k).mp hk
      · exact h.kept.once k hk ht
      · exact Nat.le_trans (Nat.le_of_eq (List.count_eq_zero_of_not_mem hnotCalled)) (Nat.zero_le 1)

section

variable [DecidableEq ι] (env : Env R W) (self : ι)

theorem task_moves (s : Session R ι W) (hok : KeepsActive env self s .task) :
    Moves logHooks (fun c => ¬ c.Drops) s.books (Session.step env self s .task).books :=
  protocolClientSmTask_moves (observes_logged env) self s.st hok

theorem Sound.task {s : Session R ι W} (h : Sound s) (hok : KeepsActive env self s .task) :
    Sound (Session.step env self s .task) where
  fresh r hr := by
    rw [show (Session.step env self s .task).st.globals.heap = s.st.globals.heap from
      protocolClientSmTask_heap (logged env) self s.st]
    exact h.fresh r hr
  distinct := h.distinct
  kept := (task_moves env self s hok).invariant (fun _ _ hm hk => hk.move h.distinct hm) h.kept

theorem Sound.step {s : Session R ι W} (h : Sound s) (a : Action R ι)
    (hok : KeepsActive env self s a) : Sound (Session.step env self s a) := by
  cases a with
  | transmit type request messageId =>
      obtain ⟨hb, ha, hh⟩ | ⟨hb, ha, hh⟩ := Session.transmit_cases env type request messageId s self
      · exact ⟨fun r hr => Nat.lt_of_lt_of_le (h.fresh r (ha ▸ hr)) hh, ha ▸ h.distinct, ha ▸ hb ▸ h.kept⟩
      · exact h.accept rfl hb ha hh
  | clear =>
      have hk : Kept (s.accepted.map key) ({ s.books.1 with aborting := true }, s.books.2) :=
        Kept.rearrange (h := s.books.1) (.refl _) h.kept
      exact ⟨h.fresh, h.distinct, hk⟩
  | task => exact h.task env self hok
  | interfere connectingSm startTime nextState => exact ⟨h.fresh, h.distinct, h.kept⟩

theorem leaves_step (s : Session R ι W) (a : Action R ι) (hok : KeepsActive env self s a) :
    Leaves s.books (Session.step env self s a).books := by
  cases a with
  | transmit type request messageId =>
      obtain ⟨hb, -, -⟩ | ⟨hb, -, -⟩ := Session.transmit_cases env type request messageId s self
      · rw [hb]
        exact .refl _
      · rw [hb]
        refine ⟨[], by simp, fun q hq => .inl (mem_addrs_of_held ?_)⟩
        rw [Completion.mem_held] at hq ⊢
        exact hq.imp_left (List.mem_append_left _)
  | clear => exact (Leaves.refl s.books).rearrange (.refl _)
  | task =>
      exact (task_moves env self s hok).invariant (fun _ _ hm hl => hl.move hm) (Leaves.refl _)
  | interfere connectingSm startTime nextState => exact .refl _

/-- As long as no active request is dropped, every accepted request is held in one
place or has been called, and it leaves only by the call of its callback. -/
theorem accepted_requests_accounted (config : TransmissionConfig) (rqLimit : Nat)
    (stype : StateMachineType) (response : ProtocolClientResponse)
    (completed : Option (ProtocolClientRequest R)) (globals : Globals ι) (w : W)
    (acts : List (Action R ι))
    (h : Guarded (Session.step env self) (KeepsActive env self)
      (Session.start (protocolClientSmNew config rqLimit stype response completed) globals w)
      acts) :
    let s := run (Session.step env self)
      (Session.start (protocolClientSmNew config rqLimit stype response completed) globals w) acts
    Accounted s ∧
      ∀ a, KeepsActive env self s a → Leaves s.books (Session.step env self s a).books := by
  have hs : Sound (run (Session.step env self)
      (Session.start (protocolClientSmNew config rqLimit stype response completed) globals w)
      acts) :=
    h.invariant (fun _ a hok hs => hs.step env self a hok)
      (sound_new config rqLimit stype response completed globals w)
  exact ⟨hs.accounted, fun a hok => leaves_step env self _ a hok⟩

end

/-- Two requests of an asynchronous machine: the first is answered, the second
expires while it is active. -/
theorem accepted_requests_accounted_answered :
    Accounted (run (Session.step Script.env ())
      (Script.session noRequestLimit .asynch
        ⟨[1000, 1000, 1000, 1000, 1000, 1000, 1000, 5000], [], [errSuccess, errWouldBlock],
          [Script.noData, ⟨errSuccess, 200, 1, [], 0⟩]⟩)
      [.transmit .normal 1 1, .task, .task, .transmit .normal 2 2, .task]) :=
  (accepted_requests_accounted Script.env () Script.config noRequestLimit .asynch
    Script.noResponse none ⟨none, 0, .reset, 0⟩ _ _ (by decide)).1

/-- The first request expires while the send of the second one blocks: the second
request is in no place and its callback is never called. -/
theorem active_request_dropped :
    ¬ Accounted (run (Session.step Script.env ())
      (Script.session noRequestLimit .asynch
        ⟨[1000, 1000, 1000, 1000, 1000, 1000, 1000, 5000], [], [errSuccess, errWouldBlock], []⟩)
      [.transmit .normal 1 1, .task, .task, .transmit .normal 2 2, .task]) := by
  intro h
  have hp := h.placed ⟨1, .normal, 2, 0, 2⟩ (by decide)
  revert hp
  decide

end ErSdk.Accounting
