import ErSdk.Accounting
import ErSdk.MachineConfig
import ErSdk.WorldSteps

namespace ErSdk.ResponseTimeout

open ProtocolClientSm Ledger SmMoves Sessions Accounting MachineConfig WorldSteps Runs Error

variable {R ι W : Type}

/-- A clock that never goes back, of which system_get_time gives the lower 32 bits. -/
structure Clocked (env : Env R W) (clock : W → Nat) : Prop where
  reads : ∀ w, (env.systemGetTime w).1 = UInt32.ofNat (clock w)
  forward : Along env (fun w w' => clock w ≤ clock w')

theorem Clocked.logged {env : Env R W} {clock : W → Nat} (h : Clocked env clock) :
    Clocked (logged env) (fun w => clock w.1) where
  reads w := h.reads w.1
  forward :=
    { refl := fun _ => Nat.le_refl _
      trans := Nat.le_trans
      systemGetTime := fun w => h.forward.systemGetTime w.1
      memAlloc := fun w => h.forward.memAlloc w.1
      queuePushTail := fun w => h.forward.queuePushTail w.1
      lookup := fun w => h.forward.lookup w.1
      createSocket := fun w => h.forward.createSocket w.1
      connect := fun socket w => h.forward.connect socket w.1
      close := fun socket w => h.forward.close socket w.1
      setSocket := fun socket w => h.forward.setSocket socket w.1
      clearSocket := fun w => h.forward.clearSocket w.1
      sendRequest := fun request w => h.forward.sendRequest request w.1
      recvResponse := fun response w => h.forward.recvResponse response w.1
      clientClose := fun w => h.forward.clientClose w.1
      clb := fun request response w => h.forward.clb request response w.1 }

theorem elapsed_gt {start limit : SysTime} {now : Nat} (h : start.toNat + limit.toNat < now)
    (hbound : now < 2 ^ 32) : UInt32.ofNat now - start > limit := by
  have hnow : (UInt32.ofNat now).toNat = now := UInt32.toNat_ofNat_of_lt' hbound
  have hle : start ≤ UInt32.ofNat now := by
    rw [UInt32.le_iff_toNat_le, hnow]
    omega
  rw [gt_iff_lt, UInt32.lt_iff_toNat_lt, UInt32.toNat_sub_of_le _ _ hle, hnow]
  omega

theorem countP_lt {p : Nat → Bool} {l l' : List Nat} {a : Nat} (hs : l'.Sublist l) (ha : a ∈ l)
    (hp : p a = true) (hn : a ∉ l') : l'.countP p < l.countP p := by
  have hsub := hs.erase a
  rw [List.erase_of_not_mem hn] at hsub
  have hle : l'.countP p ≤ (l.erase a).countP p := hsub.countP_le
  rw [(List.perm_cons_erase ha).countP_eq, List.countP_cons_of_pos hp]
  omega

section

variable {env : Env R W} {clock : W → Nat} (h : Clocked env clock)

include h

theorem expiredSent_isSome {r : ProtocolClientRequest R} {l : List (ProtocolClientRequest R)}
    {s : St R ι W} (hr : r ∈ l) (htype : ¬ (s.sm.type = .asynch ∧ r.type = .subscribeAsynch))
    (hlate : r.startOfTransmit.toNat + s.sm.transmissionConfig.transmissionTimeout.toNat <
      clock s.world) (hbound : clock (expiredSent env l s).2.world < 2 ^ 32) :
    (expiredSent env l s).1.isSome = true := by
  induction l generalizing s with
  | nil => exact absurd hr List.not_mem_nil
  | cons q l ih =>
      rw [expiredSent] at hbound ⊢
      by_cases hq : s.sm.type = .asynch ∧ q.type = .subscribeAsynch
      · rw [if_pos hq] at hbound ⊢
        have hne : r ≠ q := fun he => htype (he ▸ hq)
        exact ih ((List.mem_cons.mp hr).resolve_left hne) htype hlate hbound
      · rw [if_neg hq] at hbound ⊢
        dsimp only at hbound ⊢
        have hforward := h.forward.systemGetTime s.world
        by_cases hgt : (systemGetDiffTime env q.startOfTransmit s).1 >
            s.sm.transmissionConfig.transmissionTimeout
        · rw [if_pos hgt]
          rfl
        · rw [if_neg hgt] at hbound ⊢
          obtain rfl | hm := List.mem_cons.mp hr
          · have hnow : clock s.world < 2 ^ 32 := Nat.lt_of_le_of_lt (Nat.le_trans hforward
              (expiredSent_along h.forward (systemGetDiffTime env r.startOfTransmit s).2 l)) hbound
            have helapsed : (systemGetDiffTime env r.startOfTransmit s).1 =
                UInt32.ofNat (clock s.world) - r.startOfTransmit := by
              rw [← h.reads]
              rfl
            rw [helapsed] at hgt
            exact absurd (elapsed_gt hlate hnow) hgt
          · exact ih hm htype (Nat.lt_of_lt_of_le hlate hforward) hbound

/-- A request that is not skipped and waits for too long, sent or active, makes check_timeout
report a timeout. -/
theorem checkTimeout_reports {r : ProtocolClientRequest R} {s : St R ι W}
    (hr : r ∈ s.sm.sentRequestList ∧ ¬ (s.sm.type = .asynch ∧ r.type = .subscribeAsynch) ∨
      s.sm.activeRequest = some r)
    (hlate : r.startOfTransmit.toNat + s.sm.transmissionConfig.transmissionTimeout.toNat <
      clock s.world) (hbound : clock (checkTimeout env s).2.world < 2 ^ 32) :
    (checkTimeout env s).1 = true := by
  have hsm := expiredSent_sm env s.sm.sentRequestList s
  have hforward := expiredSent_along h.forward s s.sm.sentRequestList
  have hfound (hm : r ∈ s.sm.sentRequestList)
      (ht : ¬ (s.sm.type = .asynch ∧ r.type = .subscribeAsynch))
      (hb : clock (expiredSent env s.sm.sentRequestList s).2.world < 2 ^ 32) :=
    expiredSent_isSome h hm ht hlate hb
  unfold checkTimeout at hbound ⊢
  dsimp only at hbound ⊢
  generalize expiredSent env s.sm.sentRequestList s = e at hbound hsm hforward hfound ⊢
  obtain ⟨found, t⟩ := e
  dsimp only at hbound hsm hforward hfound ⊢
  cases found with
  | some q => rfl
  | none =>
      cases ha : t.sm.activeRequest with
      | none =>
          rw [ha] at hbound
          obtain ⟨hm, ht⟩ | hactive := hr
          · exact absurd (hfound hm ht hbound) nofun
          · rw [hsm, hactive] at ha
            exact absurd ha nofun
      | some q =>
          rw [ha] at hbound
          dsimp only at hbound ⊢
          have htime := h.forward.systemGetTime t.world
          by_cases hgt : (systemGetDiffTime env q.startOfTransmit t).1 >
              t.sm.transmissionConfig.transmissionTimeout
          · rw [if_pos hgt]
          · rw [if_neg hgt] at hbound ⊢
            have hnow : clock t.world < 2 ^ 32 := Nat.lt_of_le_of_lt htime hbound
            obtain ⟨hm, ht⟩ | hactive := hr
            · exact absurd (hfound hm ht hnow) nofun
            · obtain rfl : r = q := by
                rw [hsm, hactive] at ha
                exact Option.some.inj ha
              have helapsed : (systemGetDiffTime env r.startOfTransmit t).1 =
                  UInt32.ofNat (clock t.world) - r.startOfTransmit := by
                rw [← h.reads]
                rfl
              rw [helapsed, hsm] at hgt
              exact absurd (elapsed_gt (Nat.lt_of_lt_of_le hlate hforward) hnow) hgt

end

theorem gone_of_complete {c : Completion R} (hw : c.why ≠ .response) (hsel : c.Selected)
    (hn : c.before.addrs.Nodup) : c.request.addr ∉ c.after.addrs := by
  have hperm := (hsel.held_perm hn).map ProtocolClientRequest.addr
  have hnodup := hperm.nodup_iff.mp hn
  have hleft : c.left = c.request :: if c.Drops then c.before.active.toList else [] := by
    have hlisted : c.listed = false := by
      unfold Completion.listed
      simp [hw]
    unfold Completion.left
    rw [hlisted]
    rfl
  rw [hleft, List.cons_append, List.map_cons, List.nodup_cons, List.map_append] at hnodup
  exact fun hm => hnodup.1 (List.mem_append_right _ hm)

theorem countP_move {ok : Completion R → Prop} {p q : Holdings R × List (Call R)} (f : Nat → Bool)
    (hm : Move logHooks ok p q) : q.1.addrs.countP f ≤ p.1.addrs.countP f := by
  obtain ⟨hperm, -⟩ | ⟨c, calls, -, -, rfl, rfl⟩ := move_cases hm
  · rw [addrs_eq, addrs_eq]
    exact Nat.le_of_eq ((hperm.map Prod.fst).countP_eq f)
  · exact ((Completion.after_sublist c).map _).countP_le

theorem countP_moves {ok : Completion R → Prop} {p q : Holdings R × List (Call R)} (f : Nat → Bool)
    (hm : Moves logHooks ok p q) : q.1.addrs.countP f ≤ p.1.addrs.countP f :=
  hm.invariant (P := fun x => x.1.addrs.countP f ≤ p.1.addrs.countP f)
    (fun _ _ hstep hle => Nat.le_trans (countP_move f hstep) hle) (Nat.le_refl _)

section

variable [DecidableEq ι] (env : Env R W) (self : ι)

/-- What the check of the timeouts finds in the SM_TRANSMIT step. -/
def atCheck (s : Session R ι W) : St R ι (W × List (Call R)) := (respond (logged env) self s.st).2

theorem reported_completes {s : Session R ι W} (hs : s.st.sm.state = .transmit)
    (hreports : (checkTimeout (logged env) (atCheck env self s)).1 = true) :
    ∃ c ∈ completions (logged env) self s.st, c.why = .timeout ∧ c.Selected ∧
      c.before = holdings (atCheck env self s).sm ∧
      look Prod.snd (completeIf (logged env) (checkTimeout (logged env) (atCheck env self s))) =
        (c.after, (atCheck env self s).world.2 ++ [⟨c.request, c.response⟩]) := by
  have ho := (observes_logged env).toWatches
  obtain ⟨t, hsm, hview, hc | ⟨r, hc, hplace⟩⟩ := checkTimeout_cases ho (atCheck env self s)
  · rw [hc] at hreports
    exact absurd hreports nofun
  · obtain ⟨place, hp, hsel, htaken⟩ : ∃ place,
        timeoutPlace (logged env) (atCheck env self s) = place ∧
          Completion.Selected ⟨.timeout, place, r, reported r (t.mapSm (expire r)),
            holdings (atCheck env self s).sm⟩ ∧
          Completion.taken ⟨.timeout, place, r, reported r (t.mapSm (expire r)),
            holdings (atCheck env self s).sm⟩ = holdings (t.mapSm (expire r)).sm := by
      obtain ⟨hp, hr, hn⟩ | ⟨hp, ha⟩ := hplace
      · exact ⟨.sent, hp, .sentTimeout hr rfl hn, by rw [← hsm]; rfl⟩
      · exact ⟨.active, hp, .activeTimeout ha rfl, by rw [← hsm]; rfl⟩
    have htype := congrArg ProtocolClientSmClass.type hsm.symm
    have haborting := congrArg ProtocolClientSmClass.abortTransfersInProgress hsm.symm
    obtain ⟨hcall, hafter⟩ := look_stTransmitComplete ho (s := t.mapSm (expire r)) rfl rfl htaken
      htype haborting
    refine ⟨_, ?_, rfl, hsel, rfl, ?_⟩
    · refine timeout_mem_completions hs ?_
      unfold atCheck at hp hc
      rw [hc, hp]
      rfl
    · rw [hc]
      rw [← hview]
      exact Prod.ext hafter hcall

end

theorem called_moves {ok : Completion R → Prop} {p q : Holdings R × List (Call R)}
    (hm : Moves logHooks ok p q) {a : Nat} (ha : a ∈ called p.2) : a ∈ called q.2 := by
  refine hm.invariant (P := fun x => a ∈ called x.2) (fun x y hstep hx => ?_) ha
  obtain ⟨-, hsame⟩ | ⟨c, calls, -, -, rfl, rfl⟩ := move_cases hstep
  · rw [hsame]
    exact hx
  · rw [called_append]
    exact List.mem_append_left _ hx

/-- A session with the clock reading at which each request was accepted, by its address. -/
structure Timed (R ι W : Type) where
  session : Session R ι W
  acceptedAt : Nat → Nat

namespace Timed

def limit (d : Timed R ι W) : Nat := (configOf d.session.st).transmissionTimeout.toNat

/-- The latest clock reading at which a timeout may leave the request waiting. -/
def deadline (d : Timed R ι W) (r : ProtocolClientRequest R) : Nat :=
  d.acceptedAt r.addr + d.limit

def now (clock : W → Nat) (d : Timed R ι W) : Nat := clock d.session.st.world.1

variable [DecidableEq ι] (env : Env R W) (clock : W → Nat) (self : ι)

def step (d : Timed R ι W) (a : Action R ι) : Timed R ι W where
  session := Session.step env self d.session a
  acceptedAt :=
    match a with
    | .transmit .. => Function.update d.acceptedAt d.session.st.globals.heap
        (clock (Session.step env self d.session a).st.world.1)
    | _ => d.acceptedAt

/-- Every request that was accepted more than the timeout ago and still waits for its callback was
also taken off the queue more than the timeout ago, and is no sent asynchronous subscribe; and the
request that is timed out was not accepted after the deadline of another one that still waits. -/
def PunctualCheck (d : Timed R ι W) : Prop :=
  ∀ r ∈ (holdings (atCheck env self d.session).sm).held,
    r.addr ∉ called (atCheck env self d.session).world.2 →
      (∀ c ∈ completions (logged env) self d.session.st, c.why = .timeout →
        d.acceptedAt c.request.addr ≤ d.deadline r) ∧
      (d.deadline r < clock (atCheck env self d.session).world.1 →
        (r ∈ (atCheck env self d.session).sm.sentRequestList ∧
            ¬ ((atCheck env self d.session).sm.type = .asynch ∧ r.type = .subscribeAsynch) ∨
          (atCheck env self d.session).sm.activeRequest = some r) ∧
        r.startOfTransmit.toNat + d.limit < clock (atCheck env self d.session).world.1)

/-- A task call drops no active request, and in an SM_TRANSMIT step the check of the timeouts is
punctual. -/
def Punctual (d : Timed R ι W) : Action R ι → Prop
  | .task =>
      (∀ c ∈ completions (logged env) self d.session.st, ¬ c.Drops) ∧
        (d.session.st.sm.state = .transmit → PunctualCheck env clock self d)
  | _ => True

instance [DecidableEq R] (d : Timed R ι W) : Decidable (PunctualCheck env clock self d) := by
  unfold PunctualCheck
  infer_instance

instance [DecidableEq R] (d : Timed R ι W) (a : Action R ι) :
    Decidable (Punctual env clock self d a) :=
  match a with
  | .task => inferInstanceAs (Decidable (_ ∧ (_ → PunctualCheck env clock self d)))
  | .transmit _ _ _ | .clear | .interfere _ _ _ => .isTrue trivial

variable {env clock self} {d : Timed R ι W}

/-- The requests that are held and were accepted by the deadline of another one. -/
def rivals (d : Timed R ι W) (deadline : Nat) : Nat :=
  d.session.books.1.addrs.countP (fun a => d.acceptedAt a ≤ deadline)

variable (env clock self) in
/-- A task call in the SM_TRANSMIT state is st_transmit, apart from the state it is left in. -/
theorem task_transmit (hs : d.session.st.sm.state = .transmit) :
    (step env clock self d .task).session.books =
        look Prod.snd (stTransmit (logged env) self d.session.st).2 ∧
      (step env clock self d .task).session.st.world =
        (stTransmit (logged env) self d.session.st).2.world := by
  unfold step Session.books Session.step protocolClientSmTask
  dsimp only
  rw [hs]
  generalize stTransmit (logged env) self d.session.st = t
  exact ⟨rfl, rfl⟩

/-- An SM_TRANSMIT step that leaves an overdue request waiting lets one of its rivals go. -/
theorem transmit_step (hclock : Clocked env clock) (hsound : Sound d.session)
    (hs : d.session.st.sm.state = .transmit) (hok : Punctual env clock self d .task)
    {r : ProtocolClientRequest R} (hr : r ∈ d.session.accepted)
    (hover : d.deadline r < now clock d) (hbound : now clock (step env clock self d .task) < 2 ^ 32)
    (hnot : r.addr ∉ called (step env clock self d .task).session.calls) :
    (step env clock self d .task).rivals (d.deadline r) < d.rivals (d.deadline r) := by
  have ho := observes_logged env
  have hforward := hclock.logged.forward
  obtain ⟨hdrops, hcheck⟩ := hok
  obtain ⟨hbooks, hworld⟩ := task_transmit env clock self hs
  have hcalls : (step env clock self d .task).session.calls =
      (stTransmit (logged env) self d.session.st).2.world.2 := congrArg Prod.snd hworld
  have hrespond : Moves logHooks (fun c => ¬ c.Drops) d.session.books
      (look Prod.snd (atCheck env self d.session)) :=
    respond_moves ho.toWatches self d.session.st hs (fun _ r _ => ho.sendRequest r _) hdrops
  have htimeout := timeout_moves ho.toWatches (atCheck env self d.session)
    (fun c hc => hdrops c (timeout_mem_completions hs hc))
  have hrest := stTransmit_moves_rest ho.toWatches self d.session.st hs hdrops
  have hkept : Kept (d.session.accepted.map key) (look Prod.snd (atCheck env self d.session)) :=
    hrespond.invariant (fun _ _ hm hk => hk.move hsound.distinct hm) hsound.kept
  -- the request still waits when the timeouts are checked
  have hwaits : r.addr ∉ called (atCheck env self d.session).world.2 := by
    intro hm
    rw [hcalls] at hnot
    exact hnot (called_moves hrest (called_moves htimeout hm))
  obtain ⟨q, hq, haddr⟩ : ∃ q ∈ (holdings (atCheck env self d.session).sm).held, q.addr = r.addr :=
    mem_addrs.mp ((hkept.placed (key r) (List.mem_map_of_mem hr)).resolve_right hwaits)
  have hdeadline : d.deadline q = d.deadline r := by
    unfold deadline
    rw [haddr]
  obtain ⟨hturn, hmeasured⟩ := hcheck hs q hq (by rwa [haddr])
  rw [hdeadline] at hturn hmeasured
  obtain ⟨hplace, hlate⟩ :=
    hmeasured (Nat.lt_of_lt_of_le hover (respond_along hforward d.session.st self))
  -- so a timeout is reported
  have hconfig : configOf (atCheck env self d.session) = configOf d.session.st :=
    respond_config (logged env) d.session.st self
  have hreports : (checkTimeout (logged env) (atCheck env self d.session)).1 = true := by
    refine checkTimeout_reports hclock.logged hplace ?_ ?_
    · rw [show (atCheck env self d.session).sm.transmissionConfig = configOf d.session.st from hconfig]
      exact hlate
    · refine Nat.lt_of_le_of_lt (stTransmit_along_rest hforward d.session.st self) ?_
      rw [← hworld]
      exact hbound
  obtain ⟨c, hc, hwhy, hsel, hbefore, hafter⟩ := reported_completes env self hs hreports
  -- and takes a request away that was accepted in time to be a rival
  have hnodup : c.before.addrs.Nodup := by
    rw [hbefore]
    exact hkept.nodup
  have hgone := gone_of_complete (by rw [hwhy]; decide) hsel hnodup
  have hless := countP_lt (p := fun a => d.acceptedAt a ≤ d.deadline r)
    ((Completion.after_sublist c).map ProtocolClientRequest.addr)
    (mem_addrs_of_held hsel.mem_held) (decide_eq_true (hturn c hc hwhy)) hgone
  have hle₁ := countP_moves (fun a => d.acceptedAt a ≤ d.deadline r) hrespond
  have hle₂ := countP_moves (fun a => d.acceptedAt a ≤ d.deadline r) hrest
  have hmiddle := congrArg (fun x => List.countP (fun a => d.acceptedAt a ≤ d.deadline r)
    (Prod.fst x).addrs) hafter
  unfold atCheck at hmiddle
  rw [hbefore] at hless
  rw [hmiddle] at hle₂
  unfold rivals
  rw [hbooks]
  exact Nat.lt_of_le_of_lt hle₂ (Nat.lt_of_lt_of_le hless hle₁)

theorem Punctual.keepsActive {a : Action R ι} (hok : Punctual env clock self d a) :
    KeepsActive env self d.session a := by
  cases a with
  | task => exact hok.1
  | transmit | clear | interfere => trivial

theorem now_le (hclock : Clocked env clock) (a : Action R ι) :
    now clock d ≤ now clock (step env clock self d a) := by
  cases a with
  | task => exact protocolClientSmTask_along hclock.logged.forward d.session.st self
  | transmit type request messageId =>
      exact protocolClientSmTransmit_along hclock.logged.forward d.session.st type request messageId
  | clear | interfere => exact Nat.le_refl _

theorem called_step {a : Action R ι} (hok : Punctual env clock self d a) {x : Nat}
    (hx : x ∈ called d.session.calls) : x ∈ called (step env clock self d a).session.calls := by
  obtain ⟨new, hnew, -⟩ := leaves_step env self d.session a hok.keepsActive
  have hcalls : (step env clock self d a).session.calls = d.session.calls ++ new := hnew
  rw [hcalls]
  unfold called
  rw [List.map_append]
  exact List.mem_append_left _ hx

omit [DecidableEq ι] in
theorem held_lt (hsound : Sound d.session) {a : Nat} (ha : a ∈ d.session.books.1.addrs) :
    a < d.session.st.globals.heap := by
  rw [addrs_eq] at ha
  obtain ⟨k, hk, rfl⟩ := List.mem_map.mp ha
  obtain ⟨r, hr, rfl⟩ := List.mem_map.mp (hsound.kept.known k hk)
  exact hsound.fresh r hr

variable (env clock self) in
theorem accepted_step (a : Action R ι) (hsound : Sound d.session) {r : ProtocolClientRequest R}
    (hr : r ∈ d.session.accepted) :
    r ∈ (step env clock self d a).session.accepted ∧
      (step env clock self d a).deadline r = d.deadline r := by
  have hlt := hsound.fresh r hr
  cases a with
  | task =>
      have hconfig := protocolClientSmTask_config (logged env) d.session.st self
      refine ⟨hr, ?_⟩
      unfold deadline limit
      exact congrArg (fun c => d.acceptedAt r.addr + c.transmissionTimeout.toNat) hconfig
  | transmit type request messageId =>
      have hconfig := protocolClientSmTransmit_config (logged env) d.session.st type request messageId
      refine ⟨?_, ?_⟩
      · obtain ⟨-, ha, -⟩ | ⟨-, ha, -⟩ :=
          Session.transmit_cases env type request messageId d.session self
        · exact ha ▸ hr
        · exact ha ▸ List.mem_append_left _ hr
      · have hsame : (step env clock self d (.transmit type request messageId)).acceptedAt r.addr =
            d.acceptedAt r.addr := Function.update_of_ne (Nat.ne_of_lt hlt) _ _
        unfold deadline
        rw [hsame]
        exact congrArg (fun c => d.acceptedAt r.addr + c.transmissionTimeout.toNat) hconfig
  | clear | interfere => exact ⟨hr, rfl⟩

theorem rivals_step (hclock : Clocked env clock) (a : Action R ι) (hsound : Sound d.session)
    (hok : Punctual env clock self d a) {deadline : Nat} (hover : deadline < now clock d) :
    (step env clock self d a).rivals deadline ≤ d.rivals deadline := by
  cases a with
  | task => exact countP_moves _ (task_moves env self d.session hok.keepsActive)
  | clear | interfere => exact Nat.le_refl _
  | transmit type request messageId =>
      have hlate : deadline < (step env clock self d (.transmit type request messageId)).acceptedAt
          d.session.st.globals.heap := by
        have hself : (step env clock self d (.transmit type request messageId)).acceptedAt
            d.session.st.globals.heap =
              now clock (step env clock self d (.transmit type request messageId)) :=
          Function.update_self _ _ _
        rw [hself]
        exact Nat.lt_of_lt_of_le hover (now_le hclock _)
      have hold : d.session.books.1.addrs.countP (fun a =>
            (step env clock self d (.transmit type request messageId)).acceptedAt a ≤ deadline) =
          d.rivals deadline := by
        refine List.countP_congr (fun a ha => ?_)
        have hsame : (step env clock self d (.transmit type request messageId)).acceptedAt a =
            d.acceptedAt a := Function.update_of_ne (Nat.ne_of_lt (held_lt hsound ha)) _ _
        rw [hsame]
      rw [← hold]
      unfold rivals
      obtain ⟨hb, -, -⟩ | ⟨hb, -, -⟩ :=
        Session.transmit_cases env type request messageId d.session self
      · exact Nat.le_of_eq (congrArg (fun b => List.countP _ (Prod.fst b).addrs) hb)
      · have hperm : ((step env clock self d (.transmit type request messageId)).session.books.1.addrs).Perm
            (d.session.st.globals.heap :: d.session.books.1.addrs) := by
          have hadded := (keys_append d.session.books.1
            (newRequest type request messageId d.session.st)).map Prod.fst
          rw [← addrs_eq, List.map_cons, ← addrs_eq] at hadded
          have haddrs := congrArg (fun b => (Prod.fst b).addrs) hb
          exact (List.Perm.of_eq haddrs).trans hadded
        exact Nat.le_of_eq ((hperm.countP_eq _).trans
          (List.countP_cons_of_neg (by simpa using hlate)))

/-- The step is an SM_TRANSMIT step of the task. -/
def isTransmit (d : Timed R ι W) : Action R ι → Bool
  | .task => d.session.st.sm.state = .transmit
  | _ => false

/-- The number of SM_TRANSMIT steps in a run. -/
def transmitSteps (env : Env R W) (clock : W → Nat) (self : ι) :
    Timed R ι W → List (Action R ι) → Nat
  | _, [] => 0
  | d, a :: acts => (if isTransmit d a then 1 else 0) +
      transmitSteps env clock self (step env clock self d a) acts

theorem now_run (hclock : Clocked env clock) (acts : List (Action R ι)) :
    now clock d ≤ now clock (run (step env clock self) d acts) := by
  induction acts generalizing d with
  | nil => exact Nat.le_refl _
  | cons a acts ih => exact Nat.le_trans (now_le hclock a) ih

theorem called_run {acts : List (Action R ι)}
    (hok : Guarded (step env clock self) (Punctual env clock self) d acts) {x : Nat}
    (hx : x ∈ called d.session.calls) :
    x ∈ called (run (step env clock self) d acts).session.calls := by
  induction acts generalizing d with
  | nil => exact hx
  | cons a acts ih => exact ih hok.2 (called_step hok.1 hx)

/-- While an overdue request waits, every SM_TRANSMIT step lets one of its rivals go. -/
theorem waiting_run (hclock : Clocked env clock) {acts : List (Action R ι)}
    (hok : Guarded (step env clock self) (Punctual env clock self) d acts)
    (hsound : Sound d.session) {r : ProtocolClientRequest R} (hr : r ∈ d.session.accepted)
    (hover : d.deadline r < now clock d)
    (hbound : now clock (run (step env clock self) d acts) < 2 ^ 32)
    (hnot : r.addr ∉ called (run (step env clock self) d acts).session.calls) :
    transmitSteps env clock self d acts + 1 ≤ d.rivals (d.deadline r) := by
  induction acts generalizing d with
  | nil =>
      have hheld : r.addr ∈ d.session.books.1.addrs :=
        (hsound.kept.placed (key r) (List.mem_map_of_mem hr)).resolve_right hnot
      have hin : d.acceptedAt r.addr ≤ d.deadline r := Nat.le_add_right _ _
      exact List.countP_pos_iff.mpr ⟨r.addr, hheld, decide_eq_true hin⟩
  | cons a acts ih =>
      obtain ⟨hpunctual, hrest⟩ := hok
      obtain ⟨hr', hdeadline⟩ := accepted_step env clock self a hsound hr
      have hforward : now clock d ≤ now clock (step env clock self d a) := now_le hclock a
      have hle := ih hrest (hsound.step env self a hpunctual.keepsActive) hr'
        (by rw [hdeadline]; exact Nat.lt_of_lt_of_le hover hforward) hbound hnot
      rw [hdeadline] at hle
      unfold transmitSteps
      cases ha : isTransmit d a with
      | false =>
          have hstep := rivals_step hclock a hsound hpunctual hover
          rw [if_neg Bool.false_ne_true]
          omega
      | true =>
          obtain rfl : a = .task := by
            cases a with
            | task => rfl
            | transmit | clear | interfere => exact absurd ha nofun
          have hstep := transmit_step hclock hsound (of_decide_eq_true ha) hpunctual hr hover
            (Nat.lt_of_le_of_lt (now_run hclock acts) hbound)
            (fun hm => hnot (called_run hrest hm))
          rw [if_pos rfl]
          omega

def start (config : TransmissionConfig) (rqLimit : Nat) (stype : StateMachineType)
    (response : ProtocolClientResponse) (completed : Option (ProtocolClientRequest R))
    (globals : Globals ι) (world : W) : Timed R ι W :=
  ⟨Session.start (protocolClientSmNew config rqLimit stype response completed) globals world,
    fun _ => 0⟩

end Timed

/-- In a run whose steps are punctual, with a clock below 2^32: once more than the transmission
timeout has passed since a request was accepted, with at most `n` requests held, its callback has been
called after at most `n` further SM_TRANSMIT steps. -/
theorem called_in_time [DecidableEq ι] (env : Env R W) (clock : W → Nat) (hclock : Clocked env clock)
    (self : ι) (config : TransmissionConfig) (rqLimit : Nat) (stype : StateMachineType)
    (response : ProtocolClientResponse) (completed : Option (ProtocolClientRequest R))
    (globals : Globals ι) (world : W) (before after : List (Action R ι))
    (hok : Guarded (Timed.step env clock self) (Timed.Punctual env clock self)
      (Timed.start config rqLimit stype response completed globals world) (before ++ after))
    (hbound : Timed.now clock (run (Timed.step env clock self)
      (Timed.start config rqLimit stype response completed globals world) (before ++ after)) < 2 ^ 32)
    (n : Nat) (r : ProtocolClientRequest R) :
    let d := run (Timed.step env clock self)
      (Timed.start config rqLimit stype response completed globals world) before
    r ∈ d.session.accepted → d.deadline r < Timed.now clock d → d.session.books.1.held.length ≤ n →
      n ≤ Timed.transmitSteps env clock self d after →
        r.addr ∈ called (run (Timed.step env clock self) d after).session.calls := by
  intro d hr hover hheld hsteps
  obtain ⟨hbefore, hafter⟩ := hok.append
  have hsound : Sound d.session :=
    hbefore.invariant (P := fun d => Sound d.session)
      (fun _ a hp hs => hs.step env self a hp.keepsActive)
      (sound_new config rqLimit stype response completed globals world)
  rw [run_append] at hbound
  by_contra hnot
  have hrun : Timed.transmitSteps env clock self d after + 1 ≤ d.rivals (d.deadline r) :=
    Timed.waiting_run hclock hafter hsound hr hover hbound hnot
  have hrivals : d.rivals (d.deadline r) ≤ d.session.books.1.held.length :=
    Nat.le_trans List.countP_le_length (Nat.le_of_eq (List.length_map _))
  omega

/-- A clock with the time and what is added to it behind each reading. -/
structure Pace where
  time : Nat
  waits : List Nat

namespace Pace

/-- The network sends everything and receives nothing. -/
def env : Env Nat Pace where
  systemGetTime w := (UInt32.ofNat w.time, ⟨w.time + w.waits.headD 0, w.waits.tail⟩)
  memAlloc w := (errSuccess, w)
  queuePushTail w := (errSuccess, w)
  lookup w := (errSuccess, w)
  createSocket w := ((errSuccess, 1), w)
  connect _ w := (errSuccess, w)
  close _ w := w
  setSocket _ w := w
  clearSocket w := w
  sendRequest _ w := (errSuccess, w)
  recvResponse _ w := (Script.noData, w)
  clientClose w := w
  getResponseStatus code _ := 200 ≤ code && code < 300
  clb _ response w := (response.payload, w)

theorem clocked : Clocked env time where
  reads _ := rfl
  forward :=
    { refl := fun _ => Nat.le_refl _
      trans := Nat.le_trans
      systemGetTime := fun _ => Nat.le_add_right _ _
      memAlloc := fun _ => Nat.le_refl _
      queuePushTail := fun _ => Nat.le_refl _
      lookup := fun _ => Nat.le_refl _
      createSocket := fun _ => Nat.le_refl _
      connect := fun _ _ => Nat.le_refl _
      close := fun _ _ => Nat.le_refl _
      setSocket := fun _ _ => Nat.le_refl _
      clearSocket := fun _ => Nat.le_refl _
      sendRequest := fun _ _ => Nat.le_refl _
      recvResponse := fun _ _ => Nat.le_refl _
      clientClose := fun _ => Nat.le_refl _
      clb := fun _ _ _ => Nat.le_refl _ }

/-- A new synchronous machine with a limit of one; three seconds pass behind the reading in which the
first request is looked at. -/
def machine : Timed Nat Unit Pace :=
  Timed.start Script.config 1 .synch Script.noResponse none ⟨none, 0, .reset, 0⟩
    ⟨1000, [0, 0, 0, 0, 3000]⟩

def after (acts : List (Sessions.Action Nat Unit)) : Timed Nat Unit Pace :=
  run (Timed.step env time ()) machine acts

end Pace

theorem called_in_time_alone :
    0 ∈ called (run (Timed.step Pace.env Pace.time ())
      (Pace.after [.transmit .normal 1 1, .task, .task]) [.task]).session.calls :=
  called_in_time Pace.env Pace.time Pace.clocked () Script.config 1 .synch Script.noResponse none
    ⟨none, 0, .reset, 0⟩ ⟨1000, [0, 0, 0, 0, 3000]⟩ [.transmit .normal 1 1, .task, .task] [.task]
    (by decide) (by decide) 1 ⟨0, .normal, 1, 0, 1⟩ (by decide) (by decide) (by decide) (by decide)

/-- The second of two requests waits in the queue while the first one expires: two steps past its
deadline it has only been sent. -/
theorem queued_request_late :
    (⟨1, .normal, 2, 0, 2⟩ : ProtocolClientRequest Nat) ∈
        (Pace.after [.transmit .normal 1 1, .transmit .normal 2 2, .task, .task]).session.accepted ∧
      (Pace.after [.transmit .normal 1 1, .transmit .normal 2 2, .task, .task]).deadline
          ⟨1, .normal, 2, 0, 2⟩ <
        Timed.now Pace.time (Pace.after [.transmit .normal 1 1, .transmit .normal 2 2, .task, .task]) ∧
      (Pace.after [.transmit .normal 1 1, .transmit .normal 2 2, .task, .task]).session.books.1.held.length
        ≤ 2 ∧
      Timed.transmitSteps Pace.env Pace.time ()
        (Pace.after [.transmit .normal 1 1, .transmit .normal 2 2, .task, .task]) [.task, .task] = 2 ∧
      1 ∉ called (run (Timed.step Pace.env Pace.time ())
        (Pace.after [.transmit .normal 1 1, .transmit .normal 2 2, .task, .task])
        [.task, .task]).session.calls := by
  decide

end ErSdk.ResponseTimeout
