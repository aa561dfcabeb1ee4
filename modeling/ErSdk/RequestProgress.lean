import ErSdk.RequestOrder
import ErSdk.ResponseTimeout

namespace ErSdk.RequestProgress

open ProtocolClientSm Ledger SmMoves Sessions WorldSteps MachineConfig ResponseTimeout RequestOrder Runs
open Error

variable {R ι W : Type}

/-- No request gets under way between two states, and the connection is not reset. -/
structure Later (s t : St R ι W) : Prop where
  underWay : underWay (holdings t.sm) ⊆ underWay (holdings s.sm)
  lastReset : t.sm.lastReset = s.sm.lastReset

namespace Later

theorem refl (s : St R ι W) : Later s s := ⟨List.Subset.refl _, rfl⟩

theorem trans {s t u : St R ι W} (h : Later s t) (h' : Later t u) : Later s u :=
  ⟨fun _ hr => h.underWay (h'.underWay hr), h'.lastReset.trans h.lastReset⟩

theorem of_sm {s t : St R ι W} (h : t.sm = s.sm) : Later s t := by
  apply Later.mk
  · rw [h]
    exact List.Subset.refl _
  · rw [h]

end Later

section

variable (env : Env R W) (s : St R ι W)

theorem startConnecting_later : Later s (startConnecting env s) := by
  unfold startConnecting
  split <;> exact ⟨List.Subset.refl _, rfl⟩

theorem continueConnect_later : Later s (continueConnect env s).2 := by
  apply (startConnecting_later env s).trans
  unfold continueConnect
  dsimp only
  split
  · exact ⟨List.Subset.refl _, rfl⟩
  · split
    · split
      · split <;> exact .of_sm rfl
      · exact .of_sm rfl
    · exact .of_sm rfl

theorem connectSocket_later : Later s (connectSocket env s).2 := by
  have hpost (error : Int) (t : St R ι W) : Later t (if error ≠ errWouldBlock then connectPost t else t) := by
    split <;> exact .of_sm rfl
  unfold connectSocket
  refine .trans ?_ (hpost _ _)
  split
  · exact .refl s
  · exact continueConnect_later env s

theorem ensureSocket_later (w : Int × St R ι W) : Later w.2 (ensureSocket env w).2 := by
  unfold ensureSocket ProtocolClientSm.createSocket
  split
  · dsimp only
    split
    · exact .of_sm rfl
    · split <;> exact ⟨List.Subset.refl _, rfl⟩
  · exact .refl w.2

theorem stConnect_later [DecidableEq ι] (self : ι) : Later s (stConnect env self s).2 := by
  have hwait : Later s (connectWait self s).2 := by
    unfold connectWait
    split <;> exact .of_sm rfl
  have hsocket := hwait.trans (ensureSocket_later env (connectWait self s))
  unfold stConnect
  dsimp only
  split
  · exact hwait
  · split
    · exact hsocket
    · split
      · exact hsocket
      · exact hsocket.trans (connectSocket_later env _)

theorem stSendRequest_later : Later s (stSendRequest env s).2 := by
  unfold stSendRequest
  split
  · exact .refl s
  · rename_i r ha
    dsimp only
    split
    · refine ⟨fun q hq => ?_, rfl⟩
      simp only [underWay, holdings_sent, holdings_active, ha] at hq ⊢
      simpa [or_comm] using hq
    · split
      · split <;> exact .of_sm rfl
      · exact .of_sm rfl

theorem stRecvResponse_later : Later s (stRecvResponse env s).2 := by
  unfold stRecvResponse
  dsimp only
  split
  · exact ⟨List.Subset.refl _, rfl⟩
  · split <;> exact ⟨List.Subset.refl _, rfl⟩

theorem exchange_later : Later s (exchange env s).2 := by
  have hcount (error : Int) (t : St R ι W) : Later t (countFailure error t) := ⟨List.Subset.refl _, rfl⟩
  have hpair (t : St R ι W) : Later t (pairRequestToResponse t).2 := by
    unfold pairRequestToResponse
    split <;> exact ⟨List.Subset.refl _, rfl⟩
  have hreceived := ((stSendRequest_later env s).trans (hcount _ _)).trans
    (stRecvResponse_later env (countFailure (stSendRequest env s).1 (stSendRequest env s).2))
  unfold exchange
  dsimp only
  split
  · exact hreceived.trans (hpair _)
  · exact hreceived.trans (hcount _ _)

theorem completeIf_later (c : Bool × St R ι W) : Later c.2 (completeIf env c) := by
  unfold completeIf stTransmitComplete
  split
  · split
    · exact .refl c.2
    · dsimp only
      split
      · exact ⟨List.Subset.refl _, rfl⟩
      · exact ⟨((listDel_sublist _ _).append_right _).subset, rfl⟩
  · exact .refl c.2

theorem checkTimeout_later : Later s (checkTimeout env s).2 := by
  have hsm := expiredSent_sm env s.sm.sentRequestList s
  have hexpire (r : ProtocolClientRequest R) (t : St R ι W) : Later t (t.mapSm (expire r)) :=
    ⟨((List.nil_sublist _).append_left _).subset, rfl⟩
  refine (Later.of_sm hsm).trans ?_
  unfold checkTimeout
  dsimp only
  split
  · exact hexpire _ _
  · split
    · refine .trans ?_ (hexpire _ (systemGetDiffTime env _ _).2)
      exact .of_sm rfl
    · exact .of_sm rfl
  · exact .refl _

theorem abortTransfers_later : Later s (abortTransfers s).2 := by
  have habort (r : ProtocolClientRequest R) (queue : List (ProtocolClientRequest R)) : Later s (s.mapSm
      (fun sm => { completeWith errRequestAborted r sm with transferQueue := queue })) :=
    ⟨((List.nil_sublist _).append_left _).subset, rfl⟩
  unfold abortTransfers
  split
  · exact .refl s
  · split
    · exact habort _ _
    · exact habort _ s.sm.transferQueue
    · exact habort _ s.sm.transferQueue
    · exact ⟨List.Subset.refl _, rfl⟩

theorem closeSocket_later : Later s (closeSocket env s) := by
  unfold closeSocket
  split <;> exact ⟨List.Subset.refl _, rfl⟩

theorem finishTransmit_later (next : SmState) (completed : Bool) :
    Later s (finishTransmit env next completed s).2 := by
  unfold finishTransmit
  dsimp only
  have hsettled : Later s (s.mapSm (fun sm => { sm with
      timeouts := if tooManyTimeouts sm then 0 else sm.timeouts, abortDone := false })) :=
    ⟨List.Subset.refl _, rfl⟩
  split
  · exact hsettled.trans (closeSocket_later env _)
  · exact hsettled

theorem respond_later [DecidableEq ι] (self : ι) : Later (attempt env self s).2 (respond env self s).2 := by
  unfold respond
  dsimp only
  refine .trans ?_ (completeIf_later env _)
  split
  · exact exchange_later env _
  · exact .refl _

/-- st_transmit from the first completion of a timeout on. -/
theorem stTransmit_later [DecidableEq ι] (self : ι) :
    Later (completeIf env (checkTimeout env (respond env self s).2)) (stTransmit env self s).2 := by
  unfold stTransmit
  dsimp only
  refine .trans ?_ (finishTransmit_later env _ _ _)
  exact (abortTransfers_later _).trans (completeIf_later env _)

end

section

variable {p q : Holdings R × List (Call R)}

theorem underWay_moves (h : OneByOne p.1) (hp : underWay p.1 ≠ [])
    (hm : Moves logHooks (fun c => c.why ≠ .abort) p q) :
    p.2.length < q.2.length ∨ (q.2 = p.2 ∧ underWay q.1 = underWay p.1) := by
  refine (hm.invariant (P := fun x => OneByOne x.1 ∧
    (p.2.length < x.2.length ∨ (x.2 = p.2 ∧ underWay x.1 = underWay p.1)))
    (fun x y hmove hx => ?_) ⟨h, .inr ⟨rfl, rfl⟩⟩).2
  obtain ⟨hone, hgoes | hanswers⟩ := hx.1.move hmove
  · refine ⟨hone, ?_⟩
    rw [hgoes.calls]
    obtain hgrown | ⟨hcalls, hunder⟩ := hx.2
    · exact .inl hgrown
    · have hsame := hgoes.underWay.resolve_left (by rwa [hunder])
      exact .inr ⟨hcalls, hsame.trans hunder⟩
  · obtain ⟨-, -, r, response, -, hcalls⟩ := hanswers
    refine ⟨hone, .inl ?_⟩
    have hle : p.2.length ≤ x.2.length := by
      obtain hgrown | ⟨hsame, -⟩ := hx.2
      · exact Nat.le_of_lt hgrown
      · exact Nat.le_of_eq (congrArg List.length hsame.symm)
    rw [hcalls, List.length_append]
    exact Nat.lt_succ_of_le hle

theorem aborting_move {ok : Completion R → Prop} (hm : Move logHooks ok p q) (hp : line p.1 ≠ []) :
    q.1.aborting = p.1.aborting := by
  have hafter (c : Completion R) : c.after.aborting = c.before.aborting := by
    unfold Completion.after
    split <;> exact c.taken_aborting
  cases hm with
  | take | send | refused | received | closed => rfl
  | answer c | complete c => exact hafter c
  | aborted hb hq hs ha => exact absurd (by simp [line, underWay, hq, hs, ha]) hp

theorem line_moves (h : OneByOne p.1) (hp : line p.1 ≠ [])
    (hm : Moves logHooks (fun c => c.why ≠ .abort) p q) :
    p.2.length < q.2.length ∨ (line q.1 = line p.1 ∧ q.1.aborting = p.1.aborting) := by
  refine (hm.invariant (P := fun x => OneByOne x.1 ∧ p.2.length ≤ x.2.length ∧
    (p.2.length < x.2.length ∨ (line x.1 = line p.1 ∧ x.1.aborting = p.1.aborting)))
    (fun x y hmove hx => ?_) ⟨h, Nat.le_refl _, .inr ⟨rfl, rfl⟩⟩).2.2
  obtain ⟨hone, hgoes | hanswers⟩ := hx.1.move hmove
  · refine ⟨hone, ?_⟩
    rw [hgoes.calls]
    refine ⟨hx.2.1, hx.2.2.imp_right fun hsame => ?_⟩
    exact ⟨hgoes.line.trans hsame.1, (aborting_move hmove (hsame.1 ▸ hp)).trans hsame.2⟩
  · obtain ⟨-, -, r, response, -, hcalls⟩ := hanswers
    have hlt : p.2.length < y.2.length := by
      rw [hcalls, List.length_append]
      exact Nat.lt_succ_of_le hx.2.1
    exact ⟨hone, Nat.le_of_lt hlt, .inl hlt⟩

theorem length_moves {ok : Completion R → Prop} (hm : Moves logHooks ok p q) :
    p.2.length ≤ q.2.length := by
  refine hm.invariant (P := fun x => p.2.length ≤ x.2.length) (fun x y hmove hx => ?_) (Nat.le_refl _)
  obtain ⟨-, hsame⟩ | ⟨c, calls, -, -, rfl, rfl⟩ := Accounting.move_cases hmove
  · rwa [hsame]
  · rw [List.length_append]
    exact Nat.le_succ_of_le hx

theorem oneByOne_moves (h : OneByOne p.1) (hm : Moves logHooks (fun c => c.why ≠ .abort) p q) :
    OneByOne q.1 :=
  hm.invariant (P := fun x => OneByOne x.1) (fun _ _ hmove hx => (hx.move hmove).1) h

end

section

variable {env : Env R W} {s : St R ι W}

theorem stNewTransmit_eq (h : OneByOne (holdings s.sm)) (hs : underWay (holdings s.sm) ≠ []) :
    stNewTransmit env s = s := by
  unfold stNewTransmit
  split
  · rfl
  · split
    · rename_i r rest ha hq
      have hsent : s.sm.sentRequestList ≠ [] := by simpa [underWay, ha] using hs
      have hnum : s.sm.sentRequestNum = s.sm.sentRequestList.length := h.count
      have hlimit : s.sm.paralellRequestLimit = 1 := h.limit
      have hfull : underLimit s.sm = false := by
        have hpos := List.length_pos_iff.mpr hsent
        simp [underLimit, hlimit, noRequestLimit, hnum]
        omega
      rw [hfull]
      rfl
    · rfl

variable (env) in
theorem stNewTransmit_takes (h : OneByOne (holdings s.sm))
    (hs : s.sm.abortTransfersInProgress = false) (hline : line (holdings s.sm) ≠ []) :
    underWay (holdings (stNewTransmit env s).sm) ≠ [] := by
  by_cases hunder : underWay (holdings s.sm) = []
  · obtain ⟨hsent, hactive⟩ := List.append_eq_nil_iff.mp hunder
    have hnone : s.sm.activeRequest = none := by simpa using hactive
    obtain ⟨r, rest, hq⟩ : ∃ r rest, s.sm.transferQueue = r :: rest := by
      apply List.exists_cons_of_ne_nil
      intro hq
      exact hline (by simp [line, hunder, hq])
    have hfree : underLimit s.sm = true := by
      have hnum : s.sm.sentRequestNum = s.sm.sentRequestList.length := h.count
      have hlimit : s.sm.paralellRequestLimit = 1 := h.limit
      have hzero : s.sm.sentRequestNum = 0 := hnum.trans (congrArg List.length hsent)
      simp [underLimit, hlimit, hzero]
    unfold stNewTransmit
    rw [hs, hnone, hq, hfree]
    simp [underWay]
  · rw [stNewTransmit_eq h hunder]
    exact hunder

end

theorem line_ne_nil {h : Holdings R} (hs : underWay h ≠ []) : line h ≠ [] := by
  intro hline
  exact hs (List.append_eq_nil_iff.mp (List.map_eq_nil_iff.mp hline)).1

/-- How many task calls bring the machine to an SM_TRANSMIT step, once the second since the last
reset is over. -/
def rank : SmState → Nat
  | .transmit => 1
  | .reset => 2
  | .failure => 3
  | .connect => 0

theorem rank_le (state : SmState) : rank state ≤ 3 := by
  cases state <;> decide

def isTask : Action R ι → Bool
  | .task => true
  | _ => false

/-- The number of task calls in a run. -/
def tasks (acts : List (Action R ι)) : Nat := acts.countP isTask

theorem isTask_iff {a : Action R ι} : isTask a = true ↔ a = .task := by
  cases a with
  | task | transmit | clear | interfere => simp [isTask]

def now (clock : W → Nat) (s : Session R ι W) : Nat := clock s.st.world.1

def timeout (s : Session R ι W) : Nat := (configOf s.st).transmissionTimeout.toNat

/-- The transmission of every request that is under way began in the past. -/
def Begun (clock : W → Nat) (s : Session R ι W) : Prop :=
  ∀ r ∈ underWay s.books.1, r.startOfTransmit.toNat ≤ now clock s

section

variable [DecidableEq ι] {env : Env R W} {clock : W → Nat} {self : ι} {s : Session R ι W}

theorem step_transmit (env : Env R W) (self : ι) (hs : s.st.sm.state = .transmit) :
    (Session.step env self s .task).books = look Prod.snd (stTransmit (logged env) self s.st).2 ∧
      (Session.step env self s .task).st.world = (stTransmit (logged env) self s.st).2.world :=
  Timed.task_transmit env (fun _ => 0) self (d := ⟨s, fun _ => 0⟩) hs

omit [DecidableEq ι] in
theorem stNewTransmit_begun (hclock : Clocked env clock) (h : Begun clock s) :
    ∀ r ∈ underWay (holdings (stNewTransmit (logged env) s.st).sm),
      r.startOfTransmit.toNat ≤ now clock s := by
  intro r hr
  unfold stNewTransmit at hr
  split at hr
  · exact h r hr
  · split at hr
    · split at hr
      · obtain hr | hr := List.mem_append.mp hr
        · exact h r (List.mem_append_left _ hr)
        · obtain rfl := List.mem_singleton.mp hr
          have hread : (((logged env).systemGetTime s.st.world).1).toNat = now clock s % 2 ^ 32 := by
            rw [hclock.logged.reads]
            exact UInt32.toNat_ofNat
          exact Nat.le_trans (Nat.le_of_eq hread) (Nat.mod_le _ _)
      · exact h r hr
    · exact h r hr

section

variable (hs : s.st.sm.state = .transmit) (hok : AbortsNone env self s .task)

include hs hok

theorem check_moves : Moves logHooks (fun c => c.why ≠ .abort) s.books (look Prod.snd (atCheck env self s)) :=
  respond_moves (observes_logged env).toWatches self s.st hs
    (fun _ r _ => (observes_logged env).sendRequest r _) hok

theorem timeout_step_moves : Moves logHooks (fun c => c.why ≠ .abort)
    (look Prod.snd (atCheck env self s))
    (look Prod.snd (completeIf (logged env) (checkTimeout (logged env) (atCheck env self s)))) :=
  timeout_moves (observes_logged env).toWatches _
    (fun c hc => hok c (timeout_mem_completions hs hc))

theorem rest_moves : Moves logHooks (fun c => c.why ≠ .abort)
    (look Prod.snd (completeIf (logged env) (checkTimeout (logged env) (atCheck env self s))))
    (Session.step env self s .task).books := by
  rw [(step_transmit env self hs).1]
  exact stTransmit_moves_rest (observes_logged env).toWatches self s.st hs hok

theorem attempt_moves : Moves logHooks (fun c => c.why ≠ .abort)
    (look Prod.snd (stNewTransmit (logged env) s.st)) (Session.step env self s .task).books := by
  have hcheck : Moves logHooks (fun c => c.why ≠ .abort)
      (look Prod.snd (stNewTransmit (logged env) s.st)) (look Prod.snd (atCheck env self s)) := by
    have hattempt : look Prod.snd (attempt (logged env) self s.st).2 =
        look Prod.snd (stNewTransmit (logged env) s.st) :=
      look_stConnect (observes_logged env).toWatches self _
    have hcompletions := hok
    unfold AbortsNone completions at hcompletions
    simp only [if_pos hs, List.mem_append, Option.mem_toList] at hcompletions
    rw [← hattempt]
    unfold atCheck respond
    dsimp only
    split
    · rename_i hn
      exact exchange_moves (observes_logged env).toWatches _ (fun r _ => (observes_logged env).sendRequest r _)
        (fun c hc => hcompletions c (.inl (by rw [if_pos hn]; exact hc)))
    · exact .refl
  exact hcheck.trans ((timeout_step_moves hs hok).trans (rest_moves hs hok))

/-- While transfers are being aborted, an SM_TRANSMIT step that aborts nothing answers the request
that the line begins with. -/
theorem aborting_serves (h : OneByOne s.books.1) (hline : line s.books.1 ≠ [])
    (hflag : s.st.sm.abortTransfersInProgress = true) :
    s.calls.length < (Session.step env self s .task).calls.length := by
  have hcheck := (check_moves hs hok).trans (timeout_step_moves hs hok)
  have hrest := length_moves (rest_moves hs hok)
  have hmem (c : Completion R) (hc : completionOf .abort
      (abortPlace (completeIf (logged env) (checkTimeout (logged env) (atCheck env self s))).sm)
      (holdings (completeIf (logged env) (checkTimeout (logged env) (atCheck env self s))).sm)
      (abortTransfers (completeIf (logged env) (checkTimeout (logged env) (atCheck env self s)))) =
        some c) : c.why ≠ .abort := by
    apply hok c
    unfold completions
    rw [if_pos hs]
    refine List.mem_append_right _ (List.mem_append_right _ ?_)
    rw [Option.mem_toList]
    exact hc
  generalize completeIf (logged env) (checkTimeout (logged env) (atCheck env self s)) = u at *
  obtain hgrown | ⟨hsame, haborting⟩ := line_moves h hline hcheck
  · exact Nat.lt_of_lt_of_le hgrown hrest
  · obtain ⟨hidle, -⟩ | ⟨-, ⟨r, rest, -, -, hc⟩ | ⟨-, r, rest, -, -, hc⟩ | ⟨-, -, r, -, -, hc⟩ |
      ⟨hq, hsent, hactive, -⟩⟩ := abortTransfers_cases u
    · rw [show u.sm.abortTransfersInProgress = true from haborting.trans hflag] at hidle
      cases hidle
    · exact absurd rfl (hmem _ (by rw [hc]; rfl))
    · exact absurd rfl (hmem _ (by rw [hc]; rfl))
    · exact absurd rfl (hmem _ (by rw [hc]; rfl))
    · refine absurd ?_ hline
      rw [← hsame]
      simp [look, line, underWay, hq, hsent, hactive]

/-- A request of the line that is not answered in an SM_TRANSMIT step is under way behind it, and
it is the one that was under way before. -/
theorem transmit_serves (h : OneByOne s.books.1) (hline : line s.books.1 ≠ []) :
    let t := Session.step env self s .task
    s.calls.length < t.calls.length ∨ (t.calls = s.calls ∧ underWay t.books.1 ≠ [] ∧
      (underWay s.books.1 ≠ [] → underWay t.books.1 = underWay s.books.1)) := by
  intro t
  have hnew : Moves logHooks (fun c => c.why ≠ .abort) s.books
      (look Prod.snd (stNewTransmit (logged env) s.st)) :=
    stNewTransmit_moves (observes_logged env).toWatches s.st
  have hcalls : (look Prod.snd (stNewTransmit (logged env) s.st)).2 = s.calls := by
    show (stNewTransmit (logged env) s.st).world.2 = s.st.world.2
    unfold stNewTransmit
    split
    · rfl
    · split
      · split <;> rfl
      · rfl
  cases hflag : s.st.sm.abortTransfersInProgress with
  | true => exact .inl (aborting_serves hs hok h hline hflag)
  | false =>
      have hunder := stNewTransmit_takes (logged env) h hflag hline
      obtain hgrown | ⟨hsame, hstays⟩ :=
        underWay_moves (oneByOne_moves h hnew) hunder (attempt_moves hs hok)
      · rw [hcalls] at hgrown
        exact .inl hgrown
      · refine .inr ⟨hsame.trans hcalls, ?_, fun hbusy => ?_⟩
        · rw [hstays]
          exact hunder
        · rw [hstays]
          exact congrArg (fun x => underWay (holdings x.sm)) (stNewTransmit_eq h hbusy)

/-- A request that is under way behind an SM_TRANSMIT step was not late before it, and was under way
when the step attempted to connect. -/
theorem transmit_expires (hclock : Clocked env clock) (h : OneByOne s.books.1)
    (hbound : now clock (Session.step env self s .task) < 2 ^ 32) {r : ProtocolClientRequest R}
    (hr : r ∈ underWay (Session.step env self s .task).books.1) :
    r ∈ underWay (holdings (stNewTransmit (logged env) s.st).sm) ∧
      now clock s ≤ r.startOfTransmit.toNat + timeout s := by
  obtain ⟨hbooks, hworld⟩ := step_transmit env self hs
  have hforward := hclock.logged.forward
  have hcompleted : r ∈ underWay (holdings (completeIf (logged env)
      (checkTimeout (logged env) (atCheck env self s))).sm) := by
    apply (stTransmit_later (logged env) s.st self).underWay
    rwa [hbooks] at hr
  have hcheck : r ∈ underWay (holdings (atCheck env self s).sm) :=
    (checkTimeout_later (logged env) (atCheck env self s)).underWay
      ((completeIf_later (logged env) _).underWay hcompleted)
  refine ⟨((stConnect_later (logged env) (stNewTransmit (logged env) s.st) self).trans
    (respond_later (logged env) s.st self)).underWay hcheck, ?_⟩
  by_contra hlate
  have hone : OneByOne (holdings (atCheck env self s).sm) := oneByOne_moves h (check_moves hs hok)
  have hplace : r ∈ (atCheck env self s).sm.sentRequestList ∧
      ¬ ((atCheck env self s).sm.type = .asynch ∧ r.type = .subscribeAsynch) ∨
        (atCheck env self s).sm.activeRequest = some r := by
    have htype : (atCheck env self s).sm.type = .synch := hone.type
    rw [htype]
    obtain hsent | hactive := List.mem_append.mp hcheck
    · exact .inl ⟨hsent, fun hasynch => absurd hasynch.1 (by decide)⟩
    · exact .inr (Option.mem_toList.mp hactive)
  have hreports : (checkTimeout (logged env) (atCheck env self s)).1 = true := by
    refine checkTimeout_reports hclock.logged hplace ?_ ?_
    · have hconfig : (atCheck env self s).sm.transmissionConfig = configOf s.st :=
        respond_config (logged env) s.st self
      rw [hconfig]
      exact Nat.lt_of_lt_of_le (Nat.lt_of_not_le hlate) (respond_along hforward s.st self)
    · refine Nat.lt_of_le_of_lt (stTransmit_along_rest hforward s.st self) ?_
      rw [← hworld]
      exact hbound
  obtain ⟨c, -, hwhy, hsel, hbefore, hafter⟩ := reported_completes env self hs hreports
  obtain ⟨-, -, hfree, -⟩ := (hbefore ▸ hone).complete hsel (by rw [hwhy]; decide)
  have hnone : underWay (holdings (completeIf (logged env)
      (checkTimeout (logged env) (atCheck env self s))).sm) = [] :=
    (congrArg (fun x => underWay (Prod.fst x)) hafter).trans hfree
  rw [hnone] at hcompleted
  exact List.not_mem_nil hcompleted

end

/-- What every state of a run without aborts satisfies, as far as the clock is concerned. -/
structure Timely (clock : W → Nat) (config : TransmissionConfig) (s : Session R ι W) : Prop where
  line : InLine s.accepted s.books
  configured : configOf s.st = config
  state : s.st.sm.state ≠ .connect
  failures : s.st.sm.state = .reset →
    (s.st.sm.transmitFailures : Int) ≤ config.transmissionRetries
  lastReset : s.st.sm.lastReset.toNat ≤ now clock s
  begun : Begun clock s
  recent : s.st.sm.state ≠ .transmit → ∀ r ∈ underWay s.books.1,
    s.st.sm.lastReset.toNat ≤ r.startOfTransmit.toNat + config.transmissionTimeout.toNat

theorem toNat_reads (hclock : Clocked env clock) (w : W) :
    (env.systemGetTime w).1.toNat ≤ clock w := by
  rw [hclock.reads]
  exact Nat.le_trans (Nat.le_of_eq UInt32.toNat_ofNat) (Nat.mod_le _ _)

theorem now_step (hclock : Clocked env clock) (self : ι) (s : Session R ι W) (a : Action R ι) :
    now clock s ≤ now clock (Session.step env self s a) := by
  show Timed.now clock ⟨s, fun _ => 0⟩ ≤ Timed.now clock (Timed.step env clock self ⟨s, fun _ => 0⟩ a)
  exact Timed.now_le hclock a

omit [DecidableEq ι] in
theorem transmit_sm (env : Env R W) (type : RequestType) (request : R) (messageId : Int)
    (s : St R ι W) : ∃ queue, (protocolClientSmTransmit env type request messageId s).2.sm =
      { s.sm with transferQueue := queue } := by
  unfold protocolClientSmTransmit cqueuePushTail
  dsimp only
  split
  · exact ⟨s.sm.transferQueue, rfl⟩
  · split
    · split
      · exact ⟨_, rfl⟩
      · exact ⟨s.sm.transferQueue, rfl⟩
    · exact ⟨s.sm.transferQueue, rfl⟩

omit [DecidableEq ι] in
/-- In SM_RESET the machine waits for a second since the last reset, and then goes on. -/
theorem stReset_cases (hclock : Clocked env clock) (s : St R ι W) :
    ((stReset env s).1 = .reset ∧ (stReset env s).2.sm = s.sm ∧
        (clock s.world < 2 ^ 32 → clock s.world < s.sm.lastReset.toNat + 1000)) ∨
      ((stReset env s).1 = .transmit ∧ holdings (stReset env s).2.sm = holdings s.sm ∧
        (stReset env s).2.sm.lastReset.toNat ≤ clock (stReset env s).2.world) := by
  unfold stReset
  dsimp only
  split
  · rename_i hwait
    refine .inl ⟨rfl, rfl, fun hbound => ?_⟩
    by_contra hlate
    have hgt : UInt32.ofNat (clock s.world) - s.sm.lastReset > 999 := by
      apply elapsed_gt _ hbound
      exact Nat.lt_of_succ_le (Nat.le_of_not_lt hlate)
    rw [← hclock.reads] at hgt
    have hlt : ((env.systemGetTime s.world).1 - s.sm.lastReset).toNat < 1000 :=
      UInt32.lt_iff_toNat_lt.mp hwait
    have hmore : 999 < ((env.systemGetTime s.world).1 - s.sm.lastReset).toNat :=
      UInt32.lt_iff_toNat_lt.mp hgt
    omega
  · generalize hu : ((systemGetDiffTime env s.sm.lastReset s).2.call env.systemGetTime).2.mapSm _ = u
    have hclosed := closeSocket_later env u
    refine .inr ⟨rfl, ?_, ?_⟩
    · rw [show holdings s.sm = holdings u.sm by rw [← hu]; rfl]
      unfold closeSocket
      split <;> rfl
    · have hlast : u.sm.lastReset = (env.systemGetTime (env.systemGetTime s.world).2).1 := by
        rw [← hu]
        rfl
      have hworld : u.world = (env.systemGetTime (env.systemGetTime s.world).2).2 := by
        rw [← hu]
        rfl
      have hread := toNat_reads hclock (env.systemGetTime s.world).2
      have htime := hclock.forward.systemGetTime (env.systemGetTime s.world).2
      have hclose := closeSocket_along hclock.forward u
      rw [hclosed.lastReset, hlast]
      rw [hworld] at hclose
      exact hread.trans (htime.trans hclose)

/-- What a task call makes of the result of a state function. -/
structure Follows (t : Session R ι W) (r : SmState × St R ι (W × List (Call R))) : Prop where
  state : t.st.sm.state =
    if (r.2.sm.transmitFailures : Int) > r.2.sm.transmissionConfig.transmissionRetries then .failure
    else r.1
  failures : t.st.sm.transmitFailures = r.2.sm.transmitFailures
  lastReset : t.st.sm.lastReset = r.2.sm.lastReset
  holdings : holdings t.st.sm = holdings r.2.sm
  world : t.st.world = r.2.world

theorem task_follows {r : SmState × St R ι (W × List (Call R))}
    (hr : (s.st.sm.state = .reset ∧ r = stReset (logged env) s.st) ∨
      (s.st.sm.state = .transmit ∧ r = stTransmit (logged env) self s.st) ∨
      (s.st.sm.state = .failure ∧ r = stFailure s.st)) :
    Follows (Session.step env self s .task) r := by
  have ht : (Session.step env self s .task).st = protocolClientSmTask (logged env) self s.st := rfl
  unfold protocolClientSmTask at ht
  obtain ⟨hs, hr⟩ | ⟨hs, hr⟩ | ⟨hs, hr⟩ := hr <;>
  · rw [hs] at ht
    dsimp only at ht
    rw [← hr] at ht
    constructor <;>
    · rw [ht]
      rfl

theorem stTransmit_state (env : Env R W) (self : ι) (s : St R ι W) :
    (stTransmit env self s).1 ≠ .connect := by
  have hnext (next : SmState) (completed : Bool) (sm : ProtocolClientSmClass R) :
      overrideNext next completed sm ≠ .connect := by
    unfold overrideNext
    split
    · exact SmState.noConfusion
    · split
      · exact SmState.noConfusion
      · assumption
  exact hnext _ _ _

namespace Timely

variable {config : TransmissionConfig} {t : Session R ι W}

omit [DecidableEq ι] in
theorem frame (h : Timely clock config s) (hline : InLine t.accepted t.books)
    (hconfig : configOf t.st = configOf s.st) (hstate : t.st.sm.state = s.st.sm.state)
    (hfailures : t.st.sm.transmitFailures = s.st.sm.transmitFailures)
    (hreset : t.st.sm.lastReset = s.st.sm.lastReset)
    (hunder : underWay t.books.1 = underWay s.books.1) (hnow : now clock s ≤ now clock t) :
    Timely clock config t where
  line := hline
  configured := hconfig.trans h.configured
  state := hstate ▸ h.state
  failures ht := hfailures ▸ h.failures (hstate ▸ ht)
  lastReset := hreset ▸ h.lastReset.trans hnow
  begun r hr := (h.begun r (hunder ▸ hr)).trans hnow
  recent ht r hr := hreset ▸ h.recent (hstate ▸ ht) r (hunder ▸ hr)

/-- A task call in SM_RESET waits, or goes on to SM_TRANSMIT. -/
theorem reset_next (hclock : Clocked env clock) (self : ι) (h : Timely clock config s)
    (hs : s.st.sm.state = .reset) :
    let t := Session.step env self s .task
    underWay t.books.1 = underWay s.books.1 ∧ t.st.sm.transmitFailures = s.st.sm.transmitFailures ∧
      ((t.st.sm.state = .reset ∧ t.st.sm.lastReset = s.st.sm.lastReset ∧
          (now clock s < 2 ^ 32 → now clock s < s.st.sm.lastReset.toNat + 1000)) ∨
        (t.st.sm.state = .transmit ∧ t.st.sm.lastReset.toNat ≤ now clock t)) := by
  intro t
  have hsettings := stReset_settings (logged env) s.st
  have hsame : (stReset (logged env) s.st).2.sm.transmitFailures = s.st.sm.transmitFailures :=
    congrArg Prod.snd hsettings
  have hretries : (stReset (logged env) s.st).2.sm.transmissionConfig = config :=
    (congrArg Prod.fst hsettings).trans h.configured
  have hf : Follows t (stReset (logged env) s.st) := task_follows (.inl ⟨hs, rfl⟩)
  have hstate := hf.state
  rw [hsame, hretries, if_neg (show ¬ _ > _ from Int.not_lt.mpr (h.failures hs))] at hstate
  obtain ⟨hnext, hsm, hwait⟩ | ⟨hnext, hheld, hlast⟩ := stReset_cases hclock.logged s.st
  · refine ⟨congrArg underWay (hf.holdings.trans (congrArg holdings hsm)), hf.failures.trans hsame, .inl ?_⟩
    exact ⟨hstate.trans hnext, hf.lastReset.trans (congrArg _ hsm), hwait⟩
  · refine ⟨congrArg underWay (hf.holdings.trans hheld), hf.failures.trans hsame, .inr ?_⟩
    refine ⟨hstate.trans hnext, ?_⟩
    unfold now
    rw [hf.lastReset, hf.world]
    exact hlast

/-- A task call in SM_FAILURE goes on to SM_RESET. -/
theorem failure_next (h : Timely clock config s) (env : Env R W) (self : ι) (hs : s.st.sm.state = .failure)
    (hretries : 0 ≤ config.transmissionRetries) :
    let t := Session.step env self s .task
    underWay t.books.1 = underWay s.books.1 ∧ t.st.sm.transmitFailures = 0 ∧
      t.st.sm.state = .reset ∧ t.st.sm.lastReset = s.st.sm.lastReset ∧ now clock t = now clock s := by
  intro t
  have hf : Follows t (stFailure s.st) := task_follows (.inr (.inr ⟨hs, rfl⟩))
  refine ⟨congrArg underWay hf.holdings, hf.failures, ?_, hf.lastReset,
    congrArg (fun w => clock (Prod.fst w)) hf.world⟩
  rw [hf.state, show (stFailure s.st).2.sm.transmissionConfig = config from h.configured]
  exact if_neg (Int.not_lt.mpr hretries)

theorem reset (hclock : Clocked env clock) (h : Timely clock config s) (hs : s.st.sm.state = .reset)
    (hline : InLine (Session.step env self s .task).accepted (Session.step env self s .task).books) :
    Timely clock config (Session.step env self s .task) := by
  have hnow := now_step hclock self s .task
  have hconfig := protocolClientSmTask_config (logged env) s.st self
  obtain ⟨hunder, hfailures, ⟨hstate, hlast, -⟩ | ⟨hstate, hlast⟩⟩ :=
    h.reset_next hclock self hs
  · exact h.frame hline hconfig (hstate.trans hs.symm) hfailures hlast hunder hnow
  · refine ⟨hline, hconfig.trans h.configured, ?_, fun ht => ?_, hlast, fun r hr => ?_, fun ht => ?_⟩
    · rw [hstate]
      exact SmState.noConfusion
    · rw [hstate] at ht
      cases ht
    · exact (h.begun r (hunder ▸ hr)).trans hnow
    · exact absurd hstate ht

theorem failure (h : Timely clock config s) (hs : s.st.sm.state = .failure)
    (hretries : 0 ≤ config.transmissionRetries)
    (hline : InLine (Session.step env self s .task).accepted (Session.step env self s .task).books) :
    Timely clock config (Session.step env self s .task) := by
  have hconfig := protocolClientSmTask_config (logged env) s.st self
  obtain ⟨hunder, hfailures, hstate, hlast, hnow⟩ := h.failure_next env self hs hretries
  refine ⟨hline, hconfig.trans h.configured, ?_, fun _ => ?_, ?_, fun r hr => ?_, fun _ r hr => ?_⟩
  · rw [hstate]
    exact SmState.noConfusion
  · rw [hfailures]
    exact hretries
  · rw [hlast, hnow]
    exact h.lastReset
  · rw [hnow]
    exact h.begun r (hunder ▸ hr)
  · rw [hlast]
    apply h.recent _ r (hunder ▸ hr)
    rw [hs]
    exact SmState.noConfusion

theorem transmit (hclock : Clocked env clock) (h : Timely clock config s)
    (hs : s.st.sm.state = .transmit) (hok : AbortsNone env self s .task)
    (hbound : now clock (Session.step env self s .task) < 2 ^ 32) :
    Timely clock config (Session.step env self s .task) := by
  have hnow := now_step hclock self s .task
  have hconfig := protocolClientSmTask_config (logged env) s.st self
  have hf : Follows (Session.step env self s .task) _ := task_follows (.inr (.inl ⟨hs, rfl⟩))
  have hretries : (stTransmit (logged env) self s.st).2.sm.transmissionConfig = config :=
    ((congrArg Prod.fst (stTransmit_settings (logged env) s.st self)).trans
      (respond_config (logged env) s.st self)).trans h.configured
  have hlater := (stTransmit_later (logged env) s.st self).lastReset
  have hlast : (Session.step env self s .task).st.sm.lastReset = s.st.sm.lastReset := by
    rw [hf.lastReset, hlater, (completeIf_later (logged env) _).lastReset,
      (checkTimeout_later (logged env) _).lastReset, (respond_later (logged env) s.st self).lastReset]
    unfold attempt
    rw [(stConnect_later (logged env) _ self).lastReset]
    unfold stNewTransmit
    split
    · rfl
    · split
      · split <;> rfl
      · rfl
  have hexpires {r : ProtocolClientRequest R}
      (hr : r ∈ underWay (Session.step env self s .task).books.1) :=
    transmit_expires hs hok hclock h.line.one hbound hr
  refine ⟨h.line.step hok, hconfig.trans h.configured, ?_, fun ht => ?_, ?_, fun r hr => ?_, fun _ r hr => ?_⟩
  · rw [hf.state]
    split
    · exact SmState.noConfusion
    · exact stTransmit_state (logged env) self s.st
  · rw [hf.state, hretries] at ht
    rw [hf.failures]
    split at ht
    · cases ht
    · rename_i hfew
      exact Int.not_lt.mp hfew
  · rw [hlast]
    exact h.lastReset.trans hnow
  · exact (stNewTransmit_begun hclock h.begun r (hexpires hr).1).trans hnow
  · rw [hlast, ← h.configured]
    exact h.lastReset.trans (hexpires hr).2

theorem step (hclock : Clocked env clock) (h : Timely clock config s)
    (hretries : 0 ≤ config.transmissionRetries) {a : Action R ι} (hok : AbortsNone env self s a)
    (hbound : now clock (Session.step env self s a) < 2 ^ 32) :
    Timely clock config (Session.step env self s a) := by
  have hline := h.line.step hok
  have hnow := now_step hclock self s a
  cases a with
  | task =>
      cases hs : s.st.sm.state with
      | reset => exact h.reset hclock hs hline
      | transmit => exact h.transmit hclock hs hok hbound
      | failure => exact h.failure hs hretries hline
      | connect => exact absurd hs h.state
  | transmit type request messageId =>
      obtain ⟨queue, hsm⟩ := transmit_sm (logged env) type request messageId s.st
      have hall : (Session.step env self s (.transmit type request messageId)).st.sm =
        { s.st.sm with transferQueue := queue } := hsm
      apply h.frame hline _ _ _ _ _ hnow
      · exact protocolClientSmTransmit_config (logged env) s.st type request messageId
      · rw [hall]
      · rw [hall]
      · rw [hall]
      · show underWay (holdings _) = underWay (holdings _)
        rw [hall]
        rfl
  | clear | interfere => exact h.frame hline rfl rfl rfl rfl rfl hnow

end Timely

section

variable {config : TransmissionConfig} (hclock : Clocked env clock)
  (hretries : 0 ≤ config.transmissionRetries)

theorem now_run (hclock : Clocked env clock) (self : ι) (s : Session R ι W) (acts : List (Action R ι)) :
    now clock s ≤ now clock (run (Session.step env self) s acts) := by
  induction acts generalizing s with
  | nil => exact Nat.le_refl _
  | cons a acts ih => exact (now_step hclock self s a).trans (ih _)

theorem step_quiet {a : Action R ι} (ha : a ≠ .task) :
    (Session.step env self s a).calls = s.calls ∧
      underWay (Session.step env self s a).books.1 = underWay s.books.1 := by
  cases a with
  | task => exact absurd rfl ha
  | transmit type request messageId =>
      show (Session.step env self s (.transmit type request messageId)).books.2 = s.books.2 ∧ _
      obtain ⟨hb, -, -⟩ | ⟨hb, -, -⟩ := Session.transmit_cases env type request messageId s self
      · rw [hb]
        exact ⟨rfl, rfl⟩
      · rw [hb]
        exact ⟨rfl, rfl⟩
  | clear | interfere => exact ⟨rfl, rfl⟩

theorem step_settled (env : Env R W) (self : ι) (s : Session R ι W) {a : Action R ι} (ha : a ≠ .task) :
    (Session.step env self s a).st.sm.state = s.st.sm.state ∧
      (Session.step env self s a).st.sm.lastReset = s.st.sm.lastReset := by
  cases a with
  | task => exact absurd rfl ha
  | transmit type request messageId =>
      obtain ⟨queue, hsm⟩ := transmit_sm (logged env) type request messageId s.st
      rw [show (Session.step env self s (.transmit type request messageId)).st.sm = _ from hsm]
      exact ⟨rfl, rfl⟩
  | clear | interfere => exact ⟨rfl, rfl⟩

theorem calls_step {a : Action R ι} (hok : AbortsNone env self s a) :
    s.calls.length ≤ (Session.step env self s a).calls.length := by
  by_cases ha : a = .task
  · subst ha
    exact length_moves (protocolClientSmTask_moves (observes_logged env) self s.st hok)
  · exact Nat.le_of_eq (congrArg List.length (step_quiet ha).1.symm)

theorem calls_run {acts : List (Action R ι)}
    (hok : Guarded (Session.step env self) (AbortsNone env self) s acts) :
    s.calls.length ≤ (run (Session.step env self) s acts).calls.length := by
  induction acts generalizing s with
  | nil => exact Nat.le_refl _
  | cons a acts ih => exact (calls_step hok.1).trans (ih hok.2)

theorem accepted_run (env : Env R W) (self : ι) (s : Session R ι W) (acts : List (Action R ι)) :
    s.accepted <+: (run (Session.step env self) s acts).accepted := by
  induction acts generalizing s with
  | nil => exact List.prefix_rfl
  | cons a acts ih =>
      refine List.IsPrefix.trans ?_ (ih _)
      cases a with
      | transmit type request messageId =>
          obtain ⟨-, ha, -⟩ | ⟨-, ha, -⟩ := Session.transmit_cases env type request messageId s self
          · exact ha ▸ List.prefix_rfl
          · exact ha ▸ List.prefix_append _ _
      | task | clear | interfere => exact List.prefix_rfl

theorem underWay_step (h : OneByOne s.books.1) (hs : underWay s.books.1 ≠ []) {a : Action R ι}
    (hok : AbortsNone env self s a) :
    s.calls.length < (Session.step env self s a).calls.length ∨
      underWay (Session.step env self s a).books.1 = underWay s.books.1 := by
  by_cases ha : a = .task
  · subst ha
    have hm := protocolClientSmTask_moves (observes_logged env) self s.st hok
    exact (underWay_moves h hs hm).imp_right And.right
  · exact .inr (step_quiet ha).2

theorem underWay_run (h : InLine s.accepted s.books) (hs : underWay s.books.1 ≠ [])
    {acts : List (Action R ι)}
    (hok : Guarded (Session.step env self) (AbortsNone env self) s acts) :
    s.calls.length < (run (Session.step env self) s acts).calls.length ∨
      underWay (run (Session.step env self) s acts).books.1 = underWay s.books.1 := by
  induction acts generalizing s with
  | nil => exact .inr rfl
  | cons a acts ih =>
      obtain hgrown | hsame := underWay_step h.one hs hok.1
      · exact .inl (Nat.lt_of_lt_of_le hgrown (calls_run hok.2))
      · obtain hgrown | hstays := ih (h.step hok.1) (hsame ▸ hs) hok.2
        · exact .inl (Nat.lt_of_le_of_lt (calls_step hok.1) hgrown)
        · exact .inr (hstays.trans hsame)

theorem line_run (h : InLine s.accepted s.books) (hs : line s.books.1 ≠ []) {acts : List (Action R ι)}
    (hok : Guarded (Session.step env self) (AbortsNone env self) s acts) :
    s.calls.length < (run (Session.step env self) s acts).calls.length ∨
      line (run (Session.step env self) s acts).books.1 ≠ [] := by
  have hend : InLine (run (Session.step env self) s acts).accepted
      (run (Session.step env self) s acts).books :=
    hok.invariant (P := fun s => InLine s.accepted s.books) (fun _ _ hok hs => hs.step hok) h
  have hmore := (accepted_run env self s acts).length_le
  rw [h.order, hend.order, List.length_append, List.length_append] at hmore
  have hpos := List.length_pos_iff.mpr hs
  by_cases hempty : line (run (Session.step env self) s acts).books.1 = []
  · refine .inl ?_
    rw [hempty] at hmore
    simp only [answered, List.length_map, List.length_nil] at hmore
    have hlt : s.books.2.length < (run (Session.step env self) s acts).books.2.length := by omega
    exact hlt
  · exact .inr hempty

include hclock hretries

theorem timely_run (h : Timely clock config s) (acts : List (Action R ι))
    (hok : Guarded (Session.step env self) (AbortsNone env self) s acts)
    (hbound : now clock (run (Session.step env self) s acts) < 2 ^ 32) :
    Timely clock config (run (Session.step env self) s acts) := by
  induction acts generalizing s with
  | nil => exact h
  | cons a acts ih =>
      exact ih (h.step hclock hretries hok.1 (Nat.lt_of_le_of_lt (now_run hclock self _ acts) hbound)) hok.2 hbound

theorem reaches (h : Timely clock config s)
    (hfree : s.st.sm.state ≠ .transmit → s.st.sm.lastReset.toNat + 1000 ≤ now clock s)
    {acts : List (Action R ι)} (hok : Guarded (Session.step env self) (AbortsNone env self) s acts)
    (hbound : now clock (run (Session.step env self) s acts) < 2 ^ 32)
    (hcount : rank s.st.sm.state ≤ tasks acts) :
    ∃ pre post, acts = pre ++ .task :: post ∧
      (run (Session.step env self) s pre).st.sm.state = .transmit := by
  induction acts generalizing s with
  | nil =>
      have hpos : 0 < rank s.st.sm.state := by
        cases hs : s.st.sm.state with
        | connect => exact absurd hs h.state
        | reset | transmit | failure => decide
      exact absurd hcount (Nat.not_le_of_lt hpos)
  | cons a acts ih =>
      have hnext := h.step hclock hretries hok.1 (Nat.lt_of_le_of_lt (now_run hclock self _ acts) hbound)
      have hnow := now_step hclock self s a
      by_cases ha : a = .task
      · subst ha
        have hfewer : tasks (.task :: acts : List (Action R ι)) = tasks acts + 1 := List.countP_cons_of_pos rfl
        rw [hfewer] at hcount
        have hlift (hfree' : (Session.step env self s .task).st.sm.state ≠ .transmit →
              (Session.step env self s .task).st.sm.lastReset.toNat + 1000 ≤
                now clock (Session.step env self s .task))
            (hcount' : rank (Session.step env self s .task).st.sm.state ≤ tasks acts) :
            ∃ pre post, .task :: acts = pre ++ .task :: post ∧
              (run (Session.step env self) s pre).st.sm.state = .transmit := by
          obtain ⟨pre, post, rfl, hreached⟩ := ih hnext hfree' hok.2 hbound hcount'
          exact ⟨.task :: pre, post, rfl, hreached⟩
        cases hs : s.st.sm.state with
        | transmit => exact ⟨[], acts, rfl, hs⟩
        | connect => exact absurd hs h.state
        | reset =>
            rw [hs] at hcount hfree
            have hthen := hfree SmState.noConfusion
            obtain ⟨-, -, ⟨-, -, hwait⟩ | ⟨hstate, -⟩⟩ := h.reset_next hclock self hs
            · have hearly := hwait (Nat.lt_of_le_of_lt (hnow.trans (now_run hclock self _ acts)) hbound)
              exact absurd hthen (Nat.not_le_of_lt hearly)
            · apply hlift (fun hne => absurd hstate hne)
              rw [hstate]
              exact Nat.le_of_succ_le_succ hcount
        | failure =>
            rw [hs] at hcount hfree
            obtain ⟨-, -, hstate, hlast, hsame⟩ := h.failure_next env self hs hretries
            apply hlift
            · intro _
              rw [hlast, hsame]
              exact hfree SmState.noConfusion
            · rw [hstate]
              exact Nat.le_of_succ_le_succ hcount
      · obtain ⟨hstate, hlast⟩ := step_settled env self s ha
        have hfewer : tasks (a :: acts) = tasks acts :=
          List.countP_cons_of_neg (fun h => ha (isTask_iff.mp h))
        obtain ⟨pre, post, rfl, hreached⟩ := ih hnext
          (fun hne => hlast ▸ (hfree (hstate ▸ hne)).trans hnow) hok.2 hbound
          (hstate ▸ hfewer ▸ hcount)
        exact ⟨a :: pre, post, rfl, hreached⟩

/-- Without a request under way, an SM_TRANSMIT step comes before the next reset. -/
theorem starts_run (h : Timely clock config s) (hline : line s.books.1 ≠ []) {b : Nat}
    (hlast : s.st.sm.state ≠ .transmit → s.st.sm.lastReset.toNat ≤ b) {acts : List (Action R ι)}
    (hok : Guarded (Session.step env self) (AbortsNone env self) s acts)
    (hbound : now clock (run (Session.step env self) s acts) < 2 ^ 32) :
    let t := run (Session.step env self) s acts
    s.calls.length < t.calls.length ∨ underWay t.books.1 ≠ [] ∨
      (t.st.sm.state ≠ .transmit → t.st.sm.lastReset.toNat ≤ b) := by
  induction acts generalizing s with
  | nil => exact .inr (.inr hlast)
  | cons a acts ih =>
      have hnext := h.step hclock hretries hok.1 (Nat.lt_of_le_of_lt (now_run hclock self _ acts) hbound)
      have hone : Guarded (Session.step env self) (AbortsNone env self) s [a] := ⟨hok.1, trivial⟩
      obtain hgrown | hline' := line_run h.line hline hone
      · exact .inl (Nat.lt_of_lt_of_le hgrown (calls_run hok.2))
      have hlift (hlast' : (Session.step env self s a).st.sm.state ≠ .transmit →
          (Session.step env self s a).st.sm.lastReset.toNat ≤ b) :=
        (ih hnext hline' hlast' hok.2 hbound).imp_left
          (fun hgrown => Nat.lt_of_le_of_lt (calls_step hok.1) hgrown)
      by_cases ha : a = .task
      · subst ha
        cases hs : s.st.sm.state with
        | connect => exact absurd hs h.state
        | transmit =>
            obtain hgrown | ⟨-, hunder, -⟩ := transmit_serves hs hok.1 h.line.one hline
            · exact .inl (Nat.lt_of_lt_of_le hgrown (calls_run hok.2))
            · obtain hgrown | hstays := underWay_run hnext.line hunder hok.2
              · exact .inl (Nat.lt_of_le_of_lt (calls_step hok.1) hgrown)
              · exact .inr (.inl (hstays ▸ hunder))
        | reset =>
            rw [hs] at hlast
            obtain ⟨-, -, ⟨-, hsame, -⟩ | ⟨hstate, -⟩⟩ := h.reset_next hclock self hs
            · exact hlift fun _ => hsame ▸ hlast SmState.noConfusion
            · exact hlift fun hne => absurd hstate hne
        | failure =>
            rw [hs] at hlast
            obtain ⟨-, -, -, hsame, -⟩ := h.failure_next env self hs hretries
            exact hlift fun _ => hsame ▸ hlast SmState.noConfusion
      · obtain ⟨hstate, hsame⟩ := step_settled env self s ha
        exact hlift fun hne => hsame ▸ hlast (hstate ▸ hne)

theorem starts (h : Timely clock config s) (hline : line s.books.1 ≠ [])
    (hfree : s.st.sm.state ≠ .transmit → s.st.sm.lastReset.toNat + 1000 ≤ now clock s)
    {acts : List (Action R ι)} (hok : Guarded (Session.step env self) (AbortsNone env self) s acts)
    (hbound : now clock (run (Session.step env self) s acts) < 2 ^ 32) (hcount : 3 ≤ tasks acts) :
    s.calls.length < (run (Session.step env self) s acts).calls.length ∨
      underWay (run (Session.step env self) s acts).books.1 ≠ [] := by
  obtain ⟨pre, post, rfl, hs⟩ := reaches hclock hretries h hfree hok hbound
    (Nat.le_trans (rank_le _) hcount)
  obtain ⟨hpre, hstep, hpost⟩ := hok.append
  rw [run_append] at hbound ⊢
  have hreached := timely_run hclock hretries h pre hpre
    (Nat.lt_of_le_of_lt (now_run hclock self _ (.task :: post)) hbound)
  obtain hgrown | hline' := line_run h.line hline hpre
  · exact .inl (Nat.lt_of_lt_of_le hgrown (calls_run ⟨hstep, hpost⟩))
  · obtain hgrown | ⟨-, hunder, -⟩ := transmit_serves hs hstep hreached.line.one hline'
    · refine .inl (Nat.lt_of_le_of_lt (calls_run hpre) ?_)
      exact Nat.lt_of_lt_of_le hgrown (calls_run hpost)
    · obtain hgrown | hstays := underWay_run (hreached.line.step hstep) hunder hpost
      · refine .inl (Nat.lt_of_le_of_lt ((calls_run hpre).trans (calls_step hstep)) hgrown)
      · exact .inr fun hnone => hunder (hstays.symm.trans hnone)

theorem ends (h : Timely clock config s) {r : ProtocolClientRequest R}
    (hr : r ∈ underWay s.books.1)
    (hlate : r.startOfTransmit.toNat + config.transmissionTimeout.toNat + 1000 < now clock s)
    {acts : List (Action R ι)} (hok : Guarded (Session.step env self) (AbortsNone env self) s acts)
    (hbound : now clock (run (Session.step env self) s acts) < 2 ^ 32) (hcount : 3 ≤ tasks acts) :
    s.calls.length < (run (Session.step env self) s acts).calls.length := by
  have hfree : s.st.sm.state ≠ .transmit → s.st.sm.lastReset.toNat + 1000 ≤ now clock s := by
    intro hne
    have hrecent := h.recent hne r hr
    omega
  obtain ⟨pre, post, rfl, hs⟩ := reaches hclock hretries h hfree hok hbound
    (Nat.le_trans (rank_le _) hcount)
  obtain ⟨hpre, hstep, hpost⟩ := hok.append
  rw [run_append] at hbound ⊢
  have hreached := timely_run hclock hretries h pre hpre
    (Nat.lt_of_le_of_lt (now_run hclock self _ (.task :: post)) hbound)
  obtain hgrown | hstays := underWay_run h.line (List.ne_nil_of_mem hr) hpre
  · exact Nat.lt_of_lt_of_le hgrown (calls_run ⟨hstep, hpost⟩)
  · have hunder : r ∈ underWay (run (Session.step env self) s pre).books.1 := hstays ▸ hr
    have hline' := line_ne_nil (List.ne_nil_of_mem hunder)
    obtain hgrown | ⟨-, -, hsame⟩ := transmit_serves hs hstep hreached.line.one hline'
    · exact Nat.lt_of_le_of_lt (calls_run hpre) (Nat.lt_of_lt_of_le hgrown (calls_run hpost))
    · have hstill := hsame (List.ne_nil_of_mem hunder) ▸ hunder
      have hearly := (transmit_expires hs hstep hclock hreached.line.one
        (Nat.lt_of_le_of_lt (now_run hclock self _ post) hbound) hstill).2
      have hnow := now_run hclock self s pre
      have hconfig : timeout (run (Session.step env self) s pre) = config.transmissionTimeout.toNat :=
        congrArg (fun c => c.transmissionTimeout.toNat) hreached.configured
      omega

end

/-- The clock goes on by more than the transmission timeout and a second, and then the task is called
three times. -/
def Beat (env : Env R W) (clock : W → Nat) (self : ι) (s : Session R ι W) (acts : List (Action R ι)) :
    Prop :=
  ∃ pause calls, acts = pause ++ calls ∧
    now clock s + timeout s + 1000 < now clock (run (Session.step env self) s pause) ∧ 3 ≤ tasks calls

inductive Beats (env : Env R W) (clock : W → Nat) (self : ι) :
    Nat → Session R ι W → List (Action R ι) → Prop
  | none (s : Session R ι W) (acts : List (Action R ι)) : Beats env clock self 0 s acts
  | next {n : Nat} {s : Session R ι W} {acts more : List (Action R ι)} (h : Beat env clock self s acts)
      (hmore : Beats env clock self n (run (Session.step env self) s acts) more) :
      Beats env clock self (n + 1) s (acts ++ more)

section

variable {config : TransmissionConfig} (hclock : Clocked env clock)
  (hretries : 0 ≤ config.transmissionRetries)

include hclock hretries

theorem beat_starts (h : Timely clock config s) (hline : line s.books.1 ≠ []) {acts : List (Action R ι)}
    (hbeat : Beat env clock self s acts)
    (hok : Guarded (Session.step env self) (AbortsNone env self) s acts)
    (hbound : now clock (run (Session.step env self) s acts) < 2 ^ 32) :
    s.calls.length < (run (Session.step env self) s acts).calls.length ∨
      underWay (run (Session.step env self) s acts).books.1 ≠ [] := by
  obtain ⟨pause, calls, rfl, hpause, hcount⟩ := hbeat
  obtain ⟨hquiet, hcalls⟩ := hok.append
  rw [run_append] at hbound ⊢
  have hearly := Nat.lt_of_le_of_lt (now_run hclock self _ calls) hbound
  have hmiddle := timely_run hclock hretries h pause hquiet hearly
  obtain hgrown | hunder | hlast :=
    starts_run hclock hretries h hline (fun _ => h.lastReset) hquiet hearly
  · exact .inl (Nat.lt_of_lt_of_le hgrown (calls_run hcalls))
  · obtain hgrown | hstays := underWay_run hmiddle.line hunder hcalls
    · exact .inl (Nat.lt_of_le_of_lt (calls_run hquiet) hgrown)
    · exact .inr fun hnone => hunder (hstays.symm.trans hnone)
  · obtain hgrown | hline' := line_run h.line hline hquiet
    · exact .inl (Nat.lt_of_lt_of_le hgrown (calls_run hcalls))
    · obtain hgrown | hunder := starts hclock hretries hmiddle hline'
        (fun hne => by have hreset := hlast hne; omega) hcalls hbound hcount
      · exact .inl (Nat.lt_of_le_of_lt (calls_run hquiet) hgrown)
      · exact .inr hunder

theorem beat_ends (h : Timely clock config s) (hunder : underWay s.books.1 ≠ [])
    {acts : List (Action R ι)} (hbeat : Beat env clock self s acts)
    (hok : Guarded (Session.step env self) (AbortsNone env self) s acts)
    (hbound : now clock (run (Session.step env self) s acts) < 2 ^ 32) :
    s.calls.length < (run (Session.step env self) s acts).calls.length := by
  obtain ⟨pause, calls, rfl, hpause, hcount⟩ := hbeat
  obtain ⟨hquiet, hcalls⟩ := hok.append
  rw [run_append] at hbound ⊢
  have hmiddle := timely_run hclock hretries h pause hquiet
    (Nat.lt_of_le_of_lt (now_run hclock self _ calls) hbound)
  obtain hgrown | hstays := underWay_run h.line hunder hquiet
  · exact Nat.lt_of_lt_of_le hgrown (calls_run hcalls)
  · obtain ⟨r, hr⟩ := List.exists_mem_of_ne_nil _ hunder
    have hbegun := h.begun r hr
    have hlimit : timeout s = config.transmissionTimeout.toNat :=
      congrArg (fun c => c.transmissionTimeout.toNat) h.configured
    refine Nat.lt_of_le_of_lt (calls_run hquiet) ?_
    exact ends hclock hretries hmiddle (hstays ▸ hr) (by omega) hcalls hbound hcount

theorem beats_answer (n : Nat) (h : Timely clock config s) {acts : List (Action R ι)}
    (hbeats : Beats env clock self (2 * n) s acts)
    (hok : Guarded (Session.step env self) (AbortsNone env self) s acts)
    (hbound : now clock (run (Session.step env self) s acts) < 2 ^ 32) :
    min s.accepted.length (s.calls.length + n) ≤
      (run (Session.step env self) s acts).calls.length := by
  induction n generalizing s acts with
  | zero => exact (Nat.min_le_right _ _).trans (calls_run hok)
  | succ n ih =>
      by_cases hline : line s.books.1 = []
      · have hall : s.accepted.length = s.calls.length := by
          rw [h.line.order, hline, List.append_nil]
          exact List.length_map _
        exact (Nat.min_le_left _ _).trans (hall ▸ calls_run hok)
      · cases hbeats with
        | @next _ _ first _ hfirst hrest =>
        cases hrest with
        | @next _ _ second more hsecond hmore =>
        obtain ⟨hok₁, hok₂⟩ := hok.append
        obtain ⟨hok₂, hok₃⟩ := hok₂.append
        rw [run_append, run_append] at hbound ⊢
        have hbound₂ := Nat.lt_of_le_of_lt (now_run hclock self _ more) hbound
        have hbound₁ := Nat.lt_of_le_of_lt (now_run hclock self _ second) hbound₂
        have h₁ := timely_run hclock hretries h first hok₁ hbound₁
        have h₂ := timely_run hclock hretries h₁ second hok₂ hbound₂
        have hlater := ih h₂ hmore hok₃ hbound
        have hgrown : s.calls.length < (run (Session.step env self)
            (run (Session.step env self) s first) second).calls.length := by
          obtain hgrown | hunder := beat_starts hclock hretries h hline hfirst hok₁ hbound₁
          · exact Nat.lt_of_lt_of_le hgrown (calls_run hok₂)
          · exact Nat.lt_of_le_of_lt (calls_run hok₁)
              (beat_ends hclock hretries h₁ hunder hsecond hok₂ hbound₂)
        have haccepted := ((accepted_run env self s first).trans (accepted_run env self _ second)).length_le
        omega

end

/-- Whatever the network does, and however busy the other state machines keep the connection: as
long as the clock goes on and the task is called, the next `n` requests of a synchronous machine that
sends one request at a time are answered, in their order, within `2 * n` beats. -/
theorem answered_in_beats (env : Env R W) (clock : W → Nat) (hclock : Clocked env clock) (self : ι)
    (config : TransmissionConfig) (hretries : 0 ≤ config.transmissionRetries)
    (response : ProtocolClientResponse) (completed : Option (ProtocolClientRequest R))
    (globals : Globals ι) (world : W) (before after : List (Action R ι))
    (h : Guarded (Session.step env self) (AbortsNone env self)
      (Session.start (protocolClientSmNew config 1 .synch response completed) globals world)
      (before ++ after))
    (hbound : now clock (run (Session.step env self)
      (Session.start (protocolClientSmNew config 1 .synch response completed) globals world)
      (before ++ after)) < 2 ^ 32) (n : Nat) :
    let s := run (Session.step env self)
      (Session.start (protocolClientSmNew config 1 .synch response completed) globals world) before
    Beats env clock self (2 * n) s after → s.accepted.take (s.calls.length + n) <+:
      answered (run (Session.step env self) s after).calls := by
  intro s hbeats
  obtain ⟨hbefore, hafter⟩ := h.append
  rw [run_append] at hbound
  have hstart : Timely clock config
      (Session.start (protocolClientSmNew config 1 .synch response completed) globals world) :=
    ⟨⟨.start config response completed, rfl⟩, rfl, SmState.noConfusion, fun _ => hretries,
      Nat.zero_le _, List.forall_mem_nil _, fun _ => List.forall_mem_nil _⟩
  have hs := timely_run hclock hretries hstart before hbefore
    (Nat.lt_of_le_of_lt (now_run hclock self _ after) hbound)
  have hend := timely_run hclock hretries hs after hafter hbound
  have hcount := beats_answer hclock hretries n hs hbeats hafter hbound
  have haccepted : s.accepted.take (s.calls.length + n) <+:
      (run (Session.step env self) s after).accepted :=
    (List.take_prefix _ _).trans (accepted_run env self s after)
  refine List.prefix_of_prefix_length_le haccepted ⟨_, hend.line.order.symm⟩ ?_
  rw [List.length_take]
  unfold answered
  rw [List.length_map]
  exact (Nat.min_comm _ _ ▸ hcount)

end

/-- The network takes a request and never answers; the clock stands still but for two leaps. -/
abbrev silence : Session Nat Unit Pace :=
  Session.start (protocolClientSmNew Script.config 1 .synch Script.noResponse none)
    ⟨none, 0, .reset, 0⟩ ⟨1000, [0, 4000, 0, 0, 0, 0, 0, 5000]⟩

def fourCalls : List (Sessions.Action Nat Unit) := [.task] ++ [.task, .task, .task]

theorem answered_in_beats_silence :
    let s := run (Session.step Pace.env ()) silence [.transmit .normal 1 1]
    s.accepted.take (s.calls.length + 1) <+:
      answered (run (Session.step Pace.env ()) s (fourCalls ++ (fourCalls ++ [.task]))).calls := by
  have h := answered_in_beats Pace.env Pace.time Pace.clocked () Script.config (by decide)
    Script.noResponse none ⟨none, 0, .reset, 0⟩ ⟨1000, [0, 4000, 0, 0, 0, 0, 0, 5000]⟩
    [.transmit .normal 1 1] (fourCalls ++ (fourCalls ++ [.task])) (by decide) (by decide) 1
  apply h
  apply Beats.next ⟨[.task], [.task, .task, .task], rfl, by decide, by decide⟩
  exact .next ⟨[.task], [.task, .task, .task], rfl, by decide, by decide⟩ (.none _ _)

end ErSdk.RequestProgress
