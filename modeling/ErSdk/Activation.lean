import ErSdk.ExositePhases

namespace ErSdk.Activation

open ProtocolClientSm Ledger SmMoves RequestArgs ExositeApi ExositeCalls ExositeBooks ExositeSteps
open ExositeRuns ExositePhases Runs Error

variable {E : Type}

/-- All requests that the state machines of the object hold, wherever they are. -/
def requests (d : Device E) : List (ProtocolClientRequest Request) :=
  d.machines.flatMap (fun item =>
    item.sm.transferQueue ++ (item.sm.activeRequest.toList ++ item.sm.sentRequestList))

theorem held_books (d : Device E) : (books d).held = (requests d).map asHanded := by
  unfold Books.held books requests
  rw [List.flatMap_map, List.map_flatMap]
  rfl

/-- An event that neither hands on a request nor calls back. -/
def Plain : Event → Prop
  | .handed _ _ | .called _ => False
  | _ => True

/-- The order of addresses on record: an activate request is newer than what was handed on
before it, and what is called behind it is not older. -/
def Before : Event → Event → Prop
  | .handed _ q, .handed _ r => method r = .activate → q.addr < r.addr
  | .handed _ r, .called q => method r = .activate → r.addr ≤ q.addr
  | _, _ => True

theorem before_of_plain {e' : Event} (h : Plain e') (e : Event) : Before e e' := by
  cases e' with
  | handed | called => exact h.elim
  | created | unfinished | sent | released | accepted | setCik | told => cases e <;> trivial

structure Aged (b : Books) : Prop where
  fresh : ∀ sm r, Event.handed sm r ∈ b.log → r.addr < b.heap
  newer : ∀ sm r, Event.handed sm r ∈ b.log → method r = .activate → ∀ q ∈ b.held, r.addr ≤ q.addr
  order : b.log.Pairwise Before

theorem pairwise_plain {log events : List Event} (h : log.Pairwise Before)
    (he : ∀ e ∈ events, Plain e) : (log ++ events).Pairwise Before := by
  refine List.pairwise_append.mpr ⟨h, ?_, fun e _ e' he' => before_of_plain (he e' he') e⟩
  exact List.pairwise_of_forall_mem_list (fun e _ e' he' => before_of_plain (he e' he') e)

theorem mem_handed_plain {log events : List Event} (he : ∀ e ∈ events, Plain e) {sm : SmType}
    {r : ProtocolClientRequest Request} (hm : Event.handed sm r ∈ log ++ events) : Event.handed sm r ∈ log := by
  obtain hm | hm := List.mem_append.mp hm
  · exact hm
  · exact (he _ hm).elim

theorem Aged.shrink {b b' : Books} (h : Aged b) {events : List Event} (he : ∀ e ∈ events, Plain e)
    (hl : b'.log = b.log ++ events) (hheap : b.heap ≤ b'.heap)
    (hsub : ∀ r ∈ b'.held, r ∈ b.held) : Aged b' where
  fresh sm r hm := Nat.lt_of_lt_of_le (h.fresh sm r (mem_handed_plain he (hl ▸ hm))) hheap
  newer sm r hm ha q hq := h.newer sm r (mem_handed_plain he (hl ▸ hm)) ha q (hsub q hq)
  order := hl ▸ pairwise_plain h.order he

theorem plain_singleton {e : Event} (h : Plain e) : ∀ e' ∈ [e], Plain e' :=
  fun _ he => List.mem_singleton.mp he ▸ h

theorem users_plain {limit : Nat} {x y : Account} (h : UserChanges limit x y) :
    ∃ events, y.log = x.log ++ events ∧ ∀ e ∈ events, Plain e := by
  have hnext {log : List Event} (e : Event) (he : Plain e)
      (ih : ∃ events, log = x.log ++ events ∧ ∀ e ∈ events, Plain e) :
      ∃ events, log ++ [e] = x.log ++ events ∧ ∀ e ∈ events, Plain e := by
    obtain ⟨events, hl, hp⟩ := ih
    refine ⟨events ++ [e], by rw [hl, List.append_assoc], fun e' he' => ?_⟩
    obtain he' | he' := List.mem_append.mp he'
    · exact hp e' he'
    · exact plain_singleton he e' he'
  induction h with
  | refl => exact ⟨[], (List.append_nil _).symm, List.forall_mem_nil _⟩
  | tail _ hc ih =>
      cases hc with
      | told => exact hnext _ trivial ih
      | queued => exact hnext _ trivial ih
      | subscribed => exact ih

theorem answered_plain {limit : Nat} {args : ExoRequestArgs} {status : Int} {x y : Account}
    (h : Answered limit args status x y) :
    ∃ events, y.log = x.log ++ events ∧ ∀ e ∈ events, Plain e := by
  cases h with
  | data _ hu => exact users_plain hu
  | subscribe _ hk hu =>
      obtain ⟨events, hl, hp⟩ := users_plain hu
      exact ⟨events, hl, hp⟩
  | accepted _ hv => exact ⟨_, rfl, plain_singleton trivial⟩
  | malformed | refused | timestamp => exact ⟨[], (List.append_nil _).symm, List.forall_mem_nil _⟩

theorem releases_plain (request : Request) (type : RequestType) :
    ∀ e ∈ releases request type, Plain e := by
  unfold releases
  split
  · exact List.forall_mem_nil _
  · exact plain_singleton trivial

section

variable {b b' : Books}

theorem Aged.works {api : Api E} {deletes : Prop} {ok : Completion Request → Prop} (hs : Sound b)
    (h : Aged b) (hw : Works api deletes ok b b') : Aged b' := by
  obtain ⟨hheap, hout⟩ := hw.outcome hs.nodup
  cases hout with
  | quiet hp hx =>
      exact h.shrink (List.forall_mem_nil _)
        ((congrArg Account.log hx).trans (List.append_nil _).symm) (Nat.le_of_eq hheap.symm)
        (fun r hr => hp.mem_iff.mp hr)
  | @sent r hr hp hx =>
      obtain hx | ⟨-, hx⟩ := hx
      · exact h.shrink (plain_singleton (e := .sent r.request.object) trivial) (congrArg Account.log hx)
          (Nat.le_of_eq hheap.symm) (fun r hr => hp.mem_iff.mp hr)
      · refine h.shrink (fun e he => ?_) (congrArg Account.log hx) (Nat.le_of_eq hheap.symm)
          (fun r hr => hp.mem_iff.mp hr)
        obtain rfl | he := List.mem_cons.mp he
        · exact trivial
        · exact plain_singleton (e := .released r.request.object) trivial e he
  | @completed c y hsel hok hr hp ha hx =>
      have hcalled : Aged ⟨b.machines, b.heap, b.account.record [.called c.request]⟩ := by
        refine ⟨fun sm r hm => ?_, fun sm r hm => ?_, ?_⟩
        · obtain hm | hm := List.mem_append.mp hm
          · exact h.fresh sm r hm
          · exact Event.noConfusion (List.mem_singleton.mp hm)
        · obtain hm | hm := List.mem_append.mp hm
          · exact h.newer sm r hm
          · exact Event.noConfusion (List.mem_singleton.mp hm)
        · refine List.pairwise_append.mpr ⟨h.order, List.pairwise_singleton _ _, fun e he e' he' => ?_⟩
          obtain rfl := List.mem_singleton.mp he'
          cases e with
          | handed sm r => exact fun hact => h.newer sm r he hact (asHanded c.request) hr
          | created | unfinished | sent | released | accepted | called | setCik | told => trivial
      obtain ⟨events, hylog, hplain⟩ := answered_plain ha
      refine hcalled.shrink
        (show ∀ e ∈ events ++ releases c.request.request c.request.type, Plain e from fun e he => ?_) ?_
        (Nat.le_of_eq hheap.symm)
        (fun r hr => hp.mem_iff.mpr (List.mem_append_right _ hr))
      · obtain he | he := List.mem_append.mp he
        · exact hplain e he
        · exact releases_plain _ _ e he
      · refine (congrArg Account.log hx).trans ?_
        show y.log ++ _ = _
        rw [hylog, List.append_assoc]
        rfl

theorem addr_requestFor (b : Books) (args : ExoRequestArgs) : (requestFor b args).addr = b.heap := by
  unfold requestFor
  dsimp only

theorem Aged.pushed {args : ExoRequestArgs} {error : Int} (h : Aged b) (hp : Pushed args b error b')
    (hnil : args.method = .activate → b.held = []) : Aged b' := by
  have htwo (n m : Nat) : ∀ e ∈ [Event.created n] ++ [Event.released m], Plain e := by
    intro e he
    obtain rfl | he := List.mem_cons.mp he
    · trivial
    · exact plain_singleton (e := .released m) trivial e he
  have hpush := Pushed.held hp
  cases hp with
  | kept he => exact h
  | unfinished he =>
      refine h.shrink (show ∀ e ∈ [Event.created b.account.objects, .unfinished b.account.objects], Plain e from
        fun e he => ?_) (List.append_assoc _ _ _) (Nat.le_refl _) (fun _ hr => hr)
      obtain rfl | he := List.mem_cons.mp he
      · trivial
      · exact plain_singleton (e := .unfinished _) trivial e he
  | refused n he =>
      exact h.shrink (htwo _ _) (List.append_assoc _ _ _) (Nat.le_add_right _ n) (fun _ hr => hr)
  | handed hm =>
      obtain ⟨-, ⟨he, -⟩ | ⟨-, hheld, hheap, hlog⟩⟩ := hpush
      · exact absurd rfl he
      · have haddr := addr_requestFor b args
        have hmethod := method_requestFor b args
        generalize requestFor b args = q at *
        generalize Books.withMachines _ _ = b' at *
        have hold (e) (he : e ∈ b'.log) : e ∈ b.log ∨ Plain e ∨
            e = .handed (route b.exo.protocolType args).sm q := by
          rw [hlog, List.append_assoc] at he
          obtain he | he := List.mem_append.mp he
          · exact .inl he
          · obtain rfl | he := List.mem_cons.mp he
            · exact .inr (.inl trivial)
            · exact .inr (.inr (List.mem_singleton.mp he))
        refine ⟨fun sm r hr => ?_, fun sm r hr hact p hp => ?_, ?_⟩
        · obtain hr | hr | hr := hold _ hr
          · rw [hheap]
            exact Nat.lt_succ_of_lt (h.fresh sm r hr)
          · exact hr.elim
          · obtain ⟨-, rfl⟩ := Event.handed.inj hr
            rw [hheap, haddr]
            exact Nat.lt_succ_self _
        · obtain hr | hr | hr := hold _ hr
          · obtain rfl | hp := List.mem_cons.mp (hheld.mem_iff.mp hp)
            · rw [haddr]
              exact Nat.le_of_lt (h.fresh sm r hr)
            · exact h.newer sm r hr hact p hp
          · exact hr.elim
          · obtain ⟨-, rfl⟩ := Event.handed.inj hr
            rw [hnil (hmethod ▸ hact)] at hheld
            obtain rfl := List.mem_singleton.mp (hheld.mem_iff.mp hp)
            exact Nat.le_refl _
        · rw [hlog]
          refine List.pairwise_append.mpr ⟨pairwise_plain h.order (plain_singleton trivial),
            List.pairwise_singleton _ _, fun e he e' he' => ?_⟩
          obtain rfl := List.mem_singleton.mp he'
          obtain he | he := List.mem_append.mp he
          · cases e with
            | handed sm r => exact fun _ => haddr ▸ h.fresh sm r he
            | created | unfinished | sent | released | accepted | called | setCik | told => trivial
          · obtain rfl := List.mem_singleton.mp he
            trivial

theorem Aged.obtained (h : Aged b) (ho : Obtained b b') : Aged b' := by
  obtain ⟨hheld, hheap, hlog⟩ := Obtained.held ho
  exact h.shrink (List.forall_mem_nil _) (hlog.trans (List.append_nil _).symm)
    (Nat.le_of_eq hheap.symm) (fun _ hr => hheld ▸ hr)

theorem Aged.frame (h : Aged b) (hheld : b'.held = b.held) (hlog : b'.log = b.log)
    (hheap : b'.heap = b.heap) : Aged b' :=
  h.shrink (List.forall_mem_nil _) (hlog.trans (List.append_nil _).symm)
    (Nat.le_of_eq hheap.symm) (fun _ hr => hheld ▸ hr)

theorem Aged.send (hs : Sound b) (h : Aged b) (hsend : Send b b') : Aged b' := by
  cases hsend with
  | @subscribe b₁ b₂ key item error hi hn ho hp =>
      have hm := (hs.tidy.items _ hi).method
      have hpushed := (h.obtained ho).pushed hp (fun hact => absurd (hm.symm.trans hact) nofun)
      split
      · exact hpushed.frame rfl rfl rfl
      · exact hpushed
  | @queued b₁ b₂ args rest error hq ho hp =>
      have hm := hs.tidy.queue args (hq ▸ List.mem_cons_self)
      have hpushed := (h.obtained ho).pushed hp (fun hact => by
        obtain hm | hm := hm <;> exact absurd (hm.symm.trans hact) nofun)
      split
      · exact hpushed.frame rfl rfl rfl
      · exact hpushed

theorem Aged.sends (hs : Sound b) (h : Aged b) (hsends : Sends b b') : Aged b' := by
  induction hsends with
  | refl => exact h
  | tail hrest hsend ih => exact ih.send (hs.sends hrest) hsend

theorem Aged.activates (hs : Sound b) (hphase : Phase b) (h : Aged b) (ha : Activates b b') :
    Aged b' := by
  have he : Aged b.enter := h.frame rfl rfl rfl
  cases ha with
  | @asks b₁ b₂ args next error hask ho hp =>
      have hbare : b.held = [] := Asks.held hphase hask
      have hpushed := (he.obtained ho).pushed hp (fun _ => (Obtained.held ho).1.trans hbare)
      split
      · exact hpushed.frame rfl rfl rfl
      · exact hpushed
  | waits | loads | delays | reactivates => exact he.frame rfl rfl rfl
  | clears => exact he.frame (held_clear b) rfl rfl
  | sends hw hsends => exact he.sends hs.enter hsends

end

theorem preserved_aged (api : Api E) : Preserved api True (fun _ => True)
    (fun b => Phase b ∧ Aged b) where
  works hs h hw := ⟨h.1.works hs hw, h.2.works hs hw⟩
  activates hs h ha := ⟨h.1.activates hs ha, h.2.activates hs h.1 ha⟩
  user _ h hu := by
    obtain ⟨events, hl, hp⟩ := users_plain (.single hu)
    exact ⟨h.1.user hu, h.2.shrink hp hl (Nat.le_refl _) (fun _ hr => hr)⟩
  allocate n h := ⟨h.1.frame rfl (.refl _) rfl id,
    h.2.shrink (List.forall_mem_nil _) (List.append_nil _).symm (Nat.le_add_right _ n)
      (fun _ hr => hr)⟩

/-- An activate request that is made and handed to a state machine. -/
def activation : Event → Option (ProtocolClientRequest Request)
  | .handed _ r => if method r = .activate then some r else none
  | _ => none

def activations (log : List Event) : List (ProtocolClientRequest Request) := log.filterMap activation

theorem activations_append {log events : List Event} (h : ∀ e ∈ events, activation e = none) :
    activations (log ++ events) = activations log := by
  unfold activations
  rw [List.filterMap_append, List.filterMap_eq_nil_iff.mpr h, List.append_nil]

theorem activation_plain {e : Event} (h : Plain e) : activation e = none := by
  cases e with
  | handed | called => exact h.elim
  | created | unfinished | sent | released | accepted | setCik | told => rfl

theorem activations_plain {log events : List Event} (h : ∀ e ∈ events, Plain e) :
    activations (log ++ events) = activations log :=
  activations_append (fun e he => activation_plain (h e he))

section

variable {b b' : Books}

theorem works_activations {api : Api E} {deletes : Prop} {ok : Completion Request → Prop}
    (hs : Sound b) (hw : Works api deletes ok b b') : activations b'.log = activations b.log := by
  obtain ⟨-, hout⟩ := hw.outcome hs.nodup
  unfold Books.log
  cases hout with
  | quiet hp hx => rw [hx]
  | sent hr hp hx =>
      obtain hx | ⟨-, hx⟩ := hx
      · rw [hx]
        exact activations_append (fun e he => List.mem_singleton.mp he ▸ rfl)
      · rw [hx]
        refine activations_append (fun e he => ?_)
        obtain rfl | he := List.mem_cons.mp he
        · rfl
        · exact List.mem_singleton.mp he ▸ rfl
  | @completed c y hsel hok hr hp ha hx =>
      obtain ⟨events, hylog, hplain⟩ := answered_plain ha
      rw [hx]
      refine (activations_plain (releases_plain _ _)).trans ?_
      rw [hylog]
      refine (activations_plain hplain).trans ?_
      exact activations_append (fun e he => List.mem_singleton.mp he ▸ rfl)

theorem pushed_activations {args : ExoRequestArgs} {error : Int} (hm : args.method ≠ .activate)
    (hp : Pushed args b error b') : activations b'.log = activations b.log := by
  have htwo (n : Nat) (e : Event) (he : activation e = none) :
      activations (b.log ++ [.created n] ++ [e]) = activations b.log :=
    (activations_append (fun e' he' => List.mem_singleton.mp he' ▸ he)).trans
      (activations_append (fun e' he' => List.mem_singleton.mp he' ▸ rfl))
  cases hp with
  | kept he => rfl
  | unfinished he => exact htwo _ (.unfinished _) rfl
  | refused n he => exact htwo _ (.released _) rfl
  | handed hmach =>
      refine htwo _ (.handed _ (requestFor b args)) ?_
      exact if_neg (method_requestFor b args ▸ hm)

theorem send_activations (hs : Sound b) (hsend : Send b b') :
    activations b'.log = activations b.log := by
  cases hsend with
  | @subscribe b₁ b₂ key item error hi hn ho hp =>
      have hm := (hs.tidy.items _ hi).method
      have hpushed := pushed_activations (by rw [hm]; decide) hp
      rw [(Obtained.held ho).2.2] at hpushed
      split <;> exact hpushed
  | @queued b₁ b₂ args rest error hq ho hp =>
      have hm := hs.tidy.queue args (hq ▸ List.mem_cons_self)
      have hpushed := pushed_activations (by obtain hm | hm := hm <;> rw [hm] <;> decide) hp
      rw [(Obtained.held ho).2.2] at hpushed
      split <;> exact hpushed

theorem sends_activations (hs : Sound b) (hsends : Sends b b') :
    activations b'.log = activations b.log := by
  induction hsends with
  | refl => rfl
  | tail hrest hsend ih => exact (send_activations (hs.sends hrest) hsend).trans ih

theorem activates_activations (hs : Sound b) (hphase : Phase b) (ha : Activates b b') :
    activations b'.log = activations b.log ∨ b.exo.nextState = .sendActivate ∧ b.held = [] := by
  cases ha with
  | @asks b₁ b₂ args next error hask ho hp =>
      have hbare : b.held = [] := Asks.held hphase hask
      cases hask with
      | timestamp hw hm hc =>
          have hpushed := pushed_activations (by rw [hm]; decide) hp
          rw [(Obtained.held ho).2.2] at hpushed
          refine .inl ?_
          split <;> exact hpushed
      | activate hw hb hm hc => exact .inr ⟨hw, hbare⟩
  | waits | loads | delays | clears | reactivates => exact .inl rfl
  | sends hw hsends => exact .inl (sends_activations (b := b.enter) hs.enter hsends)

end

theorem step_activations (api : Api E) {d : Device E} (hs : Sound (books d)) (h : Phase (books d))
    (a : Action E) (hne : activations (step api d a).world.log ≠ activations d.world.log) :
    a = .activateSm ∧ d.world.exo.nextState = .sendActivate ∧ requests d = [] := by
  cases a with
  | activateSm =>
      refine ⟨rfl, ?_⟩
      rw [show step api d .activateSm = (activateSm api d).getD d from rfl] at hne
      cases hd : activateSm api d with
      | none =>
          rw [hd] at hne
          exact absurd rfl hne
      | some d' =>
          rw [hd] at hne
          have hact := activateSm_activates api hs.tidy.keys hd
          obtain hl | ⟨hn, hheld⟩ := activates_activations hs h hact
          · exact absurd hl hne
          · exact ⟨hn, List.map_eq_nil_iff.mp ((held_books d).symm.trans hheld)⟩
  | task i =>
      refine absurd ?_ hne
      cases hi : d.machines[i]? with
      | none => rw [step_no_task hi]
      | some item =>
          exact (task_invariant (I := fun b => activations b.log = activations d.world.log)
            (fun hs h (hw : Works api True (fun _ => True) _ _) => (works_activations hs hw).trans h) hi
            (fun _ _ => trivial) (.inl trivial) ⟨hs, rfl⟩).2
  | user c =>
      refine absurd ?_ hne
      obtain ⟨events, hl, hp⟩ := users_plain (userCall_changes api d.world c)
      exact (congrArg activations hl).trans (activations_plain hp)
  | interfere connectingSm startTime nextState allocated messageId f => exact absurd rfl hne

/-- When activate_sm makes the activate request, no state machine of the object holds
anything; until it is called back, the activate request is the only one held; and no
request from before it is ever called back behind it. -/
theorem activation_alone (api : Api E) (protocolType : AppType) (vendor model sn : List UInt8)
    (globals : Globals Nat) (messageId : Int) (objects : Nat) (ext : E) (acts : List (Action E)) :
    let d := run (step api)
      (exositeNew api protocolType vendor model sn globals messageId objects ext) acts
    (∀ a, activations (step api d a).world.log ≠ activations d.world.log →
        a = .activateSm ∧ d.world.exo.nextState = .sendActivate ∧ requests d = []) ∧
      (∀ r, awaiting d.world.log = some r → ∃ q, requests d = [q] ∧ asHanded q = r) ∧
      ∀ before sm r behind, d.world.log = before ++ .handed sm r :: behind →
        method r = .activate → ∀ q, Event.called q ∈ behind → ∀ sm' p, Event.handed sm' p ∈ before →
          p.addr ≠ q.addr := by
  intro d
  have hstart : Sound (books (exositeNew api protocolType vendor model sn globals messageId objects ext)) ∧
      Phase (books (exositeNew api protocolType vendor model sn globals messageId objects ext)) ∧
      Aged (books (exositeNew api protocolType vendor model sn globals messageId objects ext)) :=
    ⟨sound_exositeNew protocolType vendor model sn globals messageId objects ext,
      phase_exositeNew api protocolType vendor model sn globals messageId objects ext,
      fun _ _ h => absurd h List.not_mem_nil, fun _ _ h => absurd h List.not_mem_nil, .nil⟩
  obtain ⟨hs, hphase, haged⟩ := (preserved_aged api).always acts hstart
  refine ⟨step_activations api hs hphase, fun r hr => ?_, ?_⟩
  · have hnext : (books d).exo.nextState = .waitActivate := by
      by_contra hn
      exact absurd ((hphase.idle hn).symm.trans hr) nofun
    have hheld := hphase.held
    rw [hnext] at hheld
    obtain ⟨p, hp, -, hawait⟩ := hheld
    obtain rfl : p = r := Option.some.inj (hawait.symm.trans hr)
    rw [held_books] at hp
    obtain ⟨q, hq, he⟩ := List.map_eq_singleton_iff.mp hp
    exact ⟨q, hq, he⟩
  · intro before sm r behind hlog hm q hq sm' p hp he
    have horder : (before ++ .handed sm r :: behind).Pairwise Before := hlog ▸ haged.order
    obtain ⟨-, hbehind, hcross⟩ := List.pairwise_append.mp horder
    have hnewer : p.addr < r.addr := hcross _ hp _ List.mem_cons_self hm
    have hcalled : r.addr ≤ q.addr := (List.pairwise_cons.mp hbehind).1 _ hq hm
    omega

end ErSdk.Activation
