import ErSdk.ExositePhases

namespace ErSdk.CikSafety

open ProtocolClientSm Ledger RequestArgs ExositeApi ExositeCalls ExositeBooks ExositeSteps ExositeRuns
open ExositePhases Runs Error

variable {E : Type}

/-- A request for data carries a valid CIK, and only a valid CIK is given to the system. -/
def Carries : Event → Prop
  | .handed _ r => IsData r → ValidCik r.request.args.cik
  | .setCik cik => ValidCik cik
  | _ => True

structure Valid (b : Books) : Prop where
  activated : b.exo.activateState = some .activated → ValidCik b.exo.cik
  next : b.exo.nextState = .activated → ValidCik b.exo.cik
  waiting : b.exo.nextState = .waitActivate → b.exo.activateState ≠ some .activated
  events : ∀ e ∈ b.log, Carries e

theorem carries_singleton {e : Event} (h : Carries e) : ∀ e' ∈ [e], Carries e' :=
  fun _ he => List.mem_singleton.mp he ▸ h

theorem carries_append {log events : List Event} (h : ∀ e ∈ log, Carries e)
    (he : ∀ e ∈ events, Carries e) : ∀ e ∈ log ++ events, Carries e :=
  fun e hm => (List.mem_append.mp hm).elim (h e) (he e)

theorem users_carry {limit : Nat} {x y : Account} (h : UserChanges limit x y)
    (hx : ∀ e ∈ x.log, Carries e) : ∀ e ∈ y.log, Carries e := by
  induction h with
  | refl => exact hx
  | tail _ hc ih =>
      cases hc with
      | told => exact carries_append ih (carries_singleton trivial)
      | queued => exact carries_append ih (carries_singleton trivial)
      | subscribed => exact ih

theorem releases_carry (request : Request) (type : RequestType) :
    ∀ e ∈ releases request type, Carries e := by
  unfold releases
  split
  · exact List.forall_mem_nil _
  · exact carries_singleton trivial

/-- What an answer does to the CIK and the activation: only an activation sets the CIK, and
only a valid one leads to the state activated. -/
structure Sets (args : ExoRequestArgs) (exo exo' : ExositeClass) : Prop where
  state : exo'.activateState = exo.activateState
  cik : exo'.cik = exo.cik ∨ args.method = .activate
  activated : exo'.nextState = .activated →
    ValidCik exo'.cik ∨ exo.nextState = .activated ∧ exo'.cik = exo.cik
  waiting : exo'.nextState = .waitActivate → exo.nextState = .waitActivate

theorem answered_sets {limit : Nat} {args : ExoRequestArgs} {status : Int} {x y : Account}
    (h : Answered limit args status x y) (hx : ∀ e ∈ x.log, Carries e) :
    Sets args x.exo y.exo ∧ ∀ e ∈ y.log, Carries e := by
  have hsame {exo exo' : ExositeClass} (h : SameState exo exo') : Sets args exo exo' :=
    ⟨h.state, .inl h.cik, fun ha => .inr ⟨h.next ▸ ha, h.cik⟩, fun hw => h.next ▸ hw⟩
  cases h with
  | data hm hu => exact ⟨hsame (users_frame hu).1, users_carry hu hx⟩
  | subscribe hm hk hu =>
      obtain ⟨hn, hs, hc⟩ := (users_frame hu).1
      have hy := users_carry hu hx
      exact ⟨hsame ⟨hn, hs, hc⟩, hy⟩
  | accepted hm hv =>
      exact ⟨⟨rfl, .inr hm, fun _ => .inl hv, nofun⟩,
        carries_append hx (carries_singleton (e := .setCik _) hv)⟩
  | malformed cik hm => exact ⟨⟨rfl, .inr hm, nofun, nofun⟩, hx⟩
  | refused hm => exact ⟨⟨rfl, .inl rfl, nofun, nofun⟩, hx⟩
  | @timestamp next hm hn =>
      refine ⟨⟨rfl, .inl rfl, fun ha => ?_, fun hw => ?_⟩, hx⟩
      · obtain rfl | rfl := hn <;> exact absurd ha nofun
      · obtain rfl | rfl := hn <;> exact absurd hw nofun

section

variable {b b' : Books}

theorem Valid.works {api : Api E} {deletes : Prop} {ok : Completion Request → Prop} (hs : Sound b)
    (hphase : Phase b) (h : Valid b) (hw : Works api deletes ok b b') : Valid b' := by
  obtain ⟨-, hout⟩ := hw.outcome hs.nodup
  have hsame (hexo : b'.exo = b.exo) (he : ∀ e ∈ b'.log, Carries e) : Valid b' :=
    ⟨hexo ▸ h.activated, hexo ▸ h.next, hexo ▸ h.waiting, he⟩
  cases hout with
  | quiet hp hx =>
      refine hsame (congrArg Account.exo hx) ?_
      unfold Books.log
      rw [hx]
      exact h.events
  | @sent r hr hp hx =>
      obtain hx | ⟨-, hx⟩ := hx
      · refine hsame ((congrArg Account.exo hx).trans rfl) ?_
        unfold Books.log
        rw [hx]
        exact carries_append h.events (carries_singleton trivial)
      · refine hsame ((congrArg Account.exo hx).trans rfl) ?_
        unfold Books.log
        rw [hx]
        refine carries_append h.events (fun e he => ?_)
        obtain rfl | he := List.mem_cons.mp he
        · trivial
        · exact carries_singleton (e := .released r.request.object) trivial e he
  | @completed c y hsel hok hr hp ha hx =>
      have hflag := flagged_sameState (statusOf api c.request c.response) b.exo
      obtain ⟨hsets, hevents⟩ := answered_sets ha
        (carries_append h.events (carries_singleton (e := .called c.request) trivial))
      have hexo : b'.exo = y.exo := (congrArg Account.exo hx).trans rfl
      have hstate : y.exo.activateState = b.exo.activateState := hsets.state.trans hflag.state
      refine ⟨fun hact => ?_, fun hnext => ?_, fun hwait => ?_, ?_⟩
      · rw [hexo] at hact ⊢
        rw [hstate] at hact
        obtain hc | hm := hsets.cik
        · rw [hc]
          exact hflag.cik ▸ h.activated hact
        · -- the request of the activation is only held while the state waits for it
          obtain ⟨hm', -⟩ | ⟨-, hw', -⟩ | ⟨hm', -⟩ := hphase.kinds hr
          · exact absurd (show _ = _ from hm'.symm.trans hm) nofun
          · exact absurd hact (h.waiting hw')
          · obtain hm' | hm' | hm' := hm' <;> exact absurd (show _ = _ from hm'.symm.trans hm) nofun
      · rw [hexo] at hnext ⊢
        obtain hv | ⟨hn, hc⟩ := hsets.activated hnext
        · exact hv
        · rw [hc]
          exact hflag.cik ▸ h.next (hflag.next ▸ hn)
      · rw [hexo] at hwait ⊢
        rw [hstate]
        exact h.waiting (hflag.next ▸ hsets.waiting hwait)
      · unfold Books.log
        rw [hx]
        exact carries_append hevents (releases_carry _ _)

theorem cik_requestFor (b : Books) (args : ExoRequestArgs) :
    (requestFor b args).request.args.cik = copyCik b.exo.cik.toList := by
  unfold requestFor
  dsimp only

theorem Valid.pushed {args : ExoRequestArgs} {error : Int} (h : Valid b)
    (hv : args.method = .activate ∨ args.method = .timestamp ∨ ValidCik b.exo.cik)
    (hp : Pushed args b error b') : Valid b' := by
  have hexo := Pushed.exo hp
  refine ⟨hexo ▸ h.activated, hexo ▸ h.next, hexo ▸ h.waiting, ?_⟩
  have htwo (n : Nat) (e : Event) (he : Carries e) : ∀ e' ∈ b.log ++ [.created n] ++ [e], Carries e' :=
    carries_append (carries_append h.events (carries_singleton trivial)) (carries_singleton he)
  cases hp with
  | kept he => exact h.events
  | unfinished he => exact htwo _ (.unfinished _) trivial
  | refused n he => exact htwo _ (.released _) trivial
  | handed hm =>
      refine htwo _ (.handed _ (requestFor b args)) (fun hdata => ?_)
      rw [cik_requestFor]
      unfold IsData at hdata
      rw [method_requestFor] at hdata
      obtain hv | hv | hv := hv
      · rw [hv] at hdata
        obtain hdata | hdata | hdata := hdata <;> exact absurd hdata nofun
      · rw [hv] at hdata
        obtain hdata | hdata | hdata := hdata <;> exact absurd hdata nofun
      · exact hv.copy

theorem Valid.frame (h : Valid b) (hsame : SameState b.exo b'.exo) (hlog : b'.log = b.log) :
    Valid b' := by
  refine ⟨fun ha => ?_, fun hn => ?_, fun hw => ?_, hlog ▸ h.events⟩
  · rw [hsame.cik]
    exact h.activated (hsame.state ▸ ha)
  · rw [hsame.cik]
    exact h.next (hsame.next ▸ hn)
  · rw [hsame.state]
    exact h.waiting (hsame.next ▸ hw)

theorem Valid.obtained (h : Valid b) (ho : Obtained b b') : Valid b' := by
  obtain ⟨n, hexo⟩ := Obtained.exo ho
  refine h.frame ?_ (Obtained.held ho).2.2
  rw [hexo]
  exact ⟨rfl, rfl, rfl⟩

/-- activate_sm first enters the state that was set for it. -/
theorem Valid.enter (h : Valid b) : Valid b.enter where
  activated ha := h.next (Option.some.inj ha)
  next := h.next
  waiting hw ha := absurd (hw.symm.trans (Option.some.inj ha)) nofun
  events := h.events

theorem Valid.send (h : Valid b) (hnext : b.exo.nextState = .activated) (hsend : Send b b') :
    Valid b' ∧ b'.exo.nextState = .activated := by
  have hpushed {args : ExoRequestArgs} {b₁ b₂ : Books} {error : Int} (ho : Obtained b b₁)
      (hp : Pushed args b₁ error b₂) : Valid b₂ ∧ b₂.exo.nextState = .activated := by
    have h₁ := h.obtained ho
    obtain ⟨n, hexo⟩ := Obtained.exo ho
    have hn : b₁.exo.nextState = .activated := by
      rw [hexo]
      exact hnext
    exact ⟨h₁.pushed (.inr (.inr (h₁.next hn))) hp, by rw [Pushed.exo hp]; exact hn⟩
  cases hsend with
  | subscribe hi hs ho hp =>
      obtain ⟨hv, hn⟩ := hpushed ho hp
      split
      · exact ⟨hv.frame ⟨rfl, rfl, rfl⟩ rfl, hn⟩
      · exact ⟨hv, hn⟩
  | queued hq ho hp =>
      obtain ⟨hv, hn⟩ := hpushed ho hp
      split
      · exact ⟨hv.frame ⟨rfl, rfl, rfl⟩ rfl, hn⟩
      · exact ⟨hv, hn⟩

theorem Valid.sends (h : Valid b) (hnext : b.exo.nextState = .activated) (hsends : Sends b b') :
    Valid b' ∧ b'.exo.nextState = .activated := by
  induction hsends with
  | refl => exact ⟨h, hnext⟩
  | tail _ hsend ih => exact ih.1.send ih.2 hsend

theorem Valid.activates (h : Valid b) (ha : Activates b b') : Valid b' := by
  have he := h.enter
  cases ha with
  | waits hw => exact he
  | @asks b₁ b₂ args next error hask ho hp =>
      have hm : args.method = .activate ∨ args.method = .timestamp ∨ ValidCik b₁.exo.cik := by
        cases hask with
        | timestamp _ hm _ => exact .inr (.inl hm)
        | activate _ _ hm _ => exact .inl hm
      have hpushed := (he.obtained ho).pushed hm hp
      split
      · obtain ⟨n, hexo⟩ := Obtained.exo ho
        have hentered : b₂.exo.activateState = some b.exo.nextState := by
          rw [Pushed.exo hp, hexo]
          rfl
        have hnot : b₂.exo.activateState ≠ some .activated := by
          rw [hentered]
          cases hask with
          | timestamp hw _ _ => rw [hw]; decide
          | activate hw _ _ _ => rw [hw]; decide
        have hnext : next ≠ .activated := by cases hask <;> decide
        exact ⟨fun ha => absurd ha hnot, fun hn => absurd hn hnext, fun _ => hnot, hpushed.events⟩
      · exact hpushed
  | @loads next cik hw hn =>
      have hnot : some b.exo.nextState ≠ some .activated := by
        obtain hw | hw := hw <;> rw [hw] <;> decide
      refine ⟨fun ha => absurd ha hnot, fun ha => ?_, fun _ => hnot, h.events⟩
      obtain ⟨-, hv⟩ | rfl | rfl := hn
      · exact hv
      · exact absurd ha nofun
      · exact absurd ha nofun
  | delays time requests attempts hw => exact he.frame ⟨rfl, rfl, rfl⟩ rfl
  | clears time requests attempts hw => exact ⟨he.activated, nofun, nofun, he.events⟩
  | reactivates hw => exact ⟨he.activated, nofun, nofun, he.events⟩
  | sends hw hsends => exact (he.sends hw hsends).1

end

theorem preserved_valid (api : Api E) : Preserved api True (fun _ => True)
    (fun b => Phase b ∧ Valid b) where
  works hs h hw := ⟨h.1.works hs hw, h.2.works hs h.1 hw⟩
  activates hs h ha := ⟨h.1.activates hs ha, h.2.activates ha⟩
  user _ h hu := by
    obtain ⟨hphase, ha, hn, hw, he⟩ := h
    obtain ⟨hnext, hstate, hcik⟩ := (users_frame (.single hu)).1
    refine ⟨hphase.user hu, fun h => ?_, fun h => ?_, fun h => ?_, users_carry (.single hu) he⟩
    · exact hcik ▸ ha (hstate ▸ h)
    · exact hcik ▸ hn (hnext ▸ h)
    · exact hstate ▸ hw (hnext ▸ h)
  allocate _ h := ⟨h.1.frame rfl (.refl _) rfl id, h.2.frame ⟨rfl, rfl, rfl⟩ rfl⟩

/-- In every state of every run an activated object has a valid CIK, every read, write and
subscribe request that was handed to a state machine carries one, and system_set_cik was
only called with one. -/
theorem activated_cik_valid (api : Api E) (protocolType : AppType) (vendor model sn : List UInt8)
    (globals : Globals Nat) (messageId : Int) (objects : Nat) (ext : E) (acts : List (Action E)) :
    let d := run (step api)
      (exositeNew api protocolType vendor model sn globals messageId objects ext) acts
    (d.world.exo.activateState = some .activated → ValidCik d.world.exo.cik) ∧
      (∀ sm r, Event.handed sm r ∈ d.world.log → IsData r → ValidCik r.request.args.cik) ∧
      ∀ cik, Event.setCik cik ∈ d.world.log → ValidCik cik := by
  intro d
  have hstart : Sound (books (exositeNew api protocolType vendor model sn globals messageId objects ext)) ∧
      Phase (books (exositeNew api protocolType vendor model sn globals messageId objects ext)) ∧
      Valid (books (exositeNew api protocolType vendor model sn globals messageId objects ext)) :=
    ⟨sound_exositeNew protocolType vendor model sn globals messageId objects ext,
      phase_exositeNew api protocolType vendor model sn globals messageId objects ext,
      nofun, nofun, nofun, List.forall_mem_nil _⟩
  obtain ⟨-, -, hvalid⟩ := (preserved_valid api).always acts hstart
  exact ⟨hvalid.activated, fun sm r hm => hvalid.events _ hm, fun cik hm => hvalid.events _ hm⟩

end ErSdk.CikSafety
