import ErSdk.ExositeRuns

namespace ErSdk.ExositePhases

open ProtocolClientSm Ledger RequestArgs ExositeApi ExositeCalls ExositeBooks ExositeSteps ExositeRuns
open Error

variable {E : Type}

def method (r : ProtocolClientRequest Request) : Method := r.request.args.method

def IsData (r : ProtocolClientRequest Request) : Prop :=
  method r = .read ∨ method r = .write ∨ method r = .subscribe

/-- The activate request that was handed to a state machine last, until its callback is called. -/
def await (waiting : Option (ProtocolClientRequest Request)) : Event →
    Option (ProtocolClientRequest Request)
  | .handed _ r => if method r = .activate then some r else waiting
  | .called r => if method r = .activate then none else waiting
  | _ => waiting

def awaiting (log : List Event) : Option (ProtocolClientRequest Request) := log.foldl await none

theorem awaiting_append (log events : List Event) :
    awaiting (log ++ events) = events.foldl await (awaiting log) := List.foldl_append

def Aside (e : Event) : Prop := ∀ waiting, await waiting e = waiting

theorem awaiting_aside {log events : List Event} (h : ∀ e ∈ events, Aside e) :
    awaiting (log ++ events) = awaiting log := by
  rw [awaiting_append]
  generalize awaiting log = waiting
  induction events with
  | nil => rfl
  | cons e events ih =>
      rw [List.foldl_cons, h e List.mem_cons_self]
      exact ih (fun e' he => h e' (List.mem_cons_of_mem _ he))

/-- What the state machines hold in each state that activate_sm can be in next. -/
def HeldIn (b : Books) : ActivateState → Prop
  | .sendGetTimestamp | .init | .start => b.held = []
  | .waitTimestamp => ∃ r, b.held = [r] ∧ method r = .timestamp
  | .prepareActivate | .activated => ∀ r ∈ b.held, IsData r
  | .sendActivate =>
      (∀ r ∈ b.held, IsData r) ∧ ∀ h ∈ b.machines, h.aborting = true ∨ stock h = []
  | .waitActivate => ∃ r, b.held = [r] ∧ method r = .activate ∧ awaiting b.log = some r

structure Phase (b : Books) : Prop where
  held : HeldIn b b.exo.nextState
  idle : b.exo.nextState ≠ .waitActivate → awaiting b.log = none

structure SameState (exo exo' : ExositeClass) : Prop where
  next : exo'.nextState = exo.nextState
  state : exo'.activateState = exo.activateState
  cik : exo'.cik = exo.cik

theorem users_frame {limit : Nat} {x y : Account} (h : UserChanges limit x y) :
    SameState x.exo y.exo ∧ awaiting y.log = awaiting x.log := by
  induction h with
  | refl => exact ⟨⟨rfl, rfl, rfl⟩, rfl⟩
  | tail _ hc ih =>
      obtain ⟨⟨hn, hs, hk⟩, hlog⟩ := ih
      cases hc with
      | told | queued => exact ⟨⟨hn, hs, hk⟩, (awaiting_append _ _).trans hlog⟩
      | subscribed => exact ⟨⟨hn, hs, hk⟩, hlog⟩

theorem releases_aside (request : Request) (type : RequestType) :
    ∀ e ∈ releases request type, Aside e := by
  intro e he
  unfold releases at he
  split at he
  · exact absurd he List.not_mem_nil
  · exact List.mem_singleton.mp he ▸ fun _ => rfl

theorem answered_data {limit : Nat} {args : ExoRequestArgs} {status : Int} {x y : Account}
    (h : Answered limit args status x y)
    (hm : args.method = .read ∨ args.method = .write ∨ args.method = .subscribe) :
    SameState x.exo y.exo ∧ awaiting y.log = awaiting x.log := by
  cases h with
  | data _ hu => exact users_frame hu
  | subscribe _ hk hu =>
      obtain ⟨⟨hn, hs, hc⟩, hlog⟩ := users_frame hu
      exact ⟨⟨hn, hs, hc⟩, hlog⟩
  | accepted h | malformed _ h | refused h | timestamp h =>
      rw [h] at hm
      obtain hm | hm | hm := hm <;> exact absurd hm nofun

theorem answered_timestamp {limit : Nat} {args : ExoRequestArgs} {status : Int} {x y : Account}
    (h : Answered limit args status x y) (hm : args.method = .timestamp) :
    (y.exo.nextState = .init ∨ y.exo.nextState = .sendGetTimestamp) ∧ y.log = x.log := by
  cases h with
  | timestamp _ hn => exact ⟨hn, rfl⟩
  | data h => rw [hm] at h; obtain h | h := h <;> exact absurd h nofun
  | subscribe h | accepted h | malformed _ h | refused h => rw [hm] at h; exact absurd h nofun

theorem answered_activate {limit : Nat} {args : ExoRequestArgs} {status : Int} {x y : Account}
    (h : Answered limit args status x y) (hm : args.method = .activate) :
    (y.exo.nextState = .activated ∨ y.exo.nextState = .prepareActivate) ∧
      awaiting y.log = awaiting x.log := by
  cases h with
  | accepted _ hv => exact ⟨.inl rfl, awaiting_append _ _⟩
  | malformed cik _ => exact ⟨.inr rfl, rfl⟩
  | refused _ => exact ⟨.inr rfl, rfl⟩
  | data h => rw [hm] at h; obtain h | h := h <;> exact absurd h nofun
  | subscribe h | timestamp h => rw [hm] at h; exact absurd h nofun

theorem flagged_sameState (status : Int) (exo : ExositeClass) : SameState exo (flagged status exo) := by
  unfold flagged
  split <;> exact ⟨rfl, rfl, rfl⟩

section

variable {b b' : Books}

theorem completed_alone {c : Completion Request} {r : ProtocolClientRequest Request} (hs : Sound b)
    (hheld : b.held = [r]) (hr : asHanded c.request ∈ b.held)
    (hm : method r = .timestamp ∨ method r = .activate)
    (hp : b.held.Perm (c.left.map asHanded ++ b'.held)) : asHanded c.request = r ∧ b'.held = [] := by
  rw [hheld, List.mem_singleton] at hr
  have htype : c.request.type = .normal := by
    have ht : r.type = (route b.exo.protocolType r.request.args).request :=
      (hs.made r (hheld ▸ List.mem_cons_self)).2
    unfold route at ht
    rw [← hr] at ht hm
    obtain hm | hm := hm
    · rw [show (asHanded c.request).request.args.method = .timestamp from hm] at ht
      exact ht
    · rw [show (asHanded c.request).request.args.method = .activate from hm] at ht
      exact ht
  have hlisted : c.listed = false := by
    by_contra hl
    unfold Completion.listed at hl
    rw [Bool.not_eq_false, Bool.and_eq_true] at hl
    exact absurd ((Completion.stays_type hl.2).symm.trans htype) nofun
  have hlen := hp.length_eq
  unfold Completion.left at hlen
  rw [hheld, hlisted, List.length_append, List.length_map, List.length_append] at hlen
  refine ⟨hr, List.eq_nil_of_length_eq_zero ?_⟩
  simp only [Bool.false_eq_true, if_false, List.length_cons, List.length_nil] at hlen
  omega

def Draining (b : Books) : Prop := ∀ h ∈ b.machines, h.aborting = true ∨ stock h = []

theorem after_aborting (c : Completion Request) : c.after.aborting = c.before.aborting := by
  unfold Completion.after
  split
  · exact c.taken_aborting
  · exact c.taken_aborting

theorem Draining.works {api : Api E} {deletes : Prop} {ok : Completion Request → Prop}
    (h : Draining b) (hw : Works api deletes ok b b') : Draining b' := by
  obtain @⟨pre, post, g, g', n, x, y, ha⟩ := hw
  have hg := h g (List.mem_append_right _ List.mem_cons_self)
  have hg' : g'.aborting = true ∨ stock g' = [] := by
    cases ha with
    | rearrange hp hb => exact hg.imp hb.trans (fun hnil => (hnil ▸ hp).eq_nil)
    | send hr hp hb hy => exact hg.imp hb.trans (fun hnil => (hnil ▸ hp).eq_nil)
    | finish he => exact .inr he
    | @complete c _ _ hs hok ha =>
        refine .inl ((after_aborting c).trans (hg.resolve_right (fun hnil => ?_)))
        have hm : asHanded c.request ∈ stock c.before := List.mem_map_of_mem hs.mem_held
        rw [hnil] at hm
        exact List.not_mem_nil hm
  intro k hk
  obtain hk | hk := List.mem_append.mp hk
  · exact h k (List.mem_append_left _ hk)
  · obtain rfl | hk := List.mem_cons.mp hk
    · exact hg'
    · exact h k (List.mem_append_right _ (List.mem_cons_of_mem _ hk))

theorem HeldIn.perm {s : ActivateState} (h : HeldIn b s) (hp : b'.held.Perm b.held)
    (hl : awaiting b'.log = awaiting b.log) (hd : Draining b → Draining b') : HeldIn b' s := by
  cases s with
  | sendGetTimestamp | init | start => exact (show b.held = [] from h) ▸ hp |>.eq_nil
  | waitTimestamp =>
      obtain ⟨r, hheld, hm⟩ := h
      exact ⟨r, List.perm_singleton.mp (hheld ▸ hp), hm⟩
  | prepareActivate | activated => exact fun r hr => h r (hp.mem_iff.mp hr)
  | sendActivate => exact ⟨fun r hr => h.1 r (hp.mem_iff.mp hr), hd h.2⟩
  | waitActivate =>
      obtain ⟨r, hheld, hm, ha⟩ := h
      exact ⟨r, List.perm_singleton.mp (hheld ▸ hp), hm, hl.trans ha⟩

theorem Phase.frame (h : Phase b) (hn : b'.exo.nextState = b.exo.nextState)
    (hp : b'.held.Perm b.held) (hl : awaiting b'.log = awaiting b.log)
    (hd : Draining b → Draining b') : Phase b' where
  held := hn ▸ h.held.perm hp hl hd
  idle := by
    rw [hn, hl]
    exact h.idle

theorem Phase.alone {s : ActivateState} (hs : s ≠ .waitTimestamp ∧ s ≠ .waitActivate)
    (hn : b'.exo.nextState = s) (hheld : b'.held = []) (hl : awaiting b'.log = none)
    (hd : s = .sendActivate → Draining b') : Phase b' where
  held := by
    rw [hn]
    cases s with
    | sendGetTimestamp | init | start => exact hheld
    | waitTimestamp => exact absurd rfl hs.1
    | waitActivate => exact absurd rfl hs.2
    | prepareActivate | activated =>
        intro r hr
        rw [hheld] at hr
        exact absurd hr List.not_mem_nil
    | sendActivate =>
        refine ⟨fun r hr => ?_, hd rfl⟩
        rw [hheld] at hr
        exact absurd hr List.not_mem_nil
  idle _ := hl

/-- A request that is held is the one of the activation, or a request for data in a state
in which the activation sends none. -/
theorem Phase.kinds (h : Phase b) {r : ProtocolClientRequest Request} (hr : r ∈ b.held) :
    (method r = .timestamp ∧ b.exo.nextState = .waitTimestamp ∧ b.held = [r]) ∨
      (method r = .activate ∧ b.exo.nextState = .waitActivate ∧ b.held = [r]) ∨
      (IsData r ∧ b.exo.nextState ≠ .waitTimestamp ∧ b.exo.nextState ≠ .waitActivate) := by
  have hheld := h.held
  cases hs : b.exo.nextState with
  | sendGetTimestamp | init | start =>
      rw [hs] at hheld
      rw [show b.held = [] from hheld] at hr
      exact absurd hr List.not_mem_nil
  | waitTimestamp =>
      rw [hs] at hheld
      obtain ⟨q, hq, hm⟩ := hheld
      obtain rfl : r = q := List.mem_singleton.mp (hq ▸ hr)
      exact .inl ⟨hm, rfl, hq⟩
  | prepareActivate | activated =>
      rw [hs] at hheld
      exact .inr (.inr ⟨hheld r hr, nofun, nofun⟩)
  | sendActivate =>
      rw [hs] at hheld
      exact .inr (.inr ⟨hheld.1 r hr, nofun, nofun⟩)
  | waitActivate =>
      rw [hs] at hheld
      obtain ⟨q, hq, hm, -⟩ := hheld
      obtain rfl : r = q := List.mem_singleton.mp (hq ▸ hr)
      exact .inr (.inl ⟨hm, rfl, hq⟩)

theorem HeldIn.fewer {s : ActivateState} (h : HeldIn b s)
    (hs : s ≠ .waitTimestamp ∧ s ≠ .waitActivate) (hsub : ∀ r ∈ b'.held, r ∈ b.held)
    (hd : Draining b → Draining b') : HeldIn b' s := by
  cases s with
  | sendGetTimestamp | init | start =>
      refine List.eq_nil_iff_forall_not_mem.mpr (fun r hr => ?_)
      have hm := hsub r hr
      rw [show b.held = [] from h] at hm
      exact List.not_mem_nil hm
  | waitTimestamp => exact absurd rfl hs.1
  | waitActivate => exact absurd rfl hs.2
  | prepareActivate | activated => exact fun r hr => h r (hsub r hr)
  | sendActivate => exact ⟨fun r hr => h.1 r (hsub r hr), hd h.2⟩

theorem Phase.works {api : Api E} {deletes : Prop} {ok : Completion Request → Prop}
    (hs : Sound b) (h : Phase b) (hw : Works api deletes ok b b') : Phase b' := by
  have hdrain : Draining b → Draining b' := fun hd => hd.works hw
  obtain ⟨-, hout⟩ := hw.outcome hs.nodup
  cases hout with
  | quiet hp hx =>
      exact h.frame (congrArg (fun x => x.exo.nextState) hx) hp (congrArg (fun x => awaiting x.log) hx)
        hdrain
  | sent hr hp hx =>
      refine h.frame ?_ hp ?_ hdrain
      · obtain hx | ⟨-, hx⟩ := hx <;> exact (congrArg (fun x => x.exo.nextState) hx).trans rfl
      · obtain hx | ⟨-, hx⟩ := hx <;>
          exact (congrArg (fun x => awaiting x.log) hx).trans (awaiting_append _ _)
  | @completed c y hsel hok hr hp ha hx =>
      have hnext : b'.exo.nextState = y.exo.nextState :=
        (congrArg (fun x => x.exo.nextState) hx).trans rfl
      have hlog : awaiting b'.log = awaiting y.log :=
        (congrArg (fun x => awaiting x.log) hx).trans (awaiting_aside (releases_aside _ _))
      have hflag := flagged_sameState (statusOf api c.request c.response) b.exo
      have hcalled : awaiting (b.log ++ [Event.called c.request]) =
          if method c.request = .activate then none else awaiting b.log := awaiting_append _ _
      obtain ⟨hm, hstate, hheld⟩ | ⟨hm, hstate, hheld⟩ | ⟨hm, hstate⟩ := h.kinds hr
      · obtain ⟨-, hnil⟩ := completed_alone hs hheld hr (.inl hm) hp
        obtain ⟨hy, hylog⟩ := answered_timestamp ha hm
        have hnone : awaiting b'.log = none := by
          rw [hlog, hylog]
          refine hcalled.trans ?_
          rw [if_neg (by rw [show method c.request = .timestamp from hm]; decide)]
          exact h.idle (by rw [hstate]; decide)
        obtain hy | hy := hy
        · exact .alone (s := .init) ⟨nofun, nofun⟩ (hnext.trans hy) hnil hnone nofun
        · exact .alone (s := .sendGetTimestamp) ⟨nofun, nofun⟩ (hnext.trans hy) hnil hnone nofun
      · obtain ⟨-, hnil⟩ := completed_alone hs hheld hr (.inr hm) hp
        obtain ⟨hy, hylog⟩ := answered_activate ha hm
        have hnone : awaiting b'.log = none := by
          rw [hlog, hylog]
          exact hcalled.trans (if_pos hm)
        obtain hy | hy := hy
        · exact .alone (s := .activated) ⟨nofun, nofun⟩ (hnext.trans hy) hnil hnone nofun
        · exact .alone (s := .prepareActivate) ⟨nofun, nofun⟩ (hnext.trans hy) hnil hnone nofun
      · obtain ⟨hsame, hylog⟩ := answered_data ha hm
        have hn : b'.exo.nextState = b.exo.nextState := (hnext.trans hsame.next).trans hflag.next
        have hne : method c.request ≠ .activate := by
          obtain hm | hm | hm := hm <;>
            exact fun he => absurd (show _ = _ from hm.symm.trans he) nofun
        have hsub (r) (hr : r ∈ b'.held) : r ∈ b.held :=
          hp.mem_iff.mpr (List.mem_append_right _ hr)
        refine ⟨hn ▸ h.held.fewer hstate hsub hdrain, fun hw => ?_⟩
        rw [hlog, hylog]
        exact (hcalled.trans (if_neg hne)).trans (h.idle (hn ▸ hw))

theorem Obtained.draining (ho : Obtained b b') (h : Draining b) : Draining b' := by
  cases ho with
  | found => exact h
  | grown stype limit =>
      intro g hg
      obtain hg | hg := List.mem_append.mp hg
      · exact h g hg
      · exact .inr (List.mem_singleton.mp hg ▸ rfl)

theorem Obtained.machines (ho : Obtained b b') (h : ∀ g ∈ b.machines, g.aborting = false) :
    ∀ g ∈ b'.machines, g.aborting = false := by
  cases ho with
  | found => exact h
  | grown stype limit =>
      intro g hg
      obtain hg | hg := List.mem_append.mp hg
      · exact h g hg
      · exact List.mem_singleton.mp hg ▸ rfl

theorem Phase.obtained (h : Phase b) (ho : Obtained b b') : Phase b' := by
  obtain ⟨n, hexo⟩ := Obtained.exo ho
  obtain ⟨hheld, -, hlog⟩ := Obtained.held ho
  exact h.frame (by rw [hexo]) (hheld ▸ .refl _) (by rw [hlog]) (Obtained.draining ho)

theorem Pushed.failed {args : ExoRequestArgs} {error : Int} (hp : Pushed args b error b')
    (he : error ≠ errSuccess) :
    b'.held = b.held ∧ b'.machines = b.machines ∧ awaiting b'.log = awaiting b.log := by
  have htwo (e : Event) (ha : Aside e) (n : Nat) :
      awaiting (b.log ++ [.created n] ++ [e]) = awaiting b.log := by
    rw [awaiting_append, awaiting_append]
    exact ha _
  cases hp with
  | kept he => exact ⟨rfl, rfl, rfl⟩
  | unfinished he => exact ⟨rfl, rfl, htwo (.unfinished _) (fun _ => rfl) _⟩
  | refused n he => exact ⟨rfl, rfl, htwo (.released _) (fun _ => rfl) _⟩
  | handed hm => exact absurd rfl he

theorem Phase.failed {args : ExoRequestArgs} {error : Int} (h : Phase b) (hp : Pushed args b error b')
    (he : error ≠ errSuccess) : Phase b' := by
  obtain ⟨hheld, hmachines, hlog⟩ := Pushed.failed hp he
  refine h.frame (by rw [Pushed.exo hp]) (hheld ▸ .refl _) hlog (fun hd => ?_)
  unfold Draining
  rw [hmachines]
  exact hd

theorem method_requestFor (b : Books) (args : ExoRequestArgs) :
    method (requestFor b args) = args.method := by
  unfold method requestFor
  dsimp only

theorem await_handed (waiting : Option (ProtocolClientRequest Request)) (sm : SmType)
    (r : ProtocolClientRequest Request) : await waiting (.handed sm r) =
      if method r = .activate then some r else waiting := rfl

theorem Pushed.succeeded {args : ExoRequestArgs} (hp : Pushed args b errSuccess b') :
    b'.held.Perm (requestFor b args :: b.held) ∧ awaiting b'.log =
      if args.method = .activate then some (requestFor b args) else awaiting b.log := by
  obtain ⟨-, ⟨he, -⟩ | ⟨-, hheld, -, hlog⟩⟩ := Pushed.held hp
  · exact absurd rfl he
  · refine ⟨hheld, ?_⟩
    rw [hlog, awaiting_append, awaiting_append, List.foldl_cons, List.foldl_nil, await_handed,
      method_requestFor, List.foldl_cons, List.foldl_nil]
    rfl

theorem Phase.send (hs : Sound b) (h : Phase b) (hnext : b.exo.nextState = .activated)
    (hsend : Send b b') : Phase b' ∧ b'.exo.nextState = .activated := by
  have hdata {args : ExoRequestArgs} {b₁ b₂ : Books} {error : Int}
      (hm : args.method = .read ∨ args.method = .write ∨ args.method = .subscribe)
      (ho : Obtained b b₁) (hp : Pushed args b₁ error b₂) :
      Phase b₂ ∧ b₂.exo.nextState = .activated := by
    have h₁ := h.obtained ho
    obtain ⟨n, hexo⟩ := Obtained.exo ho
    have hn : b₂.exo.nextState = .activated := by
      rw [Pushed.exo hp, hexo]
      exact hnext
    refine ⟨?_, hn⟩
    by_cases he : error = errSuccess
    · subst he
      obtain ⟨hheld, hlog⟩ := Pushed.succeeded hp
      have hne : args.method ≠ .activate := by
        obtain hm | hm | hm := hm <;> rw [hm] <;> decide
      have hn₁ : b₁.exo.nextState = .activated := by
        rw [hexo]
        exact hnext
      refine ⟨?_, fun _ => ?_⟩
      · rw [hn]
        intro r hr
        obtain rfl | hr := List.mem_cons.mp (hheld.mem_iff.mp hr)
        · unfold IsData
          rw [method_requestFor]
          exact hm
        · have hall := h₁.held
          rw [hn₁] at hall
          exact hall r hr
      · rw [hlog, if_neg hne]
        exact h₁.idle (by rw [hn₁]; decide)
    · exact h₁.failed hp he
  cases hsend with
  | @subscribe b₁ b₂ key item error hi hn ho hp =>
      have hpushed := hdata (.inr (.inr (hs.tidy.items _ hi).method)) ho hp
      split
      · exact ⟨hpushed.1.frame rfl (.refl _) rfl id, hpushed.2⟩
      · exact hpushed
  | @queued b₁ b₂ args rest error hq ho hp =>
      have hm := hs.tidy.queue args (hq ▸ List.mem_cons_self)
      have hpushed := hdata (hm.imp_right .inl) ho hp
      split
      · exact ⟨hpushed.1.frame rfl (.refl _) rfl id, hpushed.2⟩
      · exact hpushed

theorem Phase.enter (h : Phase b) : Phase b.enter := h.frame rfl (.refl _) rfl id

theorem Phase.sends (hs : Sound b) (h : Phase b) (hnext : b.exo.nextState = .activated)
    (hsends : Sends b b') : Phase b' ∧ b'.exo.nextState = .activated := by
  induction hsends with
  | refl => exact ⟨h, hnext⟩
  | tail hrest hsend ih => exact ih.1.send (hs.sends hrest) ih.2 hsend

theorem Asks.held {args : ExoRequestArgs} {next : ActivateState} (h : Phase b) (ha : Asks b args next) :
    b.held = [] := by
  have hheld := h.held
  cases ha with
  | timestamp hs _ _ =>
      rw [hs] at hheld
      exact hheld
  | activate hs hb _ _ =>
      rw [hs] at hheld
      refine List.flatMap_eq_nil_iff.mpr (fun g hg => ?_)
      exact (hheld.2 g hg).resolve_left (fun hab => absurd (hab.symm.trans (hb g hg)) nofun)

theorem Phase.activates (hs : Sound b) (h : Phase b) (ha : Activates b b') : Phase b' := by
  have he := h.enter
  have hheld := h.held
  cases ha with
  | waits hw => exact he
  | @asks b₁ b₂ args next error hask ho hp =>
      have h₁ := he.obtained ho
      have hbare : b.held = [] := Asks.held h hask
      have hnil : b₁.held = [] := (Obtained.held ho).1.trans hbare
      obtain ⟨n, hexo⟩ := Obtained.exo ho
      have hnext : b₁.exo.nextState = b.exo.nextState := by
        rw [hexo]
        rfl
      split
      · rename_i herr
        subst herr
        obtain ⟨hheld', hlog⟩ := Pushed.succeeded hp
        rw [hnil] at hheld'
        have hone : b₂.held = [requestFor b₁ args] := List.perm_singleton.mp hheld'
        have hmethod := method_requestFor b₁ args
        cases hask with
        | timestamp hw hm _ =>
            refine ⟨⟨_, hone, hmethod.trans hm⟩, fun _ => hlog.trans ?_⟩
            rw [if_neg (by rw [hm]; decide)]
            exact h₁.idle (by rw [hnext, hw]; decide)
        | activate hw _ hm _ =>
            exact ⟨⟨_, hone, hmethod.trans hm, hlog.trans (if_pos hm)⟩, fun hne => absurd rfl hne⟩
      · rename_i herr
        exact h₁.failed hp herr
  | @loads next cik hw hn =>
      have hnil : b.held = [] := by
        obtain hw | hw := hw <;> rw [hw] at hheld <;> exact hheld
      have hnone : awaiting b.log = none := h.idle (by obtain hw | hw := hw <;> rw [hw] <;> decide)
      obtain ⟨rfl, -⟩ | rfl | rfl := hn
      · exact .alone (s := .activated) ⟨nofun, nofun⟩ rfl hnil hnone nofun
      · exact .alone (s := .start) ⟨nofun, nofun⟩ rfl hnil hnone nofun
      · exact .alone (s := .prepareActivate) ⟨nofun, nofun⟩ rfl hnil hnone nofun
  | delays time requests attempts hw => exact he.frame rfl (.refl _) rfl id
  | clears time requests attempts hw =>
      rw [hw] at hheld
      refine ⟨⟨fun r hr => hheld r (held_clear b ▸ hr), fun g hg => .inl ?_⟩,
        fun _ => h.idle (by rw [hw]; decide)⟩
      obtain ⟨k, -, rfl⟩ := List.mem_map.mp hg
      rfl
  | reactivates hw =>
      rw [hw] at hheld
      exact ⟨hheld, fun _ => h.idle (by rw [hw]; decide)⟩
  | sends hw hsends => exact (he.sends hs.enter hw hsends).1

theorem Phase.user {limit : Nat} {y : Account} (h : Phase b) (hu : UserChange limit b.account y) :
    Phase { b with account := y } := by
  obtain ⟨hsame, hlog⟩ := users_frame (.single hu)
  exact h.frame hsame.next (.refl _) hlog id

end

theorem phase_exositeNew (api : Api E) (protocolType : AppType) (vendor model sn : List UInt8)
    (globals : Globals Nat) (messageId : Int) (objects : Nat) (ext : E) :
    Phase (books (exositeNew api protocolType vendor model sn globals messageId objects ext)) where
  held := rfl
  idle _ := rfl

end ErSdk.ExositePhases
