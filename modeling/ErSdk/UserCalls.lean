import ErSdk.RequestQueue
import ErSdk.WorldSteps

namespace ErSdk.UserCalls

open ProtocolClientSm Ledger SmMoves RequestArgs ExositeApi ExositeCalls ExositeBooks ExositeSteps ExositeRuns
open RequestQueue Runs Error

variable {E : Type}

def dataOf (r : ProtocolClientRequest Request) : Option ExoRequestArgs :=
  if r.request.args.method = .read ∨ r.request.args.method = .write then
    some (asCalled r.request.args)
  else none

/-- A read or write request whose callback is called. -/
def calledCall : Event → Option ExoRequestArgs
  | .called r => dataOf r
  | _ => none

def calledCalls (log : List Event) : List ExoRequestArgs := log.filterMap calledCall

/-- The read and write requests that the state machines hold. -/
def heldCalls (b : Books) : List ExoRequestArgs := b.held.filterMap dataOf

/-- The read or write request that a completion drops: the active one, where a timeout or an abort
completes another one. -/
def dropped (c : Completion Request) : List ExoRequestArgs :=
  ((if c.Drops then c.before.active.toList else []).map asHanded).filterMap dataOf

/-- What a step of the SDK drops. -/
def droppedIn (api : Api E) (d : Device E) : Action E → List ExoRequestArgs
  | .task i =>
      match d.machines[i]? with
      | none => []
      | some item => (completions (machineEnv api i) i (d.view item)).flatMap dropped
  | .activateSm | .user _ | .interfere .. => []

/-- What was handed on is held, was called back, or is lost. -/
def Conserved (lost : List ExoRequestArgs) (b : Books) : Prop :=
  (handedCalls b.log).Perm (heldCalls b ++ (calledCalls b.log ++ lost))

def Aside (e : Event) : Prop := handedCall e = none ∧ calledCall e = none

section

variable {lost : List ExoRequestArgs} {b b' : Books}

theorem handedCalls_append {log events : List Event} (h : ∀ e ∈ events, handedCall e = none) :
    handedCalls (log ++ events) = handedCalls log := by
  unfold handedCalls
  rw [List.filterMap_append, List.filterMap_eq_nil_iff.mpr h, List.append_nil]

theorem calledCalls_append {log events : List Event} (h : ∀ e ∈ events, calledCall e = none) :
    calledCalls (log ++ events) = calledCalls log := by
  unfold calledCalls
  rw [List.filterMap_append, List.filterMap_eq_nil_iff.mpr h, List.append_nil]

theorem Conserved.frame (h : Conserved lost b) (hp : b'.held.Perm b.held) {events : List Event}
    (hlog : b'.log = b.log ++ events) (he : ∀ e ∈ events, Aside e) : Conserved lost b' := by
  unfold Conserved
  rw [hlog, handedCalls_append fun e hm => (he e hm).1, calledCalls_append fun e hm => (he e hm).2]
  exact h.trans ((hp.filterMap dataOf).symm.append_right _)

theorem Conserved.handed (h : Conserved lost b) {r : ProtocolClientRequest Request} {e e' : Event}
    (hheld : b'.held.Perm (r :: b.held)) (hlog : b'.log = b.log ++ [e] ++ [e'])
    (he : Aside e) (hcalled : calledCall e' = none) (hhanded : handedCall e' = dataOf r) :
    Conserved lost b' := by
  unfold Conserved at h ⊢
  have hcalls : calledCalls b'.log = calledCalls b.log := by
    rw [hlog, List.append_assoc]
    refine calledCalls_append fun x hx => ?_
    obtain rfl | hx := List.mem_cons.mp hx
    · exact he.2
    · exact List.mem_singleton.mp hx ▸ hcalled
  have hone : handedCalls b'.log = handedCalls b.log ++ (dataOf r).toList := by
    rw [hlog]
    unfold handedCalls
    rw [List.filterMap_append, List.filterMap_append, List.filterMap_cons_none he.1,
      List.filterMap_nil, List.append_nil, ← hhanded]
    cases hr : handedCall e' with
    | none => rw [List.filterMap_cons_none hr]; rfl
    | some args => rw [List.filterMap_cons_some hr]; rfl
  have hcons : (heldCalls b').Perm ((dataOf r).toList ++ heldCalls b) := by
    refine (hheld.filterMap dataOf).trans ?_
    cases hr : dataOf r with
    | none =>
        rw [List.filterMap_cons_none hr]
        exact .refl _
    | some args =>
        rw [List.filterMap_cons_some hr]
        exact .refl _
  rw [hcalls, hone]
  refine (h.append_right _).trans (List.perm_append_comm.trans ?_)
  rw [← List.append_assoc]
  exact hcons.symm.append_right _

theorem handedCall_of_not {sm : SmType} {r : ProtocolClientRequest Request}
    (h : ¬ (r.request.args.method = .read ∨ r.request.args.method = .write)) :
    handedCall (.handed sm r) = none := by
  cases sm with
  | main => exact if_neg h
  | httpLongPoll | timeSync => rfl

theorem handedCall_eq (b : Books) (args : ExoRequestArgs) :
    handedCall (.handed (route b.exo.protocolType args).sm (requestFor b args)) =
      dataOf (requestFor b args) := by
  by_cases hm : args.method = .read ∨ args.method = .write
  · rw [handedCall_requestFor b hm]
    unfold dataOf requestFor asCalled
    dsimp only
    rw [if_pos hm]
  · have hnot : ¬ ((requestFor b args).request.args.method = .read ∨
        (requestFor b args).request.args.method = .write) := by
      unfold requestFor
      exact hm
    rw [handedCall_of_not hnot, dataOf, if_neg hnot]

theorem aside_created (o : Nat) : Aside (.created o) := ⟨rfl, rfl⟩

theorem Conserved.pushed {args : ExoRequestArgs} {error : Int} (h : Conserved lost b)
    (hp : Pushed args b error b') : Conserved lost b' := by
  have htwo (o : Nat) {e : Event} (he : Aside e) : ∀ x ∈ [Event.created o] ++ [e], Aside x := by
    intro x hx
    obtain rfl | hx := List.mem_cons.mp hx
    · exact aside_created o
    · exact List.mem_singleton.mp hx ▸ he
  have hheld := Pushed.held hp
  cases hp with
  | kept he => exact h
  | unfinished he => exact h.frame (.refl _) (List.append_assoc ..) (htwo _ ⟨rfl, rfl⟩)
  | refused n he => exact h.frame (.refl _) (List.append_assoc ..) (htwo _ ⟨rfl, rfl⟩)
  | handed hm =>
      obtain ⟨-, ⟨he, -⟩ | ⟨-, hperm, -, hlog⟩⟩ := hheld
      · exact absurd rfl he
      · exact h.handed hperm hlog (aside_created _) rfl (handedCall_eq b args)

theorem apart_conserved : Apart (Conserved lost) where
  mapExo _ h := h.frame (.refl _) (List.append_nil _).symm (List.forall_mem_nil _)
  clear {b} h := h.frame (by rw [held_clear]) (List.append_nil _).symm (List.forall_mem_nil _)
  obtained ho h := by
    obtain ⟨hheld, -, hlog⟩ := Obtained.held ho
    exact h.frame (hheld ▸ .refl _) (hlog.trans (List.append_nil _).symm) (List.forall_mem_nil _)
  pushed hp h := h.pushed hp

theorem users_aside {limit : Nat} {x y : Account} (h : UserChanges limit x y) :
    ∃ events, y.log = x.log ++ events ∧ ∀ e ∈ events, Aside e := by
  induction h with
  | refl => exact ⟨[], (List.append_nil _).symm, List.forall_mem_nil _⟩
  | tail _ hc ih =>
      obtain ⟨events, hlog, he⟩ := ih
      cases hc with
      | told f status aliasName value =>
          refine ⟨events ++ [.told f status aliasName value], ?_,
            List.forall_mem_append.mpr ⟨he, List.forall_mem_singleton.mpr ⟨rfl, rfl⟩⟩⟩
          rw [Account.record, hlog, List.append_assoc]
      | queued args hm hl =>
          refine ⟨events ++ [.accepted args], ?_,
            List.forall_mem_append.mpr ⟨he, List.forall_mem_singleton.mpr ⟨rfl, rfl⟩⟩⟩
          change _ ++ [Event.accepted args] = _
          rw [show (Account.mapExo _ _).log = _ from hlog, List.append_assoc]
      | subscribed => exact ⟨events, hlog, he⟩

theorem answered_aside {limit : Nat} {args : ExoRequestArgs} {status : Int} {x y : Account}
    (h : Answered limit args status x y) :
    ∃ events, y.log = x.log ++ events ∧ ∀ e ∈ events, Aside e := by
  cases h with
  | data hm hu => exact users_aside hu
  | subscribe hm hk hu =>
      obtain ⟨events, hlog, he⟩ := users_aside hu
      exact ⟨events, hlog, he⟩
  | @accepted cik hm hv =>
      exact ⟨[.setCik cik], rfl, List.forall_mem_singleton.mpr ⟨rfl, rfl⟩⟩
  | malformed | refused | timestamp =>
      exact ⟨[], (List.append_nil _).symm, List.forall_mem_nil _⟩

theorem aside_releases (request : Request) (type : RequestType) :
    ∀ e ∈ releases request type, Aside e := by
  intro e he
  unfold releases at he
  split at he
  · exact absurd he List.not_mem_nil
  · exact List.mem_singleton.mp he ▸ ⟨rfl, rfl⟩

theorem completed_calls {limit : Nat} {c : Completion Request} {status : Int}
    {f : ExositeClass → ExositeClass} {x y : Account}
    (ha : Answered limit c.request.request.args status ((x.record [.called c.request]).mapExo f) y)
    (type : RequestType) :
    handedCalls (y.record (releases c.request.request type)).log = handedCalls x.log ∧
      calledCalls (y.record (releases c.request.request type)).log =
        calledCalls x.log ++ (dataOf c.request).toList := by
  obtain ⟨events, hlog, he⟩ := answered_aside ha
  have hbehind : (y.record (releases c.request.request type)).log =
      x.log ++ [.called c.request] ++ (events ++ releases c.request.request type) := by
    simp only [Account.record, hlog, Account.mapExo, List.append_assoc]
  have haside : ∀ e ∈ events ++ releases c.request.request type, Aside e :=
    List.forall_mem_append.mpr ⟨he, aside_releases _ _⟩
  rw [hbehind]
  constructor
  · rw [handedCalls_append fun e hm => (haside e hm).1]
    exact handedCalls_append (List.forall_mem_singleton.mpr rfl)
  · rw [calledCalls_append fun e hm => (haside e hm).2]
    unfold calledCalls
    rw [List.filterMap_append]
    refine congrArg _ ?_
    cases hr : dataOf c.request with
    | none => exact List.filterMap_cons_none hr
    | some args => exact List.filterMap_cons_some hr

theorem not_listed {protocolType : AppType} {c : Completion Request} {args : ExoRequestArgs}
    (hm : Made protocolType (asHanded c.request)) (hd : dataOf c.request = some args) :
    c.listed = false := by
  by_contra hl
  have hl : c.listed = true := by simpa using hl
  have htype : c.request.type = .subscribeAsynch :=
    Completion.stays_type (Bool.and_eq_true_iff.mp hl).2
  have hdata : c.request.request.args.method = .read ∨ c.request.request.args.method = .write := by
    by_contra hn
    rw [dataOf, if_neg hn] at hd
    cases hd
  have hroute : c.request.type = (route protocolType c.request.request.args).request := hm.2
  rw [htype] at hroute
  unfold route at hroute
  obtain hdata | hdata := hdata <;> rw [hdata] at hroute <;> cases hroute

/-- What a completion takes away: the read or write request that is called back, and the one that
is dropped. -/
theorem left_data {protocolType : AppType} {c : Completion Request}
    (hm : Made protocolType (asHanded c.request)) :
    (c.left.map asHanded).filterMap dataOf = (dataOf c.request).toList ++ dropped c := by
  unfold Completion.left dropped
  rw [List.map_append, List.filterMap_append]
  refine congrArg (· ++ _) ?_
  cases hr : dataOf c.request with
  | none =>
      have hnone : dataOf (asHanded c.request) = none := hr
      split
      · rfl
      · exact List.filterMap_cons_none hnone
  | some args =>
      have hsome : dataOf (asHanded c.request) = some args := hr
      rw [not_listed hm hr]
      exact List.filterMap_cons_some hsome

theorem Conserved.still {api : Api E} (hs : Sound b) (h : Conserved lost b)
    (hw : Works api True (fun _ => False) b b') : Conserved lost b' := by
  obtain ⟨-, hout⟩ := hw.outcome hs.nodup
  cases hout with
  | quiet hp hx =>
      have hlog : b'.log = b.log ++ [] := by
        rw [Books.log, hx, List.append_nil]
        rfl
      exact h.frame hp hlog (List.forall_mem_nil _)
  | @sent r hr hp hx =>
      obtain hx | ⟨-, hx⟩ := hx
      · have hlog : b'.log = b.log ++ [.sent r.request.object] := by
          rw [Books.log, hx]
          rfl
        exact h.frame hp hlog (List.forall_mem_singleton.mpr ⟨rfl, rfl⟩)
      · have hlog : b'.log = b.log ++ [.sent r.request.object, .released r.request.object] := by
          rw [Books.log, hx]
          rfl
        exact h.frame hp hlog
          (List.forall_mem_cons.mpr ⟨⟨rfl, rfl⟩, List.forall_mem_singleton.mpr ⟨rfl, rfl⟩⟩)
  | completed hsel hok => exact hok.elim

theorem Conserved.completed {api : Api E} {c : Completion Request} (hs : Sound b)
    (h : Conserved lost b) (hc : CompletedBy api c b b') : Conserved (lost ++ dropped c) b' := by
  obtain ⟨-, hr, hp, y, ha, hx⟩ := hc
  have hcalls : handedCalls b'.log = handedCalls b.log ∧
      calledCalls b'.log = calledCalls b.log ++ (dataOf c.request).toList := by
    rw [Books.log, hx]
    exact completed_calls ha c.request.type
  obtain ⟨hhanded, hcalled⟩ := hcalls
  have hheld : (heldCalls b).Perm (((dataOf c.request).toList ++ dropped c) ++ heldCalls b') := by
    have hf := hp.filterMap dataOf
    rw [List.filterMap_append, left_data (hs.made _ hr)] at hf
    exact hf
  unfold Conserved at h ⊢
  rw [hhanded, hcalled]
  refine h.trans ((hheld.append_right _).trans ?_)
  generalize heldCalls b' = held, calledCalls b.log = called, (dataOf c.request).toList = one
  generalize dropped c = drop
  have hmove : (one ++ drop ++ held).Perm (held ++ one ++ drop) := by
    rw [List.append_assoc held]
    exact List.perm_append_comm
  refine (hmove.append_right _).trans ?_
  simp only [List.append_assoc]
  refine List.Perm.append_left held ?_
  have hback : (drop ++ (called ++ lost)).Perm (called ++ lost ++ drop) := List.perm_append_comm
  refine (hback.append_left one).trans ?_
  have hswap : (one ++ called).Perm (called ++ one) := List.perm_append_comm
  have hall := hswap.append_right (lost ++ drop)
  simpa only [List.append_assoc] using hall

theorem preserved_conserved (api : Api E) (lost : List ExoRequestArgs) :
    Preserved api True (fun _ => False) (Conserved lost) where
  works hs h hw := h.still hs hw
  activates _ h ha := apart_conserved.activates h ha
  user _ h hu := by
    obtain ⟨events, hlog, he⟩ := users_aside (.single hu)
    exact h.frame (.refl _) hlog he
  allocate _ h := h.frame (.refl _) (List.append_nil _).symm (List.forall_mem_nil _)

theorem Conserved.step (api : Api E) {d : Device E} (a : Action E) (hs : Sound (books d))
    (h : Conserved lost (books d)) :
    Conserved (lost ++ droppedIn api d a) (books (ExositeApi.step api d a)) := by
  have hother (hcalm : Calm api True (fun _ => False) d a) :
      Conserved (lost ++ []) (books (ExositeApi.step api d a)) := by
    rw [List.append_nil]
    exact ((preserved_conserved api lost).next hcalm ⟨hs, h⟩).2
  cases a with
  | activateSm | user | interfere => exact hother trivial
  | task i =>
      unfold droppedIn
      dsimp only
      cases hi : d.machines[i]? with
      | none => exact hother fun item hitem => absurd (hitem.symm.trans hi) nofun
      | some item =>
          refine task_completions (P := fun l b => Conserved (lost ++ l.flatMap dropped) b)
            (fun hs hl hw => hl.still hs hw) (fun hs hl hc => ?_) hi hs ?_
          · rw [List.flatMap_append, List.flatMap_singleton, ← List.append_assoc]
            exact hl.completed hs hc
          · rw [List.flatMap_nil, List.append_nil]
            exact h

end

/-- The function of the application that the callback of a request calls. -/
def Calls (r : Request) (f : Nat) : Prop :=
  (r.args.method = .read ∨ r.args.method = .write) ∧ r.args.callback = .user f ∨
    r.args.method = .subscribe ∧ r.args.subscribeUsrCallback = some f

/-- An event without a call of the application. The answer to a subscription may be unchanged. -/
def Quiet : Event → Prop
  | .told .. => False
  | .called r => (r.request.args.method = .read ∨ r.request.args.method = .write) →
      ∀ f, r.request.args.callback ≠ .user f
  | _ => True

/-- Each call of the application stands directly behind the callback that makes it. -/
inductive Paired : List Event → Prop
  | nil : Paired []
  | quiet {e log} (he : Quiet e) (h : Paired log) : Paired (e :: log)
  | called {r f status value log} (hr : Calls r.request f) (h : Paired log) :
      Paired (.called r :: .told f status r.request.args.aliasName value :: log)

section

variable {log more : List Event}

theorem Paired.append (h : Paired log) (h' : Paired more) : Paired (log ++ more) := by
  induction h with
  | nil => exact h'
  | quiet he _ ih => exact .quiet he ih
  | called hr _ ih => exact .called hr ih

theorem Paired.tells (h : Paired log) {pre post : List Event} {r : ProtocolClientRequest Request} {f : Nat}
    (hlog : log = pre ++ .called r :: post)
    (hm : r.request.args.method = .read ∨ r.request.args.method = .write)
    (hf : r.request.args.callback = .user f) :
    ∃ status value rest, post = .told f status r.request.args.aliasName value :: rest := by
  induction h generalizing pre with
  | nil => exact absurd hlog.symm (by simp)
  | @quiet e log he h ih =>
      cases pre with
      | nil =>
          obtain ⟨rfl, rfl⟩ := List.cons.inj hlog
          exact absurd hf (he hm f)
      | cons e' pre => exact ih (List.cons.inj hlog).2
  | @called r' g status value log hr h ih =>
      cases pre with
      | nil =>
          obtain ⟨hcalled, rfl⟩ := List.cons.inj hlog
          obtain rfl := Event.called.inj hcalled
          obtain ⟨-, hg⟩ | ⟨hsub, -⟩ := hr
          · obtain rfl := Callback.user.inj (hg.symm.trans hf)
            exact ⟨status, value, log, rfl⟩
          · rw [hsub] at hm
            obtain hm | hm := hm <;> cases hm
      | cons e' pre =>
          cases pre with
          | nil => exact absurd (List.cons.inj (List.cons.inj hlog).2).1 (by simp)
          | cons e'' pre => exact ih (List.cons.inj (List.cons.inj hlog).2).2

theorem Paired.prompted (h : Paired log) {pre post : List Event} {f : Nat} {status : Int}
    {aliasName value : Option (List UInt8)} (hlog : log = pre ++ .told f status aliasName value :: post) :
    ∃ before r, pre = before ++ [.called r] ∧ Calls r.request f ∧
      aliasName = r.request.args.aliasName := by
  induction h generalizing pre with
  | nil => exact absurd hlog.symm (by simp)
  | @quiet e log he h ih =>
      cases pre with
      | nil =>
          obtain ⟨rfl, -⟩ := List.cons.inj hlog
          exact he.elim
      | cons e' pre =>
          obtain ⟨before, r, rfl, hr⟩ := ih (List.cons.inj hlog).2
          exact ⟨e' :: before, r, rfl, hr⟩
  | @called r' g status' value' log hr h ih =>
      cases pre with
      | nil => exact absurd (List.cons.inj hlog).1 (by simp)
      | cons e' pre =>
          obtain ⟨rfl, hrest⟩ := List.cons.inj hlog
          cases pre with
          | nil =>
              obtain ⟨rfl, -, rfl, -⟩ := Event.told.inj (List.cons.inj hrest).1
              exact ⟨[], r', rfl, hr, rfl⟩
          | cons e'' pre =>
              obtain ⟨before, r, rfl, hr⟩ := ih (List.cons.inj hrest).2
              exact ⟨_ :: e'' :: before, r, rfl, hr⟩

end

def Goes (w v : World E) : Prop := ∃ events, v.log = w.log ++ events ∧ Paired events

theorem Goes.refl (w : World E) : Goes w w := ⟨[], (List.append_nil _).symm, .nil⟩

theorem Goes.trans {w v u : World E} (h : Goes w v) (h' : Goes v u) : Goes w u := by
  obtain ⟨events, hlog, hp⟩ := h
  obtain ⟨more, hlog', hp'⟩ := h'
  exact ⟨events ++ more, by rw [hlog', hlog, List.append_assoc], hp.append hp'⟩

theorem Goes.of_eq {w v : World E} (h : v.log = w.log) : Goes w v :=
  ⟨[], h.trans (List.append_nil _).symm, .nil⟩

theorem Goes.record {w : World E} {e : Event} (he : Quiet e) : Goes w (w.record e) :=
  ⟨[e], rfl, .quiet he .nil⟩

section

variable (api : Api E)

theorem requestQueuePush_goes (args : ExoRequestArgs) (w : World E) :
    Goes w (requestQueuePush api args w).2 := by
  obtain ⟨-, h⟩ | ⟨id, -, -, h⟩ := requestQueuePush_cases api args w
  · exact .of_eq (congrArg Account.log h)
  · exact ⟨_, congrArg Account.log h, .quiet trivial .nil⟩

theorem dictionaryAdd_log (key : List UInt8) (item : SubscribeItem) (w : World E) :
    (dictionaryAdd api key item w).2.log = w.log := by
  unfold dictionaryAdd
  split
  · rfl
  · dsimp only
    split
    · rfl
    · split
      · rfl
      · rfl

theorem exositeSubscribe_log (aliasName : List UInt8) (onChange : Option Nat) (w : World E) :
    (exositeSubscribe api aliasName onChange w).2.log = w.log := by
  unfold exositeSubscribe
  split
  · rfl
  · unfold addToSubscribeMap
    dsimp only
    generalize ({ ExoRequestArgs.zero .subscribe with
      aliasName := some aliasName
      timeout := some (timeoutStr api)
      subscribeUsrCallback := onChange
      callback := .onSubscribe
      appType := w.exo.protocolType } : ExoRequestArgs) = args
    obtain ⟨v, hv, ⟨e, he⟩ | ⟨id, hn⟩⟩ := exoSubscribeItemNew_cases api args w
    · rw [he]
      exact congrArg Account.log hv
    · rw [hn]
      exact (dictionaryAdd_log api _ _ v).trans (congrArg Account.log hv)

theorem userCall_goes (w : World E) (c : UserCall) : Goes w (userCall api w c) := by
  cases c with
  | read aliasName onRead => exact requestQueuePush_goes api _ w
  | write aliasName value onWrite => exact requestQueuePush_goes api _ w
  | subscribe aliasName since onChange => exact .of_eq (exositeSubscribe_log api aliasName onChange w)

theorem userCalls_goes (calls : List UserCall) (w : World E) :
    Goes w (calls.foldl (userCall api) w) := by
  induction calls generalizing w with
  | nil => exact .refl w
  | cons c calls ih => exact (userCall_goes api w c).trans (ih _)

theorem tell_goes (f : Nat) (status : Int) (aliasName value : Option (List UInt8)) (w : World E) :
    Goes (w.record (.told f status aliasName value)) (tell api f status aliasName value w) :=
  userCalls_goes api (api.application f status aliasName value w.ext).1
    ((w.record (.told f status aliasName value)).call (api.application f status aliasName value)).2

theorem goes_called {r : ProtocolClientRequest Request} {f : Nat} (hr : Calls r.request f) (status : Int)
    (value : Option (List UInt8)) {w v : World E} (hlog : v.log = w.log ++ [.called r]) :
    Goes w (tell api f status r.request.args.aliasName value v) := by
  obtain ⟨events, hevents, hp⟩ := tell_goes api f status r.request.args.aliasName value v
  refine ⟨.called r :: .told f status r.request.args.aliasName value :: events, ?_, .called hr hp⟩
  rw [hevents]
  simp [World.record, hlog]

theorem onActivate_goes (status : Int) (cik : List UInt8) (w : World E) :
    Goes w (onActivate api status cik w) := by
  unfold onActivate
  split
  · generalize copyCik cik = cik
    dsimp only
    split
    · exact ⟨[.setCik cik], rfl, .quiet trivial .nil⟩
    · exact .of_eq rfl
  · exact .of_eq rfl

theorem onTimestamp_goes (status : Int) (timestr : List UInt8) (w : World E) :
    Goes w (onTimestamp api status timestr w) := by
  unfold onTimestamp
  split
  · split
    · exact .of_eq rfl
    · exact .of_eq rfl
  · exact .of_eq rfl

theorem onSubscribe_goes {r : ProtocolClientRequest Request} (hm : r.request.args.method = .subscribe)
    (status : Int) (value : List UInt8) {w v : World E} (hlog : v.log = w.log ++ [.called r]) :
    Goes w (onSubscribe api status r.request.args value v) := by
  have hquiet : Quiet (.called r) := fun hd => by
    rw [hm] at hd
    obtain hd | hd := hd <;> cases hd
  have htell : Goes w (tellSubscriber api status r.request.args value v) := by
    unfold tellSubscriber
    split
    · rename_i f hf
      split
      · exact goes_called api (.inr ⟨hm, hf⟩) status (some value) hlog
      · exact ⟨[.called r], hlog, .quiet hquiet .nil⟩
    · exact ⟨[.called r], hlog, .quiet hquiet .nil⟩
  refine htell.trans (.of_eq ?_)
  unfold onSubscribe
  dsimp only
  split <;> rfl

theorem dispatch_goes (r : ProtocolClientRequest Request) (status : Int) (payload : List UInt8)
    {w v : World E} (hlog : v.log = w.log ++ [.called r]) :
    Goes w (dispatch api r.request.args status payload v) := by
  have hdone (h : Quiet (.called r)) : Goes w v := ⟨[.called r], hlog, .quiet h .nil⟩
  have hother (hm : ¬ (r.request.args.method = .read ∨ r.request.args.method = .write)) :
      Goes w v := hdone fun hd => absurd hd hm
  unfold dispatch
  cases hm : r.request.args.method with
  | write =>
      cases hf : r.request.args.callback with
      | user f => exact goes_called api (.inl ⟨.inr hm, hf⟩) status none hlog
      | none | onSubscribe | onActivate | onTimestamp =>
          exact hdone fun _ f => by rw [hf]; simp
  | read =>
      cases hf : r.request.args.callback with
      | user f => exact goes_called api (.inl ⟨.inl hm, hf⟩) status (some (cString payload)) hlog
      | none | onSubscribe | onActivate | onTimestamp =>
          exact hdone fun _ f => by rw [hf]; simp
  | subscribe =>
      cases r.request.args.callback with
      | onSubscribe => exact onSubscribe_goes api hm status (cString payload) hlog
      | none | user | onActivate | onTimestamp => exact hother (by simp [hm])
  | activate =>
      have hv : Goes w v := hother (by simp [hm])
      cases r.request.args.callback with
      | onActivate => exact hv.trans (onActivate_goes api status payload v)
      | none | user | onSubscribe | onTimestamp => exact hv
  | timestamp =>
      have hv : Goes w v := hother (by simp [hm])
      cases r.request.args.callback with
      | onTimestamp => exact hv.trans (onTimestamp_goes api status payload v)
      | none | user | onSubscribe | onActivate => exact hv
  | readWrite | listContent | downloadContent | ip => exact hother (by simp [hm])

theorem requestDelete_goes (request : Request) (type : RequestType) (w : World E) :
    Goes w (requestDelete request type w) := by
  unfold requestDelete
  split
  · exact .refl w
  · exact .record trivial

theorem exositeApiCallback_goes (request : ProtocolClientRequest Request)
    (response : ProtocolClientResponse) (w : World E) :
    Goes w (exositeApiCallback api request response w).2 := by
  refine Goes.trans ?_ (requestDelete_goes request.request response.requestType _)
  refine dispatch_goes api request _ _ ?_
  unfold noteInvalidCik
  split <;> rfl

theorem machineEnv_along (i : Nat) : WorldSteps.Along (machineEnv api i) Goes where
  refl := .refl
  trans := .trans
  systemGetTime _ := .of_eq rfl
  memAlloc _ := .of_eq rfl
  queuePushTail _ := .of_eq rfl
  lookup _ := .of_eq rfl
  createSocket _ := .of_eq rfl
  connect _ _ := .of_eq rfl
  close _ _ := .of_eq rfl
  setSocket _ _ := .of_eq rfl
  clearSocket _ := .of_eq rfl
  sendRequest request w := by
    change Goes w (World.call _ (if api.sendDeletes i request w.ext then _ else _)).2
    split
    · exact ⟨[.sent request.request.object, .released request.request.object], by
        simp [World.call, World.record], .quiet trivial (.quiet trivial .nil)⟩
    · exact ⟨[.sent request.request.object], rfl, .quiet trivial .nil⟩
  recvResponse _ _ := .of_eq rfl
  clientClose _ := .of_eq rfl
  clb request response w := exositeApiCallback_goes api request response w

end

theorem apart_goes (l : List Event) :
    Apart (fun b => ∃ events, b.log = l ++ events ∧ Paired events) where
  mapExo _ h := h
  clear h := h
  obtained ho h := by
    obtain ⟨-, -, hlog⟩ := Obtained.held ho
    rw [hlog]
    exact h
  pushed {args b error b'} hp h := by
    obtain ⟨events, hlog, hpaired⟩ := h
    have htwo (o : Nat) {e : Event} (he : Quiet e) (hb : b'.log = b.log ++ [.created o] ++ [e]) :
        ∃ events, b'.log = l ++ events ∧ Paired events := by
      refine ⟨events ++ [.created o, e], ?_, hpaired.append (.quiet trivial (.quiet he .nil))⟩
      rw [hb, hlog, List.append_assoc, List.append_assoc]
      rfl
    cases hp with
    | kept he => exact ⟨events, hlog, hpaired⟩
    | unfinished he => exact htwo _ (e := .unfinished b.account.objects) trivial rfl
    | refused n he => exact htwo _ (e := .released b.account.objects) trivial rfl
    | handed hm =>
        exact htwo _ (e := .handed (route b.exo.protocolType args).sm (requestFor b args)) trivial rfl

section

variable {api : Api E}

theorem step_goes (api : Api E) {d : Device E} (h : Sound (books d)) (a : Action E) :
    Goes d.world (step api d a).world := by
  cases a with
  | activateSm =>
      unfold ExositeApi.step
      cases hd : activateSm api d with
      | none => exact .refl _
      | some d' =>
          have ha := activateSm_activates api h.tidy.keys hd
          exact (apart_goes (books d).log).activates ⟨[], (List.append_nil _).symm, .nil⟩ ha
  | task i =>
      cases hi : d.machines[i]? with
      | none =>
          rw [step_no_task hi]
          exact .refl _
      | some item =>
          rw [step_task hi]
          exact WorldSteps.protocolClientSmTask_along (machineEnv_along api i) (d.view item) i
  | user c => exact userCall_goes api d.world c
  | interfere connectingSm startTime nextState allocated messageId f => exact .of_eq rfl

theorem paired_run {d : Device E} (h : Sound (books d)) (hlog : Paired d.world.log)
    (acts : List (Action E)) : Paired (run (step api) d acts).world.log := by
  refine (Runs.invariant (P := fun d => Sound (books d) ∧ Paired d.world.log)
    (fun d a hd => ⟨sound_step api hd.1, ?_⟩) acts ⟨h, hlog⟩).2
  obtain ⟨events, hevents, hp⟩ := step_goes api hd.1 a
  rw [hevents]
  exact hd.2.append hp

/-- The calls of the application in a record: the callback of a read or write request calls the
function that came with it, at once, and the application is called by such callbacks and by those of
its subscriptions only. -/
structure CallsBack (log : List Event) : Prop where
  tells : ∀ pre r post f, log = pre ++ .called r :: post →
    (r.request.args.method = .read ∨ r.request.args.method = .write) →
    r.request.args.callback = .user f →
    ∃ status value rest, post = .told f status r.request.args.aliasName value :: rest
  prompted : ∀ pre f status aliasName value post, log = pre ++ .told f status aliasName value :: post →
    ∃ before r, pre = before ++ [.called r] ∧ Calls r.request f ∧
      aliasName = r.request.args.aliasName

/-- Every call of exosite_read or exosite_write that returned ERR_SUCCESS is in one place: it waits in
the queue of the object, a state machine holds its request, its callback was called, once, or the
request is one of those that the steps of the run dropped. -/
theorem user_calls_conserved (api : Api E) (protocolType : AppType) (vendor model sn : List UInt8)
    (globals : Globals Nat) (messageId : Int) (objects : Nat) (ext : E) (acts : List (Action E)) :
    let start := exositeNew api protocolType vendor model sn globals messageId objects ext
    let d := run (step api) start acts
    (acceptedCalls d.world.log).Perm (d.world.exo.requestQueue.map asCalled ++
      (heldCalls (books d) ++ (calledCalls d.world.log ++
        outputs (step api) (droppedIn api) start acts))) ∧ CallsBack d.world.log := by
  intro start d
  have hsound : Sound (books start) :=
    sound_exositeNew protocolType vendor model sn globals messageId objects ext
  have horder : InOrder api.config.maxRequestQueueSize d.world.exo d.world.log :=
    ((preserved_inOrder api).always acts ⟨hsound, rfl, Nat.zero_le _⟩).2
  have hconserved : Conserved (outputs (step api) (droppedIn api) start acts) (books d) :=
    (invariant_outputs (P := fun lost d => Sound (books d) ∧ Conserved lost (books d))
      (fun lost d a hd => ⟨sound_step api hd.1, hd.2.step api a hd.1⟩) acts
      (l := []) ⟨hsound, .nil⟩).2
  have hpaired : Paired d.world.log := paired_run hsound .nil acts
  refine ⟨?_, fun _ _ _ _ hlog hm hf => hpaired.tells hlog hm hf,
    fun _ _ _ _ _ _ hlog => hpaired.prompted hlog⟩
  rw [← horder.order]
  exact List.perm_append_comm.trans (hconserved.append_left _)

end

end ErSdk.UserCalls
