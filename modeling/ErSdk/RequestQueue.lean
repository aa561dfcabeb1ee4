import ErSdk.ExositeRuns

namespace ErSdk.RequestQueue

open ProtocolClientSm Ledger RequestArgs ExositeApi ExositeCalls ExositeBooks ExositeSteps ExositeRuns
open Sessions Runs Error

variable {E : Type}

/-- The arguments without the CIK, which is set when the request is handed on. -/
def asCalled (args : ExoRequestArgs) : ExoRequestArgs := { args with cik := fill [] }

/-- A read or write request that the main state machine is handed. -/
def handedCall : Event → Option ExoRequestArgs
  | .handed .main r =>
      if r.request.args.method = .read ∨ r.request.args.method = .write then
        some (asCalled r.request.args)
      else none
  | _ => none

/-- A call of exosite_read or exosite_write that returns ERR_SUCCESS. -/
def acceptedCall : Event → Option ExoRequestArgs
  | .accepted args => some (asCalled args)
  | _ => none

def handedCalls (log : List Event) : List ExoRequestArgs := log.filterMap handedCall

def acceptedCalls (log : List Event) : List ExoRequestArgs := log.filterMap acceptedCall

/-- The requests handed on are the first ones accepted, in their order, and the queue holds
the rest. -/
structure InOrder (limit : Nat) (exo : ExositeClass) (log : List Event) : Prop where
  order : handedCalls log ++ exo.requestQueue.map asCalled = acceptedCalls log
  bound : exo.requestQueue.length ≤ limit

def Neutral (e : Event) : Prop := handedCall e = none ∧ acceptedCall e = none

section

variable {limit : Nat} {exo exo' : ExositeClass} {log : List Event}

theorem InOrder.record (h : InOrder limit exo log) {events : List Event} (he : ∀ e ∈ events, Neutral e)
    (hq : exo'.requestQueue = exo.requestQueue) : InOrder limit exo' (log ++ events) := by
  have hhanded : events.filterMap handedCall = [] :=
    List.filterMap_eq_nil_iff.mpr (fun e hm => (he e hm).1)
  have haccepted : events.filterMap acceptedCall = [] :=
    List.filterMap_eq_nil_iff.mpr (fun e hm => (he e hm).2)
  refine ⟨?_, hq ▸ h.bound⟩
  unfold handedCalls acceptedCalls
  rw [List.filterMap_append, List.filterMap_append, hhanded, haccepted, List.append_nil,
    List.append_nil, hq]
  exact h.order

theorem InOrder.frame (h : InOrder limit exo log) (hq : exo'.requestQueue = exo.requestQueue) :
    InOrder limit exo' log := ⟨hq ▸ h.order, hq ▸ h.bound⟩

theorem InOrder.user {x y : Account} (hu : UserChange limit x y) (h : InOrder limit x.exo x.log) :
    InOrder limit y.exo y.log := by
  cases hu with
  | told f status aliasName value =>
      exact h.record (fun e he => List.mem_singleton.mp he ▸ ⟨rfl, rfl⟩) rfl
  | queued args hm hl =>
      refine ⟨?_, ?_⟩
      · show (x.log ++ [Event.accepted args]).filterMap handedCall ++
          (x.exo.requestQueue ++ [args]).map asCalled =
            (x.log ++ [Event.accepted args]).filterMap acceptedCall
        rw [List.filterMap_append, List.filterMap_append, List.map_append, ← List.append_assoc]
        have ho : x.log.filterMap handedCall ++ x.exo.requestQueue.map asCalled =
            x.log.filterMap acceptedCall := h.order
        rw [show [Event.accepted args].filterMap handedCall = [] from rfl, List.append_nil, ho]
        rfl
      · show (x.exo.requestQueue ++ [args]).length ≤ limit
        rw [List.length_append]
        exact hl
  | subscribed key args hm hc hk hp hmap => exact h.frame rfl

theorem InOrder.users {x y : Account} (hu : UserChanges limit x y) (h : InOrder limit x.exo x.log) :
    InOrder limit y.exo y.log := by
  induction hu with
  | refl => exact h
  | tail _ hc ih => exact ih.user hc

theorem InOrder.answered {args : ExoRequestArgs} {status : Int} {x y : Account}
    (ha : Answered limit args status x y) (h : InOrder limit x.exo x.log) :
    InOrder limit y.exo y.log := by
  cases ha with
  | data hm hu => exact h.users hu
  | subscribe hm hk hu => exact (h.users hu).frame rfl
  | accepted hm hv => exact h.record (fun e he => List.mem_singleton.mp he ▸ ⟨rfl, rfl⟩) rfl
  | malformed cik hm => exact h.frame rfl
  | refused hm => exact h.frame rfl
  | timestamp hm hn => exact h.frame rfl

theorem neutral_releases (request : Request) (type : RequestType) :
    ∀ e ∈ releases request type, Neutral e := by
  intro e he
  unfold releases at he
  split at he
  · exact absurd he List.not_mem_nil
  · exact List.mem_singleton.mp he ▸ ⟨rfl, rfl⟩

theorem flagged_requestQueue (status : Int) (exo : ExositeClass) :
    (flagged status exo).requestQueue = exo.requestQueue := by
  unfold flagged
  split <;> rfl

end

theorem neutral_singleton {e : Event} (h : Neutral e) : ∀ e' ∈ [e], Neutral e' :=
  fun _ he => List.mem_singleton.mp he ▸ h

section

variable {limit : Nat} {b b' : Books}

theorem InOrder.works {api : Api E} {deletes : Prop} {ok : Completion Request → Prop}
    (hs : Sound b) (h : InOrder api.config.maxRequestQueueSize b.exo b.log)
    (hw : Works api deletes ok b b') : InOrder api.config.maxRequestQueueSize b'.exo b'.log := by
  obtain ⟨-, hout⟩ := hw.outcome hs.nodup
  unfold Books.exo Books.log at h ⊢
  cases hout with
  | quiet hp hx => exact hx ▸ h
  | sent hr hp hx =>
      obtain hx | ⟨-, hx⟩ := hx
      · rw [hx]
        exact h.record (neutral_singleton ⟨rfl, rfl⟩) rfl
      · rw [hx]
        refine h.record (fun e he => ?_) rfl
        obtain rfl | he := List.mem_cons.mp he
        · exact ⟨rfl, rfl⟩
        · exact neutral_singleton ⟨rfl, rfl⟩ e he
  | @completed c y hs hok hr hp ha hx =>
      rw [hx]
      have hanswered := InOrder.answered ha
        (h.record (neutral_singleton ⟨rfl, rfl⟩) (flagged_requestQueue _ _))
      exact InOrder.record hanswered (neutral_releases _ _) rfl

theorem InOrder.pushed {args : ExoRequestArgs} {error : Int} (h : InOrder limit b.exo b.log)
    (hp : Pushed args b error b')
    (hm : args.method = .subscribe ∨ args.method = .activate ∨ args.method = .timestamp) :
    InOrder limit b'.exo b'.log := by
  have hcreated (object : Nat) : ∀ e ∈ [Event.created object], Neutral e :=
    neutral_singleton ⟨rfl, rfl⟩
  cases hp with
  | kept he => exact h
  | unfinished he => exact (h.record (hcreated _) rfl).record (neutral_singleton ⟨rfl, rfl⟩) rfl
  | refused n he => exact (h.record (hcreated _) rfl).record (neutral_singleton ⟨rfl, rfl⟩) rfl
  | handed hm' =>
      refine (h.record (hcreated _) rfl).record (neutral_singleton ⟨?_, rfl⟩) rfl
      unfold handedCall
      split
      · rename_i r heq
        obtain ⟨-, rfl⟩ := Event.handed.inj heq
        obtain hm | hm | hm := hm <;> simp [requestFor, hm]
      · rfl

theorem InOrder.obtained (h : InOrder limit b.exo b.log) (ho : Obtained b b') :
    InOrder limit b'.exo b'.log := by
  cases ho with
  | found => exact h
  | grown stype n => exact h.frame rfl

theorem handedCall_requestFor {args : ExoRequestArgs} (b : Books)
    (hm : args.method = .read ∨ args.method = .write) :
    handedCall (.handed (route b.exo.protocolType args).sm (requestFor b args)) =
      some (asCalled args) := by
  have hroute : route b.exo.protocolType args = ⟨.main, none, .normal⟩ := by
    unfold route
    obtain hm | hm := hm <;> rw [hm]
  unfold requestFor handedCall asCalled
  rw [hroute]
  dsimp only
  rw [if_pos hm]

theorem InOrder.queued {args : ExoRequestArgs} {rest : List ExoRequestArgs} {error : Int}
    (h : InOrder limit b.exo b.log) (hq : b.exo.requestQueue = args :: rest)
    (hm : args.method = .read ∨ args.method = .write) (hp : Pushed args b error b') :
    InOrder limit (if error = errSuccess then
      b'.mapExo (fun exo => { exo with requestQueue := exo.requestQueue.tail }) else b').exo
      b'.log := by
  have hcreated (object : Nat) : ∀ e ∈ [Event.created object], Neutral e :=
    neutral_singleton ⟨rfl, rfl⟩
  cases hp with
  | kept he =>
      rw [if_neg he]
      exact h
  | unfinished he =>
      rw [if_neg he]
      exact (h.record (hcreated _) rfl).record (neutral_singleton ⟨rfl, rfl⟩) rfl
  | refused n he =>
      rw [if_neg he]
      exact (h.record (hcreated _) rfl).record (neutral_singleton ⟨rfl, rfl⟩) rfl
  | handed hm' =>
      obtain ⟨ho, hbound⟩ : InOrder limit b.exo (b.log ++ [Event.created b.account.objects]) :=
        h.record (hcreated _) rfl
      have hcall := handedCall_requestFor b hm
      have hnot : acceptedCall (.handed (route b.exo.protocolType args).sm (requestFor b args)) =
        none := rfl
      generalize Event.handed (route b.exo.protocolType args).sm (requestFor b args) = e
        at hcall hnot ⊢
      rw [if_pos rfl]
      refine ⟨?_, ?_⟩
      · show (b.log ++ [Event.created b.account.objects] ++ [e]).filterMap handedCall ++
          b.exo.requestQueue.tail.map asCalled =
            (b.log ++ [Event.created b.account.objects] ++ [e]).filterMap acceptedCall
        unfold handedCalls acceptedCalls at ho
        rw [List.filterMap_append, List.filterMap_append (f := acceptedCall),
          List.filterMap_cons_some hcall, List.filterMap_cons_none hnot, List.filterMap_nil,
          List.filterMap_nil, List.append_nil, ← ho, hq, List.append_assoc]
        rfl
      · show b.exo.requestQueue.tail.length ≤ limit
        rw [List.length_tail]
        omega

theorem InOrder.send (hs : Sound b) (h : InOrder limit b.exo b.log) (hsend : Send b b') :
    InOrder limit b'.exo b'.log := by
  cases hsend with
  | @subscribe b₁ b₂ key item error hi hn ho hp =>
      have hpushed := (h.obtained ho).pushed hp (.inl (hs.tidy.items _ hi).method)
      split
      · exact hpushed.frame rfl
      · exact hpushed
  | @queued b₁ b₂ args rest error hq ho hp =>
      have hm := hs.tidy.queue args (hq ▸ List.mem_cons_self)
      obtain ⟨n, hexo⟩ := Obtained.exo ho
      have hqueued := (h.obtained ho).queued (by rw [hexo]; exact hq) hm hp
      split at hqueued
      · rename_i he
        rw [if_pos he]
        exact hqueued
      · rename_i he
        rw [if_neg he]
        exact hqueued

theorem InOrder.sends (hs : Sound b) (h : InOrder limit b.exo b.log) (hsends : Sends b b') :
    InOrder limit b'.exo b'.log := by
  induction hsends with
  | refl => exact h
  | tail hrest hsend ih => exact ih.send (hs.sends hrest) hsend

theorem InOrder.activates (hs : Sound b) (h : InOrder limit b.exo b.log) (ha : Activates b b') :
    InOrder limit b'.exo b'.log := by
  have he : InOrder limit b.enter.exo b.enter.log := h.frame rfl
  cases ha with
  | waits hw => exact he
  | @asks b₁ b₂ args next error hask ho hp =>
      have hm : args.method = .subscribe ∨ args.method = .activate ∨ args.method = .timestamp := by
        cases hask with
        | timestamp _ hm _ => exact .inr (.inr hm)
        | activate _ _ hm _ => exact .inr (.inl hm)
      have hpushed := (he.obtained ho).pushed hp hm
      split
      · exact hpushed.frame rfl
      · exact hpushed
  | loads cik hw hn => exact he.frame rfl
  | delays time requests attempts hw => exact he.frame rfl
  | clears time requests attempts hw => exact he.frame rfl
  | reactivates hw => exact he.frame rfl
  | sends hw hsends => exact he.sends hs.enter hsends

end

theorem preserved_inOrder (api : Api E) : Preserved api True (fun _ => True)
    (fun b => InOrder api.config.maxRequestQueueSize b.exo b.log) where
  works hs h hw := h.works hs hw
  activates hs h ha := h.activates hs ha
  user _ h hu := InOrder.user hu h
  allocate _ h := h

/-- A call that returns ERR_SUCCESS is on record with what it was called with, and no other. -/
def Records (method : Method) (aliasName : List UInt8) (value : Option (List UInt8))
    (onDone : Option Nat) (w : World E) (c : Int × World E) : Prop :=
  (c.1 = errSuccess ∧ ∃ args : ExoRequestArgs, args.method = method ∧
    args.aliasName = some aliasName ∧ args.value = value ∧ args.callback = userFunction onDone ∧
    acceptedCalls c.2.log = acceptedCalls w.log ++ [asCalled args]) ∨
  (c.1 ≠ errSuccess ∧ acceptedCalls c.2.log = acceptedCalls w.log)

theorem requestQueuePush_records (api : Api E) {args : ExoRequestArgs} {method : Method}
    {aliasName : List UInt8} {value : Option (List UInt8)} {onDone : Option Nat}
    (hm : args.method = method) (hn : args.aliasName = some aliasName) (hv : args.value = value)
    (hc : args.callback = userFunction onDone) (w : World E) :
    Records method aliasName value onDone w (requestQueuePush api args w) := by
  obtain ⟨he, h⟩ | ⟨id, he, -, h⟩ := requestQueuePush_cases api args w
  · exact .inr ⟨he, congrArg (fun x => acceptedCalls x.log) h⟩
  · refine .inl ⟨he, copyArgs { args with appType := w.exo.protocolType } id, hm, hn, hv, hc, ?_⟩
    have hlog := congrArg (fun x => acceptedCalls x.log) h
    refine hlog.trans ?_
    show (w.log ++ [_]).filterMap acceptedCall = _
    rw [List.filterMap_append]
    rfl

theorem sendQueued_failed (api : Api E) {args : ExoRequestArgs} {rest : List ExoRequestArgs}
    {error : Int} {d d' : Device E} (hq : d.world.exo.requestQueue = args :: rest)
    (h : pcsmTransmitQueuePushNoCopy api args d = some (error, d')) (he : error ≠ errSuccess) :
    sendQueued api d = some d' ∧ d'.world.exo.requestQueue = args :: rest := by
  obtain ⟨b, ho, hp⟩ := noCopy_pushed api h
  obtain ⟨n, hn⟩ := Obtained.exo ho
  have hexo : d'.world.exo = { d.world.exo with numberofStateMachines := n } :=
    (Pushed.exo hp).trans hn
  refine ⟨?_, by rw [hexo]; exact hq⟩
  unfold sendQueued
  rw [hq]
  simp only [h, Option.bind_eq_bind, Option.bind_some, if_neg he]

/-- In every state of every run the requests handed to the main state machine are the first
of those that were accepted, in order, and the queue holds the rest. A request that does
not get into the state machine stays at the head of the queue. -/
theorem calls_handed_in_order (api : Api E) (protocolType : AppType) (vendor model sn : List UInt8)
    (globals : Globals Nat) (messageId : Int) (objects : Nat) (ext : E) (acts : List (Action E)) :
    let d := run (step api)
      (exositeNew api protocolType vendor model sn globals messageId objects ext) acts
    InOrder api.config.maxRequestQueueSize d.world.exo d.world.log ∧
      (∀ aliasName onRead, Records .read aliasName none onRead d.world
        (exositeRead api aliasName onRead d.world)) ∧
      (∀ aliasName value onWrite, Records .write aliasName (some value) onWrite d.world
        (exositeWrite api aliasName value onWrite d.world)) ∧
      (∀ args rest error d', d.world.exo.requestQueue = args :: rest →
        pcsmTransmitQueuePushNoCopy api args d = some (error, d') → error ≠ errSuccess →
          sendQueued api d = some d' ∧ d'.world.exo.requestQueue = args :: rest) ∧
      ∀ a, handedCalls (step api d a).world.log = handedCalls d.world.log →
        d.world.exo.requestQueue.map asCalled <+:
          (step api d a).world.exo.requestQueue.map asCalled := by
  intro d
  have hstart : Sound (books (exositeNew api protocolType vendor model sn globals messageId objects ext)) ∧
      InOrder api.config.maxRequestQueueSize (exositeNew api protocolType vendor model sn globals
        messageId objects ext).world.exo [] :=
    ⟨sound_exositeNew protocolType vendor model sn globals messageId objects ext,
      rfl, Nat.zero_le _⟩
  have hd := (preserved_inOrder api).always acts hstart
  refine ⟨hd.2, fun aliasName onRead => ?_, fun aliasName value onWrite => ?_,
    fun args rest error d' hq h he => sendQueued_failed api hq h he, fun a ha => ?_⟩
  · exact requestQueuePush_records api rfl rfl rfl rfl d.world
  · exact requestQueuePush_records api rfl rfl rfl rfl d.world
  · have hnext := (preserved_inOrder api).always [a] hd
    have hprefix := ((preserved_extends api d.world.log).always [a] ⟨hd.1, List.prefix_rfl⟩).2
    have haccepted : acceptedCalls d.world.log <+: acceptedCalls (step api d a).world.log :=
      List.IsPrefix.filterMap acceptedCall hprefix
    have hbefore : _ = acceptedCalls d.world.log := hd.2.order
    have hafter : _ = acceptedCalls (step api d a).world.log := hnext.2.order
    rw [← hbefore, ← hafter] at haccepted
    change handedCalls d.world.log ++ _ <+: handedCalls (step api d a).world.log ++ _ at haccepted
    rw [ha, List.prefix_append_right_inj] at haccepted
    exact haccepted

end ErSdk.RequestQueue
