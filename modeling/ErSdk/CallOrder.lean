import ErSdk.RequestOrder
import ErSdk.Subscriptions
import ErSdk.UserCalls

namespace ErSdk.CallOrder

open ProtocolClientSm Ledger SmMoves RequestArgs ExositeApi ExositeCalls ExositeBooks ExositeSteps
open ExositeRuns RequestQueue RequestOrder UserCalls Runs Error

variable {E : Type}

/-- The read and write requests that a state machine still has to answer, in their order. -/
def waiting (h : Holdings Request) : List ExoRequestArgs := (line h).filterMap dataOf

/-- The list of state machines: what each one is for, and what it holds. -/
abbrev Shelf := List (SmType × Holdings Request)

def labelled (items : List SmListItem) : Shelf := items.map (fun item => (item.type, holdings item.sm))

def allWaiting (shelf : Shelf) : List ExoRequestArgs := shelf.flatMap (fun e => waiting e.2)

/-- The calls handed on were called back first, in their order, and the one main state machine has
the rest. -/
structure Served (shelf : Shelf) (log : List Event) : Prop where
  one : ∀ e ∈ shelf, OneByOne e.2
  single : (shelf.map Prod.fst).count .main ≤ 1
  sorted : ∀ e ∈ shelf, e.1 ≠ .main → waiting e.2 = []
  order : handedCalls log = calledCalls log ++ allWaiting shelf

section

variable {shelf pre post : Shelf} {type : SmType} {h g : Holdings Request} {log log' : List Event}

theorem allWaiting_append (shelf more : Shelf) :
    allWaiting (shelf ++ more) = allWaiting shelf ++ allWaiting more := List.flatMap_append

theorem Served.replace (handed called : List ExoRequestArgs)
    (hs : Served (pre ++ (type, h) :: post) log) (hone : OneByOne g)
    (hhanded : handedCalls log' = handedCalls log ++ handed)
    (hcalled : calledCalls log' = calledCalls log ++ called)
    (hdata : waiting h ++ handed = called ++ waiting g) (hother : type ≠ .main → handed = []) :
    Served (pre ++ (type, g) :: post) log' := by
  have hrest : ∀ e, e ∈ pre ∨ e ∈ post → e ∈ pre ++ (type, h) :: post := by
    intro e he
    rw [List.mem_append, List.mem_cons]
    exact he.imp_right .inr
  have hmem : ∀ e ∈ pre ++ (type, g) :: post, e = (type, g) ∨ e ∈ pre ∨ e ∈ post := by
    intro e he
    obtain he | he := List.mem_append.mp he
    · exact .inr (.inl he)
    · exact (List.mem_cons.mp he).imp_right .inr
  have hhere : type ≠ .main → handed = [] ∧ called = [] ∧ waiting g = [] ∧ waiting h = [] := by
    intro ht
    have hempty : waiting h = [] := hs.sorted _ (List.mem_append_right _ List.mem_cons_self) ht
    rw [hempty, hother ht] at hdata
    obtain ⟨hc, hg⟩ := List.append_eq_nil_iff.mp hdata.symm
    exact ⟨hother ht, hc, hg, hempty⟩
  refine ⟨fun e he => ?_, ?_, fun e he ht => ?_, ?_⟩
  · obtain rfl | he := hmem e he
    · exact hone
    · exact hs.one e (hrest e he)
  · have hsingle := hs.single
    rw [List.map_append, List.map_cons] at hsingle ⊢
    exact hsingle
  · obtain rfl | he := hmem e he
    · exact (hhere ht).2.2.1
    · exact hs.sorted e (hrest e he) ht
  · have horder := hs.order
    unfold allWaiting at horder ⊢
    rw [List.flatMap_append, List.flatMap_cons] at horder ⊢
    rw [hhanded, hcalled, horder]
    by_cases ht : type = .main
    · -- the other machines have no calls
      have hcount : (pre.map Prod.fst).count .main = 0 ∧ (post.map Prod.fst).count .main = 0 := by
        have hsingle := hs.single
        rw [List.map_append, List.map_cons, List.count_append, ht, List.count_cons_self] at hsingle
        omega
      have hnone {l : Shelf} (hl : ∀ e ∈ l, e ∈ pre ++ (type, h) :: post)
          (hc : (l.map Prod.fst).count .main = 0) : l.flatMap (fun e => waiting e.2) = [] := by
        refine List.flatMap_eq_nil_iff.mpr fun e he => hs.sorted e (hl e he) fun hm => ?_
        exact List.count_eq_zero.mp hc (hm ▸ List.mem_map_of_mem he)
      rw [hnone (fun e he => hrest e (.inl he)) hcount.1, hnone (fun e he => hrest e (.inr he)) hcount.2]
      simp only [List.nil_append, List.append_nil, List.append_assoc]
      exact congrArg _ hdata
    · obtain ⟨rfl, rfl, hg, hempty⟩ := hhere ht
      rw [hg, hempty, List.append_nil, List.append_nil]

theorem Served.frame (hs : Served shelf log) {events : List Event} (he : ∀ e ∈ events, Aside e) :
    Served shelf (log ++ events) := by
  refine ⟨hs.one, hs.single, hs.sorted, ?_⟩
  rw [handedCalls_append fun e hm => (he e hm).1, calledCalls_append fun e hm => (he e hm).2]
  exact hs.order

theorem waiting_of_empty (h : Holdings Request) (hq : h.queue = []) (ha : h.active = none) (hs : h.sent = []) :
    waiting h = [] := by
  simp [waiting, line, underWay, hq, ha, hs]

theorem Served.grow (hs : Served shelf log) (hone : OneByOne h) (hempty : waiting h = [])
    (hnew : type = .main → ∀ e ∈ shelf, e.1 ≠ .main) : Served (shelf ++ [(type, h)]) log := by
  refine ⟨fun e he => ?_, ?_, fun e he ht => ?_, ?_⟩
  · obtain he | he := List.mem_append.mp he
    · exact hs.one e he
    · exact List.mem_singleton.mp he ▸ hone
  · rw [List.map_append, List.count_append]
    by_cases ht : type = .main
    · have hnone : (shelf.map Prod.fst).count .main = 0 := by
        refine List.count_eq_zero.mpr fun hm => ?_
        obtain ⟨e, he, hmain⟩ := List.mem_map.mp hm
        exact hnew ht e he hmain
      rw [List.map_singleton, List.count_singleton, hnone]
      split <;> decide
    · rw [List.map_singleton, List.count_singleton, if_neg (by simpa using ht)]
      exact hs.single
  · obtain he | he := List.mem_append.mp he
    · exact hs.sorted e he ht
    · exact List.mem_singleton.mp he ▸ hempty
  · have hone : allWaiting [(type, h)] = [] := by simp [allWaiting, hempty]
    rw [allWaiting_append, hone, List.append_nil]
    exact hs.order

theorem Served.clear (hs : Served shelf log) :
    Served (shelf.map (fun e => (e.1, { e.2 with aborting := true }))) log := by
  refine ⟨fun e he => ?_, ?_, fun e he ht => ?_, ?_⟩
  · obtain ⟨e', he', rfl⟩ := List.mem_map.mp he
    obtain ⟨htype, hlimit, hcount, hroom⟩ := hs.one e' he'
    exact ⟨htype, hlimit, hcount, hroom⟩
  · rw [List.map_map]
    exact hs.single
  · obtain ⟨e', he', rfl⟩ := List.mem_map.mp he
    exact hs.sorted e' he' ht
  · unfold allWaiting
    rw [List.flatMap_map]
    exact hs.order

end

theorem handedCall_route {protocolType : AppType} {args : ExoRequestArgs} {r : ProtocolClientRequest Request}
    (hm : r.request.args.method = args.method) :
    handedCall (.handed (route protocolType args).sm r) = dataOf r := by
  by_cases hd : r.request.args.method = .read ∨ r.request.args.method = .write
  · have hsm : (route protocolType args).sm = .main := by
      unfold route
      rw [← hm]
      obtain hd | hd := hd <;> rw [hd]
    rw [hsm]
    rfl
  · rw [handedCall_of_not hd, dataOf, if_neg hd]

theorem handedCall_of_type {type : SmType} (ht : type ≠ .main) (r : ProtocolClientRequest Request) :
    handedCall (.handed type r) = none := by
  cases type with
  | main => exact absurd rfl ht
  | httpLongPoll | timeSync => rfl

theorem findSm_none_type {type : SmType} {l : List SmListItem} {i : Nat}
    (h : findSm type none l i = some none) : ∀ item ∈ l, item.type ≠ type := by
  induction l generalizing i with
  | nil => exact List.forall_mem_nil _
  | cons head l ih =>
      unfold findSm at h
      by_cases ht : head.type = type
      · rw [if_pos ht] at h
        cases h
      · rw [if_neg ht] at h
        exact List.forall_mem_cons.mpr ⟨ht, ih h⟩

/-- A device that speaks HTTP, and answers in order. -/
structure InCourse (d : Device E) : Prop where
  http : d.world.exo.protocolType = .http
  served : Served (labelled d.machines) d.world.log

theorem InCourse.world {d : Device E} (h : InCourse d) {w : World E}
    (hp : w.exo.protocolType = d.world.exo.protocolType) {events : List Event}
    (hlog : w.log = d.world.log ++ events) (he : ∀ e ∈ events, Aside e) :
    InCourse { d with world := w } :=
  ⟨hp.trans h.http, hlog ▸ h.served.frame he⟩

theorem InCourse.same {d : Device E} (h : InCourse d) {w : World E} (hw : account w = account d.world) :
    InCourse { d with world := w } :=
  h.world (congrArg (fun x => x.exo.protocolType) hw)
    ((congrArg Account.log hw).trans (List.append_nil _).symm) (List.forall_mem_nil _)

theorem InCourse.mapExo {d : Device E} (h : InCourse d) {f : ExositeClass → ExositeClass}
    (hf : (f d.world.exo).protocolType = d.world.exo.protocolType) : InCourse (d.mapExo f) :=
  ⟨hf.trans h.http, h.served⟩

theorem InCourse.clear {d : Device E} (h : InCourse d) : InCourse (clearSms d) := by
  refine ⟨h.http, ?_⟩
  have hshelf : labelled (clearSms d).machines =
      (labelled d.machines).map (fun e => (e.1, { e.2 with aborting := true })) := by
    unfold labelled clearSms
    simp only [List.map_map]
    rfl
  rw [hshelf]
  exact h.served.clear

section

variable {api : Api E}

theorem InCourse.created {d d' : Device E} {name : Option (List UInt8)} {type : SmType} {error : Int}
    (h : InCourse d) (hnew : type = .main → ∀ item ∈ d.machines, item.type ≠ .main)
    (hc : createNewSm api name type d = (error, d')) : InCourse d' := by
  unfold createNewSm at hc
  rw [h.http] at hc
  dsimp only [protocolClientConfig] at hc
  split at hc
  · cases hc
    exact h
  · split at hc
    · cases hc
      exact h.same rfl
    · split at hc
      · cases hc
        exact h.same rfl
      · cases hc
        refine ⟨h.http, ?_⟩
        show Served (labelled (d.machines ++ [_])) d.world.log
        unfold labelled
        rw [List.map_append]
        refine h.served.grow (OneByOne.start _ _ _) (waiting_of_empty _ rfl rfl rfl) fun ht e he => ?_
        obtain ⟨item, hitem, rfl⟩ := List.mem_map.mp he
        exact hnew ht item hitem

theorem InCourse.obtained {d d' : Device E} {protocolType : AppType} {args : ExoRequestArgs}
    {c : Int × Option Nat} (h : InCourse d)
    (ho : obtainSm api (route protocolType args) args d = some (c, d')) : InCourse d' := by
  unfold obtainSm at ho
  obtain ⟨place, hf, ho⟩ := Option.bind_eq_some_iff.mp ho
  cases place with
  | some i =>
      cases ho
      exact h
  | none =>
      have hnew : (route protocolType args).sm = .main → ∀ item ∈ d.machines, item.type ≠ .main := by
        intro hm
        have hname : (route protocolType args).name = none := by
          cases hmethod : args.method <;> cases protocolType <;> simp_all [route]
        rw [hm, hname] at hf
        exact findSm_none_type hf
      have hcreated := h.created hnew (Prod.eta (createNewSm api (newName (route protocolType
        args).sm args) (route protocolType args).sm d)).symm
      dsimp only at ho
      split at ho
      · cases ho
        exact hcreated
      · obtain ⟨i, -, ho⟩ := Option.bind_eq_some_iff.mp ho
        cases ho
        exact hcreated

theorem labelled_put {d : Device E} {i : Nat} {item : SmListItem} {pre post : List SmListItem}
    (hset : ∀ b, d.machines.set i b = pre ++ b :: post) (st : St Request Nat (World E)) :
    labelled (d.put i item st).machines =
      labelled pre ++ (item.type, holdings st.sm) :: labelled post := by
  unfold labelled Device.put
  dsimp only
  rw [hset, List.map_append]
  rfl

theorem labelled_at {machines pre post : List SmListItem} {item : SmListItem}
    (hm : machines = pre ++ item :: post) :
    labelled machines = labelled pre ++ (item.type, holdings item.sm) :: labelled post := by
  unfold labelled
  rw [hm, List.map_append]
  rfl

theorem waiting_accept {h : Holdings Request} {r : ProtocolClientRequest Request} (hr : asAccepted r = r) :
    waiting { h with queue := h.queue ++ [r] } = waiting h ++ (dataOf r).toList := by
  have hline : line { h with queue := h.queue ++ [r] } = line h ++ [r] := by
    simp [line, underWay, hr]
  unfold waiting
  rw [hline, List.filterMap_append]
  refine congrArg _ ?_
  cases hd : dataOf r with
  | none => exact List.filterMap_cons_none hd
  | some args => exact List.filterMap_cons_some hd

theorem InCourse.transmitted {d d' : Device E} {i : Nat} {item : SmListItem} {protocolType : AppType}
    {args : ExoRequestArgs} {cik : CikBuffer} {type : RequestType} {error : Int} (h : InCourse d)
    (hi : d.machines[i]? = some item) (ht : item.type = (route protocolType args).sm)
    (hc : transmitTo api i item type { args with cik } d = (error, d')) : InCourse d' := by
  have hmade : InCourse (Device.mapWorld (fun w : World E =>
      { w.record (.created w.objects) with objects := w.objects + 1 })
      (d.call (api.requestNew { args with cik })).2) :=
    h.world (w := { World.record (.created d.world.objects)
        (d.world.call (api.requestNew { args with cik })).2 with objects := d.world.objects + 1 })
      rfl rfl (List.forall_mem_singleton.mpr (aside_created _))
  unfold transmitTo at hc
  dsimp only at hc
  split at hc
  · cases hc
    split
    · exact hmade.world rfl rfl (List.forall_mem_singleton.mpr ⟨rfl, rfl⟩)
    · exact h.same rfl
  · have hmachines : (Device.mapWorld (fun w : World E =>
        { w.record (.created w.objects) with objects := w.objects + 1 })
        (d.call (api.requestNew { args with cik })).2).machines = d.machines := rfl
    have hobject : (d.call (api.requestNew { args with cik })).2.world.objects = d.world.objects := rfl
    generalize Device.mapWorld _ _ = made at hc hmade hmachines
    obtain ⟨pre, post, hm, hset⟩ := split_at (hmachines.symm ▸ hi)
    obtain ⟨hhttp, hserved⟩ := hmade
    rw [labelled_at hm] at hserved
    have hcases := SmMoves.transmit_cases (watches_machineEnv api i True) type
      ⟨d.world.objects, { args with cik }⟩ args.messageId (made.view item)
    generalize protocolClientSmTransmit (machineEnv api i) type ⟨d.world.objects, { args with cik }⟩
      args.messageId (made.view item) = t at hc hcases
    obtain ⟨he, hlook, -⟩ | ⟨he, -, hlook⟩ := hcases
    · rw [if_pos he] at hc
      cases hc
      obtain ⟨hholdings, haccount⟩ := Prod.mk.inj hlook
      refine ⟨(congrArg (fun x => x.exo.protocolType) haccount).trans hhttp, ?_⟩
      show Served (labelled (made.put i item t.2).machines) (t.2.world.log ++ [_])
      rw [labelled_put hset, hholdings, show t.2.world.log = made.world.log from
        congrArg Account.log haccount]
      exact hserved.frame (List.forall_mem_singleton.mpr ⟨rfl, rfl⟩)
    · rw [if_neg (not_not.mpr he)] at hc
      cases hc
      obtain ⟨hholdings, haccount⟩ := Prod.mk.inj hlook
      refine ⟨(congrArg (fun x => x.exo.protocolType) haccount).trans hhttp, ?_⟩
      show Served (labelled (made.put i item t.2).machines) (t.2.world.log ++ [_])
      rw [labelled_put hset, hholdings, show t.2.world.log = made.world.log from
        congrArg Account.log haccount]
      generalize hr : newRequest type ⟨d.world.objects, { args with cik }⟩ args.messageId
        (made.view item) = r
      have hmethod : r.request.args.method = args.method := by rw [← hr]; rfl
      have haccept : asAccepted r = r := by rw [← hr]; rfl
      have hcall : handedCall (.handed item.type r) = dataOf r := by
        rw [ht]
        exact handedCall_route hmethod
      obtain ⟨htype, hlimit, hcount, hroom⟩ := hserved.one _ (List.mem_append_right _ List.mem_cons_self)
      refine Served.replace (dataOf r).toList [] hserved ⟨htype, hlimit, hcount, hroom⟩ ?_ ?_
        (waiting_accept haccept).symm fun hother => ?_
      · unfold handedCalls
        rw [List.filterMap_append, ← hcall]
        cases hd : handedCall (.handed item.type r) with
        | none => rw [List.filterMap_cons_none hd]; rfl
        | some args => rw [List.filterMap_cons_some hd]; rfl
      · rw [List.append_nil]
        exact calledCalls_append (List.forall_mem_singleton.mpr rfl)
      · rw [← hcall, handedCall_of_type hother]
        rfl

theorem InCourse.pushed {d d' : Device E} {args : ExoRequestArgs} {error : Int} (h : InCourse d)
    (hc : pcsmTransmitQueuePushNoCopy api args d = some (error, d')) : InCourse d' := by
  unfold pcsmTransmitQueuePushNoCopy at hc
  obtain ⟨⟨⟨e, found⟩, d₁⟩, ho, hc⟩ := Option.bind_eq_some_iff.mp hc
  have hd₁ := h.obtained ho
  obtain ⟨-, -, hitem⟩ := obtainSm_cases api ho
  dsimp only at hc
  split at hc
  · cases hc
    exact hd₁
  · rename_i i item hfound
    obtain ⟨j, hj, hentry⟩ := Option.bind_eq_some_iff.mp hfound
    obtain ⟨item', hi, he⟩ := Option.map_eq_some_iff.mp hentry
    obtain ⟨rfl, rfl⟩ := Prod.mk.inj he
    obtain ⟨item'', hi', ht, -⟩ := hitem j hj
    obtain rfl := Option.some.inj (hi.symm.trans hi')
    split at hc
    · cases hc
      exact hd₁
    · exact hd₁.transmitted hi ht (Option.some.inj hc)

theorem InCourse.copied {d d' : Device E} {args : ExoRequestArgs} {error : Int} (h : InCourse d)
    (hc : pcsmTransmitQueuePush api args d = some (error, d')) : InCourse d' := by
  unfold pcsmTransmitQueuePush at hc
  obtain ⟨w, hw, ⟨e, -, hn⟩ | ⟨id, hn⟩⟩ := exoRequestArgsNew_cases api args d.world
  · rw [hn] at hc
    cases hc
    exact h.same hw
  · rw [hn] at hc
    exact (h.same hw).pushed hc

theorem InCourse.subscribes {rest : Dictionary SubscribeItem} {d d' : Device E} (h : InCourse d)
    (hc : sendSubscribes api rest d = some d') : InCourse d' := by
  induction rest generalizing d with
  | nil =>
      cases hc
      exact h
  | cons entry rest ih =>
      unfold sendSubscribes at hc
      dsimp only at hc
      split at hc
      · exact ih h hc
      · obtain ⟨⟨error, d₁⟩, hpush, hc⟩ := Option.bind_eq_some_iff.mp hc
        refine ih ?_ hc
        split
        · exact (h.pushed hpush).mapExo rfl
        · exact h.pushed hpush

theorem InCourse.queued {d d' : Device E} (h : InCourse d) (hc : sendQueued api d = some d') :
    InCourse d' := by
  unfold sendQueued at hc
  split at hc
  · cases hc
    exact h
  · obtain ⟨⟨error, d₁⟩, hpush, hc⟩ := Option.bind_eq_some_iff.mp hc
    cases hc
    split
    · exact (h.pushed hpush).mapExo rfl
    · exact h.pushed hpush

theorem InCourse.asked {d d' : Device E} {args : ExoRequestArgs} {next : ActivateState} (h : InCourse d)
    (hc : (pcsmTransmitQueuePush api args d).bind (fun c =>
      some (if c.1 = errSuccess then c.2.mapExo (ExositeClass.moveTo next) else c.2)) = some d') :
    InCourse d' := by
  obtain ⟨⟨error, d₁⟩, hpush, hc⟩ := Option.bind_eq_some_iff.mp hc
  cases hc
  split
  · exact (h.copied hpush).mapExo rfl
  · exact h.copied hpush

theorem InCourse.activateSm {d d' : Device E} (h : InCourse d) (hc : activateSm api d = some d') :
    InCourse d' := by
  unfold ExositeApi.activateSm at hc
  have he : InCourse (d.mapExo (fun exo => { exo with activateState := some d.world.exo.nextState })) :=
    h.mapExo rfl
  dsimp only at hc
  generalize d.mapExo _ = e at hc he
  cases hs : d.world.exo.nextState with
  | sendGetTimestamp =>
      rw [hs] at hc
      exact he.asked hc
  | waitTimestamp | waitActivate =>
      rw [hs] at hc
      cases hc
      exact he
  | init =>
      rw [hs] at hc
      cases hc
      obtain ⟨cik, next, hload, -⟩ := loadDeviceCik_loads api e.world.exo
      exact he.mapExo (by rw [hload])
  | start =>
      rw [hs] at hc
      cases hc
      obtain ⟨cik, haccount, -⟩ := apiGetCik_cases api e.world
      have hread : InCourse { e with world := (apiGetCik api e.world).2 } :=
        he.world (congrArg (fun x => x.exo.protocolType) haccount)
          ((congrArg Account.log haccount).trans (List.append_nil _).symm) (List.forall_mem_nil _)
      exact hread.mapExo rfl
  | prepareActivate =>
      rw [hs] at hc
      cases hc
      obtain ⟨time, requests, attempts, haccount⟩ := shouldDelayActivate_account api e.world
      have hdelayed : InCourse { e with world := (shouldDelayActivate api e.world).2 } :=
        he.world (congrArg (fun x => x.exo.protocolType) haccount)
          ((congrArg Account.log haccount).trans (List.append_nil _).symm) (List.forall_mem_nil _)
      split
      · exact hdelayed
      · exact hdelayed.clear.mapExo rfl
  | sendActivate =>
      rw [hs] at hc
      dsimp only at hc
      split at hc
      · cases hc
        exact he
      · exact he.asked hc
  | activated =>
      rw [hs] at hc
      dsimp only at hc
      split at hc
      · cases hc
        exact (he.mapExo (f := ExositeClass.setEvent false) rfl).mapExo rfl
      · obtain ⟨e', hsubscribe, hc⟩ := Option.bind_eq_some_iff.mp hc
        exact (he.subscribes hsubscribe).queued hc

theorem Served.move {pre post : Shelf} {type : SmType} {p q : Holdings Request × Account}
    (hs : Served (pre ++ (type, p.1) :: post) p.2.log)
    (hp : ∀ r ∈ stock p.1, Proper r.request.args)
    (hm : Move (hooks api True) (fun c => c.why ≠ .abort) p q) :
    Served (pre ++ (type, q.1) :: post) q.2.log := by
  have hone : OneByOne p.1 := hs.one _ (List.mem_append_right _ List.mem_cons_self)
  obtain ⟨hquiet, hx⟩ | ⟨c, hbefore, hafter, hsel, hok, -, x, hx, hcall⟩ := quiet_or_completes hm
  · obtain ⟨hafter, hline, -⟩ := hone.quiet hquiet
    have hlog : ∃ events, q.2.log = p.2.log ++ events ∧ ∀ e ∈ events, Aside e := by
      obtain hx | ⟨r, e, hx | ⟨-, hx⟩⟩ | ⟨rcv, hx⟩ | hx := hx
      · exact ⟨[], hx ▸ (List.append_nil _).symm, List.forall_mem_nil _⟩
      · exact ⟨_, congrArg Account.log hx, List.forall_mem_singleton.mpr ⟨rfl, rfl⟩⟩
      · exact ⟨_, congrArg Account.log hx,
          List.forall_mem_cons.mpr ⟨⟨rfl, rfl⟩, List.forall_mem_singleton.mpr ⟨rfl, rfl⟩⟩⟩
      · exact ⟨[], (congrArg Account.log hx).trans (List.append_nil _).symm, List.forall_mem_nil _⟩
      · exact ⟨[], (congrArg Account.log hx).trans (List.append_nil _).symm, List.forall_mem_nil _⟩
    obtain ⟨events, hlog, he⟩ := hlog
    rw [hlog]
    have hmoved : Served (pre ++ (type, q.1) :: post) p.2.log := by
      refine Served.replace [] [] hs hafter (List.append_nil _).symm (List.append_nil _).symm ?_
        fun _ => rfl
      unfold waiting
      rw [hline, List.append_nil]
      rfl
    exact hmoved.frame he
  · obtain ⟨hone, hfirst, hfree, hqueue⟩ := (hbefore ▸ hone).complete hsel hok
    have hproper : Proper c.request.request.args := by
      have hheld : asHanded c.request ∈ stock p.1 := by
        rw [hbefore]
        exact List.mem_map_of_mem hsel.mem_held
      exact hp (asHanded c.request) hheld
    have hsame : x = p.2 := by
      obtain hx | ⟨rcv, hx⟩ := hx <;> exact hx
    rw [hsame] at hcall
    obtain ⟨y, ha, hy⟩ := hcall hproper
    obtain ⟨hhanded, hcalled⟩ := completed_calls ha c.response.requestType
    rw [← hy] at hhanded hcalled
    refine Served.replace [] (dataOf c.request).toList hs (hafter ▸ hone)
      (hhanded.trans (List.append_nil _).symm) hcalled ?_ fun _ => rfl
    have hline : line c.before = asAccepted c.request :: line c.after := by
      unfold line
      rw [hfirst, hfree, hqueue]
      rfl
    unfold waiting
    rw [hbefore, hafter, hline, List.append_nil]
    cases hd : dataOf c.request with
    | none => exact List.filterMap_cons_none hd
    | some args => exact List.filterMap_cons_some hd

theorem InCourse.task {d : Device E} {i : Nat} {item : SmListItem} (h : InCourse d)
    (hsound : Sound (books d)) (hi : d.machines[i]? = some item)
    (hok : ∀ c ∈ completions (machineEnv api i) i (d.view item), c.why ≠ .abort) :
    InCourse (step api d (.task i)) := by
  obtain ⟨pre, post, hm, hset⟩ := split_at hi
  have hmoves : Moves (hooks api True) (fun c => c.why ≠ .abort) (holdings item.sm, account d.world)
      (look account (protocolClientSmTask (machineEnv api i) i (d.view item))) :=
    task_moves_of_send (watches_machineEnv api i True) i (d.view item)
      (fun _ _ => seesSend_of_keepsSent (fun _ _ => .inl trivial)) hok
  have hstart : Sound ⟨heldBy pre ++ holdings item.sm :: heldBy post, d.globals.heap, account d.world⟩ :=
    books_at hm ▸ hsound
  have hserved : Served (labelled pre ++ (item.type, holdings item.sm) :: labelled post) d.world.log :=
    labelled_at hm ▸ h.served
  obtain ⟨-, hhttp, hend⟩ := hmoves.invariant (P := fun p =>
    Sound ⟨heldBy pre ++ p.1 :: heldBy post, d.globals.heap, p.2⟩ ∧ p.2.exo.protocolType = .http ∧
      Served (labelled pre ++ (item.type, p.1) :: labelled post) p.2.log) (fun p q hmove hp => by
    obtain ⟨hs, hhttp, hp⟩ := hp
    have hproper (r) (hr : r ∈ stock p.1) : Proper r.request.args :=
      (hs.made r ((held_perm _ _ _ _ _).mem_iff.mpr (List.mem_append_left _ hr))).1
    have hw : Works api True (fun c => c.why ≠ .abort)
        ⟨heldBy pre ++ p.1 :: heldBy post, d.globals.heap, p.2⟩
        ⟨heldBy pre ++ q.1 :: heldBy post, d.globals.heap, q.2⟩ := .act (act_of_move hproper hmove)
    exact ⟨hs.works hw, (Subscriptions.protocolType_works hs hw).trans hhttp, hp.move hproper hmove⟩)
    ⟨hstart, h.http, hserved⟩
  rw [step_task hi]
  refine ⟨hhttp, ?_⟩
  rw [labelled_put hset]
  exact hend

theorem InCourse.step {d : Device E} {a : Action E} (hsound : Sound (books d)) (h : InCourse d)
    (hok : Calm api True (fun c => c.why ≠ .abort) d a) : InCourse (step api d a) := by
  cases a with
  | activateSm =>
      unfold ExositeApi.step
      cases hd : ExositeApi.activateSm api d with
      | none => exact h
      | some d' => exact h.activateSm hd
  | task i =>
      cases hi : d.machines[i]? with
      | none =>
          rw [step_no_task hi]
          exact h
      | some item => exact h.task hsound hi (hok item hi).1
  | user c =>
      have hchanges := userCall_changes api d.world c
      obtain ⟨events, hlog, he⟩ := users_aside hchanges
      exact h.world (hsound.tidy.users hchanges).2 hlog he
  | interfere connectingSm startTime nextState allocated messageId f => exact ⟨h.http, h.served⟩

/-- Over HTTP the application is called back for its reads and writes in the order in which it made
them: what was called back comes first, then what the one main state machine has, and then the queue
of the object, in every run in which no request is aborted. -/
theorem calls_answered_in_order (api : Api E) (vendor model sn : List UInt8) (globals : Globals Nat)
    (messageId : Int) (objects : Nat) (ext : E) (acts : List (Action E))
    (h : Guarded (ExositeApi.step api) (Calm api True fun c => c.why ≠ .abort)
      (exositeNew api .http vendor model sn globals messageId objects ext) acts) :
    let d := run (ExositeApi.step api)
      (exositeNew api .http vendor model sn globals messageId objects ext) acts
    acceptedCalls d.world.log = calledCalls d.world.log ++
        (allWaiting (labelled d.machines) ++ d.world.exo.requestQueue.map asCalled) ∧
      (d.machines.map SmListItem.type).count .main ≤ 1 ∧
      ∀ e ∈ labelled d.machines, (underWay e.2).length ≤ 1 ∧ (e.1 ≠ .main → waiting e.2 = []) := by
  intro d
  have hsound : Sound (books (exositeNew api .http vendor model sn globals messageId objects ext)) :=
    sound_exositeNew .http vendor model sn globals messageId objects ext
  have hcourse : Sound (books d) ∧ InCourse d :=
    h.invariant (P := fun d => Sound (books d) ∧ InCourse d)
      (fun d a hok hd => ⟨sound_step api hd.1, hd.2.step hd.1 hok⟩)
      ⟨hsound, rfl, List.forall_mem_nil _, Nat.zero_le 1, List.forall_mem_nil _, rfl⟩
  have hqueue : InOrder api.config.maxRequestQueueSize d.world.exo d.world.log :=
    ((preserved_inOrder api).always acts ⟨hsound, rfl, Nat.zero_le _⟩).2
  obtain ⟨-, -, hserved⟩ := hcourse
  have hsingle : (d.machines.map SmListItem.type).count .main ≤ 1 := by
    have htypes : (labelled d.machines).map Prod.fst = d.machines.map SmListItem.type := by
      unfold labelled
      rw [List.map_map]
      rfl
    rw [← htypes]
    exact hserved.single
  refine ⟨?_, hsingle, fun e he => ⟨(hserved.one e he).room, hserved.sorted e he⟩⟩
  rw [← hqueue.order, hserved.order, List.append_assoc]

/-- A server that has the time, and answers two requests. -/
abbrev scriptedApi : Api Sessions.Script :=
  scriptApi (fun _ payload _ _ code => (if code = 200 then errSuccess else errFailure, payload))
    (fun _ => false)

/-- The timestamp, the CIK, a read that is answered, a write that is sent, and a read in the queue. -/
def threeCalls : List (Action Sessions.Script) :=
  [.activateSm, .task 0, .task 0, .activateSm, .activateSm, .user (.read [97] (some 1)),
    .user (.write [98] [49] (some 2)), .activateSm, .task 1, .task 1, .activateSm,
    .user (.read [99] none), .task 1]

theorem calls_answered_in_order_three :
    let d := run (ExositeApi.step scriptedApi) (exositeNew scriptedApi .http [] [] [] ⟨none, 0, .reset, 0⟩ 6 0
      ⟨[], [], [], [⟨errSuccess, 200, 1, [49], 1⟩, ⟨errSuccess, 200, 1, [50], 1⟩]⟩) threeCalls
    acceptedCalls d.world.log = calledCalls d.world.log ++
        (allWaiting (labelled d.machines) ++ d.world.exo.requestQueue.map asCalled) ∧
      (d.machines.map SmListItem.type).count .main ≤ 1 ∧
      ∀ e ∈ labelled d.machines, (underWay e.2).length ≤ 1 ∧ (e.1 ≠ .main → waiting e.2 = []) := by
  have h := calls_answered_in_order scriptedApi [] [] [] ⟨none, 0, .reset, 0⟩ 6 0
    ⟨[], [], [], [⟨errSuccess, 200, 1, [49], 1⟩, ⟨errSuccess, 200, 1, [50], 1⟩]⟩ threeCalls
  apply h
  decide +kernel

end

end ErSdk.CallOrder
