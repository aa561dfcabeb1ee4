import ErSdk.ExositeApi
import ErSdk.Sessions
import Mathlib.Logic.Relation

namespace ErSdk.ExositeCalls

open ProtocolClientSm RequestArgs ExositeApi Sessions Error

variable {E : Type}

/-- What is left of the world without its environment: the exosite object, the next
address of a request object, and the record. -/
structure Account where
  exo : ExositeClass
  objects : Nat
  log : List Event

def account (w : World E) : Account := ⟨w.exo, w.objects, w.log⟩

namespace Account

def mapExo (f : ExositeClass → ExositeClass) (x : Account) : Account := { x with exo := f x.exo }

def record (events : List Event) (x : Account) : Account := { x with log := x.log ++ events }

end Account

@[simp] theorem account_mapExo (f : ExositeClass → ExositeClass) (w : World E) :
    account (w.mapExo f) = (account w).mapExo f := rfl

@[simp] theorem account_record (e : Event) (w : World E) :
    account (w.record e) = (account w).record [e] := rfl

@[simp] theorem account_call {α : Type} (f : E → α × E) (w : World E) :
    account (w.call f).2 = account w := rfl

@[simp] theorem account_exec (f : E → E) (w : World E) : account (w.exec f) = account w := rfl

@[simp] theorem account_exo (w : World E) : (account w).exo = w.exo := rfl

@[simp] theorem account_log (w : World E) : (account w).log = w.log := rfl

@[simp] theorem account_objects (w : World E) : (account w).objects = w.objects := rfl

/-- What the application does: it is told something, and it calls the functions of the
module. `limit` is the number of requests that the queue takes. -/
inductive UserChange (limit : Nat) : Account → Account → Prop
  | told {x} (f : Nat) (status : Int) (aliasName value : Option (List UInt8)) :
      UserChange limit x (x.record [.told f status aliasName value])
  | queued {x} (args : ExoRequestArgs) (hm : args.method = .read ∨ args.method = .write)
      (hl : x.exo.requestQueue.length < limit) :
      UserChange limit x ((x.mapExo (fun exo =>
        { exo with requestQueue := exo.requestQueue ++ [args] })).record [.accepted args])
  | subscribed {x map} (key : List UInt8) (args : ExoRequestArgs) (hm : args.method = .subscribe)
      (hc : args.callback = .onSubscribe) (hk : args.aliasName = some key)
      (hp : args.appType = x.exo.protocolType)
      (hmap : insert key ⟨args, false, false⟩ x.exo.subscribeMap = some map) :
      UserChange limit x (x.mapExo (fun exo => { exo with subscribeMap := map }))

abbrev UserChanges (limit : Nat) : Account → Account → Prop := Relation.ReflTransGen (UserChange limit)

theorem UserChanges.of_eq {limit : Nat} {x y : Account} (h : y = x) : UserChanges limit x y := h ▸ .refl

section

variable (api : Api E)

theorem exoRequestArgsNew_cases (args : ExoRequestArgs) (w : World E) :
    ∃ v, account v = account w ∧
      ((∃ e, e ≠ errSuccess ∧ exoRequestArgsNew api args w = (.error e, v)) ∨
        ∃ id, exoRequestArgsNew api args w = (.ok (copyArgs args id), v)) := by
  unfold exoRequestArgsNew
  dsimp only
  split
  · rename_i he
    exact ⟨(w.call api.memAlloc).2, rfl, .inl ⟨_, he, rfl⟩⟩
  · split
    · exact ⟨(w.call api.memAlloc).2, rfl, .inr ⟨1, rfl⟩⟩
    · exact ⟨{ (w.call api.memAlloc).2 with messageId := w.messageId + 1 }, rfl,
        .inr ⟨w.messageId, rfl⟩⟩

abbrev Changes (w v : World E) : Prop :=
  UserChanges api.config.maxRequestQueueSize (account w) (account v)

theorem requestQueuePush_cases (args : ExoRequestArgs) (w : World E) :
    ((requestQueuePush api args w).1 ≠ errSuccess ∧
        account (requestQueuePush api args w).2 = account w) ∨
      ∃ id, (requestQueuePush api args w).1 = errSuccess ∧
        w.exo.requestQueue.length < api.config.maxRequestQueueSize ∧
        account (requestQueuePush api args w).2 = ((account w).mapExo (fun exo => { exo with
          requestQueue :=
            exo.requestQueue ++ [copyArgs { args with appType := w.exo.protocolType } id] })).record
          [.accepted (copyArgs { args with appType := w.exo.protocolType } id)] := by
  unfold requestQueuePush
  obtain ⟨v, hv, ⟨e, he, hn⟩ | ⟨id, hn⟩⟩ :=
    exoRequestArgsNew_cases api { args with appType := w.exo.protocolType } w
  · rw [hn]
    exact .inl ⟨he, hv⟩
  · have hexo : v.exo = w.exo := congrArg Account.exo hv
    rw [hn]
    dsimp only
    split
    · rename_i hl
      split
      · exact .inl ⟨show errNoMemory ≠ errSuccess by decide, hv⟩
      · refine .inr ⟨id, rfl, hexo ▸ hl, ?_⟩
        rw [account_record, account_mapExo, account_call, hv]
    · exact .inl ⟨show errFailure ≠ errSuccess by decide, hv⟩

theorem requestQueuePush_changes (args : ExoRequestArgs)
    (hm : args.method = .read ∨ args.method = .write) (w : World E) :
    Changes api w (requestQueuePush api args w).2 := by
  obtain ⟨-, h⟩ | ⟨id, -, hl, h⟩ := requestQueuePush_cases api args w
  · exact .of_eq h
  · unfold Changes
    rw [h]
    exact .single (.queued (copyArgs { args with appType := w.exo.protocolType } id) hm hl)

theorem dictionaryAdd_changes {key : List UInt8} (args : ExoRequestArgs) (hm : args.method = .subscribe)
    (hc : args.callback = .onSubscribe) (hk : args.aliasName = some key) {w : World E}
    (hp : args.appType = w.exo.protocolType) :
    Changes api w (dictionaryAdd api key ⟨args, false, false⟩ w).2 := by
  unfold dictionaryAdd
  split
  · exact .refl
  · rename_i map hmap
    dsimp only
    split
    · exact .refl
    · split
      · exact .refl
      · exact .single (.subscribed key args hm hc hk hp hmap)

theorem exoSubscribeItemNew_cases (args : ExoRequestArgs) (w : World E) :
    ∃ v, account v = account w ∧ ((∃ e, exoSubscribeItemNew api args w = (.error e, v)) ∨
      ∃ id, exoSubscribeItemNew api args w = (.ok ⟨copyArgs args id, false, false⟩, v)) := by
  unfold exoSubscribeItemNew
  dsimp only
  split
  · exact ⟨(w.call api.memAlloc).2, rfl, .inl ⟨_, rfl⟩⟩
  · obtain ⟨v, hv, ⟨e, -, hn⟩ | ⟨id, hn⟩⟩ := exoRequestArgsNew_cases api args (w.call api.memAlloc).2
    · exact ⟨v, hv, .inl ⟨e, by rw [hn]⟩⟩
    · exact ⟨v, hv, .inr ⟨id, by rw [hn]⟩⟩

theorem addToSubscribeMap_changes {key : List UInt8} {args : ExoRequestArgs}
    (hm : args.method = .subscribe) (hc : args.callback = .onSubscribe)
    (hk : args.aliasName = some key) (w : World E) :
    Changes api w (addToSubscribeMap api key args w).2 := by
  obtain ⟨v, hv, ⟨e, he⟩ | ⟨id, hn⟩⟩ :=
    exoSubscribeItemNew_cases api { args with appType := w.exo.protocolType } w
  · unfold addToSubscribeMap
    rw [he]
    exact .of_eq hv
  · unfold addToSubscribeMap
    rw [hn]
    unfold Changes
    rw [← hv]
    exact dictionaryAdd_changes api
      (copyArgs { args with appType := w.exo.protocolType } id) hm hc hk
      (congrArg (fun x => x.exo.protocolType) hv.symm)

theorem exositeSubscribe_changes (aliasName : List UInt8) (onChange : Option Nat) (w : World E) :
    Changes api w (exositeSubscribe api aliasName onChange w).2 := by
  unfold exositeSubscribe
  split
  · exact .refl
  · exact addToSubscribeMap_changes api rfl rfl rfl w

theorem userCall_changes (w : World E) (c : UserCall) : Changes api w (userCall api w c) := by
  cases c with
  | read aliasName onRead => exact requestQueuePush_changes api _ (.inl rfl) w
  | write aliasName value onWrite => exact requestQueuePush_changes api _ (.inr rfl) w
  | subscribe aliasName since onChange => exact exositeSubscribe_changes api aliasName onChange w

theorem userCalls_changes (calls : List UserCall) (w : World E) :
    Changes api w (calls.foldl (userCall api) w) := by
  induction calls generalizing w with
  | nil => exact .refl
  | cons c calls ih => exact (userCall_changes api w c).trans (ih _)

theorem tell_changes (f : Nat) (status : Int) (aliasName value : Option (List UInt8)) (w : World E) :
    UserChanges api.config.maxRequestQueueSize
      ((account w).record [.told f status aliasName value])
      (account (tell api f status aliasName value w)) :=
  userCalls_changes api (api.application f status aliasName value w.ext).1
    ((w.record (.told f status aliasName value)).call (api.application f status aliasName value)).2

end

theorem UserChanges.log_extends {limit : Nat} {x y : Account} (h : UserChanges limit x y) :
    x.log <+: y.log := by
  induction h with
  | refl => exact List.prefix_rfl
  | tail _ hc ih =>
      cases hc with
      | told | queued => exact ih.trans (List.prefix_append _ _)
      | subscribed => exact ih

/-- Arguments as the functions of the module make them. -/
def Proper (args : ExoRequestArgs) : Prop :=
  match args.method with
  | .read | .write => True
  | .subscribe => args.callback = .onSubscribe ∧ args.aliasName.isSome
  | .activate => args.callback = .onActivate
  | .timestamp => args.callback = .onTimestamp
  | _ => False

/-- What an answer to a request does, between the record of the call and the release of
the request. -/
inductive Answered (limit : Nat) (args : ExoRequestArgs) (status : Int) : Account → Account → Prop
  | data {x y} (hm : args.method = .read ∨ args.method = .write) (h : UserChanges limit x y) :
      Answered limit args status x y
  | subscribe {x y key} (hm : args.method = .subscribe) (hk : args.aliasName = some key)
      (h : UserChanges limit x y) :
      Answered limit args status x
        (y.mapExo (ExositeClass.changeItem key (answered status args.appType)))
  | accepted {x cik} (hm : args.method = .activate) (hv : ValidCik cik) :
      Answered limit args status x ((x.mapExo (fun exo =>
        ((exo.takeCik cik).moveTo .activated).setEvent false)).record [.setCik cik])
  | malformed {x} (cik : CikBuffer) (hm : args.method = .activate) :
      Answered limit args status x (x.mapExo (fun exo => (exo.takeCik cik).moveTo .prepareActivate))
  | refused {x} (hm : args.method = .activate) :
      Answered limit args status x (x.mapExo (ExositeClass.moveTo .prepareActivate))
  | timestamp {x next} (hm : args.method = .timestamp) (hn : next = .init ∨ next = .sendGetTimestamp) :
      Answered limit args status x (x.mapExo (ExositeClass.moveTo next))

section

variable (api : Api E) {args : ExoRequestArgs} {status : Int} {payload : List UInt8}

abbrev Answers (args : ExoRequestArgs) (status : Int) (w v : World E) : Prop :=
  Answered api.config.maxRequestQueueSize args status (account w) (account v)

theorem onActivate_answers (hm : args.method = .activate) (w : World E) :
    Answers api args status w (onActivate api status payload w) := by
  unfold onActivate
  split
  · generalize copyCik payload = cik
    dsimp only
    split
    · rename_i hv
      exact .accepted hm (systemIsCikFormatValid_iff.mp hv)
    · exact .malformed cik hm
  · exact .refused hm

theorem onTimestamp_answers (hm : args.method = .timestamp) (w : World E) :
    Answers api args status w (onTimestamp api status payload w) := by
  unfold onTimestamp
  split
  · split
    · exact .timestamp hm (.inr rfl)
    · exact .timestamp hm (.inl rfl)
  · exact .timestamp hm (.inr rfl)

theorem tell_told (f : Nat) (status : Int) (aliasName value : Option (List UInt8)) (w : World E) :
    Changes api w (tell api f status aliasName value w) :=
  .head (.told f status aliasName value) (tell_changes api f status aliasName value w)

theorem tellSubscriber_changes (w : World E) :
    Changes api w (tellSubscriber api status args payload w) := by
  unfold tellSubscriber
  split
  · split
    · exact tell_told api _ status args.aliasName (some payload) w
    · exact .refl
  · exact .refl

theorem onSubscribe_answers {key : List UInt8} (hm : args.method = .subscribe)
    (hk : args.aliasName = some key) (w : World E) :
    Answers api args status w (onSubscribe api status args payload w) := by
  unfold onSubscribe
  rw [hk]
  exact .subscribe hm hk (tellSubscriber_changes api w)

theorem dispatch_answers (hp : Proper args) (w : World E) :
    Answers api args status w (dispatch api args status payload w) := by
  unfold Proper at hp
  unfold dispatch
  cases hm : args.method with
  | write =>
      cases args.callback with
      | user f => exact .data (.inr hm) (tell_told api f status args.aliasName none w)
      | none | onSubscribe | onActivate | onTimestamp => exact .data (.inr hm) .refl
  | read =>
      cases args.callback with
      | user f => exact .data (.inl hm) (tell_told api f status args.aliasName (some (cString payload)) w)
      | none | onSubscribe | onActivate | onTimestamp => exact .data (.inl hm) .refl
  | subscribe =>
      rw [hm] at hp
      obtain ⟨key, hk⟩ := Option.isSome_iff_exists.mp hp.2
      rw [hp.1]
      exact onSubscribe_answers api hm hk w
  | activate =>
      rw [hm] at hp
      rw [show args.callback = .onActivate from hp]
      exact onActivate_answers api hm w
  | timestamp =>
      rw [hm] at hp
      rw [show args.callback = .onTimestamp from hp]
      exact onTimestamp_answers api hm w
  | readWrite | listContent | downloadContent | ip =>
      rw [hm] at hp
      exact hp.elim

end

/-- The status that the callback of a request makes of a response. -/
def statusOf (api : Api E) (request : ProtocolClientRequest Request)
    (response : ProtocolClientResponse) : Int :=
  (api.responseCallback request.request.args response.payload response.payloadSize
    response.maxPayloadSize response.responseCode).1

/-- An answer that says that the CIK is not valid is noted before anything else. -/
def flagged (status : Int) (exo : ExositeClass) : ExositeClass :=
  if status = errCikNotValid then exo.setEvent true else exo

/-- The release of the request object at the end of its callback. -/
def releases (request : Request) (type : RequestType) : List Event :=
  if request.args.method = .subscribe ∧ type = .subscribeAsynch then [] else [.released request.object]

theorem account_requestDelete (request : Request) (type : RequestType) (w : World E) :
    account (requestDelete request type w) = (account w).record (releases request type) := by
  unfold requestDelete releases
  split
  · rw [Account.record, List.append_nil]
  · rfl

theorem account_noteInvalidCik (status : Int) (w : World E) :
    account (noteInvalidCik status w) = (account w).mapExo (flagged status) := by
  unfold noteInvalidCik flagged
  split <;> rfl

theorem exositeApiCallback_answered (api : Api E) {request : ProtocolClientRequest Request}
    (hp : Proper request.request.args) (response : ProtocolClientResponse) (w : World E) :
    ∃ y, Answered api.config.maxRequestQueueSize request.request.args (statusOf api request response)
        (((account w).record [.called request]).mapExo (flagged (statusOf api request response))) y ∧
      account (exositeApiCallback api request response w).2 =
        y.record (releases request.request response.requestType) := by
  have ha : Answers api request.request.args (statusOf api request response)
      (noteInvalidCik (statusOf api request response) (w.record (.called request)))
      (dispatch api request.request.args (statusOf api request response)
        (api.responseCallback request.request.args response.payload response.payloadSize
          response.maxPayloadSize response.responseCode).2
        (noteInvalidCik (statusOf api request response) (w.record (.called request)))) :=
    dispatch_answers api hp _
  unfold Answers at ha
  rw [account_noteInvalidCik] at ha
  exact ⟨_, ha, account_requestDelete _ _ _⟩

def storedCik : CikBuffer := copyCik (List.replicate cikLength 97)

/-- The calls of an exosite object whose state machines play back a script. All
allocations succeed, the application does nothing in its callbacks, and the device comes
without a built-in CIK. -/
def scriptApi (responseCallback : ExoRequestArgs → List UInt8 → Nat → Nat → Int → Int × List UInt8)
    (sendDeletes : Script → Bool) : Api Script where
  config := ⟨[], by decide, 0, 10000, unlimitedStateMachines, 4, Script.config, by decide⟩
  platform _ := Script.platform
  sendDeletes _ _ := sendDeletes
  systemGetTime w := (1000, w)
  memAlloc w := (errSuccess, w)
  systemGetCik _ w := ((errSuccess, storedCik), w)
  systemSetCik _ w := (errSuccess, w)
  rtcSet _ w := w
  netDevGet _ w := (errSuccess, w)
  selectServerData _ w := (errSuccess, w)
  protocolClientSmNew w := ((errSuccess, Script.noResponse, none), w)
  requestNew _ w := (.made, w)
  responseCallback
  application _ _ _ _ w := ([], w)

end ErSdk.ExositeCalls
