import ErSdk.ExositeCalls

namespace ErSdk.ExositeBooks

open ProtocolClientSm Ledger SmMoves RequestArgs ExositeApi ExositeCalls Error

variable {E : Type}

/-- What the state machines of an exosite object hold, the next address of a request
block, and the account of the world. -/
structure Books where
  machines : List (Holdings Request)
  heap : Nat
  account : Account

def books (d : Device E) : Books :=
  ⟨d.machines.map (fun item => holdings item.sm), d.globals.heap, account d.world⟩

def asHanded (r : ProtocolClientRequest Request) : ProtocolClientRequest Request :=
  { r with startOfTransmit := 0 }

def stock (h : Holdings Request) : List (ProtocolClientRequest Request) := h.held.map asHanded

namespace Books

def held (b : Books) : List (ProtocolClientRequest Request) := b.machines.flatMap stock

def exo (b : Books) : ExositeClass := b.account.exo

def log (b : Books) : List Event := b.account.log

def mapExo (f : ExositeClass → ExositeClass) (b : Books) : Books :=
  { b with account := b.account.mapExo f }

def enter (b : Books) : Books :=
  b.mapExo (fun exo => { exo with activateState := some exo.nextState })

def grow (stype : StateMachineType) (limit : Nat) (b : Books) : Books :=
  { b.mapExo (fun exo => { exo with numberofStateMachines := exo.numberofStateMachines + 1 }) with
    machines := b.machines ++ [⟨stype, limit, [], none, [], 0, false⟩] }

/-- A new request object, and what becomes of it at once. -/
def create (event : Event) (b : Books) : Books :=
  { b with account :=
      { b.account with
        objects := b.account.objects + 1
        log := b.account.log ++ [.created b.account.objects] ++ [event] } }

def allocate (n : Nat) (b : Books) : Books := { b with heap := b.heap + n }

def withMachines (machines : List (Holdings Request)) (b : Books) : Books := { b with machines }

def clear (b : Books) : Books :=
  b.withMachines (b.machines.map (fun h => { h with aborting := true }))

end Books

/-- The request that a state machine is handed for the arguments. -/
def requestFor (b : Books) (args : ExoRequestArgs) : ProtocolClientRequest Request :=
  ⟨b.heap, (route b.exo.protocolType args).request,
    ⟨b.account.objects, { args with cik := copyCik b.exo.cik.toList }⟩, 0, args.messageId⟩

/-- The ways a request can go on its way into a state machine, with the error code. -/
inductive Pushed (args : ExoRequestArgs) (b : Books) : Int → Books → Prop
  | kept {error} (h : error ≠ errSuccess) : Pushed args b error b
  | unfinished {error} (h : error ≠ errSuccess) :
      Pushed args b error (b.create (.unfinished b.account.objects))
  | refused {error} (n : Nat) (h : error ≠ errSuccess) :
      Pushed args b error ((b.create (.released b.account.objects)).allocate n)
  | handed {pre post h} (hm : b.machines = pre ++ h :: post) :
      Pushed args b errSuccess
        (((b.create (.handed (route b.exo.protocolType args).sm (requestFor b args))).allocate
          1).withMachines (pre ++ { h with queue := h.queue ++ [requestFor b args] } :: post))

inductive Obtained (b : Books) : Books → Prop
  | found : Obtained b b
  | grown (stype : StateMachineType) (limit : Nat) : Obtained b (b.grow stype limit)

theorem Obtained.protocolType {b b' : Books} (h : Obtained b b') :
    b'.exo.protocolType = b.exo.protocolType := by
  cases h <;> rfl

theorem requestFor_copy (b : Books) (args : ExoRequestArgs) (id : Int) :
    requestFor b (copyArgs args id) = requestFor b { args with messageId := id } := by
  unfold requestFor route copyArgs
  dsimp only

theorem route_copy (protocolType : AppType) (args : ExoRequestArgs) (id : Int) :
    route protocolType (copyArgs args id) = route protocolType { args with messageId := id } := by
  unfold route copyArgs
  dsimp only

theorem Pushed.of_copy {args : ExoRequestArgs} {id : Int} {b b' : Books} {error : Int}
    (h : Pushed (copyArgs args id) b error b') :
    Pushed { args with messageId := id } b error b' := by
  cases h with
  | kept h => exact .kept h
  | unfinished h => exact .unfinished h
  | refused n h => exact .refused n h
  | handed hm =>
      rw [requestFor_copy, route_copy]
      exact .handed hm

theorem split_at {α : Type} {l : List α} {i : Nat} {a : α} (h : l[i]? = some a) :
    ∃ pre post, l = pre ++ a :: post ∧ ∀ b, l.set i b = pre ++ b :: post := by
  induction l generalizing i with
  | nil => exact absurd h nofun
  | cons c l ih =>
      cases i with
      | zero =>
          obtain rfl : c = a := Option.some.inj h
          exact ⟨[], l, rfl, fun b => rfl⟩
      | succ i =>
          obtain ⟨pre, post, rfl, hset⟩ := ih (show l[i]? = some a from h)
          exact ⟨c :: pre, post, rfl, fun b => by rw [List.set_cons_succ, hset]; rfl⟩

def heldBy (items : List SmListItem) : List (Holdings Request) :=
  items.map (fun item => holdings item.sm)

theorem books_at {d : Device E} {item : SmListItem} {pre post : List SmListItem}
    (hm : d.machines = pre ++ item :: post) :
    books d = ⟨heldBy pre ++ holdings item.sm :: heldBy post, d.globals.heap, account d.world⟩ := by
  unfold books
  rw [hm, List.map_append]
  rfl

theorem books_put {d : Device E} {i : Nat} {item : SmListItem} {pre post : List SmListItem}
    (hset : ∀ b, d.machines.set i b = pre ++ b :: post) (st : St Request Nat (World E)) :
    books (d.put i item st) =
      ⟨heldBy pre ++ holdings st.sm :: heldBy post, st.globals.heap, account st.world⟩ := by
  unfold books Device.put
  dsimp only
  rw [hset, List.map_append]
  rfl

theorem books_record (e : Event) (d : Device E) : books (d.mapWorld (World.record e)) =
    { books d with account := (books d).account.record [e] } := rfl

theorem findSm_found {type : SmType} {name : Option (List UInt8)} {l : List SmListItem} {i j : Nat}
    (h : findSm type name l i = some (some j)) :
    ∃ item, i ≤ j ∧ l[j - i]? = some item ∧ item.type = type := by
  induction l generalizing i with
  | nil => exact absurd h nofun
  | cons head l ih =>
      have hnext (h : findSm type name l (i + 1) = some (some j)) :
          ∃ item, i ≤ j ∧ (head :: l)[j - i]? = some item ∧ item.type = type := by
        obtain ⟨item, hle, hl, ht⟩ := ih h
        refine ⟨item, by omega, ?_, ht⟩
        rw [show j - i = j - (i + 1) + 1 by omega, List.getElem?_cons_succ]
        exact hl
      have hhere (ht : head.type = type) (h : some (some i) = some (some j)) :
          ∃ item, i ≤ j ∧ (head :: l)[j - i]? = some item ∧ item.type = type := by
        obtain rfl := Option.some.inj (Option.some.inj h)
        exact ⟨head, Nat.le_refl i, by rw [Nat.sub_self, List.getElem?_cons_zero], ht⟩
      rw [findSm.eq_def] at h
      dsimp only at h
      split at h
      · rename_i ht
        split at h
        · exact hhere ht h
        · exact absurd h nofun
        · split at h
          · exact hhere ht h
          · exact hnext h
      · exact hnext h

theorem findSm_append {type : SmType} {name : Option (List UInt8)} {l : List SmListItem} {i : Nat}
    (h : findSm type name l i = some none) (item : SmListItem) (ht : item.type = type)
    (hn : name = none ∨ item.name = name) :
    findSm type name (l ++ [item]) i = some (some (i + l.length)) := by
  induction l generalizing i with
  | nil =>
      unfold findSm
      rw [List.nil_append]
      dsimp only
      rw [if_pos ht]
      obtain rfl | hn := hn
      · rfl
      · cases name with
        | none => rfl
        | some n =>
            rw [hn]
            exact if_pos rfl
  | cons head l ih =>
      rw [findSm.eq_def] at h
      rw [List.cons_append, findSm.eq_def]
      dsimp only at h ⊢
      have hnext (h : findSm type name l (i + 1) = some none) :
          findSm type name (l ++ [item]) (i + 1) = some (some (i + (head :: l).length)) := by
        rw [ih h, List.length_cons]
        congr 2
        omega
      split
      · rename_i hhead
        rw [if_pos hhead] at h
        cases name with
        | none => exact absurd h nofun
        | some n =>
            cases hm : head.name with
            | none =>
                rw [hm] at h
                exact absurd h nofun
            | some m =>
                rw [hm] at h
                dsimp only at h ⊢
                by_cases he : n = m
                · rw [if_pos he] at h
                  exact absurd h nofun
                · rw [if_neg he] at h ⊢
                  exact hnext h
      · rename_i hhead
        rw [if_neg hhead] at h
        exact hnext h

theorem newName_found (protocolType : AppType) (args : ExoRequestArgs) :
    (route protocolType args).name = none ∨
      newName (route protocolType args).sm args = (route protocolType args).name := by
  cases hm : args.method <;> cases protocolType <;> simp [route, newName, hm]

section

variable (api : Api E)

/-- What the books see of the calls of a state machine. A send may delete the request. -/
def hooks (deletes : Prop) : Hooks Request Account where
  sends r _ x y := y = x.record [.sent r.request.object] ∨
    deletes ∧ y = x.record [.sent r.request.object, .released r.request.object]
  receives _ x y := y = x
  closes x y := y = x
  status _ _ := True
  calls r p x y := Proper r.request.args → ∃ z,
    Answered api.config.maxRequestQueueSize r.request.args (statusOf api r p)
      ((x.record [.called r]).mapExo (flagged (statusOf api r p))) z ∧
    y = z.record (releases r.request p.requestType)

theorem watches_machineEnv (i : Nat) (deletes : Prop) :
    Watches (machineEnv api i) account (hooks api deletes) where
  systemGetTime _ := rfl
  memAlloc _ := rfl
  queuePushTail _ := rfl
  lookup _ := rfl
  createSocket _ := rfl
  connect _ _ := rfl
  setSocket _ _ := rfl
  clearSocket _ := rfl
  clientClose _ := rfl
  close _ _ := rfl
  recvResponse _ _ := rfl
  status _ _ := trivial
  clb _ p w hp := exositeApiCallback_answered api hp p w

theorem account_sendRequest (i : Nat) (r : ProtocolClientRequest Request) (w : World E) :
    account ((machineEnv api i).sendRequest r w).2 =
      (account w).record (if api.sendDeletes i r w.ext then
        [.sent r.request.object, .released r.request.object] else [.sent r.request.object]) := by
  show account (World.call _ _).2 = _
  rw [account_call]
  split
  · rw [account_record, account_record, Account.record, Account.record, List.append_assoc]
    rfl
  · rfl

theorem createNewSm_cases (name : Option (List UInt8)) (type : SmType) (d : Device E) :
    (∃ error d', error ≠ errSuccess ∧ createNewSm api name type d = (error, d') ∧
        books d' = books d) ∨
      ∃ stype limit d' sm, createNewSm api name type d = (errSuccess, d') ∧
        books d' = (books d).grow stype limit ∧ sm.transferQueue = [] ∧
        sm.transmissionConfig = api.config.transmissionConfig ∧
        d'.machines = d.machines ++ [⟨type, name, sm⟩] := by
  unfold createNewSm
  split
  · exact .inl ⟨_, _, by decide, rfl, rfl⟩
  · split
    · exact .inl ⟨_, _, by decide, rfl, rfl⟩
    · rename_i stype rqLimit _
      dsimp only
      split
      · rename_i he
        exact .inl ⟨_, _, he, rfl, rfl⟩
      · split
        · rename_i he
          exact .inl ⟨_, _, he, rfl, rfl⟩
        · refine .inr ⟨stype, rqLimit, _, _, rfl, ?_, ?_, ?_, rfl⟩
          · unfold books
            rw [List.map_append]
            rfl
          · rfl
          · rfl

theorem obtainSm_cases {protocolType : AppType} {args : ExoRequestArgs} {d d' : Device E} {error : Int}
    {found : Option Nat}
    (h : obtainSm api (route protocolType args) args d = some ((error, found), d')) :
    Obtained (books d) (books d') ∧ (found = none → error ≠ errSuccess) ∧
      ∀ i, found = some i → ∃ item, d'.machines[i]? = some item ∧
        item.type = (route protocolType args).sm ∧
        (error = errSuccess → item.sm.transferQueue = [] ∧
          item.sm.transmissionConfig = api.config.transmissionConfig) := by
  unfold obtainSm at h
  cases hf : findSm (route protocolType args).sm (route protocolType args).name d.machines 0 with
  | none =>
      rw [hf] at h
      exact absurd h nofun
  | some place =>
      rw [hf] at h
      cases place with
      | some i =>
          cases h
          obtain ⟨item, -, hi, ht⟩ := findSm_found hf
          refine ⟨.found, fun h => absurd h nofun, fun j hj => ?_⟩
          obtain rfl := Option.some.inj hj
          exact ⟨item, hi, ht, fun he => absurd he (by decide)⟩
      | none =>
          obtain ⟨e, d₁, he, hc, hb⟩ | ⟨stype, limit, d₁, sm, hc, hb, hq, hconf, hm⟩ :=
            createNewSm_cases api (newName (route protocolType args).sm args)
              (route protocolType args).sm d
          · simp only [Option.bind_eq_bind, Option.bind_some, hc, if_pos he] at h
            cases h
            rw [hb]
            exact ⟨.found, fun _ => he, fun i hi => absurd hi nofun⟩
          · have hfound := findSm_append hf ⟨(route protocolType args).sm,
              newName (route protocolType args).sm args, sm⟩ rfl (newName_found protocolType args)
            rw [← hm] at hfound
            simp only [Option.bind_eq_bind, Option.bind_some, hc, hfound, ne_eq, not_true,
              if_false] at h
            cases h
            refine ⟨hb ▸ .grown stype limit, fun h => absurd h nofun, fun i hi => ?_⟩
            obtain rfl := Option.some.inj hi
            refine ⟨⟨(route protocolType args).sm, newName (route protocolType args).sm args, sm⟩,
              ?_, rfl, fun _ => ⟨hq, hconf⟩⟩
            rw [hm, Nat.zero_add, List.getElem?_append_right (Nat.le_refl _), Nat.sub_self]
            rfl

theorem transmitTo_pushed {i : Nat} {item : SmListItem} {args : ExoRequestArgs} {d : Device E}
    (hi : d.machines[i]? = some item) (ht : item.type = (route d.world.exo.protocolType args).sm)
    {c : Int × Device E}
    (hc : c = transmitTo api i item (route d.world.exo.protocolType args).request
      { args with cik := copyCik d.world.exo.cik.toList } d) :
    Pushed args (books d) c.1 (books c.2) := by
  subst hc
  unfold transmitTo
  dsimp only
  split
  · rename_i error created he _
    split
    · exact .unfinished he
    · exact .kept he
  · obtain ⟨pre, post, hm, hset⟩ := split_at hi
    let request : Request := ⟨d.world.objects, { args with cik := copyCik d.world.exo.cik.toList }⟩
    let made := Device.mapWorld (fun w : World E =>
      { w.record (.created w.objects) with objects := w.objects + 1 })
      (d.call (api.requestNew { args with cik := copyCik d.world.exo.cik.toList })).2
    let t := protocolClientSmTransmit (machineEnv api i)
      (route d.world.exo.protocolType args).request request args.messageId (made.view item)
    have hput : books (made.put i item t.2) = _ := books_put (d := made) hset t.2
    rw [books_at hm]
    obtain ⟨he, hlook, hheap⟩ | ⟨he, hheap, hlook⟩ :=
      SmMoves.transmit_cases (watches_machineEnv api i True)
        (route d.world.exo.protocolType args).request request args.messageId (made.view item)
    · rw [if_pos he]
      obtain ⟨n, hn⟩ := Nat.exists_eq_add_of_le hheap
      have hb : books (made.put i item t.2) =
          ⟨heldBy pre ++ holdings item.sm :: heldBy post, d.globals.heap + n, account made.world⟩ := by
        rw [hput, show holdings t.2.sm = holdings item.sm from congrArg Prod.fst hlook,
          show account t.2.world = account made.world from congrArg Prod.snd hlook]
        exact congrArg (fun heap => Books.mk _ heap _) hn
      show Pushed _ _ t.1 (books ((made.put i item t.2).mapWorld (World.record _)))
      rw [books_record, hb]
      exact .refused n he
    · rw [if_neg (not_not.mpr he)]
      have hb : books (made.put i item t.2) =
          ⟨heldBy pre ++ { holdings item.sm with
            queue := item.sm.transferQueue ++ [newRequest (route d.world.exo.protocolType args).request
              request args.messageId (made.view item)] } :: heldBy post, d.globals.heap + 1,
            account made.world⟩ := by
        rw [hput, show holdings t.2.sm = _ from congrArg Prod.fst hlook,
          show account t.2.world = account made.world from congrArg Prod.snd hlook]
        exact congrArg (fun heap => Books.mk _ heap _) hheap
      show Pushed _ _ t.1 (books ((made.put i item t.2).mapWorld (World.record _)))
      rw [books_record, hb, ht, show t.1 = errSuccess from he]
      exact .handed rfl

theorem noCopy_pushed {args : ExoRequestArgs} {d d' : Device E} {error : Int}
    (h : pcsmTransmitQueuePushNoCopy api args d = some (error, d')) :
    ∃ b, Obtained (books d) b ∧ Pushed args b error (books d') := by
  unfold pcsmTransmitQueuePushNoCopy at h
  dsimp only at h
  cases ho : obtainSm api (route d.world.exo.protocolType args) args d with
  | none =>
      rw [ho] at h
      exact absurd h nofun
  | some c =>
      obtain ⟨⟨e, found⟩, d₁⟩ := c
      obtain ⟨hobt, hnone, hsome⟩ := obtainSm_cases api ho
      rw [ho] at h
      simp only [Option.bind_eq_bind, Option.bind_some] at h
      refine ⟨books d₁, hobt, ?_⟩
      cases found with
      | none =>
          cases h
          exact .kept (hnone rfl)
      | some i =>
          obtain ⟨item, hi, ht, hnew⟩ := hsome i rfl
          simp only [Option.bind_some, hi, Option.map_some] at h
          split at h
          · rename_i hfull
            cases h
            refine .kept (fun he => ?_)
            obtain ⟨hq, hconf⟩ := hnew he
            have hpos := api.config.queueSize_pos
            simp only [protocolClientSmIsQueueFull, hq, hconf, List.length_nil,
              decide_eq_true_eq] at hfull
            omega
          · rw [← show d₁.world.exo.protocolType = d.world.exo.protocolType from
              hobt.protocolType] at ht h
            exact transmitTo_pushed api hi ht (c := (error, d')) (Option.some.inj h).symm

theorem push_pushed {args : ExoRequestArgs} {d d' : Device E} {error : Int}
    (h : pcsmTransmitQueuePush api args d = some (error, d')) :
    ∃ id b, Obtained (books d) b ∧ Pushed { args with messageId := id } b error (books d') := by
  unfold pcsmTransmitQueuePush at h
  obtain ⟨w, hw, ⟨e, he, hn⟩ | ⟨id, hn⟩⟩ := exoRequestArgsNew_cases api args d.world
  · rw [hn] at h
    cases h
    refine ⟨0, books d, .found, ?_⟩
    rw [show books { d with world := w } = books d by unfold books; rw [hw]]
    exact .kept he
  · rw [hn] at h
    obtain ⟨b, hobt, hp⟩ := noCopy_pushed api h
    rw [show books { d with world := w } = books d by unfold books; rw [hw]] at hobt
    exact ⟨id, b, hobt, hp.of_copy⟩

end

/-- The functions that ask the server for the time and for a CIK, with the state that
follows them. -/
inductive Asks (b : Books) : ExoRequestArgs → ActivateState → Prop
  | timestamp {args} (hs : b.exo.nextState = .sendGetTimestamp) (hm : args.method = .timestamp)
      (hc : args.callback = .onTimestamp) : Asks b args .waitTimestamp
  | activate {args} (hs : b.exo.nextState = .sendActivate)
      (hb : ∀ h ∈ b.machines, h.aborting = false) (hm : args.method = .activate)
      (hc : args.callback = .onActivate) : Asks b args .waitActivate

/-- A subscription, or the first request of the queue, on its way in the state activated. -/
inductive Send : Books → Books → Prop
  | subscribe {b b₁ b₂ key item error} (hi : (key, item) ∈ b.exo.subscribeMap)
      (hs : item.sent = false) (ho : Obtained b b₁) (hp : Pushed item.args b₁ error b₂) :
      Send b (if error = errSuccess then b₂.mapExo (ExositeClass.changeItem key markSent) else b₂)
  | queued {b b₁ b₂ args rest error} (hq : b.exo.requestQueue = args :: rest)
      (ho : Obtained b b₁) (hp : Pushed args b₁ error b₂) :
      Send b (if error = errSuccess then
        b₂.mapExo (fun exo => { exo with requestQueue := exo.requestQueue.tail }) else b₂)

abbrev Sends : Books → Books → Prop := Relation.ReflTransGen Send

/-- The fields that decide how long the next attempt to activate is delayed. -/
def setAttempts (time : SysTime) (requests attempts : Int32) (exo : ExositeClass) : ExositeClass :=
  { exo with
    lastActivationTime := time
    activateRequests := requests
    activateRequestAttempts := attempts }

inductive Activates : Books → Books → Prop
  | waits {b} (hs : b.exo.nextState = .waitTimestamp ∨ b.exo.nextState = .waitActivate ∨
      b.exo.nextState = .sendActivate) : Activates b b.enter
  | asks {b b₁ b₂ args next error} (hs : Asks b args next) (ho : Obtained b.enter b₁)
      (hp : Pushed args b₁ error b₂) :
      Activates b (if error = errSuccess then b₂.mapExo (ExositeClass.moveTo next) else b₂)
  | loads {b next} (cik : CikBuffer) (hs : b.exo.nextState = .init ∨ b.exo.nextState = .start)
      (hn : next = .activated ∧ ValidCik cik ∨ next = .start ∨ next = .prepareActivate) :
      Activates b (b.enter.mapExo (fun exo => { exo with cik, nextState := next }))
  | delays {b} (time : SysTime) (requests attempts : Int32)
      (hs : b.exo.nextState = .prepareActivate) :
      Activates b (b.enter.mapExo (setAttempts time requests attempts))
  | clears {b} (time : SysTime) (requests attempts : Int32)
      (hs : b.exo.nextState = .prepareActivate) :
      Activates b (b.enter.clear.mapExo
        (fun exo => (setAttempts time requests attempts exo).moveTo .sendActivate))
  | reactivates {b} (hs : b.exo.nextState = .activated) :
      Activates b (b.enter.mapExo (fun exo => (exo.setEvent false).moveTo .prepareActivate))
  | sends {b b'} (hs : b.exo.nextState = .activated) (h : Sends b.enter b') : Activates b b'

end ErSdk.ExositeBooks
