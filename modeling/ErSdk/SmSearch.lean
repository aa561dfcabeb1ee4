import ErSdk.ExositeRuns

namespace ErSdk.SmSearch

open ProtocolClientSm RequestArgs ExositeApi ExositeCalls ExositeBooks ExositeSteps ExositeRuns Runs Error

variable {E : Type}

abbrev Key := SmType × Option (List UInt8)

def key (item : SmListItem) : Key := (item.type, item.name)

/-- The entries that find_sm accepts. -/
def Matches (type : SmType) (name : Option (List UInt8)) (k : Key) : Prop :=
  k.1 = type ∧ (name = none ∨ k.2 = name)

/-- Entries of which the list shall hold one only. -/
def Alike (k k' : Key) : Prop := k.1 = k'.1 ∧ (k.1 = .httpLongPoll → k.2 = k'.2)

/-- The invariant of the list of state machines. -/
structure Distinct (keys : List Key) : Prop where
  apart : keys.Pairwise (fun k k' => ¬ Alike k k')
  named : ∀ k ∈ keys, k.1 = .httpLongPoll → k.2.isSome

/-- A name is searched for the state machines of long polls, and only for these. -/
def Searchable (type : SmType) (name : Option (List UInt8)) : Prop :=
  name.isSome ↔ type = .httpLongPoll

theorem Distinct.tail {k : Key} {keys : List Key} (h : Distinct (k :: keys)) : Distinct keys :=
  ⟨(List.pairwise_cons.mp h.apart).2, fun k' hk' => h.named k' (List.mem_cons_of_mem _ hk')⟩

theorem Searchable.alike {type : SmType} {name : Option (List UInt8)} (h : Searchable type name)
    {k k' : Key} (hk : Matches type name k) (hk' : Matches type name k') : Alike k k' := by
  refine ⟨hk.1.trans hk'.1.symm, fun ht => ?_⟩
  have hsome : name ≠ none := Option.isSome_iff_ne_none.mp (h.mpr (hk.1.symm.trans ht))
  exact (hk.2.resolve_left hsome).trans (hk'.2.resolve_left hsome).symm

theorem at_cons_iff {α : Type} {p : α → Prop} {a : α} {l : List α} {i j : Nat} :
    (i ≤ j ∧ ∃ b, (a :: l)[j - i]? = some b ∧ p b) ↔
      i = j ∧ p a ∨ i + 1 ≤ j ∧ ∃ b, l[j - (i + 1)]? = some b ∧ p b := by
  constructor
  · rintro ⟨hle, b, hb, hp⟩
    obtain rfl | hlt := Nat.eq_or_lt_of_le hle
    · rw [Nat.sub_self, List.getElem?_cons_zero, Option.some.injEq] at hb
      exact .inl ⟨rfl, hb ▸ hp⟩
    · rw [show j - i = j - (i + 1) + 1 by omega, List.getElem?_cons_succ] at hb
      exact .inr ⟨hlt, b, hb, hp⟩
  · rintro (⟨rfl, hp⟩ | ⟨hlt, b, hb, hp⟩)
    · exact ⟨Nat.le_refl _, a, by simp, hp⟩
    · refine ⟨by omega, b, ?_, hp⟩
      rw [show j - i = j - (i + 1) + 1 by omega, List.getElem?_cons_succ]
      exact hb

/-- On a list of distinct entries find_sm returns, with the one that it looks for. -/
theorem findSm_answers {type : SmType} {name : Option (List UInt8)} (hs : Searchable type name)
    {machines : List SmListItem} (h : Distinct (machines.map key)) (i : Nat) :
    ∃ found, findSm type name machines i = some found ∧ ∀ j, found = some j ↔
      i ≤ j ∧ ∃ item, machines[j - i]? = some item ∧ Matches type name (key item) := by
  induction machines generalizing i with
  | nil =>
      refine ⟨none, rfl, fun j => iff_of_false (Option.some_ne_none j).symm ?_⟩
      rintro ⟨-, item, hitem, -⟩
      rw [List.getElem?_nil] at hitem
      exact Option.some_ne_none item hitem.symm
  | cons head rest ih =>
      obtain ⟨found, hfound, hiff⟩ := ih h.tail (i + 1)
      simp only [at_cons_iff]
      have hlater (hno : ¬ Matches type name (key head)) (j : Nat) : found = some j ↔
          i = j ∧ Matches type name (key head) ∨
            i + 1 ≤ j ∧ ∃ item, rest[j - (i + 1)]? = some item ∧ Matches type name (key item) := by
        rw [hiff, or_iff_right (fun hj => hno hj.2)]
      have hhere (hm : Matches type name (key head)) (j : Nat) : some i = some j ↔
          i = j ∧ Matches type name (key head) ∨
            i + 1 ≤ j ∧ ∃ item, rest[j - (i + 1)]? = some item ∧ Matches type name (key item) := by
        rw [Option.some.injEq, or_iff_left, and_iff_left hm]
        rintro ⟨-, item, hitem, hmatch⟩
        have hmem : key item ∈ rest.map key := List.mem_map_of_mem (List.mem_of_getElem? hitem)
        exact (List.pairwise_cons.mp h.apart).1 _ hmem (hs.alike hm hmatch)
      unfold findSm
      by_cases ht : head.type = type
      · rw [if_pos ht]
        cases name with
        | none => exact ⟨some i, rfl, hhere ⟨ht, .inl rfl⟩⟩
        | some n =>
            have hnamed := h.named (key head) List.mem_cons_self (ht.trans (hs.mp rfl))
            obtain ⟨m, hm⟩ : ∃ m, head.name = some m := Option.isSome_iff_exists.mp hnamed
            rw [hm]
            dsimp only
            by_cases he : n = m
            · rw [if_pos he]
              exact ⟨some i, rfl, hhere ⟨ht, .inr (hm.trans (he ▸ rfl))⟩⟩
            · rw [if_neg he]
              refine ⟨found, hfound, hlater ?_⟩
              rintro ⟨-, hname | hname⟩
              · exact Option.some_ne_none n hname
              · exact he (Option.some.inj (hname.symm.trans hm))
      · rw [if_neg ht]
        exact ⟨found, hfound, hlater (fun hm => ht hm.1)⟩

theorem Distinct.append {type : SmType} {name new : Option (List UInt8)} {keys : List Key}
    (h : Distinct keys) (hs : Searchable type name) (hno : ∀ k ∈ keys, ¬ Matches type name k)
    (hnew : name = none ∨ new = name) : Distinct (keys ++ [(type, new)]) := by
  refine ⟨List.pairwise_append.mpr ⟨h.apart, List.pairwise_singleton _ _, ?_⟩, ?_⟩
  · intro k hk k' hk'
    rw [List.mem_singleton] at hk'
    subst hk'
    rintro ⟨ht, hname⟩
    refine hno k hk ⟨ht, ?_⟩
    cases hn : name with
    | none => exact .inl rfl
    | some n =>
        rw [hn] at hnew hs
        rw [hname (ht.trans (hs.mp rfl))]
        exact .inr (hnew.resolve_left nofun)
  · intro k hk ht
    obtain hk | hk := List.mem_append.mp hk
    · exact h.named k hk ht
    · rw [List.mem_singleton] at hk
      subst hk
      have hsome := hs.mpr ht
      obtain rfl | rfl := hnew
      · exact absurd hsome (by simp)
      · exact hsome

/-- At most one entry of each kind, and for long polls of each alias. -/
structure OneEach (keys : List Key) : Prop where
  main : keys.countP (fun k => k.1 = .main) ≤ 1
  timeSync : keys.countP (fun k => k.1 = .timeSync) ≤ 1
  longPoll : ∀ aliasName, keys.countP (fun k => k = (.httpLongPoll, some aliasName)) ≤ 1

theorem countP_le_one {α : Type} {p : α → Bool} {l : List α}
    (h : l.Pairwise (fun a b => ¬ (p a ∧ p b))) : l.countP p ≤ 1 := by
  induction l with
  | nil => exact Nat.zero_le _
  | cons a l ih =>
      obtain ⟨ha, hl⟩ := List.pairwise_cons.mp h
      rw [List.countP_cons]
      split
      · rename_i hp
        have hz : l.countP p = 0 := List.countP_eq_zero.mpr (fun b hb hq => ha b hb ⟨hp, hq⟩)
        omega
      · exact ih hl

theorem Distinct.oneEach {keys : List Key} (h : Distinct keys) : OneEach keys := by
  have hone {p : Key → Bool} (hp : ∀ k k', p k → p k' → Alike k k') : keys.countP p ≤ 1 :=
    countP_le_one (h.apart.imp (fun hne hkk => hne (hp _ _ hkk.1 hkk.2)))
  constructor
  · apply hone
    intro k k' hk hk'
    simp only [decide_eq_true_eq] at hk hk'
    exact ⟨hk.trans hk'.symm, fun ht => absurd (hk.symm.trans ht) nofun⟩
  · apply hone
    intro k k' hk hk'
    simp only [decide_eq_true_eq] at hk hk'
    exact ⟨hk.trans hk'.symm, fun ht => absurd (hk.symm.trans ht) nofun⟩
  · intro aliasName
    apply hone
    intro k k' hk hk'
    simp only [decide_eq_true_eq] at hk hk'
    rw [hk, hk']
    exact ⟨rfl, fun _ => rfl⟩

def Named (args : ExoRequestArgs) : Prop := args.method = .subscribe → args.aliasName.isSome

theorem searchable_route {protocolType : AppType} {args : ExoRequestArgs} (h : Named args) :
    Searchable (route protocolType args).sm (route protocolType args).name := by
  unfold Searchable
  cases hm : args.method with
  | subscribe => cases protocolType <;> simp [route, hm, h hm]
  | _ => simp [route, hm]

def keys (d : Device E) : List Key := d.machines.map key

theorem keys_mapExo (f : ExositeClass → ExositeClass) (d : Device E) : keys (d.mapExo f) = keys d := rfl

section

variable (api : Api E)

structure Obtains (r : Route) (args : ExoRequestArgs) (d : Device E) : Prop where
  oneEach : OneEach (keys d)
  /-- find_sm returns, with the entry that it looks for if there is one. -/
  search : ∃ found, findSm r.sm r.name d.machines 0 = some found ∧ ∀ i, found = some i ↔
    ∃ item, d.machines[i]? = some item ∧ Matches r.sm r.name (key item)
  /-- Behind the creation of a machine it returns with the new one. -/
  created : ∀ d', findSm r.sm r.name d.machines 0 = some none →
    createNewSm api (newName r.sm args) r.sm d = (errSuccess, d') →
      OneEach (keys d') ∧ (∃ item, d'.machines = d.machines ++ [item]) ∧
        findSm r.sm r.name d'.machines 0 = some (some d.machines.length)
  /-- Behind both there is a machine, unless the creation has failed. -/
  asserted : ∃ error found d', obtainSm api r args d = some ((error, found), d') ∧
    (found = none → error ≠ errSuccess ∧ (createNewSm api (newName r.sm args) r.sm d).1 = error)

/-- The calls of pcsm_transmit_qeueue_push_no_copy for the subscriptions of a list. -/
def subscribePushes : Dictionary SubscribeItem → Device E → List (ExoRequestArgs × Device E)
  | [], _ => []
  | (key, item) :: rest, d =>
      if item.sent ∨ item.acknowledged then subscribePushes rest d
      else (item.args, d) ::
        match pcsmTransmitQueuePushNoCopy api item.args d with
        | none => []
        | some (error, d) =>
            subscribePushes rest
              (if error = errSuccess then d.mapExo (ExositeClass.changeItem key markSent) else d)

def queuedPushes (d : Device E) : List (ExoRequestArgs × Device E) :=
  match d.world.exo.requestQueue with
  | [] => []
  | args :: _ => [(args, d)]

def copyPushes (args : ExoRequestArgs) (d : Device E) : List (ExoRequestArgs × Device E) :=
  match exoRequestArgsNew api args d.world with
  | (.error _, _) => []
  | (.ok args, w) => [(args, { d with world := w })]

def activatePushes (d : Device E) : List (ExoRequestArgs × Device E) :=
  let next := d.world.exo.nextState
  let d := d.mapExo (fun exo => { exo with activateState := some next })
  match next with
  | .sendGetTimestamp =>
      copyPushes api { ExoRequestArgs.zero .timestamp with callback := .onTimestamp } d
  | .sendActivate =>
      if !smsEmpty d then []
      else copyPushes api { ExoRequestArgs.zero .activate with
        vendor := some d.world.exo.vendor
        model := some d.world.exo.model
        sn := some d.world.exo.sn
        callback := .onActivate } d
  | .activated =>
      if d.world.exo.asynchStateEvent then []
      else subscribePushes api d.world.exo.subscribeMap d ++
        ((sendSubscribes api d.world.exo.subscribeMap d).elim [] queuedPushes)
  | _ => []

/-- The calls of pcsm_transmit_qeueue_push_no_copy that a step makes, each with the state in
which it is made. -/
def pushes (d : Device E) : ExositeApi.Action E → List (ExoRequestArgs × Device E)
  | .activateSm => activatePushes api d
  | _ => []

/-- In a step the list has one entry of each kind, and every search is answered. -/
structure SearchesAnswered (d : Device E) (a : ExositeApi.Action E) : Prop where
  oneEach : OneEach (keys d)
  obtains : ∀ p ∈ pushes api d a,
    Obtains api (route p.2.world.exo.protocolType p.1) p.1 p.2
  returns : a = .activateSm → (activateSm api d).isSome

theorem createNewSm_keys {name : Option (List UInt8)} {type : SmType} {d d' : Device E}
    (h : createNewSm api name type d = (errSuccess, d')) :
    ∃ item, d'.machines = d.machines ++ [item] ∧ key item = (type, name) := by
  obtain ⟨error, d₁, he, hc, -⟩ | ⟨stype, limit, d₁, sm, hc, -, -, -, hm⟩ :=
    createNewSm_cases api name type d
  · rw [hc] at h
    exact absurd (Prod.mk.inj h).1 he
  · rw [hc] at h
    obtain ⟨-, rfl⟩ := Prod.mk.inj h
    exact ⟨_, hm, rfl⟩

theorem createNewSm_failed {name : Option (List UInt8)} {type : SmType} {d : Device E}
    (h : (createNewSm api name type d).1 ≠ errSuccess) :
    (createNewSm api name type d).2.machines = d.machines := by
  revert h
  unfold createNewSm
  split
  · exact fun _ => rfl
  · split
    · exact fun _ => rfl
    · dsimp only
      split
      · exact fun _ => rfl
      · split
        · exact fun _ => rfl
        · exact fun h => absurd rfl h

theorem created_found {r : Route} {args : ExoRequestArgs} {d d' : Device E} (hd : Distinct (keys d))
    (hs : Searchable r.sm r.name) (hn : r.name = none ∨ newName r.sm args = r.name)
    (hf : findSm r.sm r.name d.machines 0 = some none)
    (hc : createNewSm api (newName r.sm args) r.sm d = (errSuccess, d')) :
    Distinct (keys d') ∧ (∃ item, d'.machines = d.machines ++ [item]) ∧
      findSm r.sm r.name d'.machines 0 = some (some d.machines.length) := by
  obtain ⟨item, hm, hkey⟩ := createNewSm_keys api hc
  obtain ⟨ht, hname⟩ := Prod.mk.inj hkey
  refine ⟨?_, ⟨item, hm⟩, ?_⟩
  · have hno (k) (hk : k ∈ keys d) : ¬ Matches r.sm r.name k := by
      intro hmatch
      obtain ⟨old, hold, rfl⟩ := List.mem_map.mp hk
      obtain ⟨i, hi⟩ := List.getElem?_of_mem hold
      obtain ⟨found, hfound, hiff⟩ := findSm_answers hs hd 0
      obtain rfl := Option.some.inj (hf.symm.trans hfound)
      exact absurd ((hiff i).mpr ⟨Nat.zero_le _, old, hi, hmatch⟩) nofun
    have hkeys : keys d' = keys d ++ [(r.sm, newName r.sm args)] := by
      unfold keys
      rw [hm, List.map_append, ← hkey]
      rfl
    rw [hkeys]
    exact hd.append hs hno hn
  · rw [hm, findSm_append hf item ht (hname ▸ hn), Nat.zero_add]

theorem obtainSm_answers {r : Route} {args : ExoRequestArgs} {d : Device E} (hd : Distinct (keys d))
    (hs : Searchable r.sm r.name) (hn : r.name = none ∨ newName r.sm args = r.name) :
    Obtains api r args d ∧ ∃ c, obtainSm api r args d = some c ∧ Distinct (keys c.2) := by
  obtain ⟨found, hfound, hiff⟩ := findSm_answers hs hd 0
  simp only [Nat.zero_le, true_and, Nat.sub_zero] at hiff
  have hcreated (d') (hf : findSm r.sm r.name d.machines 0 = some none)
      (hc : createNewSm api (newName r.sm args) r.sm d = (errSuccess, d')) :=
    created_found api hd hs hn hf hc
  have hobtained : ∃ error found d', obtainSm api r args d = some ((error, found), d') ∧
      (found = none → error ≠ errSuccess ∧
        (createNewSm api (newName r.sm args) r.sm d).1 = error) ∧ Distinct (keys d') := by
    cases found with
    | some i =>
        refine ⟨errFailure, some i, d, ?_, nofun, hd⟩
        unfold obtainSm
        rw [hfound]
        rfl
    | none =>
        obtain ⟨e, d₁, he, hc, -⟩ | ⟨stype, limit, d₁, sm, hc, -, -, -, -⟩ :=
          createNewSm_cases api (newName r.sm args) r.sm d
        · have hfailed : (createNewSm api (newName r.sm args) r.sm d).1 ≠ errSuccess := by
            rw [hc]
            exact he
          have hm := createNewSm_failed api hfailed
          rw [hc] at hm
          refine ⟨e, none, d₁, ?_, fun _ => ⟨he, by rw [hc]⟩, ?_⟩
          · unfold obtainSm
            simp only [Option.bind_eq_bind, hfound, Option.bind_some, hc, if_pos he]
          · unfold keys
            rw [hm]
            exact hd
        · obtain ⟨hdist, -, hnext⟩ := hcreated d₁ hfound hc
          refine ⟨errSuccess, some d.machines.length, d₁, ?_, nofun, hdist⟩
          unfold obtainSm
          simp only [Option.bind_eq_bind, hfound, Option.bind_some, hc, hnext, ne_eq, not_true,
            if_false]
  obtain ⟨error, found', d', ho, hasserted, hdist⟩ := hobtained
  refine ⟨⟨hd.oneEach, ⟨found, hfound, hiff⟩, fun d' hf hc => ?_, error, found', d', ho, hasserted⟩,
    _, ho, hdist⟩
  obtain ⟨hdist, hitem, hnext⟩ := hcreated d' hf hc
  exact ⟨hdist.oneEach, hitem, hnext⟩

omit api in
theorem keys_put {d : Device E} {i : Nat} {item : SmListItem} (hi : d.machines[i]? = some item)
    (st : St Request Nat (World E)) : keys (d.put i item st) = keys d := by
  obtain ⟨pre, post, hm, hset⟩ := split_at hi
  unfold keys Device.put
  dsimp only
  rw [hset, hm, List.map_append, List.map_append]
  rfl

theorem transmitTo_keys {i : Nat} {item : SmListItem} {d : Device E}
    (hi : d.machines[i]? = some item) (type : RequestType) (args : ExoRequestArgs) :
    keys (transmitTo api i item type args d).2 = keys d := by
  unfold transmitTo
  dsimp only
  split
  · split <;> rfl
  · split
    · exact keys_put (d := Device.mapWorld _ (d.call _).2) hi _
    · exact keys_put (d := Device.mapWorld _ (d.call _).2) hi _

theorem noCopy_answers {args : ExoRequestArgs} {d : Device E} (hd : Distinct (keys d))
    (ha : Named args) : Obtains api (route d.world.exo.protocolType args) args d ∧
      ∃ c, pcsmTransmitQueuePushNoCopy api args d = some c ∧ Distinct (keys c.2) := by
  obtain ⟨hobtains, ⟨⟨error, found⟩, d₁⟩, ho, hdist⟩ :=
    obtainSm_answers api hd (searchable_route ha) (newName_found d.world.exo.protocolType args)
  refine ⟨hobtains, ?_⟩
  unfold pcsmTransmitQueuePushNoCopy
  simp only [Option.bind_eq_bind, ho, Option.bind_some]
  split
  · exact ⟨_, rfl, hdist⟩
  · rename_i i item hfound
    split
    · exact ⟨_, rfl, hdist⟩
    · refine ⟨_, rfl, ?_⟩
      obtain ⟨j, -, hj⟩ := Option.bind_eq_some_iff.mp hfound
      obtain ⟨item', hitem, he⟩ := Option.map_eq_some_iff.mp hj
      obtain ⟨rfl, rfl⟩ := Prod.mk.inj he
      rw [transmitTo_keys api hitem]
      exact hdist

theorem sendSubscribes_answers {rest : Dictionary SubscribeItem} {d : Device E}
    (hd : Distinct (keys d)) (ha : ∀ entry ∈ rest, Named entry.2.args) :
    (∀ p ∈ subscribePushes api rest d,
      Obtains api (route p.2.world.exo.protocolType p.1) p.1 p.2) ∧
        ∃ d', sendSubscribes api rest d = some d' ∧ Distinct (keys d') := by
  induction rest generalizing d with
  | nil => exact ⟨List.forall_mem_nil _, d, rfl, hd⟩
  | cons entry rest ih =>
      obtain ⟨name, item⟩ := entry
      obtain ⟨hitem, hrest⟩ := List.forall_mem_cons.mp ha
      unfold subscribePushes sendSubscribes
      split
      · exact ih hd hrest
      · obtain ⟨hobtains, ⟨error, d₁⟩, hc, hdist⟩ := noCopy_answers api hd hitem
        have hmarked : Distinct (keys (if error = errSuccess then
            d₁.mapExo (ExositeClass.changeItem name markSent) else d₁)) := by
          split <;> exact hdist
        obtain ⟨hpushes, hsends⟩ := ih hmarked hrest
        simp only [hc, Option.bind_eq_bind, Option.bind_some]
        exact ⟨List.forall_mem_cons.mpr ⟨hobtains, hpushes⟩, hsends⟩

theorem sendQueued_answers {d : Device E} (hd : Distinct (keys d))
    (ha : ∀ args ∈ d.world.exo.requestQueue, Named args) :
    (∀ p ∈ queuedPushes d, Obtains api (route p.2.world.exo.protocolType p.1) p.1 p.2) ∧
      ∃ d', sendQueued api d = some d' ∧ Distinct (keys d') := by
  unfold queuedPushes sendQueued
  cases hq : d.world.exo.requestQueue with
  | nil => exact ⟨List.forall_mem_nil _, d, rfl, hd⟩
  | cons args rest =>
      obtain ⟨hobtains, ⟨error, d₁⟩, hc, hdist⟩ :=
        noCopy_answers api hd (ha args (hq ▸ List.mem_cons_self))
      simp only [hc, Option.bind_eq_bind, Option.bind_some, List.forall_mem_singleton]
      refine ⟨hobtains, _, rfl, ?_⟩
      split <;> exact hdist

theorem push_answers {args : ExoRequestArgs} {d : Device E} (hd : Distinct (keys d))
    (ha : Named args) : (∀ p ∈ copyPushes api args d,
      Obtains api (route p.2.world.exo.protocolType p.1) p.1 p.2) ∧
        ∃ c, pcsmTransmitQueuePush api args d = some c ∧ Distinct (keys c.2) := by
  unfold copyPushes pcsmTransmitQueuePush
  obtain ⟨w, hw, ⟨e, he, hn⟩ | ⟨id, hn⟩⟩ := exoRequestArgsNew_cases api args d.world
  · rw [hn]
    exact ⟨List.forall_mem_nil _, _, rfl, hd⟩
  · rw [hn]
    obtain ⟨hobtains, hc⟩ := noCopy_answers api (d := { d with world := w }) hd
      (show Named (copyArgs args id) from ha)
    exact ⟨List.forall_mem_singleton.mpr hobtains, hc⟩

omit api in
theorem named_of_tidy {exo : ExositeClass} (h : Tidy exo) :
    (∀ entry ∈ exo.subscribeMap, Named entry.2.args) ∧ ∀ args ∈ exo.requestQueue, Named args := by
  constructor
  · intro entry he _
    rw [(h.items entry he).named]
    rfl
  · intro args ha hm
    obtain hd | hd := h.queue args ha <;> exact absurd (hm.symm.trans hd) nofun

/-- A call of activate_sm returns, and every search that it makes is answered. -/
theorem activateSm_answers {d : Device E} (hs : Sound (books d)) (hd : Distinct (keys d)) :
    (∀ p ∈ activatePushes api d, Obtains api (route p.2.world.exo.protocolType p.1) p.1 p.2) ∧
      ∃ d', activateSm api d = some d' ∧ Distinct (keys d') := by
  have hsound : Sound (books d).enter := hs.enter
  have hb : books (d.mapExo (fun exo => { exo with activateState := some d.world.exo.nextState })) =
      (books d).enter := rfl
  have hk : keys (d.mapExo (fun exo => { exo with activateState := some d.world.exo.nextState })) =
      keys d := rfl
  unfold activatePushes activateSm
  dsimp only
  generalize d.mapExo _ = e at hb hk
  rw [← hb] at hsound
  rw [← hk] at hd
  have hasked {args : ExoRequestArgs} {next : ActivateState} (ha : Named args) :
      (∀ p ∈ copyPushes api args e, Obtains api (route p.2.world.exo.protocolType p.1) p.1 p.2) ∧
        ∃ d', ((pcsmTransmitQueuePush api args e).bind (fun c =>
          some (if c.1 = errSuccess then c.2.mapExo (ExositeClass.moveTo next) else c.2))) =
            some d' ∧ Distinct (keys d') := by
    obtain ⟨hpushes, c, hc, hdist⟩ := push_answers api hd ha
    rw [hc]
    refine ⟨hpushes, _, rfl, ?_⟩
    split <;> exact hdist
  cases d.world.exo.nextState with
  | sendGetTimestamp =>
      exact hasked (fun hm => absurd (show Method.timestamp = .subscribe from hm) (by decide))
  | waitTimestamp => exact ⟨List.forall_mem_nil _, e, rfl, hd⟩
  | init =>
      refine ⟨List.forall_mem_nil _, _, rfl, ?_⟩
      rw [keys_mapExo]
      exact hd
  | start =>
      refine ⟨List.forall_mem_nil _, _, rfl, ?_⟩
      rw [keys_mapExo]
      exact hd
  | prepareActivate =>
      refine ⟨List.forall_mem_nil _, _, rfl, ?_⟩
      split
      · exact hd
      · have hclear : keys (clearSms { e with world := (shouldDelayActivate api e.world).2 }) =
            keys e := by
          unfold keys clearSms
          rw [List.map_map]
          rfl
        exact hclear ▸ hd
  | sendActivate =>
      dsimp only
      split
      · exact ⟨List.forall_mem_nil _, e, rfl, hd⟩
      · exact hasked (fun hm => absurd (show Method.activate = .subscribe from hm) (by decide))
  | waitActivate => exact ⟨List.forall_mem_nil _, e, rfl, hd⟩
  | activated =>
      dsimp only
      split
      · exact ⟨List.forall_mem_nil _, _, rfl, hd⟩
      · have hmap : ∀ entry ∈ e.world.exo.subscribeMap, Named entry.2.args :=
          (named_of_tidy hsound.tidy).1
        obtain ⟨hpushes, e', he', hdist⟩ := sendSubscribes_answers api hd hmap
        have hsends := sendSubscribes_sends api hsound.tidy.keys (fun _ hm => hm) he'
        have hlater := hsound.sends hsends
        obtain ⟨hqueued, d', hd', hdist'⟩ :=
          sendQueued_answers api hdist (named_of_tidy hlater.tidy).2
        rw [he']
        refine ⟨fun p hp => ?_, d', hd', hdist'⟩
        obtain hp | hp := List.mem_append.mp hp
        · exact hpushes p hp
        · exact hqueued p hp

theorem step_distinct {d : Device E} {a : ExositeApi.Action E} (hs : Sound (books d))
    (hd : Distinct (keys d)) : Distinct (keys (ExositeApi.step api d a)) := by
  cases a with
  | activateSm =>
      obtain ⟨-, d', hd', hdist⟩ := activateSm_answers api hs hd
      unfold ExositeApi.step
      rw [hd']
      exact hdist
  | task i =>
      cases hi : d.machines[i]? with
      | none =>
          rw [step_no_task hi]
          exact hd
      | some item =>
          rw [step_task hi, keys_put hi]
          exact hd
  | user c => exact hd
  | interfere connectingSm startTime nextState allocated messageId f => exact hd

/-- In every step of every run each search for a state machine is answered. -/
theorem searches_answered (protocolType : AppType) (vendor model sn : List UInt8)
    (globals : Globals Nat) (messageId : Int) (objects : Nat) (ext : E)
    (acts : List (ExositeApi.Action E)) (a : ExositeApi.Action E) : SearchesAnswered api
      (run (ExositeApi.step api)
        (exositeNew api protocolType vendor model sn globals messageId objects ext) acts) a := by
  obtain ⟨hs, hd⟩ := Runs.invariant
    (P := fun d : Device E => Sound (books d) ∧ Distinct (keys d))
    (fun d a h => ⟨sound_step api h.1, step_distinct api h.1 h.2⟩) acts
    ⟨sound_exositeNew protocolType vendor model sn globals messageId objects ext,
      List.Pairwise.nil, List.forall_mem_nil _⟩
  obtain ⟨hpushes, d', hd', -⟩ := activateSm_answers api hs hd
  refine ⟨hd.oneEach, fun p hp => ?_, fun _ => by rw [hd']; rfl⟩
  cases a with
  | activateSm => exact hpushes p hp
  | task | user | interfere => exact absurd hp List.not_mem_nil

end

end ErSdk.SmSearch
