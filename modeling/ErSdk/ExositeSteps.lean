import ErSdk.ExositeBooks
import ErSdk.Statics

namespace ErSdk.ExositeSteps

open ProtocolClientSm Ledger SmMoves RequestArgs ExositeApi ExositeCalls ExositeBooks Runs Error

variable {E : Type}

theorem Obtained.exo {b b' : Books} (h : Obtained b b') :
    ∃ n, b'.exo = { b.exo with numberofStateMachines := n } := by
  cases h with
  | found => exact ⟨_, rfl⟩
  | grown stype limit => exact ⟨_, rfl⟩

theorem Pushed.exo {args : ExoRequestArgs} {b b' : Books} {error : Int} (h : Pushed args b error b') :
    b'.exo = b.exo := by
  cases h <;> rfl

theorem mem_update {α : Type} {key k : List UInt8} {f : α → α} {v : α} {map : Dictionary α}
    (h : (k, v) ∈ map) (hne : k ≠ key) : (k, v) ∈ update key f map :=
  List.mem_map.mpr ⟨(k, v), h, if_neg hne⟩

section

variable (api : Api E)

theorem sendSubscribes_sends {rest : Dictionary SubscribeItem} {d d' : Device E}
    (hk : (rest.map Prod.fst).Nodup) (hm : ∀ entry ∈ rest, entry ∈ d.world.exo.subscribeMap)
    (h : sendSubscribes api rest d = some d') : Sends (books d) (books d') := by
  induction rest generalizing d with
  | nil =>
      cases h
      exact .refl
  | cons entry rest ih =>
      obtain ⟨key, item⟩ := entry
      obtain ⟨hkey, hrest⟩ := List.nodup_cons.mp hk
      unfold sendSubscribes at h
      split at h
      · exact ih hrest (fun e he => hm e (List.mem_cons_of_mem _ he)) h
      · rename_i hs
        cases hc : pcsmTransmitQueuePushNoCopy api item.args d with
        | none =>
            rw [hc] at h
            exact absurd h nofun
        | some c =>
            obtain ⟨error, d₁⟩ := c
            rw [hc] at h
            simp only [Option.bind_eq_bind, Option.bind_some] at h
            obtain ⟨b, ho, hp⟩ := noCopy_pushed api hc
            have hsend : Send (books d) _ := .subscribe (hm _ List.mem_cons_self)
              (by simpa using (not_or.mp hs).1) ho hp
            obtain ⟨n, hn⟩ := Obtained.exo ho
            have hexo : d₁.world.exo = { d.world.exo with numberofStateMachines := n } :=
              (Pushed.exo hp).trans hn
            refine .head hsend ?_
            have hmem (e) (he : e ∈ rest) : e ∈ d₁.world.exo.subscribeMap := by
              rw [hexo]
              exact hm e (List.mem_cons_of_mem _ he)
            by_cases he : error = errSuccess
            · rw [if_pos he] at h ⊢
              refine ih hrest (fun e hmem' => ?_) h
              exact mem_update (hmem e hmem') (fun hkk => hkey (hkk ▸ List.mem_map.mpr ⟨e, hmem', rfl⟩))
            · rw [if_neg he] at h ⊢
              exact ih hrest hmem h

theorem sendQueued_sends {d d' : Device E} (h : sendQueued api d = some d') :
    Sends (books d) (books d') := by
  unfold sendQueued at h
  split at h
  · cases h
    exact .refl
  · rename_i args rest hq
    cases hc : pcsmTransmitQueuePushNoCopy api args d with
    | none =>
        rw [hc] at h
        exact absurd h nofun
    | some c =>
        obtain ⟨error, d₁⟩ := c
        rw [hc] at h
        cases h
        obtain ⟨b, ho, hp⟩ := noCopy_pushed api hc
        have hsend : Send (books d) _ := .queued hq ho hp
        split
        · rename_i he
          rw [if_pos he] at hsend
          exact .single hsend
        · rename_i he
          rw [if_neg he] at hsend
          exact .single hsend

theorem books_clearSms (d : Device E) : books (clearSms d) = (books d).clear := by
  unfold books clearSms Books.clear Books.withMachines
  simp only [List.map_map]
  rfl

theorem smsEmpty_iff (d : Device E) :
    smsEmpty d = true ↔ ∀ h ∈ (books d).machines, h.aborting = false := by
  simp [smsEmpty, books, protocolClientSmIsEmpty]

theorem shouldDelayActivate_account (w : World E) : ∃ time requests attempts,
    account (shouldDelayActivate api w).2 =
      (account w).mapExo (setAttempts time requests attempts) := by
  unfold shouldDelayActivate
  split
  · dsimp only
    split <;> exact ⟨_, _, _, rfl⟩
  · split
    · dsimp only
      split <;> exact ⟨_, _, _, rfl⟩
    · exact ⟨_, _, _, rfl⟩

theorem apiGetCik_cases (w : World E) : ∃ cik,
    account (apiGetCik api w).2 = (account w).mapExo (fun exo => { exo with cik }) ∧
      ((apiGetCik api w).1 = errSuccess → ValidCik cik) := by
  refine ⟨(api.systemGetCik w.exo.cik w.ext).1.2, ?_, ?_⟩
  · unfold apiGetCik
    dsimp only
    split
    · rfl
    · split <;> rfl
  · unfold apiGetCik
    dsimp only
    intro h
    split at h
    · rename_i he
      exact absurd h he
    · split at h
      · exact absurd (show errCikNotValid = errSuccess from h) (by decide)
      · rename_i hv
        exact systemIsCikFormatValid_iff.mp
          (eq_true_of_ne_false (mt (Bool.not_eq_true' _).mpr hv))

theorem loadDeviceCik_loads (exo : ExositeClass) : ∃ cik next,
    loadDeviceCik api exo = { exo with cik, nextState := next } ∧
      (next = .activated ∧ ValidCik cik ∨ next = .start) := by
  unfold loadDeviceCik
  dsimp only
  split
  · rename_i hv
    exact ⟨_, _, rfl, .inl ⟨rfl, systemIsCikFormatValid_iff.mp hv⟩⟩
  · exact ⟨_, _, rfl, .inr rfl⟩

omit api in
theorem Asks.withId {args : ExoRequestArgs} {next : ActivateState} {b : Books}
    (h : ExositeBooks.Asks b args next) (id : Int) :
    ExositeBooks.Asks b { args with messageId := id } next := by
  cases h with
  | timestamp hs hm hc => exact .timestamp hs hm hc
  | activate hs hb hm hc => exact .activate hs hb hm hc

theorem push_activates {args : ExoRequestArgs} {next : ActivateState} {b : Books} {d d' : Device E}
    (ha : Asks b args next) (hb : books d = b.enter)
    (h : ((pcsmTransmitQueuePush api args d).bind
      (fun c => some (if c.1 = errSuccess then c.2.mapExo (ExositeClass.moveTo next) else c.2))) =
        some d') : Activates b (books d') := by
  obtain ⟨⟨error, d₁⟩, hc, hd⟩ := Option.bind_eq_some_iff.mp h
  obtain ⟨id, b₁, ho, hp⟩ := push_pushed api hc
  rw [hb] at ho
  have hact : Activates b _ := .asks (Asks.withId ha id) ho hp
  cases hd
  split
  · rename_i he
    rw [if_pos he] at hact
    exact hact
  · rename_i he
    rw [if_neg he] at hact
    exact hact

theorem books_mapExo (f : ExositeClass → ExositeClass) (d : Device E) :
    books (d.mapExo f) = (books d).mapExo f := rfl

theorem mapExo_congr {f g : ExositeClass → ExositeClass} {b : Books} (h : f b.exo = g b.exo) :
    b.mapExo f = b.mapExo g := by
  unfold Books.mapExo Account.mapExo
  rw [show f b.account.exo = g b.account.exo from h]

/-- What activate_sm does is one of the things it can do. -/
theorem activateSm_activates {d d' : Device E} (hk : (d.world.exo.subscribeMap.map Prod.fst).Nodup)
    (h : activateSm api d = some d') : Activates (books d) (books d') := by
  unfold activateSm at h
  dsimp only at h
  have hb : books (d.mapExo (fun exo => { exo with activateState := some d.world.exo.nextState })) =
      (books d).enter := rfl
  generalize d.mapExo _ = e at h hb
  have he : e.world.exo = (books d).enter.exo := congrArg Books.exo hb
  cases hs : d.world.exo.nextState with
  | sendGetTimestamp =>
      have ha : Asks (books d) { ExoRequestArgs.zero .timestamp with callback := .onTimestamp }
          .waitTimestamp := .timestamp hs rfl rfl
      rw [hs] at h
      exact push_activates api ha hb h
  | waitTimestamp =>
      rw [hs] at h
      cases h
      exact hb ▸ .waits (.inl hs)
  | init =>
      rw [hs] at h
      cases h
      obtain ⟨cik, next, hload, hn⟩ := loadDeviceCik_loads api e.world.exo
      have hbooks : books (e.mapExo (loadDeviceCik api)) =
          (books d).enter.mapExo (fun exo => { exo with cik, nextState := next }) := by
        rw [books_mapExo, hb]
        exact mapExo_congr (he ▸ hload)
      rw [hbooks]
      exact .loads cik (.inl hs) (hn.imp_right .inl)
  | start =>
      rw [hs] at h
      cases h
      obtain ⟨cik, haccount, hvalid⟩ := apiGetCik_cases api e.world
      have hread : books { e with world := (apiGetCik api e.world).2 } =
          (books d).enter.mapExo (fun exo => { exo with cik }) := by
        rw [← hb]
        exact congrArg (Books.mk _ _) haccount
      have hbooks (next : ActivateState) :
          books (Device.mapExo (ExositeClass.moveTo next) { e with world := (apiGetCik api e.world).2 }) =
            (books d).enter.mapExo (fun exo => { exo with cik, nextState := next }) :=
        congrArg (Books.mapExo (ExositeClass.moveTo next)) hread
      rw [hbooks]
      refine .loads cik (.inr hs) ?_
      split
      · rename_i hok
        exact .inl ⟨rfl, hvalid hok⟩
      · exact .inr (.inr rfl)
  | prepareActivate =>
      rw [hs] at h
      cases h
      obtain ⟨time, requests, attempts, haccount⟩ := shouldDelayActivate_account api e.world
      have hbooks : books { e with world := (shouldDelayActivate api e.world).2 } =
          (books d).enter.mapExo (setAttempts time requests attempts) := by
        rw [← hb]
        exact congrArg (Books.mk _ _) haccount
      split
      · rw [hbooks]
        exact .delays time requests attempts hs
      · rw [show books ((clearSms { e with world := (shouldDelayActivate api e.world).2 }).mapExo
            (ExositeClass.moveTo .sendActivate)) = (books (clearSms
              { e with world := (shouldDelayActivate api e.world).2 })).mapExo
                (ExositeClass.moveTo .sendActivate) from rfl, books_clearSms, hbooks]
        exact .clears time requests attempts hs
  | sendActivate =>
      rw [hs] at h
      dsimp only at h
      split at h
      · cases h
        exact hb ▸ .waits (.inr (.inr hs))
      · rename_i hempty
        have hall := (smsEmpty_iff e).mp (eq_true_of_ne_false (mt (Bool.not_eq_true' _).mpr hempty))
        rw [hb] at hall
        have ha : Asks (books d) { ExoRequestArgs.zero .activate with
            vendor := some e.world.exo.vendor
            model := some e.world.exo.model
            sn := some e.world.exo.sn
            callback := .onActivate } .waitActivate := .activate hs hall rfl rfl
        exact push_activates api ha hb h
  | waitActivate =>
      rw [hs] at h
      cases h
      exact hb ▸ .waits (.inr (.inl hs))
  | activated =>
      rw [hs] at h
      dsimp only at h
      split at h
      · cases h
        have hact : Activates (books d) _ := .reactivates hs
        rw [← hb] at hact
        exact hact
      · obtain ⟨e', hsend, hqueue⟩ := Option.bind_eq_some_iff.mp h
        have hkeys : (e.world.exo.subscribeMap.map Prod.fst).Nodup := by
          rw [he]
          exact hk
        have hsends := sendSubscribes_sends api hkeys (fun _ hm => hm) hsend
        rw [hb] at hsends
        exact .sends hs (hsends.trans (sendQueued_sends api hqueue))

end

end ErSdk.ExositeSteps
