import ErSdk.ExositeRuns

namespace ErSdk.Subscriptions

open ProtocolClientSm Ledger SmMoves RequestArgs ExositeApi ExositeCalls ExositeBooks ExositeSteps
open ExositeRuns Sessions Runs Error

variable {E : Type}

def responseCodeToSystemError (responseCode : Int) (method : Method) : Int :=
  if responseCode < 0 then responseCode
  else if responseCode = 204 then if method = .read then errNoContent else errSuccess
  else if responseCode = 200 ∨ responseCode = 205 then errSuccess
  else if responseCode = 304 then errUnchanged
  else if responseCode = 401 then errCikNotValid
  else if responseCode = 404 then errActivateNotFound
  else if responseCode = 409 then errActivateConflict
  else errFailure

/-- The function of the two CoAP APIs. It leaves the payload as it is. -/
def coapParsePayload (args : ExoRequestArgs) (payload : List UInt8) (_size _maxSize : Nat)
    (responseCode : Int) : Int × List UInt8 :=
  (responseCodeToSystemError responseCode args.method, payload)

def Served (api : Api E) (protocolType : AppType) : Prop :=
  protocolType = .http ∨ protocolType = .coap ∧ api.responseCallback = coapParsePayload

def Acknowledges (responseCode : Int) : Prop :=
  responseCode = 200 ∨ responseCode = 204 ∨ responseCode = 205

instance (responseCode : Int) : Decidable (Acknowledges responseCode) :=
  inferInstanceAs (Decidable (_ ∨ _))

theorem acknowledges_iff (responseCode : Int) :
    responseCodeToSystemError responseCode .subscribe = errSuccess ↔ Acknowledges responseCode := by
  unfold responseCodeToSystemError Acknowledges
  split
  · exact iff_of_false (show ¬ responseCode = 0 by omega) (by omega)
  · split
    · rename_i h
      exact iff_of_true rfl (.inr (.inl h))
    · split
      · rename_i h
        exact iff_of_true rfl (h.imp_right .inr)
      · rename_i h
        refine iff_of_false ?_ (by omega)
        split_ifs <;> decide

def subscribes (key : List UInt8) (r : ProtocolClientRequest Request) : Bool :=
  r.request.args.method = .subscribe && r.request.args.aliasName = some key

def live (held : List (ProtocolClientRequest Request)) (key : List UInt8) : Nat :=
  held.countP (subscribes key)

def SentIn (exo : ExositeClass) (key : List UInt8) : Prop :=
  ∃ item, (key, item) ∈ exo.subscribeMap ∧ item.sent = true

/-- An item is marked as long as its request is held, which is one request. -/
def Balanced (held : List (ProtocolClientRequest Request)) (exo : ExositeClass) (key : List UInt8) :
    Prop :=
  SentIn exo key ∧ live held key = 1 ∨ ¬ SentIn exo key ∧ live held key = 0

structure Live (held : List (ProtocolClientRequest Request)) (exo : ExositeClass) : Prop where
  balanced : ∀ key, Balanced held exo key
  appType : ∀ r ∈ held, r.request.args.method = .subscribe →
    r.request.args.appType = exo.protocolType

section

variable {held held' : List (ProtocolClientRequest Request)} {exo exo' : ExositeClass}
  {key : List UInt8}

theorem live_of_ne {l : List (ProtocolClientRequest Request)}
    (h : ∀ r ∈ l, r.request.args.method ≠ .subscribe) (key : List UInt8) : live l key = 0 :=
  List.countP_eq_zero.mpr (fun r hr hs => h r hr (of_decide_eq_true (Bool.and_eq_true_iff.mp hs).1))

theorem live_perm (h : held'.Perm held) (key : List UInt8) : live held' key = live held key :=
  h.countP_eq _

theorem live_append (l l' : List (ProtocolClientRequest Request)) (key : List UInt8) :
    live (l ++ l') key = live l key + live l' key := List.countP_append

theorem live_asHanded (l : List (ProtocolClientRequest Request)) (key : List UInt8) :
    live (l.map asHanded) key = live l key := List.countP_map

theorem live_singleton (r : ProtocolClientRequest Request) (key : List UInt8) :
    live [r] key = if r.request.args.method = .subscribe ∧ r.request.args.aliasName = some key then 1
      else 0 := by
  unfold live subscribes
  rw [List.countP_singleton]
  simp only [Bool.and_eq_true, decide_eq_true_eq]

theorem Balanced.congr (h : Balanced held exo key) (hs : SentIn exo' key ↔ SentIn exo key)
    (hl : live held' key = live held key) : Balanced held' exo' key := by
  unfold Balanced
  rw [hs, hl]
  exact h

theorem Live.frame (h : Live held exo) (hp : held'.Perm held) (hm : exo'.subscribeMap = exo.subscribeMap)
    (ht : exo'.protocolType = exo.protocolType) : Live held' exo' where
  balanced key := (h.balanced key).congr (by unfold SentIn; rw [hm]) (live_perm hp key)
  appType r hr hmethod := ht ▸ h.appType r (hp.mem_iff.mp hr) hmethod

theorem sentIn_changeItem_ne {f : SubscribeItem → SubscribeItem} {k : List UInt8} (hne : k ≠ key) :
    SentIn (exo.changeItem key f) k ↔ SentIn exo k := by
  constructor
  · rintro ⟨item, hm, hs⟩
    obtain ⟨v, hv, he⟩ := mem_update_iff.mp hm
    obtain rfl : item = v := he.trans (if_neg hne)
    exact ⟨item, hv, hs⟩
  · rintro ⟨item, hm, hs⟩
    exact ⟨item, mem_update_iff.mpr ⟨item, hm, (if_neg hne).symm⟩, hs⟩

theorem sentIn_changeItem_self {f : SubscribeItem → SubscribeItem} :
    SentIn (exo.changeItem key f) key ↔ ∃ item, (key, item) ∈ exo.subscribeMap ∧ (f item).sent = true := by
  constructor
  · rintro ⟨item, hm, hs⟩
    obtain ⟨v, hv, he⟩ := mem_update_iff.mp hm
    obtain rfl : item = f v := he.trans (if_pos rfl)
    exact ⟨v, hv, hs⟩
  · rintro ⟨item, hm, hs⟩
    exact ⟨f item, mem_update_iff.mpr ⟨item, hm, (if_pos rfl).symm⟩, hs⟩

theorem sentIn_user {limit : Nat} {x y : Account} (h : UserChange limit x y) (key : List UInt8) :
    SentIn y.exo key ↔ SentIn x.exo key := by
  cases h with
  | told | queued => exact .rfl
  | subscribed k args hm hc hk hp hmap =>
      obtain ⟨hperm, -⟩ := insert_perm hmap
      constructor
      · rintro ⟨item, hi, hs⟩
        obtain heq | hi := List.mem_cons.mp (hperm.mem_iff.mp hi)
        · obtain ⟨-, rfl⟩ := Prod.mk.inj heq
          exact absurd hs Bool.false_ne_true
        · exact ⟨item, hi, hs⟩
      · rintro ⟨item, hi, hs⟩
        exact ⟨item, hperm.mem_iff.mpr (List.mem_cons_of_mem _ hi), hs⟩

theorem sentIn_users {limit : Nat} {x y : Account} (h : UserChanges limit x y) (key : List UInt8) :
    SentIn y.exo key ↔ SentIn x.exo key := by
  induction h with
  | refl => exact .rfl
  | tail _ hc ih => exact (sentIn_user hc key).trans ih

theorem Live.users {limit : Nat} {x y : Account} (h : Live held x.exo) (ht : Tidy x.exo)
    (hu : UserChanges limit x y) : Live held y.exo where
  balanced key := (h.balanced key).congr (sentIn_users hu key) rfl
  appType r hr hm := ((ht.users hu).2 ▸ h.appType r hr hm)

theorem not_sentIn {item : SubscribeItem} (ht : Tidy exo) (hm : (key, item) ∈ exo.subscribeMap)
    (hs : item.sent = false) : ¬ SentIn exo key := by
  rintro ⟨item', hm', hs'⟩
  have heq := List.inj_on_of_nodup_map ht.keys hm hm' rfl
  obtain ⟨-, rfl⟩ := Prod.mk.inj heq
  exact Bool.false_ne_true (hs.symm.trans hs')

theorem Live.subscribed (h : Live held exo) (ht : Tidy exo) {item : SubscribeItem}
    (hm : (key, item) ∈ exo.subscribeMap) (hs : item.sent = false) {r : ProtocolClientRequest Request}
    (hmethod : r.request.args.method = .subscribe) (hname : r.request.args.aliasName = some key)
    (htype : r.request.args.appType = exo.protocolType) :
    Live (r :: held) (exo.changeItem key markSent) := by
  refine ⟨fun k => ?_, fun q hq hqm => ?_⟩
  · have hlive : live (r :: held) k = live [r] k + live held k := live_append [r] held k
    rw [live_singleton] at hlive
    by_cases hk : k = key
    · subst hk
      obtain ⟨hsent, -⟩ | ⟨-, hnone⟩ := h.balanced k
      · exact absurd hsent (not_sentIn ht hm hs)
      · refine .inl ⟨sentIn_changeItem_self.mpr ⟨item, hm, rfl⟩, ?_⟩
        rw [hlive, hnone, if_pos ⟨hmethod, hname⟩]
    · rw [if_neg (fun hc => hk (Option.some.inj (hc.2.symm.trans hname))), Nat.zero_add] at hlive
      exact (h.balanced k).congr (sentIn_changeItem_ne hk) hlive
  · obtain rfl | hq := List.mem_cons.mp hq
    · exact htype
    · exact h.appType q hq hqm

theorem Live.other (h : Live held exo) {r : ProtocolClientRequest Request}
    (hmethod : r.request.args.method ≠ .subscribe) : Live (r :: held) exo := by
  refine ⟨fun k => ?_, fun q hq hqm => ?_⟩
  · have hlive : live (r :: held) k = live [r] k + live held k := live_append [r] held k
    rw [live_singleton, if_neg (fun hc => hmethod hc.1), Nat.zero_add] at hlive
    exact (h.balanced k).congr .rfl hlive
  · obtain rfl | hq := List.mem_cons.mp hq
    · exact absurd hqm hmethod
    · exact h.appType q hq hqm

theorem Live.leave (h : Live held exo) {l : List (ProtocolClientRequest Request)}
    (hp : held.Perm (l ++ held')) (hl : ∀ r ∈ l, r.request.args.method ≠ .subscribe) : Live held' exo := by
  refine ⟨fun k => ?_, fun r hr hm => ?_⟩
  · have hlive := live_perm hp k
    rw [live_append, live_of_ne hl, Nat.zero_add] at hlive
    exact (h.balanced k).congr .rfl hlive.symm
  · exact h.appType r (hp.mem_iff.mpr (List.mem_append_right l hr)) hm

theorem Live.answered (h : Live held exo) {r : ProtocolClientRequest Request} (hr : r ∈ held)
    (hmethod : r.request.args.method = .subscribe) (hname : r.request.args.aliasName = some key)
    {l : List (ProtocolClientRequest Request)} (hp : held.Perm (l ++ held'))
    {status : Int} {stays : Prop}
    (hstays : stays ↔ status = errSuccess ∧ r.request.args.appType ≠ .http)
    (hleft : ∀ k, stays ∧ live l k = 0 ∨ ¬ stays ∧ live l k = live [r] k) :
    Live held' (exo.changeItem key (ExositeApi.answered status r.request.args.appType)) := by
  refine ⟨fun k => ?_, fun q hq hqm => ?_⟩
  · have hlive := live_perm hp k
    rw [live_append] at hlive
    have hone := hleft k
    rw [live_singleton] at hone
    by_cases hk : k = key
    · subst hk
      rw [if_pos ⟨hmethod, hname⟩] at hone
      have hheld : 0 < live held k := List.countP_pos_iff.mpr
        ⟨r, hr, Bool.and_eq_true_iff.mpr ⟨decide_eq_true hmethod, decide_eq_true hname⟩⟩
      obtain ⟨⟨item, hm, hs⟩, hcount⟩ | ⟨-, hnone⟩ := h.balanced k
      · obtain ⟨hin, hl⟩ | ⟨hout, hl⟩ := hone
        · obtain ⟨hstatus, htype⟩ := hstays.mp hin
          refine .inl ⟨sentIn_changeItem_self.mpr ⟨item, hm, ?_⟩, by omega⟩
          unfold ExositeApi.answered
          rw [if_neg (not_not_intro hstatus), if_neg htype]
          exact hs
        · refine .inr ⟨fun hsent => ?_, by omega⟩
          obtain ⟨item', -, hs'⟩ := sentIn_changeItem_self.mp hsent
          unfold ExositeApi.answered at hs'
          split at hs'
          · exact absurd hs' Bool.false_ne_true
          · rename_i hstatus
            split at hs'
            · exact absurd hs' Bool.false_ne_true
            · rename_i htype
              exact hout (hstays.mpr ⟨not_not.mp hstatus, htype⟩)
      · omega
    · rw [if_neg (fun hc => hk (Option.some.inj (hc.2.symm.trans hname)))] at hone
      refine (h.balanced k).congr (sentIn_changeItem_ne hk) ?_
      obtain ⟨-, hl⟩ | ⟨-, hl⟩ := hone <;> omega
  · exact h.appType q (hp.mem_iff.mpr (List.mem_append_right l hq)) hqm

end

section

variable {b b' : Books}

theorem Live.obtained (h : Live b.held b.exo) (ho : Obtained b b') : Live b'.held b'.exo := by
  obtain ⟨n, hexo⟩ := Obtained.exo ho
  rw [(Obtained.held ho).1, hexo]
  exact h.frame (.refl _) rfl rfl

theorem Live.pushed {args : ExoRequestArgs} {error : Int} (h : Live b.held b.exo)
    (hm : args.method ≠ .subscribe) (hp : Pushed args b error b') : Live b'.held b'.exo := by
  rw [Pushed.exo hp]
  obtain ⟨-, ⟨-, hheld⟩ | ⟨-, hheld, -⟩⟩ := Pushed.held hp
  · rw [hheld]
    exact h
  · refine Live.frame ?_ hheld rfl rfl
    refine h.other ?_
    unfold requestFor
    dsimp only
    exact hm

theorem Live.send (hs : Sound b) (h : Live b.held b.exo) (hsend : Send b b') : Live b'.held b'.exo := by
  cases hsend with
  | @subscribe b₁ b₂ key item error hi hn ho hp =>
      have hsound := hs.obtained ho
      have hlive := h.obtained ho
      obtain ⟨n, hexo⟩ := Obtained.exo ho
      have hitem : (key, item) ∈ b₁.exo.subscribeMap := by
        rw [hexo]
        exact hi
      have hpushed := Pushed.exo hp
      obtain ⟨-, ⟨he, hheld⟩ | ⟨rfl, hheld, -⟩⟩ := Pushed.held hp
      · rw [if_neg he, hheld, hpushed]
        exact hlive
      · have hsub := hsound.tidy.items _ hitem
        have hnew : Live (requestFor b₁ item.args :: b₁.held) (b₁.exo.changeItem key markSent) := by
          refine hlive.subscribed hsound.tidy hitem hn ?_ ?_ ?_
          all_goals
            unfold requestFor
            dsimp only
          · exact hsub.method
          · exact hsub.named
          · exact hsub.appType
        rw [if_pos rfl]
        refine hnew.frame hheld ?_ ?_
        · exact congrArg (fun exo => (exo.changeItem key markSent).subscribeMap) hpushed
        · exact congrArg (fun exo => (exo.changeItem key markSent).protocolType) hpushed
  | @queued b₁ b₂ args rest error hq ho hp =>
      have hm : args.method ≠ .subscribe := by
        obtain hm | hm := hs.tidy.queue args (hq ▸ List.mem_cons_self) <;> rw [hm] <;> decide
      have hpushed := (h.obtained ho).pushed hm hp
      split
      · exact hpushed.frame (.refl _) rfl rfl
      · exact hpushed

theorem Live.sends (hs : Sound b) (h : Live b.held b.exo) (hsends : Sends b b') :
    Live b'.held b'.exo := by
  induction hsends with
  | refl => exact h
  | tail hrest hsend ih => exact ih.send (hs.sends hrest) hsend

theorem Live.activates (hs : Sound b) (h : Live b.held b.exo) (ha : Activates b b') :
    Live b'.held b'.exo := by
  have he : Live b.enter.held b.enter.exo := h.frame (.refl _) rfl rfl
  cases ha with
  | waits hw => exact he
  | @asks b₁ b₂ args next error hask ho hp =>
      have hm : args.method ≠ .subscribe := by
        cases hask with
        | timestamp _ hm _ => rw [hm]; decide
        | activate _ _ hm _ => rw [hm]; decide
      have hpushed := (he.obtained ho).pushed hm hp
      split
      · exact hpushed.frame (.refl _) rfl rfl
      · exact hpushed
  | loads cik hw hn => exact he.frame (.refl _) rfl rfl
  | delays time requests attempts hw => exact he.frame (.refl _) rfl rfl
  | clears time requests attempts hw =>
      have hcleared : b.enter.clear.held = b.enter.held := held_clear b.enter
      exact he.frame (hcleared ▸ .refl _) rfl rfl
  | reactivates hw => exact he.frame (.refl _) rfl rfl
  | sends hw hsends => exact he.sends hs.enter hsends

end

/-- An answered subscription stays with its machine if and only if the code of the answer is a success
for its item, and no other completion drops a subscribe request that is active. -/
def Agreeing (c : Completion Request) : Prop :=
  (c.why = .response → c.request.type = .subscribeAsynch →
    (Acknowledges c.response.responseCode ↔ c.stays = true)) ∧
  (c.Drops → ∀ r ∈ c.before.active, r.request.args.method ≠ .subscribe)

instance (c : Completion Request) : Decidable (Agreeing c) := inferInstanceAs (Decidable (_ ∧ _))

section

variable {api : Api E} {protocolType : AppType} {c : Completion Request}

theorem listed_iff (hc : c.Selected) (hok : Agreeing c) (hserved : Served api protocolType)
    (hmade : Made protocolType c.request) (hmethod : c.request.request.args.method = .subscribe)
    (htype : c.request.request.args.appType = protocolType) :
    c.listed = true ↔ statusOf api c.request c.response = errSuccess ∧
      c.request.request.args.appType ≠ .http := by
  have hroute := hmade.2
  unfold route at hroute
  rw [hmethod] at hroute
  obtain rfl | ⟨rfl, hcallback⟩ := hserved
  · refine iff_of_false (fun hl => ?_) (fun h => h.2 htype)
    unfold Completion.listed at hl
    have hstays := Completion.stays_type (Bool.and_eq_true_iff.mp hl).2
    exact absurd (hroute.symm.trans hstays) nofun
  · rw [htype, and_iff_left (by decide)]
    have hstatus : statusOf api c.request c.response = errSuccess ↔
        Acknowledges c.response.responseCode := by
      unfold statusOf
      rw [hcallback, coapParsePayload, hmethod]
      exact acknowledges_iff _
    rw [hstatus]
    unfold Completion.listed
    by_cases hw : c.why = .response
    · rw [hok.1 hw hroute, hw]
      simp
    · refine iff_of_false (fun hl => hw (of_decide_eq_true (Bool.and_eq_true_iff.mp hl).1)) ?_
      have hcode : c.response.responseCode = errTimeout ∨ c.response.responseCode = errRequestAborted := by
        cases hc with
        | answered => exact absurd rfl hw
        | sentTimeout _ hcode | activeTimeout _ hcode => exact .inl hcode
        | queueAbort _ _ _ hcode | sentAbort _ _ _ _ hcode | activeAbort _ _ _ _ hcode =>
            exact .inr hcode
      obtain hcode | hcode := hcode <;> rw [hcode] <;> decide

theorem live_left (hok : Agreeing c) (key : List UInt8) :
    c.listed = true ∧ live (c.left.map asHanded) key = 0 ∨
      ¬ c.listed = true ∧ live (c.left.map asHanded) key = live [asHanded c.request] key := by
  have hdropped : live (if c.Drops then c.before.active.toList else []) key = 0 := by
    split
    · rename_i hd
      exact live_of_ne (fun r hr => hok.2 hd r (Option.mem_toList.mp hr)) key
    · rfl
  rw [live_asHanded, Completion.left, live_append, hdropped, Nat.add_zero]
  by_cases hl : c.listed = true
  · rw [if_pos hl]
    exact .inl ⟨hl, rfl⟩
  · rw [if_neg hl]
    exact .inr ⟨hl, rfl⟩

theorem method_left (hok : Agreeing c) (hm : c.request.request.args.method ≠ .subscribe)
    {r : ProtocolClientRequest Request} (hr : r ∈ c.left) : r.request.args.method ≠ .subscribe := by
  obtain hr | hr := List.mem_append.mp hr
  · split at hr
    · exact absurd hr List.not_mem_nil
    · exact List.mem_singleton.mp hr ▸ hm
  · split at hr
    · rename_i hd
      exact hok.2 hd r (Option.mem_toList.mp hr)
    · exact absurd hr List.not_mem_nil

theorem Live.works {deletes : Prop} {b b' : Books} (hs : Sound b) (h : Live b.held b.exo)
    (hserved : Served api b.exo.protocolType) (hw : Works api deletes Agreeing b b') :
    Live b'.held b'.exo := by
  obtain ⟨-, hout⟩ := hw.outcome hs.nodup
  cases hout with
  | quiet hp hx =>
      have hexo : b'.exo = b.exo := congrArg Account.exo hx
      exact h.frame hp (hexo ▸ rfl) (hexo ▸ rfl)
  | sent hr hp hx =>
      have hexo : b'.exo = b.exo := by
        obtain hx | ⟨-, hx⟩ := hx <;> exact (congrArg Account.exo hx).trans rfl
      exact h.frame hp (hexo ▸ rfl) (hexo ▸ rfl)
  | @completed c y hsel hok hr hp ha hx =>
      have hexo : b'.exo = y.exo := (congrArg Account.exo hx).trans rfl
      obtain ⟨hft, hfp⟩ := tidy_flagged hs.tidy (statusOf api c.request c.response)
      have hflag : Live b.held (flagged (statusOf api c.request c.response) b.exo) :=
        h.frame (.refl _) (by unfold flagged; split <;> rfl) hfp
      rw [hexo]
      have hother (hm : c.request.request.args.method ≠ .subscribe) : Live b'.held
          (flagged (statusOf api c.request c.response) b.exo) := by
        refine hflag.leave hp (fun r hr' => ?_)
        obtain ⟨q, hq, rfl⟩ := List.mem_map.mp hr'
        exact method_left (r := q) hok hm hq
      cases ha with
      | data hm hu =>
          have hne : c.request.request.args.method ≠ .subscribe := by
            obtain hm | hm := hm <;> rw [hm] <;> decide
          exact (hother hne).users hft hu
      | @subscribe z key hm hk hu =>
          have hmade : Made b.exo.protocolType c.request := hs.made (asHanded c.request) hr
          have hlisted := listed_iff hsel hok hserved hmade hm (h.appType (asHanded c.request) hr hm)
          exact (hflag.users hft hu).answered hr hm hk hp hlisted (live_left hok)
      | accepted hm hv => exact (hother (by rw [hm]; decide)).frame (.refl _) rfl rfl
      | malformed cik hm => exact (hother (by rw [hm]; decide)).frame (.refl _) rfl rfl
      | refused hm => exact (hother (by rw [hm]; decide)).frame (.refl _) rfl rfl
      | timestamp hm hn => exact (hother (by rw [hm]; decide)).frame (.refl _) rfl rfl

end

section

variable {b b' : Books}

theorem protocolType_works {api : Api E} {deletes : Prop} {ok : Completion Request → Prop} (hs : Sound b)
    (hw : Works api deletes ok b b') : b'.exo.protocolType = b.exo.protocolType := by
  obtain ⟨-, hout⟩ := hw.outcome hs.nodup
  cases hout with
  | quiet hp hx => exact congrArg (fun x => x.exo.protocolType) hx
  | sent hr hp hx =>
      obtain hx | ⟨-, hx⟩ := hx <;> exact (congrArg (fun x => x.exo.protocolType) hx).trans rfl
  | @completed c y hsel hok hr hp ha hx =>
      obtain ⟨hft, hfp⟩ := tidy_flagged hs.tidy (statusOf api c.request c.response)
      have hexo : b'.exo = y.exo := (congrArg Account.exo hx).trans rfl
      rw [hexo, (Tidy.answered ha hft).2]
      exact hfp

theorem protocolType_obtained {b₂ : Books} {args : ExoRequestArgs} {error : Int} (ho : Obtained b b')
    (hp : Pushed args b' error b₂) : b₂.exo.protocolType = b.exo.protocolType := by
  rw [Pushed.exo hp]
  exact ho.protocolType

theorem protocolType_send (h : Send b b') : b'.exo.protocolType = b.exo.protocolType := by
  cases h with
  | subscribe hi hs ho hp | queued hq ho hp =>
      have hpushed := protocolType_obtained ho hp
      split <;> exact hpushed

theorem protocolType_sends (h : Sends b b') : b'.exo.protocolType = b.exo.protocolType := by
  induction h with
  | refl => rfl
  | tail _ hsend ih => exact (protocolType_send hsend).trans ih

theorem protocolType_activates (h : Activates b b') : b'.exo.protocolType = b.exo.protocolType := by
  cases h with
  | asks hs ho hp =>
      have hpushed := protocolType_obtained ho hp
      split <;> exact hpushed
  | sends hs h => exact protocolType_sends (b := b.enter) h
  | waits | loads | delays | clears | reactivates => rfl

end

theorem preserved_live (api : Api E) : Preserved api True Agreeing
    (fun b => Live b.held b.exo ∧ Served api b.exo.protocolType) where
  works hs h hw := ⟨h.1.works hs h.2 hw, (protocolType_works hs hw).symm ▸ h.2⟩
  activates hs h ha := ⟨h.1.activates hs ha, (protocolType_activates ha).symm ▸ h.2⟩
  user hs h hu := ⟨h.1.users hs.tidy (.single hu), (protocolType_user hu).symm ▸ h.2⟩
  allocate _ h := h

def heldRequests (d : Device E) : List (ProtocolClientRequest Request) :=
  d.machines.flatMap (fun item => (holdings item.sm).held)

theorem live_books (d : Device E) (key : List UInt8) :
    live (books d).held key = live (heldRequests d) key := by
  have hheld : (books d).held = (heldRequests d).map asHanded := by
    unfold heldRequests Books.held books stock
    rw [List.map_flatMap, List.flatMap_map]
  rw [hheld, live_asHanded]

/-- An item of the map is marked as sent if and only if exactly one subscribe request for its alias is
held, and there are never two, as long as the codes of the answers agree. -/
theorem subscriptions_live (api : Api E) (protocolType : AppType) (hserved : Served api protocolType)
    (vendor model sn : List UInt8) (globals : Globals Nat) (messageId : Int) (objects : Nat) (ext : E)
    (acts : List (ExositeApi.Action E)) (h : Guarded (step api) (Calm api True Agreeing)
      (exositeNew api protocolType vendor model sn globals messageId objects ext) acts) :
    let d := run (step api)
      (exositeNew api protocolType vendor model sn globals messageId objects ext) acts
    ∀ entry ∈ d.world.exo.subscribeMap,
      (entry.2.sent = true ↔ live (heldRequests d) entry.1 = 1) ∧ live (heldRequests d) entry.1 ≤ 1 := by
  intro d
  rintro ⟨key, item⟩ hm
  have hstart : Sound (books (exositeNew api protocolType vendor model sn globals messageId objects ext)) ∧
      Live (books (exositeNew api protocolType vendor model sn globals messageId objects ext)).held
        (books (exositeNew api protocolType vendor model sn globals messageId objects ext)).exo ∧
      Served api protocolType :=
    ⟨sound_exositeNew protocolType vendor model sn globals messageId objects ext,
      ⟨fun key => .inr ⟨fun ⟨_, hi, _⟩ => absurd hi List.not_mem_nil, rfl⟩, List.forall_mem_nil _⟩, hserved⟩
  obtain ⟨hsound, hlive, -⟩ := (preserved_live api).guarded h hstart
  have hbalanced := hlive.balanced key
  unfold Balanced at hbalanced
  rw [live_books] at hbalanced
  obtain ⟨⟨item', hm', hs'⟩, hone⟩ | ⟨hnot, hnone⟩ := hbalanced
  · have heq := List.inj_on_of_nodup_map hsound.tidy.keys hm hm' rfl
    obtain ⟨-, rfl⟩ := Prod.mk.inj heq
    exact ⟨iff_of_true hs' hone, Nat.le_of_eq hone⟩
  · refine ⟨iff_of_false (fun hs => hnot ⟨item, hm, hs⟩) ?_, ?_⟩
    · exact fun hone => absurd (hnone.symm.trans hone) nofun
    · exact Nat.le_of_lt (hnone ▸ Nat.zero_lt_one)

def coapApi : Api Script := scriptApi coapParsePayload (fun _ => false)

/-- A device that gets the answer with the code `responseCode` to its first subscription. -/
def coapDevice (responseCode : Int) : Device Script :=
  exositeNew coapApi .coap [] [] [] ⟨none, 0, .reset, 0⟩ 6 0
    ⟨[], [], [], [⟨errSuccess, 205, 1, [49], 1⟩, ⟨errSuccess, responseCode, 6, [49], 1⟩]⟩

/-- The timestamp, the activation, a subscription for the alias a, and its answer. -/
def subscribed : List (ExositeApi.Action Script) :=
  [.activateSm, .task 0, .task 0, .activateSm, .activateSm, .user (.subscribe [97] 0 none), .activateSm,
    .task 1, .task 1]

theorem subscriptions_live_acknowledged :
    live (heldRequests (run (step coapApi) (coapDevice 205) subscribed)) [97] = 1 := by
  have hmarked : ∃ entry ∈ (run (step coapApi) (coapDevice 205) subscribed).world.exo.subscribeMap,
      entry.1 = [97] ∧ entry.2.sent = true := by decide +kernel
  obtain ⟨entry, hm, hkey, hsent⟩ := hmarked
  rw [← hkey]
  exact (subscriptions_live coapApi .coap (.inr ⟨rfl, rfl⟩) [] [] [] _ 6 0 _ subscribed
    (by decide +kernel) entry hm).1.mp hsent

/-- An answer 2.03 keeps the request, but its item is not marked any more, and a second request is
sent. -/
theorem subscribed_twice :
    let d := run (step coapApi) (coapDevice 203) (subscribed ++ [.activateSm])
    ¬ ∀ entry ∈ d.world.exo.subscribeMap, (entry.2.sent = true ↔ live (heldRequests d) entry.1 = 1) ∧
      live (heldRequests d) entry.1 ≤ 1 := by
  decide +kernel

end ErSdk.Subscriptions
