import ErSdk.ExositeRuns

namespace ErSdk.RequestObjects

open ProtocolClientSm Ledger SmMoves RequestArgs ExositeApi ExositeCalls ExositeBooks ExositeSteps
open ExositeRuns Sessions Runs Error

variable {E : Type}

def objectOf : Event → Option Nat
  | .created o | .unfinished o | .sent o | .released o => some o
  | _ => none

/-- Once an object is released it is neither sent nor released again. -/
def Respects (e e' : Event) : Prop := ∀ o, e = .released o → e' ≠ .sent o ∧ e' ≠ .released o

/-- The objects that are held, and the next one. An object that was made is held, or it was released,
unless request_new has failed behind its creation. -/
structure Owned (live : List Nat) (next : Nat) (log : List Event) : Prop where
  distinct : live.Nodup
  kept : ∀ o ∈ live, o < next ∧ .released o ∉ log
  below : ∀ e ∈ log, ∀ o, objectOf e = some o → o < next
  placed : ∀ o, .created o ∈ log → o ∈ live ∨ .released o ∈ log ∨ .unfinished o ∈ log
  orderly : log.Pairwise Respects

section

variable {live live' : List Nat} {next next' o : Nat} {log : List Event}

theorem Owned.perm (h : Owned live next log) (hp : live'.Perm live) : Owned live' next log where
  distinct := hp.nodup_iff.mpr h.distinct
  kept o ho := h.kept o (hp.mem_iff.mp ho)
  below := h.below
  placed o ho := (h.placed o ho).imp_left hp.mem_iff.mpr
  orderly := h.orderly

theorem Owned.extend (h : Owned live next log) {e : Event} (hdistinct : live'.Nodup)
    (hnext : next ≤ next') (hkept : ∀ o ∈ live', (o ∈ live ∨ next ≤ o ∧ o < next') ∧ e ≠ .released o)
    (hbelow : ∀ o, objectOf e = some o → o < next')
    (hplaced : ∀ o ∈ live, o ∈ live' ∨ e = .released o ∨ e = .unfinished o)
    (hcreated : ∀ o, e = .created o → o ∈ live')
    (horderly : ∀ o, e = .sent o ∨ e = .released o → o ∈ live) : Owned live' next' (log ++ [e]) := by
  refine ⟨hdistinct, fun o ho => ?_, fun e' hm o ho => ?_, fun o ho => ?_, ?_⟩
  · obtain ⟨hold | ⟨hlow, hhigh⟩, hne⟩ := hkept o ho
    · refine ⟨Nat.lt_of_lt_of_le (h.kept o hold).1 hnext, fun hm => ?_⟩
      obtain hm | hm := List.mem_append.mp hm
      · exact (h.kept o hold).2 hm
      · exact hne (List.mem_singleton.mp hm).symm
    · refine ⟨hhigh, fun hm => ?_⟩
      obtain hm | hm := List.mem_append.mp hm
      · exact absurd (h.below _ hm o rfl) (Nat.not_lt.mpr hlow)
      · exact hne (List.mem_singleton.mp hm).symm
  · obtain hm | hm := List.mem_append.mp hm
    · exact Nat.lt_of_lt_of_le (h.below e' hm o ho) hnext
    · exact hbelow o (List.mem_singleton.mp hm ▸ ho)
  · have hin {e' : Event} (hm : e' ∈ log) : e' ∈ log ++ [e] := List.mem_append_left _ hm
    have hlast {e' : Event} (heq : e = e') : e' ∈ log ++ [e] :=
      heq ▸ List.mem_append_right _ List.mem_cons_self
    obtain hm | hm := List.mem_append.mp ho
    · obtain hl | hr | hu := h.placed o hm
      · exact (hplaced o hl).imp_right (fun hs => hs.imp hlast hlast)
      · exact .inr (.inl (hin hr))
      · exact .inr (.inr (hin hu))
    · exact .inl (hcreated o (List.mem_singleton.mp hm).symm)
  · refine List.pairwise_append.mpr ⟨h.orderly, List.pairwise_singleton _ _, fun e₁ h₁ e₂ h₂ o heo => ?_⟩
    obtain rfl := List.mem_singleton.mp h₂
    have hnot (hs : e₂ = .sent o ∨ e₂ = .released o) : False := (h.kept o (horderly o hs)).2 (heo ▸ h₁)
    exact ⟨fun hs => hnot (.inl hs), fun hs => hnot (.inr hs)⟩

theorem Owned.record (h : Owned live next log) {e : Event} (he : objectOf e = none) :
    Owned live next (log ++ [e]) := by
  have hne {e' : Event} {o : Nat} (he' : objectOf e' = some o) : e ≠ e' := by
    rintro rfl
    exact absurd (he.symm.trans he') nofun
  refine h.extend h.distinct (Nat.le_refl _) (fun o ho => ⟨.inl ho, hne rfl⟩) (fun o ho => ?_)
    (fun o ho => .inl ho) (fun o ho => absurd ho (hne rfl)) (fun o ho => ?_)
  · exact absurd (he.symm.trans ho) nofun
  · obtain ho | ho := ho
    · exact absurd ho (hne rfl)
    · exact absurd ho (hne rfl)

theorem Owned.records (h : Owned live next log) {events : List Event}
    (he : ∀ e ∈ events, objectOf e = none) : Owned live next (log ++ events) := by
  induction events generalizing log with
  | nil =>
      rw [List.append_nil]
      exact h
  | cons e events ih =>
      rw [List.append_cons]
      exact ih (h.record (he e List.mem_cons_self)) (fun e' hm => he e' (List.mem_cons_of_mem _ hm))

theorem Owned.send (h : Owned live next log) (ho : o ∈ live) : Owned live next (log ++ [.sent o]) := by
  refine h.extend h.distinct (Nat.le_refl _) (fun o' ho' => ⟨.inl ho', nofun⟩) (fun o' ho' => ?_)
    (fun o' ho' => .inl ho') nofun (fun o' ho' => ?_)
  · exact Option.some.inj ho' ▸ (h.kept o ho).1
  · obtain ho' | ho' := ho'
    · exact Event.sent.inj ho' ▸ ho
    · exact absurd ho' nofun

theorem Owned.release (h : Owned (o :: live) next log) : Owned live next (log ++ [.released o]) := by
  obtain ⟨hnot, hdistinct⟩ := List.nodup_cons.mp h.distinct
  refine h.extend hdistinct (Nat.le_refl _) (fun o' ho' => ⟨.inl (List.mem_cons_of_mem _ ho'), ?_⟩)
    (fun o' ho' => ?_) (fun o' ho' => ?_) nofun (fun o' ho' => ?_)
  · rintro heq
    exact hnot (Event.released.inj heq ▸ ho')
  · exact Option.some.inj ho' ▸ (h.kept o List.mem_cons_self).1
  · obtain rfl | ho' := List.mem_cons.mp ho'
    · exact .inr (.inl rfl)
    · exact .inl ho'
  · obtain ho' | ho' := ho'
    · exact absurd ho' nofun
    · exact Event.released.inj ho' ▸ List.mem_cons_self

theorem Owned.create (h : Owned live next log) :
    Owned (next :: live) (next + 1) (log ++ [.created next]) := by
  refine h.extend (List.nodup_cons.mpr ⟨fun hm => Nat.lt_irrefl _ (h.kept next hm).1, h.distinct⟩)
    (Nat.le_succ _) (fun o ho => ⟨?_, nofun⟩) (fun o ho => ?_)
    (fun o ho => .inl (List.mem_cons_of_mem _ ho)) (fun o ho => ?_) (fun o ho => ?_)
  · obtain rfl | ho := List.mem_cons.mp ho
    · exact .inr ⟨Nat.le_refl _, Nat.lt_succ_self _⟩
    · exact .inl ho
  · exact Option.some.inj ho ▸ Nat.lt_succ_self _
  · exact Event.created.inj ho ▸ List.mem_cons_self
  · obtain ho | ho := ho <;> exact absurd ho nofun

/-- Nobody has an object that request_new has left behind. -/
theorem Owned.unfinish (h : Owned (o :: live) next log) : Owned live next (log ++ [.unfinished o]) := by
  refine h.extend (List.nodup_cons.mp h.distinct).2 (Nat.le_refl _)
    (fun o' ho' => ⟨.inl (List.mem_cons_of_mem _ ho'), nofun⟩) (fun o' ho' => ?_) (fun o' ho' => ?_)
    nofun (fun o' ho' => ?_)
  · exact Option.some.inj ho' ▸ (h.kept o List.mem_cons_self).1
  · obtain rfl | ho' := List.mem_cons.mp ho'
    · exact .inr (.inr rfl)
    · exact .inl ho'
  · obtain ho' | ho' := ho' <;> exact absurd ho' nofun

end

/-- The objects of the requests that the state machines hold. -/
def objects (b : Books) : List Nat := b.held.map (fun r => r.request.object)

def OwnedBy (b : Books) : Prop := Owned (objects b) b.account.objects b.log

def Aside (x y : Account) : Prop :=
  ∃ events, y.log = x.log ++ events ∧ y.objects = x.objects ∧ ∀ e ∈ events, objectOf e = none

theorem Aside.of_eq {x y : Account} (hl : y.log = x.log) (ho : y.objects = x.objects) : Aside x y :=
  ⟨[], by rw [List.append_nil]; exact hl, ho, List.forall_mem_nil _⟩

theorem Aside.of_record {x y : Account} {e : Event} (hl : y.log = x.log ++ [e])
    (ho : y.objects = x.objects) (he : objectOf e = none) : Aside x y :=
  ⟨[e], hl, ho, List.forall_mem_singleton.mpr he⟩

theorem Aside.trans {x y z : Account} (h : Aside x y) (h' : Aside y z) : Aside x z := by
  obtain ⟨events, hl, ho, he⟩ := h
  obtain ⟨events', hl', ho', he'⟩ := h'
  exact ⟨events ++ events', by rw [hl', hl, List.append_assoc], ho'.trans ho,
    List.forall_mem_append.mpr ⟨he, he'⟩⟩

theorem Owned.aside {live : List Nat} {x y : Account} (h : Owned live x.objects x.log)
    (ha : Aside x y) : Owned live y.objects y.log := by
  obtain ⟨events, hl, ho, he⟩ := ha
  rw [hl, ho]
  exact h.records he

theorem aside_users {limit : Nat} {x y : Account} (h : UserChanges limit x y) : Aside x y := by
  induction h with
  | refl => exact .of_eq rfl rfl
  | tail _ hc ih =>
      refine ih.trans ?_
      cases hc with
      | told | queued => exact .of_record rfl rfl rfl
      | subscribed => exact .of_eq rfl rfl

theorem aside_answered {limit : Nat} {args : ExoRequestArgs} {status : Int} {x y : Account}
    (h : Answered limit args status x y) : Aside x y := by
  cases h with
  | data hm hu => exact aside_users hu
  | subscribe hm hk hu => exact (aside_users hu).trans (.of_eq rfl rfl)
  | accepted => exact .of_record rfl rfl rfl
  | malformed | refused | timestamp => exact .of_eq rfl rfl

section

variable {b b' : Books}

theorem OwnedBy.frame (h : OwnedBy b) (hp : b'.held.Perm b.held) (ha : Aside b.account b'.account) :
    OwnedBy b' :=
  (Owned.aside h ha).perm (hp.map _)

theorem OwnedBy.pushed {args : ExoRequestArgs} {error : Int} (h : OwnedBy b)
    (hp : Pushed args b error b') : OwnedBy b' := by
  have hnew := Owned.create h
  have hheld := Pushed.held hp
  cases hp with
  | kept he => exact h
  | unfinished he => exact hnew.unfinish
  | refused n he => exact hnew.release
  | handed hm =>
      obtain ⟨-, ⟨he, -⟩ | ⟨-, hheld, -⟩⟩ := hheld
      · exact absurd rfl he
      · exact (hnew.record rfl).perm (hheld.map _)

theorem OwnedBy.obtained (h : OwnedBy b) (ho : Obtained b b') : OwnedBy b' := by
  obtain ⟨hheld, -, hlog⟩ := Obtained.held ho
  refine h.frame (hheld ▸ .refl _) (.of_eq hlog ?_)
  cases ho <;> rfl

theorem apart_owned : Apart OwnedBy where
  mapExo _ h := h.frame (.refl _) (.of_eq rfl rfl)
  clear {b} h := h.frame (by rw [held_clear]) (.of_eq rfl rfl)
  obtained ho h := h.obtained ho
  pushed hp h := h.pushed hp

/-- The completed request is the only one that leaves, and the callback has released its object; or
it is a subscription that stays. -/
def Releasing (c : Completion Request) : Prop :=
  ¬ c.Drops ∧ (c.request.type = .subscribeAsynch → c.listed = true)

instance (c : Completion Request) : Decidable (Releasing c) := inferInstanceAs (Decidable (_ ∧ _))

theorem Releasing.left_releases {c : Completion Request} (h : Releasing c) {protocolType : AppType}
    (hm : Made protocolType (asHanded c.request)) :
    (c.left = [] ∧ releases c.request.request c.request.type = []) ∨
      (c.left = [c.request] ∧
        releases c.request.request c.request.type = [.released c.request.request.object]) := by
  obtain ⟨hdrops, hasynch⟩ := h
  obtain ⟨-, htype⟩ := hm
  have hsubscribe (ht : c.request.type = .subscribeAsynch) : c.request.request.args.method = .subscribe := by
    rw [show c.request.type = _ from htype] at ht
    unfold route at ht
    split at ht
    · exact absurd ht nofun
    · assumption
    · exact absurd ht nofun
  unfold Completion.left releases
  rw [if_neg hdrops, List.append_nil]
  by_cases ht : c.request.type = .subscribeAsynch
  · exact .inl ⟨if_pos (hasynch ht), if_pos ⟨hsubscribe ht, ht⟩⟩
  · refine .inr ⟨if_neg (fun hl => ht ?_), if_neg (fun hs => ht hs.2)⟩
    unfold Completion.listed at hl
    exact Completion.stays_type (Bool.and_eq_true_iff.mp hl).2

theorem OwnedBy.works {api : Api E} (hs : Sound b) (h : OwnedBy b)
    (hw : Works api False Releasing b b') : OwnedBy b' := by
  obtain ⟨-, hout⟩ := hw.outcome hs.nodup
  cases hout with
  | quiet hp hx => exact h.frame hp (hx ▸ .of_eq rfl rfl)
  | @sent r hr hp hx =>
      obtain hx | ⟨hdeletes, -⟩ := hx
      · unfold OwnedBy Books.log
        rw [hx]
        exact (Owned.send h (List.mem_map_of_mem hr)).perm (hp.map _)
      · exact hdeletes.elim
  | @completed c y hsel hok hr hp ha hx =>
      have hcalled : Aside b.account y := by
        refine Aside.trans ?_ (aside_answered ha)
        exact .of_record rfl rfl rfl
      have hbefore := Owned.aside h hcalled
      unfold OwnedBy Books.log
      rw [hx]
      obtain ⟨hleft, hrel⟩ | ⟨hleft, hrel⟩ := hok.left_releases (hs.made _ hr)
      · rw [hleft] at hp
        rw [hrel, Account.record, List.append_nil]
        exact hbefore.perm (hp.symm.map _)
      · rw [hleft] at hp
        rw [hrel]
        exact (hbefore.perm (hp.symm.map _)).release

end

theorem preserved_owned (api : Api E) : Preserved api False Releasing OwnedBy where
  works hs h hw := h.works hs hw
  activates _ h ha := apart_owned.activates h ha
  user _ h hu := h.frame (.refl _) (aside_users (.single hu))
  allocate _ h := h.frame (.refl _) (.of_eq rfl rfl)

def heldObjects (d : Device E) : List Nat :=
  d.machines.flatMap (fun item => (holdings item.sm).held.map (fun r => r.request.object))

theorem objects_books (d : Device E) : objects (books d) = heldObjects d := by
  unfold objects heldObjects Books.held books stock asHanded
  rw [List.map_flatMap, List.flatMap_map]
  simp only [List.map_map]
  rfl

/-- The object is released, not twice, and nobody gets it behind that. -/
def ReleasedOnce (o : Nat) (log : List Event) : Prop :=
  ∃ before after, log = before ++ .released o :: after ∧ .released o ∉ before ∧ .released o ∉ after ∧
    .sent o ∉ after

theorem releasedOnce_of_mem {o : Nat} {log : List Event} (h : .released o ∈ log)
    (horderly : log.Pairwise Respects) : ReleasedOnce o log := by
  obtain ⟨before, after, rfl⟩ := List.append_of_mem h
  obtain ⟨-, hafter, hbefore⟩ := List.pairwise_append.mp horderly
  have hbehind := (List.pairwise_cons.mp hafter).1
  refine ⟨before, after, rfl, fun hm => ?_, fun hm => ?_, fun hm => ?_⟩
  · exact (hbefore _ hm _ List.mem_cons_self o rfl).2 rfl
  · exact (hbehind _ hm o rfl).2 rfl
  · exact (hbehind _ hm o rfl).1 rfl

/-- Every object that a state machine does not hold any more was released once, if each completion
takes away no other request and no asynchronous subscription, and no send has deleted the object. -/
theorem objects_released_once (api : Api E) (protocolType : AppType) (vendor model sn : List UInt8)
    (globals : Globals Nat) (messageId : Int) (objects : Nat) (ext : E) (acts : List (Action E))
    (h : Guarded (step api) (Calm api False Releasing)
      (exositeNew api protocolType vendor model sn globals messageId objects ext) acts) :
    let d := run (step api)
      (exositeNew api protocolType vendor model sn globals messageId objects ext) acts
    ∀ o, .created o ∈ d.world.log → .unfinished o ∉ d.world.log →
      o ∈ heldObjects d ∧ .released o ∉ d.world.log ∨
        o ∉ heldObjects d ∧ ReleasedOnce o d.world.log := by
  intro d o hcreated hfinished
  have hstart : Sound (books (exositeNew api protocolType vendor model sn globals messageId objects ext)) ∧
      OwnedBy (books (exositeNew api protocolType vendor model sn globals messageId objects ext)) :=
    ⟨sound_exositeNew protocolType vendor model sn globals messageId objects ext,
      .nil, List.forall_mem_nil _, List.forall_mem_nil _, fun o ho => absurd ho List.not_mem_nil, .nil⟩
  have howned : OwnedBy (books d) := ((preserved_owned api).guarded h hstart).2
  have hheld := objects_books d
  by_cases hr : .released o ∈ d.world.log
  · refine .inr ⟨fun hm => ?_, releasedOnce_of_mem hr howned.orderly⟩
    exact (howned.kept o (hheld ▸ hm)).2 hr
  · obtain hl | hr' | hu := howned.placed o hcreated
    · exact .inl ⟨hheld ▸ hl, hr⟩
    · exact absurd hr' hr
    · exact absurd hu hfinished

/-- A send that fails deletes the PDU, as in coap_send_request. -/
def coapApi : Api Script :=
  scriptApi (fun _ payload _ _ code => (if code = 205 then errSuccess else errFailure, payload))
    (fun w => w.sends.headD errSuccess ≠ errSuccess)

def coapDevice (w : Script) : Device Script :=
  exositeNew coapApi .coap [] [] [] ⟨none, 0, .reset, 0⟩ 6 0 w

theorem objects_released_once_answered :
    ReleasedOnce 0 (run (step coapApi) (coapDevice ⟨[], [], [], [⟨errSuccess, 205, 1, [49], 1⟩]⟩)
      [.activateSm, .task 0, .task 0]).world.log :=
  ((objects_released_once coapApi .coap [] [] [] ⟨none, 0, .reset, 0⟩ 6 0
    ⟨[], [], [], [⟨errSuccess, 205, 1, [49], 1⟩]⟩ [.activateSm, .task 0, .task 0]
    (by decide +kernel) 0 (by decide +kernel) (by decide +kernel)).resolve_left (by decide +kernel)).2

/-- The PDU that a failed send has deleted is sent again. -/
theorem deleted_pdu_sent_again :
    let d := run (step coapApi) (coapDevice ⟨[], [], [errFailure], []⟩)
      [.activateSm, .task 0, .task 0, .task 0]
    ¬ ∀ o, .created o ∈ d.world.log → .unfinished o ∉ d.world.log →
      o ∈ heldObjects d ∧ .released o ∉ d.world.log ∨
        o ∉ heldObjects d ∧ ReleasedOnce o d.world.log := by
  intro d h
  have hheld : 0 ∈ heldObjects d := by decide +kernel
  have hreleased : .released 0 ∈ d.world.log := by decide +kernel
  obtain ⟨-, hnot⟩ | ⟨hnot, -⟩ := h 0 (by decide +kernel) (by decide +kernel)
  · exact hnot hreleased
  · exact hnot hheld

end ErSdk.RequestObjects
