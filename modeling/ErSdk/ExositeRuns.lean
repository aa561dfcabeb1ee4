import ErSdk.ExositeSteps

namespace ErSdk.ExositeRuns

open ProtocolClientSm Ledger SmMoves RequestArgs ExositeApi ExositeCalls ExositeBooks ExositeSteps
open Runs Error

variable {E : Type}

section

variable (api : Api E) (deletes : Prop) (ok : Completion Request → Prop)

/-- What a move of a state machine is for the books. -/
inductive Act : Holdings Request × Account → Holdings Request × Account → Prop
  | rearrange {h g x} (hp : (stock g).Perm (stock h)) (hb : g.aborting = h.aborting) :
      Act (h, x) (g, x)
  | send {h g x y r} (hr : r ∈ stock h) (hp : (stock g).Perm (stock h))
      (hb : g.aborting = h.aborting) (hy : y = x.record [.sent r.request.object] ∨
        deletes ∧ y = x.record [.sent r.request.object, .released r.request.object]) :
      Act (h, x) (g, y)
  | finish {h x} (he : stock h = []) : Act (h, x) ({ h with aborting := false }, x)
  | complete {c : Completion Request} {x y} (hs : c.Selected) (hok : ok c)
      (ha : Answered api.config.maxRequestQueueSize c.request.request.args
        (statusOf api c.request c.response)
        ((x.record [.called c.request]).mapExo (flagged (statusOf api c.request c.response))) y) :
      Act (c.before, x) (c.after, y.record (releases c.request.request c.request.type))

end

theorem stock_take {h : Holdings Request} {r : ProtocolClientRequest Request} {rest} (t : SysTime)
    (ha : h.active = none) (hq : h.queue = r :: rest) :
    (stock { h with queue := rest, active := some { r with startOfTransmit := t } }).Perm
      (stock h) := by
  simp only [stock, Holdings.held, ha, hq, Option.toList, List.map_append, List.map_cons,
    List.nil_append, List.cons_append]
  exact List.perm_middle

theorem stock_send {h : Holdings Request} {r : ProtocolClientRequest Request} (ha : h.active = some r) :
    stock { h with active := none, sent := r :: h.sent, num := h.num + 1 } = stock h := by
  simp [stock, Holdings.held, ha]

theorem mem_stock_active {h : Holdings Request} {r : ProtocolClientRequest Request}
    (ha : h.active = some r) : asHanded r ∈ stock h :=
  List.mem_map_of_mem (Completion.mem_held.mpr (.inr (.inl ha)))

theorem act_of_move {api : Api E} {deletes : Prop} {ok : Completion Request → Prop}
    {p q : Holdings Request × Account} (hp : ∀ r ∈ stock p.1, Proper r.request.args)
    (hm : Move (hooks api deletes) ok p q) : Act api deletes ok p q := by
  cases hm with
  | take t hb ha hq hl => exact .rearrange (stock_take t ha hq) rfl
  | send ha hx => exact .send (mem_stock_active ha) (stock_send ha ▸ .refl _) rfl hx
  | refused ha he hx => exact .send (mem_stock_active ha) (.refl _) rfl hx
  | received rcv hx =>
      cases hx
      exact .rearrange (.refl _) rfl
  | answer c rcv hw hs hok hr hd hx ht =>
      cases hr
      obtain ⟨z, ha, rfl⟩ := hx (hp (asHanded c.request) (List.mem_map_of_mem hs.mem_held))
      rw [ht]
      exact .complete hs hok ha
  | complete c hw hs hok hx ht =>
      obtain ⟨z, ha, rfl⟩ := hx (hp (asHanded c.request) (List.mem_map_of_mem hs.mem_held))
      rw [ht]
      exact .complete hs hok ha
  | aborted hb hq hs ha =>
      refine .finish ?_
      simp [stock, Holdings.held, hq, hs, ha]
  | closed hx =>
      cases hx
      exact .rearrange (.refl _) rfl

inductive Works (api : Api E) (deletes : Prop) (ok : Completion Request → Prop) : Books → Books → Prop
  | act {pre post h g n x y} (ha : Act api deletes ok (h, x) (g, y)) :
      Works api deletes ok ⟨pre ++ h :: post, n, x⟩ ⟨pre ++ g :: post, n, y⟩

/-- What an act means for the requests of all state machines together. -/
inductive Outcome (api : Api E) (deletes : Prop) (ok : Completion Request → Prop) (b b' : Books) : Prop
  | quiet (hp : b'.held.Perm b.held) (hx : b'.account = b.account)
  | sent {r} (hr : r ∈ b.held) (hp : b'.held.Perm b.held)
      (hx : b'.account = b.account.record [.sent r.request.object] ∨
        deletes ∧ b'.account = b.account.record [.sent r.request.object, .released r.request.object])
  | completed {c : Completion Request} {y} (hs : c.Selected) (hok : ok c)
      (hr : asHanded c.request ∈ b.held) (hp : b.held.Perm (c.left.map asHanded ++ b'.held))
      (ha : Answered api.config.maxRequestQueueSize c.request.request.args
        (statusOf api c.request c.response) ((b.account.record [.called c.request]).mapExo
          (flagged (statusOf api c.request c.response))) y)
      (hx : b'.account = y.record (releases c.request.request c.request.type))

theorem held_perm (pre post : List (Holdings Request)) (h : Holdings Request) (n : Nat) (x : Account) :
    (Books.mk (pre ++ h :: post) n x).held.Perm (stock h ++ (pre ++ post).flatMap stock) := by
  unfold Books.held
  rw [List.flatMap_append, List.flatMap_append, List.flatMap_cons, ← List.append_assoc,
    ← List.append_assoc]
  exact List.perm_append_comm.append_right _

theorem addrs_stock (h : Holdings Request) : (stock h).map ProtocolClientRequest.addr = h.addrs := by
  unfold stock Holdings.addrs
  rw [List.map_map]
  rfl

theorem selected_held {c : Completion Request} (hs : c.Selected) {pre post : List (Holdings Request)}
    {n : Nat} {x : Account} (y : Account)
    (hn : ((Books.mk (pre ++ c.before :: post) n x).held.map ProtocolClientRequest.addr).Nodup) :
    asHanded c.request ∈ (Books.mk (pre ++ c.before :: post) n x).held ∧
      (Books.mk (pre ++ c.before :: post) n x).held.Perm
        (c.left.map asHanded ++ (Books.mk (pre ++ c.after :: post) n y).held) := by
  have hbefore := held_perm pre post c.before n x
  have hnodup : c.before.addrs.Nodup := by
    rw [← addrs_stock]
    exact (List.nodup_append.mp
      ((List.map_append ▸ (hbefore.map ProtocolClientRequest.addr).nodup_iff.mp hn))).1
  have hstock : (stock c.before).Perm (c.left.map asHanded ++ stock c.after) := by
    have hp := (hs.held_perm hnodup).map asHanded
    rw [List.map_append] at hp
    exact hp
  refine ⟨hbefore.mem_iff.mpr (List.mem_append_left _ (List.mem_map_of_mem hs.mem_held)), ?_⟩
  refine hbefore.trans ((hstock.append_right _).trans ?_)
  rw [List.append_assoc]
  exact (held_perm pre post c.after n _).symm.append_left _

theorem Works.outcome {api : Api E} {deletes : Prop} {ok : Completion Request → Prop} {b b' : Books}
    (hn : (b.held.map ProtocolClientRequest.addr).Nodup) (h : Works api deletes ok b b') :
    b'.heap = b.heap ∧ Outcome api deletes ok b b' := by
  obtain @⟨pre, post, h, g, n, x, y, ha⟩ := h
  have hbefore := held_perm pre post h n x
  have hafter (hp : (stock g).Perm (stock h)) :
      (Books.mk (pre ++ g :: post) n y).held.Perm (Books.mk (pre ++ h :: post) n x).held :=
    ((held_perm pre post g n y).trans (hp.append_right _)).trans hbefore.symm
  refine ⟨rfl, ?_⟩
  cases ha with
  | rearrange hp hb => exact .quiet (hafter hp) rfl
  | send hr hp hb hy =>
      exact .sent (hbefore.mem_iff.mpr (List.mem_append_left _ hr)) (hafter hp) hy
  | finish he => exact .quiet (hafter (.refl _)) rfl
  | complete hs hok ha =>
      obtain ⟨hr, hp⟩ := selected_held hs _ hn
      exact .completed hs hok hr hp ha rfl

structure CompletedBy (api : Api E) (c : Completion Request) (b b' : Books) : Prop where
  selected : c.Selected
  held : asHanded c.request ∈ b.held
  left : b.held.Perm (c.left.map asHanded ++ b'.held)
  answers : ∃ y, Answered api.config.maxRequestQueueSize c.request.request.args
      (statusOf api c.request c.response) ((b.account.record [.called c.request]).mapExo
        (flagged (statusOf api c.request c.response))) y ∧
    b'.account = y.record (releases c.request.request c.request.type)

theorem completedBy_of_completes {api : Api E} {deletes : Prop} {c : Completion Request}
    {p q : Holdings Request × Account} {pre post : List (Holdings Request)} {n : Nat}
    (hp : ∀ r ∈ stock p.1, Proper r.request.args) (hm : Completes (hooks api deletes) c p q)
    (hn : ((Books.mk (pre ++ p.1 :: post) n p.2).held.map ProtocolClientRequest.addr).Nodup) :
    CompletedBy api c ⟨pre ++ p.1 :: post, n, p.2⟩ ⟨pre ++ q.1 :: post, n, q.2⟩ := by
  cases hm with
  | answer rcv hw hs hr hd hx ht =>
      cases hr
      obtain ⟨y, ha, rfl⟩ := hx (hp (asHanded c.request) (List.mem_map_of_mem hs.mem_held))
      rw [ht]
      obtain ⟨hheld, hleft⟩ := selected_held hs (y.record (releases c.request.request c.request.type)) hn
      exact ⟨hs, hheld, hleft, y, ha, rfl⟩
  | complete hw hs hx ht =>
      obtain ⟨y, ha, rfl⟩ := hx (hp (asHanded c.request) (List.mem_map_of_mem hs.mem_held))
      rw [ht]
      obtain ⟨hheld, hleft⟩ := selected_held hs (y.record (releases c.request.request c.request.type)) hn
      exact ⟨hs, hheld, hleft, y, ha, rfl⟩

structure Subscription (protocolType : AppType) (key : List UInt8) (args : ExoRequestArgs) : Prop where
  method : args.method = .subscribe
  callback : args.callback = .onSubscribe
  named : args.aliasName = some key
  appType : args.appType = protocolType

/-- The queue holds reads and writes, and the map holds subscriptions under their alias. -/
structure Tidy (exo : ExositeClass) : Prop where
  keys : (exo.subscribeMap.map Prod.fst).Nodup
  items : ∀ entry ∈ exo.subscribeMap, Subscription exo.protocolType entry.1 entry.2.args
  queue : ∀ args ∈ exo.requestQueue, args.method = .read ∨ args.method = .write

theorem place_perm {α : Type} (new : List UInt8 × α) (map : Dictionary α) :
    (place new map).Perm (new :: map) := by
  induction map with
  | nil => exact .refl _
  | cons entry map ih =>
      unfold place
      split
      · exact .refl _
      · exact (ih.cons entry).trans (.swap new entry map)

theorem insert_perm {α : Type} {key : List UInt8} {value : α} {map map' : Dictionary α}
    (h : ExositeApi.insert key value map = some map') :
    map'.Perm ((key, value) :: map) ∧ key ∉ map.map Prod.fst := by
  unfold ExositeApi.insert at h
  split at h
  · exact absurd h nofun
  · rename_i hk
    cases h
    refine ⟨place_perm (key, value) map, fun hm => hk ?_⟩
    obtain ⟨entry, he, hkey⟩ := List.mem_map.mp hm
    exact List.any_eq_true.mpr ⟨entry, he, decide_eq_true hkey⟩

theorem keys_update {α : Type} (key : List UInt8) (f : α → α) (map : Dictionary α) :
    (update key f map).map Prod.fst = map.map Prod.fst := by
  unfold update
  rw [List.map_map]
  refine List.map_congr_left (fun entry _ => ?_)
  show (if entry.1 = key then (entry.1, f entry.2) else entry).1 = entry.1
  split <;> rfl

theorem mem_update_iff {α : Type} {key : List UInt8} {f : α → α} {map : Dictionary α}
    {entry : List UInt8 × α} : entry ∈ update key f map ↔
      ∃ v, (entry.1, v) ∈ map ∧ entry.2 = if entry.1 = key then f v else v := by
  unfold update
  rw [List.mem_map]
  constructor
  · rintro ⟨⟨k, v⟩, hm, rfl⟩
    by_cases hk : k = key
    · rw [if_pos hk]
      exact ⟨v, hm, (if_pos hk).symm⟩
    · rw [if_neg hk]
      exact ⟨v, hm, (if_neg hk).symm⟩
  · rintro ⟨v, hm, he⟩
    refine ⟨(entry.1, v), hm, ?_⟩
    by_cases hk : entry.1 = key
    · rw [if_pos hk] at he ⊢
      exact Prod.ext rfl he.symm
    · rw [if_neg hk] at he ⊢
      exact Prod.ext rfl he.symm

theorem Tidy.changeItem {exo : ExositeClass} (h : Tidy exo) (key : List UInt8)
    {f : SubscribeItem → SubscribeItem} (hf : ∀ item, (f item).args = item.args) :
    Tidy (exo.changeItem key f) where
  keys := (keys_update key f exo.subscribeMap) ▸ h.keys
  items entry he := by
    obtain ⟨v, hm, hv⟩ := mem_update_iff.mp he
    have hargs : entry.2.args = v.args := by
      rw [hv]
      split
      · exact hf v
      · rfl
    rw [hargs]
    exact h.items _ hm
  queue := h.queue

@[simp] theorem markSent_args (item : SubscribeItem) : (markSent item).args = item.args := rfl

@[simp] theorem answered_args (status : Int) (appType : AppType) (item : SubscribeItem) :
    (answered status appType item).args = item.args := by
  unfold answered
  split
  · rfl
  · split <;> rfl

theorem Tidy.user {limit : Nat} {x y : Account} (h : UserChange limit x y) (ht : Tidy x.exo) :
    Tidy y.exo := by
  cases h with
  | told => exact ht
  | queued args hm hl =>
      refine ⟨ht.keys, ht.items, fun a ha => ?_⟩
      obtain ha | ha := List.mem_append.mp ha
      · exact ht.queue a ha
      · exact List.mem_singleton.mp ha ▸ hm
  | subscribed key args hm hc hk hp hmap =>
      obtain ⟨hperm, hkey⟩ := insert_perm hmap
      refine ⟨?_, fun entry he => ?_, ht.queue⟩
      · exact (hperm.map Prod.fst).nodup_iff.mpr (List.nodup_cons.mpr ⟨hkey, ht.keys⟩)
      · obtain rfl | he := List.mem_cons.mp (hperm.mem_iff.mp he)
        · exact ⟨hm, hc, hk, hp⟩
        · exact ht.items entry he

theorem protocolType_user {limit : Nat} {x y : Account} (h : UserChange limit x y) :
    y.exo.protocolType = x.exo.protocolType := by
  cases h <;> rfl

theorem Tidy.users {limit : Nat} {x y : Account} (h : UserChanges limit x y) (ht : Tidy x.exo) :
    Tidy y.exo ∧ y.exo.protocolType = x.exo.protocolType := by
  induction h with
  | refl => exact ⟨ht, rfl⟩
  | tail _ hc ih => exact ⟨ih.1.user hc, (protocolType_user hc).trans ih.2⟩

theorem Tidy.answered {limit : Nat} {args : ExoRequestArgs} {status : Int} {x y : Account}
    (h : Answered limit args status x y) (ht : Tidy x.exo) :
    Tidy y.exo ∧ y.exo.protocolType = x.exo.protocolType := by
  cases h with
  | data hm hu => exact ht.users hu
  | subscribe hm hk hu =>
      obtain ⟨hy, hp⟩ := ht.users hu
      exact ⟨hy.changeItem _ (answered_args status args.appType), hp⟩
  | accepted hm hv => exact ⟨⟨ht.keys, ht.items, ht.queue⟩, rfl⟩
  | malformed cik hm => exact ⟨⟨ht.keys, ht.items, ht.queue⟩, rfl⟩
  | refused hm => exact ⟨⟨ht.keys, ht.items, ht.queue⟩, rfl⟩
  | timestamp hm hn => exact ⟨⟨ht.keys, ht.items, ht.queue⟩, rfl⟩

/-- A request as the module makes it: with proper arguments, and the type they ask for. -/
def Made (protocolType : AppType) (r : ProtocolClientRequest Request) : Prop :=
  Proper r.request.args ∧ r.type = (route protocolType r.request.args).request

/-- What holds in every state of every run; `Phase`, `Aged`, `Valid` and `OwnedBy` are kept on top
of it. -/
structure Sound (b : Books) : Prop where
  tidy : Tidy b.exo
  made : ∀ r ∈ b.held, Made b.exo.protocolType r
  nodup : (b.held.map ProtocolClientRequest.addr).Nodup
  fresh : ∀ r ∈ b.held, r.addr < b.heap

theorem Sound.shrink {b b' : Books} (h : Sound b) {l : List (ProtocolClientRequest Request)}
    (hp : b.held.Perm (l ++ b'.held)) (hh : b.heap ≤ b'.heap) (ht : Tidy b'.exo)
    (hpt : b'.exo.protocolType = b.exo.protocolType) : Sound b' := by
  have hmem (r) (hr : r ∈ b'.held) : r ∈ b.held := hp.mem_iff.mpr (List.mem_append_right l hr)
  refine ⟨ht, fun r hr => hpt ▸ h.made r (hmem r hr), ?_, fun r hr => ?_⟩
  · have hn := (hp.map ProtocolClientRequest.addr).nodup_iff.mp h.nodup
    rw [List.map_append] at hn
    exact (List.nodup_append.mp hn).2.1
  · exact Nat.lt_of_lt_of_le (h.fresh r (hmem r hr)) hh

theorem held_withMachines (pre post : List (Holdings Request)) (h : Holdings Request)
    (r : ProtocolClientRequest Request) (hr : asHanded r = r) (n m : Nat) (x y : Account) :
    (Books.mk (pre ++ { h with queue := h.queue ++ [r] } :: post) n x).held.Perm
      (r :: (Books.mk (pre ++ h :: post) m y).held) := by
  have hs : (stock { h with queue := h.queue ++ [r] }).Perm (r :: stock h) := by
    simp only [stock, Holdings.held, List.map_append, List.append_assoc, List.map_cons,
      List.singleton_append, hr]
    exact List.perm_middle
  exact ((held_perm pre post _ n x).trans (hs.append_right _)).trans
    ((held_perm pre post h m y).symm.cons r)

theorem Pushed.held {args : ExoRequestArgs} {b b' : Books} {error : Int} (h : Pushed args b error b') :
    b.heap ≤ b'.heap ∧ (error ≠ errSuccess ∧ b'.held = b.held ∨
      error = errSuccess ∧ b'.held.Perm (requestFor b args :: b.held) ∧
        b'.heap = b.heap + 1 ∧ b'.log = b.log ++ [.created b.account.objects] ++
          [.handed (route b.exo.protocolType args).sm (requestFor b args)]) := by
  cases h with
  | kept h => exact ⟨Nat.le_refl _, .inl ⟨h, rfl⟩⟩
  | unfinished h => exact ⟨Nat.le_refl _, .inl ⟨h, rfl⟩⟩
  | refused n h => exact ⟨Nat.le_add_right _ n, .inl ⟨h, rfl⟩⟩
  | @handed pre post h hm =>
      refine ⟨Nat.le_succ _, .inr ⟨rfl, ?_, rfl, rfl⟩⟩
      obtain ⟨machines, n, x⟩ := b
      obtain rfl : machines = _ := hm
      exact held_withMachines pre post h _ rfl _ n _ x

theorem Obtained.held {b b' : Books} (h : Obtained b b') :
    b'.held = b.held ∧ b'.heap = b.heap ∧ b'.log = b.log := by
  cases h with
  | found => exact ⟨rfl, rfl, rfl⟩
  | grown stype limit =>
      refine ⟨?_, rfl, rfl⟩
      unfold Books.held Books.grow
      rw [List.flatMap_append]
      exact List.append_nil _

theorem Sound.obtained {b b' : Books} (h : Sound b) (ho : Obtained b b') : Sound b' := by
  obtain ⟨n, hexo⟩ := Obtained.exo ho
  obtain ⟨hheld, hheap, -⟩ := Obtained.held ho
  refine h.shrink (l := []) (hheld ▸ .refl _) (Nat.le_of_eq hheap.symm) ?_ ?_
  · rw [hexo]
    exact ⟨h.tidy.keys, h.tidy.items, h.tidy.queue⟩
  · rw [hexo]

theorem made_requestFor (b : Books) {args : ExoRequestArgs} (ha : Proper args) :
    Made b.exo.protocolType (requestFor b args) := by
  unfold Made Proper route requestFor
  unfold Proper at ha
  dsimp only
  exact ⟨ha, rfl⟩

theorem Sound.pushed {args : ExoRequestArgs} {b b' : Books} {error : Int} (h : Sound b)
    (ha : Proper args) (hp : Pushed args b error b') : Sound b' := by
  have hexo := Pushed.exo hp
  obtain ⟨hheap, ⟨-, hheld⟩ | ⟨-, hheld, hnext, -⟩⟩ := Pushed.held hp
  · exact h.shrink (l := []) (hheld ▸ .refl _) hheap (hexo ▸ h.tidy) (by rw [hexo])
  · refine ⟨hexo ▸ h.tidy, fun r hr => ?_, ?_, fun r hr => ?_⟩
    · rw [hexo]
      obtain rfl | hr := List.mem_cons.mp (hheld.mem_iff.mp hr)
      · exact made_requestFor b ha
      · exact h.made r hr
    · refine (hheld.map ProtocolClientRequest.addr).nodup_iff.mpr (List.nodup_cons.mpr ⟨?_, h.nodup⟩)
      intro hm
      obtain ⟨r, hr, he⟩ := List.mem_map.mp hm
      exact absurd (h.fresh r hr) (by rw [he]; exact Nat.lt_irrefl _)
    · rw [hnext]
      obtain rfl | hr := List.mem_cons.mp (hheld.mem_iff.mp hr)
      · exact Nat.lt_succ_self _
      · exact Nat.lt_succ_of_lt (h.fresh r hr)

theorem Sound.mapExo {b : Books} (h : Sound b) {f : ExositeClass → ExositeClass} (ht : Tidy (f b.exo))
    (hp : (f b.exo).protocolType = b.exo.protocolType) : Sound (b.mapExo f) :=
  h.shrink (l := []) (.refl _) (Nat.le_refl _) ht hp

theorem Subscription.proper {protocolType : AppType} {key : List UInt8} {args : ExoRequestArgs}
    (h : Subscription protocolType key args) : Proper args := by
  unfold Proper
  rw [h.method]
  exact ⟨h.callback, by rw [h.named]; rfl⟩

theorem proper_of_data {args : ExoRequestArgs} (h : args.method = .read ∨ args.method = .write) :
    Proper args := by
  unfold Proper
  obtain h | h := h <;> rw [h] <;> trivial

theorem Sound.send {b b' : Books} (h : Sound b) (hs : Send b b') : Sound b' := by
  cases hs with
  | @subscribe b₁ b₂ key item error hi hn ho hp =>
      have hs := (h.obtained ho).pushed (h.tidy.items _ hi).proper hp
      split
      · exact hs.mapExo (hs.tidy.changeItem key markSent_args) rfl
      · exact hs
  | @queued b₁ b₂ args rest error hq ho hp =>
      have hm : args ∈ b.exo.requestQueue := hq ▸ List.mem_cons_self
      have hs := (h.obtained ho).pushed (proper_of_data (h.tidy.queue args hm)) hp
      split
      · exact hs.mapExo ⟨hs.tidy.keys, hs.tidy.items,
          fun a ha => hs.tidy.queue a (List.mem_of_mem_tail ha)⟩ rfl
      · exact hs

theorem Asks.proper {b : Books} {args : ExoRequestArgs} {next : ActivateState} (h : Asks b args next) :
    Proper args := by
  unfold Proper
  cases h with
  | timestamp hs hm hc =>
      rw [hm]
      exact hc
  | activate hs hb hm hc =>
      rw [hm]
      exact hc

theorem held_clear (b : Books) : b.clear.held = b.held := by
  unfold Books.held Books.clear Books.withMachines
  rw [List.flatMap_map]
  rfl

theorem Sound.enter {b : Books} (h : Sound b) : Sound b.enter :=
  h.mapExo ⟨h.tidy.keys, h.tidy.items, h.tidy.queue⟩ rfl

theorem Sound.sends {b b' : Books} (h : Sound b) (hs : Sends b b') : Sound b' := by
  induction hs with
  | refl => exact h
  | tail _ hsend ih => exact ih.send hsend

theorem Sound.activates {b b' : Books} (h : Sound b) (ha : Activates b b') : Sound b' := by
  have he := h.enter
  cases ha with
  | waits hs => exact he
  | @asks b₁ b₂ args next error hs ho hp =>
      have hpushed := (he.obtained ho).pushed (Asks.proper hs) hp
      split
      · exact hpushed.mapExo ⟨hpushed.tidy.keys, hpushed.tidy.items, hpushed.tidy.queue⟩ rfl
      · exact hpushed
  | loads cik hs hn => exact he.mapExo ⟨he.tidy.keys, he.tidy.items, he.tidy.queue⟩ rfl
  | delays time requests attempts hs =>
      exact he.mapExo ⟨he.tidy.keys, he.tidy.items, he.tidy.queue⟩ rfl
  | clears time requests attempts hs =>
      exact he.shrink (l := []) (by rw [List.nil_append]; exact (held_clear b.enter).symm ▸ .refl _)
        (Nat.le_refl _) ⟨he.tidy.keys, he.tidy.items, he.tidy.queue⟩ rfl
  | reactivates hs => exact he.mapExo ⟨he.tidy.keys, he.tidy.items, he.tidy.queue⟩ rfl
  | sends hs h => exact he.sends h

theorem tidy_flagged {exo : ExositeClass} (h : Tidy exo) (status : Int) :
    Tidy (flagged status exo) ∧ (flagged status exo).protocolType = exo.protocolType := by
  unfold flagged
  split
  · exact ⟨⟨h.keys, h.items, h.queue⟩, rfl⟩
  · exact ⟨h, rfl⟩

theorem Sound.works {api : Api E} {deletes : Prop} {ok : Completion Request → Prop} {b b' : Books}
    (h : Sound b) (hw : Works api deletes ok b b') : Sound b' := by
  obtain ⟨hheap, hout⟩ := hw.outcome h.nodup
  cases hout with
  | quiet hp hx =>
      have hexo : b'.exo = b.exo := congrArg Account.exo hx
      exact h.shrink (l := []) hp.symm (Nat.le_of_eq hheap.symm) (hexo ▸ h.tidy) (by rw [hexo])
  | sent hr hp hx =>
      have hexo : b'.exo = b.exo := by
        obtain hx | ⟨-, hx⟩ := hx <;> exact (congrArg Account.exo hx).trans rfl
      exact h.shrink (l := []) hp.symm (Nat.le_of_eq hheap.symm) (hexo ▸ h.tidy) (by rw [hexo])
  | @completed c y hs hok hr hp ha hx =>
      obtain ⟨hft, hfp⟩ := tidy_flagged h.tidy (statusOf api c.request c.response)
      obtain ⟨hyt, hyp⟩ := Tidy.answered ha hft
      have hexo : b'.exo = y.exo := (congrArg Account.exo hx).trans rfl
      exact h.shrink hp (Nat.le_of_eq hheap.symm) (hexo ▸ hyt) (by rw [hexo, hyp]; exact hfp)

theorem Sound.user {limit : Nat} {b : Books} {y : Account} (h : Sound b)
    (hu : UserChange limit b.account y) : Sound { b with account := y } :=
  h.shrink (l := []) (.refl _) (Nat.le_refl _) (h.tidy.user hu) (protocolType_user hu)

theorem Sound.allocate {b : Books} (h : Sound b) (n : Nat) : Sound (b.allocate n) :=
  h.shrink (l := []) (.refl _) (Nat.le_add_right _ n) h.tidy rfl

structure Preserved (api : Api E) (deletes : Prop) (ok : Completion Request → Prop)
    (I : Books → Prop) : Prop where
  works : ∀ {b b'}, Sound b → I b → Works api deletes ok b b' → I b'
  activates : ∀ {b b'}, Sound b → I b → Activates b b' → I b'
  user : ∀ {b y}, Sound b → I b → UserChange api.config.maxRequestQueueSize b.account y →
    I { b with account := y }
  allocate : ∀ {b} (n : Nat), I b → I (b.allocate n)

/-- The protocol client does not delete the request that the machine sends in this call. -/
def KeepsSent (api : Api E) (i : Nat) (s : St Request Nat (World E)) : Prop :=
  s.sm.state = .transmit → (attempt (machineEnv api i) i s).1.next = .transmit →
    ∀ r, (attempt (machineEnv api i) i s).2.sm.activeRequest = some r →
      api.sendDeletes i r (attempt (machineEnv api i) i s).2.world.ext = false

/-- A step whose completions meet `ok`, and in which no sent request is deleted unless
`deletes` allows it. -/
def Calm (api : Api E) (deletes : Prop) (ok : Completion Request → Prop) (d : Device E) :
    Action E → Prop
  | .task i => ∀ item, d.machines[i]? = some item →
      (∀ c ∈ completions (machineEnv api i) i (d.view item), ok c) ∧
        (deletes ∨ KeepsSent api i (d.view item))
  | _ => True

instance (api : Api E) (i : Nat) (s : St Request Nat (World E)) : Decidable (KeepsSent api i s) :=
  inferInstanceAs (Decidable (_ → _ → ∀ r ∈ (attempt (machineEnv api i) i s).2.sm.activeRequest, _))

instance decidableCalm (api : Api E) (deletes : Prop) (ok : Completion Request → Prop) [Decidable deletes]
    [DecidablePred ok] (d : Device E) : (a : Action E) → Decidable (Calm api deletes ok d a)
  | .task i => inferInstanceAs (Decidable (∀ item ∈ d.machines[i]?,
      (∀ c ∈ completions (machineEnv api i) i (d.view item), ok c) ∧
        (deletes ∨ KeepsSent api i (d.view item))))
  | .activateSm | .user _ | .interfere .. => .isTrue trivial

theorem seesSend_of_keepsSent {api : Api E} {i : Nat} {deletes : Prop} {s : St Request Nat (World E)}
    (h : ∀ r, s.sm.activeRequest = some r → deletes ∨ api.sendDeletes i r s.world.ext = false) :
    SeesSend (machineEnv api i) account (hooks api deletes) s := by
  intro r hr
  show account _ = _ ∨ deletes ∧ account _ = _
  rw [account_sendRequest]
  obtain hd | hd := h r hr
  · split
    · exact .inr ⟨hd, rfl⟩
    · exact .inl rfl
  · rw [hd]
    exact .inl rfl

section

variable {api : Api E} {deletes : Prop} {ok : Completion Request → Prop} {I : Books → Prop}

theorem users_invariant (hI : ∀ {b y}, Sound b → I b →
      UserChange api.config.maxRequestQueueSize b.account y → I { b with account := y })
    {b : Books} {y : Account} (hu : UserChanges api.config.maxRequestQueueSize b.account y)
    (h : Sound b ∧ I b) : Sound { b with account := y } ∧ I { b with account := y } := by
  induction hu with
  | refl => exact h
  | @tail x _ _ hc ih => exact ⟨ih.1.user hc, hI (b := { b with account := x }) ih.1 ih.2 hc⟩

theorem step_task {d : Device E} {i : Nat} {item : SmListItem} (hi : d.machines[i]? = some item) :
    step api d (.task i) = d.put i item (protocolClientSmTask (machineEnv api i) i (d.view item)) := by
  unfold ExositeApi.step
  dsimp only
  rw [hi]

theorem step_no_task {d : Device E} {i : Nat} (hi : d.machines[i]? = none) :
    step api d (.task i) = d := by
  unfold ExositeApi.step
  dsimp only
  rw [hi]

theorem books_task {d : Device E} {i : Nat} {item : SmListItem} {pre post : List SmListItem}
    (hi : d.machines[i]? = some item) (hset : ∀ b, d.machines.set i b = pre ++ b :: post) :
    books (step api d (.task i)) = ⟨heldBy pre ++
      holdings (protocolClientSmTask (machineEnv api i) i (d.view item)).sm :: heldBy post,
      d.globals.heap, account (protocolClientSmTask (machineEnv api i) i (d.view item)).world⟩ := by
  rw [step_task hi, books_put hset, Statics.protocolClientSmTask_heap]
  rfl

theorem task_invariant (hI : ∀ {b b'}, Sound b → I b → Works api deletes ok b b' → I b')
    {d : Device E} {i : Nat} {item : SmListItem} (hi : d.machines[i]? = some item)
    (hok : ∀ c ∈ completions (machineEnv api i) i (d.view item), ok c)
    (hkeep : deletes ∨ KeepsSent api i (d.view item)) (h : Sound (books d) ∧ I (books d)) :
    Sound (books (step api d (.task i))) ∧ I (books (step api d (.task i))) := by
  obtain ⟨pre, post, hm, hset⟩ := split_at hi
  have hmoves : Moves (hooks api deletes) ok (holdings item.sm, account d.world)
      (look account (protocolClientSmTask (machineEnv api i) i (d.view item))) :=
    task_moves_of_send (watches_machineEnv api i deletes) i (d.view item)
      (fun hs hn => seesSend_of_keepsSent (fun r hr => hkeep.imp_right (fun hk => hk hs hn r hr))) hok
  rw [books_at hm] at h
  rw [books_task hi hset]
  refine hmoves.invariant (P := fun p =>
    Sound ⟨heldBy pre ++ p.1 :: heldBy post, d.globals.heap, p.2⟩ ∧
      I ⟨heldBy pre ++ p.1 :: heldBy post, d.globals.heap, p.2⟩) (fun p q hmove hp => ?_) h
  have hproper (r) (hr : r ∈ stock p.1) : Proper r.request.args :=
    (hp.1.made r ((held_perm _ _ _ _ _).mem_iff.mpr (List.mem_append_left _ hr))).1
  have hw : Works api deletes ok ⟨heldBy pre ++ p.1 :: heldBy post, d.globals.heap, p.2⟩
      ⟨heldBy pre ++ q.1 :: heldBy post, d.globals.heap, q.2⟩ := .act (act_of_move hproper hmove)
  exact ⟨hp.1.works hw, hI hp.1 hp.2 hw⟩

theorem task_completions {P : List (Completion Request) → Books → Prop}
    (hstill : ∀ {l b b'}, Sound b → P l b → Works api True (fun _ => False) b b' → P l b')
    (hcompletes : ∀ {l c b b'}, Sound b → P l b → CompletedBy api c b b' → P (l ++ [c]) b')
    {d : Device E} {i : Nat} {item : SmListItem} (hi : d.machines[i]? = some item)
    (h : Sound (books d)) (hP : P [] (books d)) :
    P (completions (machineEnv api i) i (d.view item)) (books (step api d (.task i))) := by
  obtain ⟨pre, post, hm, hset⟩ := split_at hi
  have htrace : Trace (hooks api True) (completions (machineEnv api i) i (d.view item))
      (holdings item.sm, account d.world)
      (look account (protocolClientSmTask (machineEnv api i) i (d.view item))) :=
    task_trace (watches_machineEnv api i True) i (d.view item)
      (fun _ _ => seesSend_of_keepsSent (fun _ _ => .inl trivial))
  rw [books_at hm] at h hP
  rw [books_task hi hset]
  refine (htrace.invariant (P := fun l p =>
    Sound ⟨heldBy pre ++ p.1 :: heldBy post, d.globals.heap, p.2⟩ ∧
      P l ⟨heldBy pre ++ p.1 :: heldBy post, d.globals.heap, p.2⟩)
    (fun l p q hmove hp => ?_) (fun l c p q hmove hp => ?_) ⟨h, hP⟩).2
  all_goals
    have hproper (r) (hr : r ∈ stock p.1) : Proper r.request.args :=
      (hp.1.made r ((held_perm _ _ _ _ _).mem_iff.mpr (List.mem_append_left _ hr))).1
  · have hw : Works api True (fun _ => False) ⟨heldBy pre ++ p.1 :: heldBy post, d.globals.heap, p.2⟩
        ⟨heldBy pre ++ q.1 :: heldBy post, d.globals.heap, q.2⟩ := .act (act_of_move hproper hmove)
    exact ⟨hp.1.works hw, hstill hp.1 hp.2 hw⟩
  · have hw : Works api True (fun _ => True) ⟨heldBy pre ++ p.1 :: heldBy post, d.globals.heap, p.2⟩
        ⟨heldBy pre ++ q.1 :: heldBy post, d.globals.heap, q.2⟩ :=
      .act (act_of_move hproper (hmove.move trivial))
    exact ⟨hp.1.works hw, hcompletes hp.1 hp.2 (completedBy_of_completes hproper hmove hp.1.nodup)⟩

theorem Preserved.next (hI : Preserved api deletes ok I) {d : Device E} {a : Action E}
    (hok : Calm api deletes ok d a) (h : Sound (books d) ∧ I (books d)) :
    Sound (books (step api d a)) ∧ I (books (step api d a)) := by
  cases a with
  | activateSm =>
      unfold ExositeApi.step
      cases hd : activateSm api d with
      | none => exact h
      | some d' =>
          have ha := activateSm_activates api h.1.tidy.keys hd
          exact ⟨h.1.activates ha, hI.activates h.1 h.2 ha⟩
  | task i =>
      cases hi : d.machines[i]? with
      | none =>
          rw [step_no_task hi]
          exact h
      | some item => exact task_invariant hI.works hi (hok item hi).1 (hok item hi).2 h
  | user c => exact users_invariant hI.user (userCall_changes api d.world c) h
  | interfere connectingSm startTime nextState allocated messageId f =>
      exact ⟨h.1.allocate allocated, hI.allocate allocated h.2⟩

theorem sound_exositeNew (protocolType : AppType) (vendor model sn : List UInt8) (globals : Globals Nat)
    (messageId : Int) (objects : Nat) (ext : E) :
    Sound (books (exositeNew api protocolType vendor model sn globals messageId objects ext)) where
  tidy := ⟨.nil, List.forall_mem_nil _, List.forall_mem_nil _⟩
  made := List.forall_mem_nil _
  nodup := .nil
  fresh := List.forall_mem_nil _

theorem Preserved.guarded (hI : Preserved api deletes ok I) {d : Device E} {acts : List (Action E)}
    (hok : Guarded (step api) (Calm api deletes ok) d acts) (h : Sound (books d) ∧ I (books d)) :
    Sound (books (run (step api) d acts)) ∧ I (books (run (step api) d acts)) :=
  hok.invariant (P := fun d => Sound (books d) ∧ I (books d)) (fun _ _ hok hd => hI.next hok hd) h

theorem calm_true (d : Device E) (a : Action E) : Calm api True (fun _ => True) d a := by
  cases a with
  | task i => exact fun item _ => ⟨fun _ _ => trivial, .inl trivial⟩
  | activateSm | user | interfere => exact trivial

theorem Preserved.always (hI : Preserved api True (fun _ => True) I) {d : Device E}
    (acts : List (Action E)) (h : Sound (books d) ∧ I (books d)) :
    Sound (books (run (step api) d acts)) ∧ I (books (run (step api) d acts)) :=
  Runs.invariant (P := fun d => Sound (books d) ∧ I (books d))
    (fun d a hd => hI.next (calm_true d a) hd) acts h

end

theorem sound_step (api : Api E) {d : Device E} {a : Action E} (h : Sound (books d)) :
    Sound (books (step api d a)) := by
  have hI : Preserved api True (fun _ => True) (fun _ => True) :=
    ⟨fun _ _ _ => trivial, fun _ _ _ => trivial, fun _ _ _ => trivial, fun _ _ => trivial⟩
  exact (hI.always [a] ⟨h, trivial⟩).1

/-- A property that the exosite object has no part in. -/
structure Apart (I : Books → Prop) : Prop where
  mapExo : ∀ {b} (f), I b → I (b.mapExo f)
  clear : ∀ {b}, I b → I b.clear
  obtained : ∀ {b b'}, Obtained b b' → I b → I b'
  pushed : ∀ {args b error b'}, Pushed args b error b' → I b → I b'

namespace Apart

variable {I : Books → Prop} (hI : Apart I) {b b' : Books}

include hI

theorem send (h : I b) (hs : Send b b') : I b' := by
  cases hs with
  | subscribe hi hn ho hp | queued hq ho hp =>
      have hpushed := hI.pushed hp (hI.obtained ho h)
      split
      · exact hI.mapExo _ hpushed
      · exact hpushed

theorem activates (h : I b) (ha : Activates b b') : I b' := by
  have he : I b.enter := hI.mapExo _ h
  cases ha with
  | waits hs => exact he
  | asks hs ho hp =>
      have hpushed := hI.pushed hp (hI.obtained ho he)
      split
      · exact hI.mapExo _ hpushed
      · exact hpushed
  | loads cik hs hn => exact hI.mapExo _ he
  | delays time requests attempts hs => exact hI.mapExo _ he
  | clears time requests attempts hs => exact hI.mapExo _ (hI.clear he)
  | reactivates hs => exact hI.mapExo _ he
  | sends hs hsends =>
      have hall {c c' : Books} (h : I c) (hc : Sends c c') : I c' := by
        induction hc with
        | refl => exact h
        | tail _ hsend ih => exact hI.send ih hsend
      exact hall he hsends

end Apart

section

variable {l : List Event} {b b' : Books}

theorem log_prefix_answered {limit : Nat} {args : ExoRequestArgs} {status : Int} {x y : Account}
    (h : Answered limit args status x y) : x.log <+: y.log := by
  cases h with
  | data hm hu => exact hu.log_extends
  | subscribe hm hk hu => exact hu.log_extends
  | accepted hm hv => exact List.prefix_append _ _
  | malformed | refused | timestamp => exact List.prefix_rfl

theorem log_prefix_works {api : Api E} {deletes : Prop} {ok : Completion Request → Prop}
    (hs : Sound b) (hw : Works api deletes ok b b') : b.log <+: b'.log := by
  obtain ⟨-, hout⟩ := hw.outcome hs.nodup
  unfold Books.log
  cases hout with
  | quiet hp hx => exact hx ▸ List.prefix_rfl
  | sent hr hp hx =>
      obtain hx | ⟨-, hx⟩ := hx <;> rw [hx] <;> exact List.prefix_append _ _
  | completed hs hok hr hp ha hx =>
      rw [hx]
      have hcall := log_prefix_answered ha
      exact ((List.prefix_append _ _).trans hcall).trans (List.prefix_append _ _)

theorem log_prefix_pushed {args : ExoRequestArgs} {error : Int} (hp : Pushed args b error b') :
    b.log <+: b'.log := by
  have htwo (e e' : Event) : b.log <+: b.log ++ [e] ++ [e'] := by
    rw [List.append_assoc]
    exact List.prefix_append _ _
  cases hp with
  | kept he => exact List.prefix_rfl
  | unfinished he => exact htwo _ _
  | refused n he => exact htwo _ _
  | handed hm => exact htwo _ _

theorem log_prefix_obtained (ho : Obtained b b') : b.log <+: b'.log :=
  (Obtained.held ho).2.2 ▸ List.prefix_rfl

theorem apart_log (l : List Event) : Apart (fun b => l <+: b.log) where
  mapExo _ h := h
  clear h := h
  obtained ho h := h.trans (log_prefix_obtained ho)
  pushed hp h := h.trans (log_prefix_pushed hp)

theorem preserved_extends (api : Api E) (l : List Event) :
    Preserved api True (fun _ => True) (fun b => l <+: b.log) where
  works hs h hw := h.trans (log_prefix_works hs hw)
  activates _ h ha := (apart_log l).activates h ha
  user _ h hu := h.trans (UserChanges.log_extends (.single hu))
  allocate _ h := h

end

end ErSdk.ExositeRuns
