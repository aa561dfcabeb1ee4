import ErSdk.Pclb

namespace ErSdk.PclbRegistry

open Pclb Linked Runs Error

def content (m : Memory PeriodicClb) (a : Nat) : Option Registration :=
  (fetch m a).map PeriodicClb.toRegistration

section

variable {m m' : Memory PeriodicClb} {a b : Nat} {c d : PeriodicClb} {l : List Nat}
  {y : Nat}

theorem ok_bind {α β : Type} (x : α) (f : α → Except Fault β) : (Except.ok x >>= f) = f x := rfl

theorem error_bind {α β : Type} (e : Fault) (f : α → Except Fault β) :
    (Except.error e >>= f) = .error e := rfl

theorem deref_of_fetch (h : fetch m a = some c) : deref m a = .ok c := by
  simp [deref, h]

theorem deref_freed (h : fetch m a = none) : deref m a = .error .useAfterFree := by
  simp [deref, h]

theorem map_fetch_store {β : Type} (f : PeriodicClb → β) (h : fetch m a = some c)
    (d : PeriodicClb) (hf : f d = f c) (x : Nat) :
    (fetch (store m a d) x).map f = (fetch m x).map f := by
  by_cases hx : x = a
  · subst hx
    simp [fetch_store_self h, h, hf]
  · rw [fetch_store_ne hx]

theorem lastShadow_last {init : List Nat} {fuel : Nat}
    (h : Seg PeriodicClb.shadowNext m (some a) (init ++ [b]) none)
    (hfuel : (init ++ [b]).length ≤ fuel) : lastShadow m fuel a = .ok b := by
  induction init generalizing a fuel with
  | nil =>
      obtain ⟨hp, c, hc, hseg⟩ := seg_cons.mp h
      obtain rfl := Option.some.inj hp
      cases fuel with
      | zero => simp at hfuel
      | succ fuel =>
          cases hnext : c.shadowNext with
          | none => simp [lastShadow, deref_of_fetch hc, ok_bind, hnext]
          | some x =>
              rw [hnext] at hseg
              cases hseg
  | cons x init ih =>
      obtain ⟨hp, c, hc, hseg⟩ := seg_cons.mp h
      obtain rfl := Option.some.inj hp
      cases fuel with
      | zero => simp at hfuel
      | succ fuel =>
          cases hnext : c.shadowNext with
          | none =>
              rw [hnext] at hseg
              have hnil := (seg_none hseg).1
              simp at hnil
          | some y =>
              rw [hnext] at hseg
              have hlen : (init ++ [b]).length ≤ fuel := by simpa using hfuel
              simp [lastShadow, deref_of_fetch hc, ok_bind, hnext, ih hseg hlen]

theorem lastShadow_freed (fuel : Nat) (h : Seg PeriodicClb.shadowNext m (some a) l (some b))
    (hb : fetch m b = none) : ∃ f, lastShadow m fuel a = .error f := by
  induction fuel generalizing a l with
  | zero => exact ⟨_, rfl⟩
  | succ fuel ih =>
      cases l with
      | nil =>
          cases h
          exact ⟨.useAfterFree, by simp [lastShadow, deref_freed hb, error_bind]⟩
      | cons x l =>
          obtain ⟨hp, c, hc, hseg⟩ := seg_cons.mp h
          obtain rfl := Option.some.inj hp
          cases hnext : c.shadowNext with
          | none =>
              rw [hnext] at hseg
              exact absurd (seg_none hseg).2 nofun
          | some y =>
              rw [hnext] at hseg
              obtain ⟨f, hf⟩ := ih hseg
              exact ⟨f, by simp [lastShadow, deref_of_fetch hc, ok_bind, hnext, hf]⟩

theorem relink_step {fuel : Nat} (hc : fetch m a = some c) (hnext : c.shadowNext = some y) :
    relink (fuel + 1) a m = relink fuel y (store m a { c with next := some y }) := by
  obtain ⟨e, n, sh⟩ := c
  obtain rfl : sh = some y := hnext
  simp [relink, deref_of_fetch hc, ok_bind]

theorem relink_freed (fuel : Nat) (h : Seg PeriodicClb.shadowNext m (some a) l (some b))
    (hb : fetch m b = none) : ∃ f, relink fuel a m = .error f := by
  induction fuel generalizing a l m with
  | zero => exact ⟨_, rfl⟩
  | succ fuel ih =>
      cases l with
      | nil =>
          cases h
          exact ⟨.useAfterFree, by simp [relink, deref_freed hb, error_bind]⟩
      | cons x l =>
          obtain ⟨hp, c, hc, hseg⟩ := seg_cons.mp h
          obtain rfl := Option.some.inj hp
          cases hnext : c.shadowNext with
          | none =>
              rw [hnext] at hseg
              exact absurd (seg_none hseg).2 nofun
          | some y =>
              rw [hnext] at hseg
              have hne : b ≠ a := by
                rintro rfl
                simp [hb] at hc
              obtain ⟨f, hf⟩ := ih (m := store m a { c with next := some y })
                (hseg.congr (fun x _ => map_fetch_store PeriodicClb.shadowNext hc { c with next := some y } rfl x))
                (by rw [fetch_store_ne hne, hb])
              exact ⟨f, (relink_step hc hnext).trans hf⟩

theorem relink_links {fuel : Nat} (h : Seg PeriodicClb.shadowNext m (some a) l none)
    (hn : l.Nodup) (hfuel : l.length ≤ fuel)
    (hlast : ∀ init b, l = init ++ [b] → (fetch m b).map PeriodicClb.next = some none) :
    ∃ m', relink fuel a m = .ok m' ∧ m'.length = m.length ∧
      (∀ x ∈ l, (fetch m' x).map PeriodicClb.next = (fetch m x).map PeriodicClb.shadowNext) ∧
      (∀ x, x ∉ l → fetch m' x = fetch m x) ∧
      (∀ x, (fetch m' x).map PeriodicClb.shadowNext = (fetch m x).map PeriodicClb.shadowNext) ∧
      ∀ x, content m' x = content m x := by
  induction l generalizing a m fuel with
  | nil => cases h
  | cons x l ih =>
      obtain ⟨hp, c, hc, hseg⟩ := seg_cons.mp h
      obtain rfl := Option.some.inj hp
      cases fuel with
      | zero => simp at hfuel
      | succ fuel =>
          cases hnext : c.shadowNext with
          | none =>
              rw [hnext] at hseg
              obtain ⟨rfl, -⟩ := seg_none hseg
              have hnone := hlast [] a rfl
              refine ⟨m, by simp [relink, deref_of_fetch hc, ok_bind, hnext], rfl, ?_, by simp, by simp, by simp⟩
              intro y hy
              cases List.mem_singleton.mp hy
              rw [hnone, hc, Option.map_some, hnext]
          | some y =>
              rw [hnext] at hseg
              obtain ⟨hx, hn⟩ := List.nodup_cons.mp hn
              have hold : ∀ z, z ∈ l → fetch (store m a { c with next := some y }) z = fetch m z := by
                intro z hz
                apply fetch_store_ne
                rintro rfl
                exact hx hz
              have hlast' : ∀ init b, l = init ++ [b] →
                  (fetch (store m a { c with next := some y }) b).map PeriodicClb.next = some none := by
                intro init b hl
                rw [hold b (by simp [hl])]
                exact hlast (a :: init) b (by simp [hl])
              obtain ⟨m', hm', hlen, hnexts, hframe, hshadow, hcontent⟩ :=
                ih (m := store m a { c with next := some y })
                  (hseg.congr (fun x _ => map_fetch_store PeriodicClb.shadowNext hc { c with next := some y } rfl x)) hn (by simpa using hfuel) hlast'
              refine ⟨m', (relink_step hc hnext).trans hm', by simpa using hlen, ?_, ?_, ?_, ?_⟩
              · intro z hz
                rcases List.mem_cons.mp hz with rfl | hz
                · rw [hframe z hx, fetch_store_self hc, hc]
                  simp [hnext]
                · rw [hnexts z hz, hold z hz]
              · intro z hz
                rw [List.mem_cons, not_or] at hz
                rw [hframe z hz.2, fetch_store_ne hz.1]
              · intro z
                rw [hshadow z]
                exact map_fetch_store PeriodicClb.shadowNext hc { c with next := some y } rfl z
              · intro z
                rw [hcontent z]
                exact map_fetch_store PeriodicClb.toRegistration hc { c with next := some y } rfl z

theorem removeAfter_absent {id : Int} {fuel : Nat}
    (h : Seg PeriodicClb.next m (some a) (a :: l) none) (hfuel : (a :: l).length ≤ fuel)
    (hid : ∀ x ∈ l, ∀ e, content m x = some e → e.id ≠ id) :
    removeAfter id fuel a m = .ok none := by
  induction l generalizing a fuel with
  | nil =>
      obtain ⟨-, c, hc, hseg⟩ := seg_cons.mp h
      cases fuel with
      | zero => simp at hfuel
      | succ fuel =>
          cases hnext : c.next with
          | none => simp [removeAfter, deref_of_fetch hc, ok_bind, hnext]
          | some x =>
              rw [hnext] at hseg
              cases hseg
  | cons x l ih =>
      obtain ⟨-, c, hc, hseg⟩ := seg_cons.mp h
      cases fuel with
      | zero => simp at hfuel
      | succ fuel =>
          obtain ⟨hnext, d, hd, -⟩ := seg_cons.mp hseg
          have hne : d.id ≠ id := hid x (by simp) d.toRegistration (by simp [content, hd])
          rw [hnext] at hseg
          have hrest := ih hseg (by simpa using hfuel) (fun y hy => hid y (by simp [hy]))
          simp [removeAfter, deref_of_fetch hc, deref_of_fetch hd, ok_bind, hnext, hne, hrest]

theorem removeAfter_present {id : Int} {fuel : Nat} {init post : List Nat}
    (h : Seg PeriodicClb.next m (some a) (init ++ b :: y :: post) none)
    (hp : fetch m b = some c) (hq : fetch m y = some d) (hfound : d.id = id)
    (hfuel : (init ++ b :: y :: post).length ≤ fuel)
    (hid : ∀ x ∈ init ++ [b], ∀ e, content m x = some e → e.id ≠ id) :
    removeAfter id fuel a m = .ok (some (release (store m b { c with next := d.next }) y)) := by
  induction init generalizing a fuel with
  | nil =>
      obtain ⟨hab, c', hc, hseg⟩ := seg_cons.mp h
      obtain rfl := Option.some.inj hab
      cases hp.symm.trans hc
      cases fuel with
      | zero => simp at hfuel
      | succ fuel =>
          obtain ⟨hnext, -⟩ := seg_cons.mp hseg
          simp [removeAfter, deref_of_fetch hp, deref_of_fetch hq, ok_bind, hnext, hfound]
  | cons x init ih =>
      obtain ⟨hab, c', hc, hseg⟩ := seg_cons.mp h
      obtain rfl := Option.some.inj hab
      cases fuel with
      | zero => simp at hfuel
      | succ fuel =>
          obtain ⟨y, hy, hmem⟩ : ∃ y, c'.next = some y ∧ y ∈ init ++ [b] := by
            cases init with
            | nil => exact ⟨b, (seg_cons.mp hseg).1, by simp⟩
            | cons y init => exact ⟨y, (seg_cons.mp hseg).1, by simp⟩
          rw [hy] at hseg
          obtain ⟨e, he⟩ := hseg.fetch y (by
            rcases List.mem_append.mp hmem with hm | hm
            · simp [hm]
            · simp [List.mem_singleton.mp hm])
          have hne : e.id ≠ id :=
            hid y (List.mem_cons_of_mem a hmem) e.toRegistration (by simp [content, he])
          have hrest := ih hseg (by simpa using hfuel)
            (fun z hz => hid z (List.mem_cons_of_mem a hz))
          simp [removeAfter, deref_of_fetch hc, deref_of_fetch he, ok_bind, hy, hne, hrest]

theorem head_of_concat {link : PeriodicClb → Option Nat} {init : List Nat} {p q : Option Nat}
    (h : Seg link m p (init ++ [b]) q) : ∃ first, p = some first := by
  cases init with
  | nil => exact ⟨b, (seg_cons.mp h).1⟩
  | cons x init => exact ⟨x, (seg_cons.mp h).1⟩

theorem appendShadow_links {new : Nat} {head : Option Nat}
    (h : Seg PeriodicClb.shadowNext m head l none) (hn : l.Nodup) (hnew : fetch m new = some c)
    (hc : c.shadowNext = none) (hl : new ∉ l) :
    ∃ head' m', appendShadow new head m = .ok (head', m') ∧ m'.length = m.length ∧
      Seg PeriodicClb.shadowNext m' head' (l ++ [new]) none ∧
      (∀ x, content m' x = content m x) ∧
      ∀ x, (fetch m' x).map PeriodicClb.next = (fetch m x).map PeriodicClb.next := by
  rcases List.eq_nil_or_concat' l with rfl | ⟨init, b, rfl⟩
  · cases h
    have hend : Seg PeriodicClb.shadowNext m c.shadowNext [] none := hc ▸ .nil
    exact ⟨some new, m, rfl, rfl, .cons hnew hend, fun _ => rfl, fun _ => rfl⟩
  · obtain ⟨first, rfl⟩ := head_of_concat h
    obtain ⟨-, d, hd, -⟩ := h.split
    have hlast := lastShadow_last h (h.length_le hn)
    have hne : new ≠ b := by
      rintro rfl
      simp at hl
    have hinit : ∀ x ∈ init, x ≠ b := by
      rintro x hx rfl
      exact (List.nodup_append.mp hn).2.2 x hx x (by simp) rfl
    refine ⟨some first, store m b { d with shadowNext := some new }, ?_, by simp, ?_, ?_, ?_⟩
    · simp [appendShadow, hlast, deref_of_fetch hd, ok_bind]
    · apply Seg.snoc (c := { d with shadowNext := some new }) h rfl hc
      · intro x hx
        exact fetch_store_ne (hinit x hx) _
      · exact fetch_store_self hd _
      · rw [fetch_store_ne hne, hnew]
    · exact map_fetch_store PeriodicClb.toRegistration hd { d with shadowNext := some new } rfl
    · exact map_fetch_store PeriodicClb.next hd { d with shadowNext := some new } rfl

theorem appendShadow_freed (new : Nat) {head : Option Nat}
    (h : Seg PeriodicClb.shadowNext m head l (some b)) (hb : fetch m b = none) :
    ∃ f, appendShadow new head m = .error f := by
  obtain ⟨first, rfl⟩ : ∃ first, head = some first := by
    cases h with
    | nil => exact ⟨b, rfl⟩
    | cons _ _ => exact ⟨_, rfl⟩
  obtain ⟨f, hf⟩ := lastShadow_freed m.length h hb
  exact ⟨f, by simp [appendShadow, hf, error_bind]⟩

end

/-- The statics hold the registrations of the registry: those seen by a run are linked for
the runs, and all of them are in the shadow list until a record of it has been freed. -/
structure Represents (s : Statics) (r : Registry) (linked fresh : List Nat) : Prop where
  next : Seg PeriodicClb.next s.cells s.periodicClbHead linked none
  unlinked : ∀ a ∈ fresh, (fetch s.cells a).map PeriodicClb.next = some none
  seen : linked.map (content s.cells) = r.seen.map some
  recent : fresh.map (content s.cells) = r.fresh.map some
  nodup : (linked ++ fresh).Nodup
  whole : r.removed = false →
    Seg PeriodicClb.shadowNext s.cells s.shadowPeriodicClbHead (linked ++ fresh) none
  broken : r.removed = true → ∃ l a,
    Seg PeriodicClb.shadowNext s.cells s.shadowPeriodicClbHead l (some a) ∧
      fetch s.cells a = none ∧ a < s.cells.length
  made : s.clbObjCnt = r.made
  count : s.clbNum = r.registrations.length
  time : s.lastSystemTime = r.lastSystemTime
  ids : (r.registrations.map Registration.id).Nodup
  below : ∀ e ∈ r.registrations, e.id < r.made
  few : r.registrations.length ≤ r.made
  small : r.made ≤ int32Max

section

variable {s : Statics} {r : Registry} {linked fresh : List Nat} {args : RegisterArgs}

theorem represents_zero : Represents Statics.zero Registry.empty [] [] where
  next := .nil
  unlinked := by simp
  seen := rfl
  recent := rfl
  nodup := by simp
  whole _ := .nil
  broken h := absurd h (by decide)
  made := rfl
  count := rfl
  time := rfl
  ids := by simp [Registry.registrations, Registry.empty]
  below := by simp [Registry.registrations, Registry.empty]
  few := by simp [Registry.registrations, Registry.empty]
  small := by decide

theorem Represents.fetched (h : Represents s r linked fresh) {a : Nat} (ha : a ∈ linked ++ fresh) :
    ∃ c, fetch s.cells a = some c := by
  have hmap : (linked ++ fresh).map (content s.cells) = (r.seen ++ r.fresh).map some := by
    rw [List.map_append, List.map_append, h.seen, h.recent]
  have hmem := List.mem_map_of_mem (f := content s.cells) ha
  rw [hmap] at hmem
  obtain ⟨e, -, he⟩ := List.mem_map.mp hmem
  obtain ⟨c, hc, -⟩ := Option.map_eq_some_iff.mp he.symm
  exact ⟨c, hc⟩

theorem Represents.lt (h : Represents s r linked fresh) {a : Nat} (ha : a ∈ linked ++ fresh) :
    a < s.cells.length := by
  obtain ⟨c, hc⟩ := h.fetched ha
  exact lt_of_fetch hc

theorem increment_ok {n : Int} (h : n < int32Max) : increment n = .ok (n + 1) := by
  simp [increment, h]

theorem increment_overflow {n : Int} (h : ¬ n < int32Max) : increment n = .error .overflow := by
  simp [increment, h]

theorem Represents.clbNum_le (h : Represents s r linked fresh) : s.clbNum ≤ s.clbObjCnt := by
  rw [h.count, h.made]
  exact h.few

theorem registrations_register (hargs : args.allocated = true) :
    (r.register args).registrations =
      r.registrations ++ [⟨args.fn, args.period, 0, r.made, args.param⟩] := by
  simp [Registry.register, Registry.registrations, hargs]

theorem register_follows (h : Represents s r linked fresh) (hargs : args.allocated = true)
    (hr : r.removed = false) (hm : r.made < int32Max) :
    ∃ s' fresh', pclbRegister args s = .ok ((errSuccess, some r.made), s') ∧
      Represents s' (r.register args) linked fresh' := by
  have hfresh : s.cells.length ∉ linked ++ fresh := fun ha => Nat.lt_irrefl _ (h.lt ha)
  have hold : ∀ c, ∀ a ∈ linked ++ fresh, fetch (allocate s.cells c) a = fetch s.cells a :=
    fun c a ha => fetch_allocate_of_lt (h.lt ha) c
  let new : PeriodicClb := ⟨⟨args.fn, args.period, 0, s.clbObjCnt, args.param⟩, none, none⟩
  have hnew : fetch (allocate s.cells new) s.cells.length = some new := fetch_allocate_self _ _
  have hshadow := (h.whole hr).congr (fun a ha => by rw [hold new a ha])
  obtain ⟨head, m, happ, -, hseg, hcontent, hnext⟩ :=
    appendShadow_links hshadow h.nodup hnew rfl hfresh
  have hcnt : s.clbObjCnt < int32Max := h.made ▸ hm
  have hnum : s.clbNum < int32Max := Int.lt_of_le_of_lt h.clbNum_le hcnt
  have hkeep : ∀ a ∈ linked ++ fresh, content m a = content s.cells a := by
    intro a ha
    rw [hcontent a]
    unfold content
    rw [hold new a ha]
  have hlast : content m s.cells.length = some ⟨args.fn, args.period, 0, r.made, args.param⟩ := by
    rw [hcontent, ← h.made]
    simp [content, hnew, new]
  refine ⟨{ s with cells := m, shadowPeriodicClbHead := head, clbObjCnt := s.clbObjCnt + 1,
                   clbNum := s.clbNum + 1 }, fresh ++ [s.cells.length], ?_, ?_⟩
  · rw [← h.made]
    simp [pclbRegister, hargs, happ, new, ok_bind, increment_ok hcnt, increment_ok hnum]
  · have hall := registrations_register (r := r) hargs
    constructor
    · exact h.next.congr (fun a ha => by rw [hnext a, hold new a (by simp [ha])])
    · intro a ha
      rw [hnext a]
      rcases List.mem_append.mp ha with ha | ha
      · rw [hold new a (by simp [ha])]
        exact h.unlinked a ha
      · rw [List.mem_singleton.mp ha, hnew]
        rfl
    · rw [List.map_congr_left (fun a ha => hkeep a (by simp [ha])), h.seen]
      simp [Registry.register, hargs]
    · rw [List.map_append, List.map_congr_left (fun a ha => hkeep a (by simp [ha])), h.recent,
        List.map_singleton, hlast]
      simp [Registry.register, hargs]
    · rw [← List.append_assoc]
      exact h.nodup.append (List.nodup_singleton _) (by simpa using hfresh)
    · intro _
      rw [← List.append_assoc]
      exact hseg
    · intro hbad
      simp [Registry.register, hargs, hr] at hbad
    · simp [Registry.register, hargs, h.made]
    · rw [hall]
      simp [h.count]
    · simpa [Registry.register, hargs] using h.time
    · rw [hall, List.map_append]
      refine h.ids.append (List.nodup_singleton _) ?_
      intro x hx hy
      obtain ⟨e, he, rfl⟩ := List.mem_map.mp hx
      have hlt := h.below e he
      have heq : e.id = r.made := by simpa using hy
      omega
    · intro e he
      rw [hall, List.mem_append, List.mem_singleton] at he
      have hmade : (r.register args).made = r.made + 1 := by simp [Registry.register, hargs]
      rw [hmade]
      rcases he with he | rfl
      · have hlt := h.below e he
        omega
      · exact Int.lt_succ r.made
    · rw [hall]
      have hfew := h.few
      simp [Registry.register, hargs]
      omega
    · have hmade : (r.register args).made = r.made + 1 := by simp [Registry.register, hargs]
      omega

theorem register_unsafe (h : Represents s r linked fresh) (hargs : args.allocated = true)
    (hs : ¬ (r.removed = false ∧ r.made < int32Max)) : ∃ f, pclbRegister args s = .error f := by
  let new : PeriodicClb := ⟨⟨args.fn, args.period, 0, s.clbObjCnt, args.param⟩, none, none⟩
  by_cases hr : r.removed = false
  · have hcnt : ¬ s.clbObjCnt < int32Max := by
      rw [h.made]
      exact fun hm => hs ⟨hr, hm⟩
    cases happ : appendShadow s.cells.length s.shadowPeriodicClbHead (allocate s.cells new) with
    | error f => exact ⟨f, by simp [pclbRegister, hargs, new, happ, error_bind]⟩
    | ok x =>
        exact ⟨.overflow, by
          simp [pclbRegister, hargs, new, happ, ok_bind, error_bind, increment_overflow hcnt]⟩
  · obtain ⟨l, a, hseg, ha, hlt⟩ := h.broken (by simpa using hr)
    have hl : ∀ x ∈ l, fetch (allocate s.cells new) x = fetch s.cells x :=
      fun x hx => fetch_allocate_of_lt (hseg.lt x hx) new
    have ha' : fetch (allocate s.cells new) a = none := by rw [fetch_allocate_of_lt hlt, ha]
    obtain ⟨f, hf⟩ := appendShadow_freed s.cells.length
      (hseg.congr (fun x hx => by rw [hl x hx])) ha'
    exact ⟨f, by simp [pclbRegister, hargs, new, hf, error_bind]⟩

theorem pclbUnregister_absent {id : Int} (h : Represents s r linked fresh)
    (hid : id ∉ r.seen.map Registration.id) : pclbUnregister id s = .ok (errFailure, s) := by
  have hne : ∀ a ∈ linked, ∀ e, content s.cells a = some e → e.id ≠ id := by
    intro a ha e he heq
    have hmem := List.mem_map_of_mem (f := content s.cells) ha
    rw [h.seen, he] at hmem
    exact hid (heq ▸ List.mem_map_of_mem (by simpa using hmem))
  have hseg := h.next
  cases linked with
  | nil =>
      have hnone : s.periodicClbHead = none := by
        generalize s.periodicClbHead = p at hseg
        cases hseg
        rfl
      simp [pclbUnregister, hnone]
  | cons a l =>
      obtain ⟨hhead, c, hc, hrest⟩ := seg_cons.mp hseg
      rw [hhead] at hseg
      have hcid : c.id ≠ id := hne a (by simp) c.toRegistration (by simp [content, hc])
      have hlen := hseg.length_le (h.nodup.of_append_left)
      have habsent := removeAfter_absent hseg hlen (fun x hx => hne x (by simp [hx]))
      simp [pclbUnregister, hhead, deref_of_fetch hc, ok_bind, hcid, habsent]

theorem Represents.place {id : Int} (h : Represents s r linked fresh)
    (hid : id ∈ r.seen.map Registration.id) :
    ∃ pre a post es e es' c, linked = pre ++ a :: post ∧ r.seen = es ++ e :: es' ∧ e.id = id ∧
      fetch s.cells a = some c ∧ c.toRegistration = e ∧
      pre.map (content s.cells) = es.map some ∧ post.map (content s.cells) = es'.map some := by
  obtain ⟨e, he, rfl⟩ := List.mem_map.mp hid
  obtain ⟨es, es', hseen⟩ := List.append_of_mem he
  have hmap := h.seen
  rw [hseen, List.map_append, List.map_cons] at hmap
  obtain ⟨pre, rest, rfl, hpre, hrest⟩ := List.map_eq_append_iff.mp hmap
  obtain ⟨a, post, rfl, ha, hpost⟩ := List.map_eq_cons_iff.mp hrest
  obtain ⟨c, hc, hce⟩ := Option.map_eq_some_iff.mp ha
  exact ⟨pre, a, post, es, e, es', c, rfl, hseen, rfl, hc, hce, hpre, hpost⟩

theorem filter_ids {es es' : List Registration} {e : Registration}
    (hn : ((es ++ e :: es').map Registration.id).Nodup) :
    (es ++ e :: es').filter (fun x => x.id ≠ e.id) = es ++ es' := by
  rw [List.map_append, List.map_cons, List.nodup_append, List.nodup_cons] at hn
  obtain ⟨-, ⟨he, -⟩, hes⟩ := hn
  have hleft : es.filter (fun x => x.id ≠ e.id) = es := by
    refine List.filter_eq_self.mpr (fun x hx => decide_eq_true ?_)
    exact hes x.id (List.mem_map_of_mem hx) e.id (by simp)
  have hright : es'.filter (fun x => x.id ≠ e.id) = es' := by
    refine List.filter_eq_self.mpr (fun x hx => decide_eq_true ?_)
    intro heq
    exact he (heq ▸ List.mem_map_of_mem hx)
  rw [List.filter_append, List.filter_cons_of_neg (by simp), hleft, hright]

theorem unregister_seen {es es' : List Registration} {e : Registration}
    (hseen : r.seen = es ++ e :: es') (hn : (r.registrations.map Registration.id).Nodup) :
    r.unregister e.id = { r with seen := es ++ es', removed := true } := by
  unfold Registry.registrations at hn
  have hmem : e.id ∈ r.registrations.map Registration.id := by
    simp [Registry.registrations, hseen]
  have hseenNodup : ((es ++ e :: es').map Registration.id).Nodup := by
    rw [← hseen]
    rw [List.map_append] at hn
    exact hn.of_append_left
  have hfresh : r.fresh.filter (fun x => x.id ≠ e.id) = r.fresh := by
    refine List.filter_eq_self.mpr (fun x hx => decide_eq_true ?_)
    rw [List.map_append, List.nodup_append] at hn
    exact (hn.2.2 e.id (by simp [hseen]) x.id (List.mem_map_of_mem hx)).symm
  unfold Registry.unregister
  rw [if_pos hmem, hseen, filter_ids hseenNodup, hfresh]

theorem Represents.freed {s' : Statics} {pre post : List Nat} {a : Nat} {es es' : List Registration}
    {e : Registration} (h : Represents s r (pre ++ a :: post) fresh)
    (hseen : r.seen = es ++ e :: es') (hpre : pre.map (content s.cells) = es.map some)
    (hpost : post.map (content s.cells) = es'.map some)
    (hnext : Seg PeriodicClb.next s'.cells s'.periodicClbHead (pre ++ post) none)
    (hfreed : fetch s'.cells a = none) (hlen : s'.cells.length = s.cells.length)
    (hcontent : ∀ x, x ≠ a → content s'.cells x = content s.cells x)
    (hlinks : ∀ x, x ≠ a → (fetch s'.cells x).map PeriodicClb.shadowNext =
      (fetch s.cells x).map PeriodicClb.shadowNext)
    (hlast : ∀ x ∈ fresh, (fetch s'.cells x).map PeriodicClb.next =
      (fetch s.cells x).map PeriodicClb.next)
    (hhead : s'.shadowPeriodicClbHead = s.shadowPeriodicClbHead)
    (hcnt : s'.clbObjCnt = s.clbObjCnt) (hnum : s'.clbNum = s.clbNum - 1)
    (htime : s'.lastSystemTime = s.lastSystemTime) :
    Represents s' (r.unregister e.id) (pre ++ post) fresh := by
  rw [unregister_seen hseen h.ids]
  have hnodup := h.nodup
  rw [List.append_assoc, List.cons_append, List.nodup_middle, ← List.append_assoc,
    List.nodup_cons] at hnodup
  obtain ⟨ha, hrest⟩ := hnodup
  have hne : ∀ x ∈ pre ++ post ++ fresh, x ≠ a := by
    rintro x hx rfl
    exact ha hx
  have hregs : (r.registrations).Perm (e :: (es ++ es' ++ r.fresh)) := by
    unfold Registry.registrations
    rw [hseen, List.append_assoc, List.cons_append, List.append_assoc]
    exact List.perm_middle
  have halt : a < s.cells.length := h.lt (by simp)
  constructor
  · exact hnext
  · intro x hx
    rw [hlast x hx]
    exact h.unlinked x hx
  · rw [List.map_congr_left (fun x hx => hcontent x (hne x (List.mem_append_left _ hx))),
      List.map_append, hpre, hpost, List.map_append]
  · rw [List.map_congr_left (fun x hx => hcontent x (hne x (List.mem_append_right _ hx)))]
    exact h.recent
  · exact hrest
  · exact fun hbad => absurd hbad (by simp)
  · intro _
    rw [hhead]
    by_cases hr : r.removed = true
    · obtain ⟨l, b, hseg, hb, hlt⟩ := h.broken hr
      by_cases hal : a ∈ l
      · obtain ⟨bs, hbs⟩ := hseg.cut hal (fun x _ hx => hlinks x hx)
        exact ⟨bs, a, hbs, hfreed, hlen ▸ halt⟩
      · refine ⟨l, b, hseg.congr (fun x hx => hlinks x ?_), ?_, hlen ▸ hlt⟩
        · rintro rfl
          exact hal hx
        · by_cases hba : b = a
          · rw [hba, hfreed]
          · have hnone := hcontent b hba
            simpa [content, hb] using hnone
    · obtain ⟨bs, hbs⟩ := (h.whole (by simpa using hr)).cut (a := a) (by simp)
        (fun x _ hx => hlinks x hx)
      exact ⟨bs, a, hbs, hfreed, hlen ▸ halt⟩
  · rw [hcnt, h.made]
  · have hcount := hregs.length_eq
    rw [hnum, h.count, hcount]
    simp [Registry.registrations]
  · rw [htime, h.time]
  · exact (List.nodup_cons.mp ((hregs.map Registration.id).nodup_iff.mp h.ids)).2
  · intro x hx
    exact h.below x (hregs.mem_iff.mpr (List.mem_cons_of_mem e hx))
  · have hcount := hregs.length_eq
    have hfew := h.few
    simp [Registry.registrations] at hcount ⊢
    simp [Registry.registrations] at hfew
    omega
  · exact h.small

theorem unregister_follows {id : Int} (h : Represents s r linked fresh)
    (hid : id ∈ r.seen.map Registration.id) :
    ∃ s' linked', pclbUnregister id s = .ok (errSuccess, s') ∧
      Represents s' (r.unregister id) linked' fresh := by
  obtain ⟨pre, a, post, es, e, es', c, rfl, hseen, rfl, hc, rfl, hpre, hpost⟩ := h.place hid
  have hnodup := h.nodup
  rw [List.append_assoc, List.cons_append, List.nodup_middle, ← List.append_assoc,
    List.nodup_cons] at hnodup
  obtain ⟨ha, -⟩ := hnodup
  have hne : ∀ x ∈ pre ++ post ++ fresh, x ≠ a := by
    rintro x hx rfl
    exact ha hx
  rcases List.eq_nil_or_concat' pre with rfl | ⟨init, b, rfl⟩
  · obtain ⟨hhead, c', hc', hrest⟩ := seg_cons.mp h.next
    cases hc.symm.trans hc'
    refine ⟨{ s with periodicClbHead := c.next, cells := release s.cells a,
                     clbNum := s.clbNum - 1 }, post, ?_, ?_⟩
    · simp [pclbUnregister, hhead, deref_of_fetch hc, ok_bind]
    · apply h.freed hseen hpre hpost
      · exact hrest.congr (fun x hx => by rw [fetch_release_ne (hne x (by simp [hx]))])
      · exact fetch_release_self _ _
      · simp
      · intro x hx
        unfold content
        rw [fetch_release_ne hx]
      · intro x hx
        rw [fetch_release_ne hx]
      · intro x hx
        rw [fetch_release_ne (hne x (by simp [hx]))]
      all_goals rfl
  · have hids : ∀ x ∈ init ++ [b], ∀ e, content s.cells x = some e → e.id ≠ c.id := by
      intro x hx e he
      have hmem := List.mem_map_of_mem (f := content s.cells) hx
      rw [hpre, he] at hmem
      have hes : e ∈ es := by simpa using hmem
      have hn := h.ids
      unfold Registry.registrations at hn
      rw [hseen, List.append_assoc, List.map_append, List.nodup_append] at hn
      exact hn.2.2 e.id (List.mem_map_of_mem hes) c.id (by simp)
    obtain ⟨d, hd⟩ := h.fetched (a := b) (by simp)
    have hseg : Seg PeriodicClb.next s.cells s.periodicClbHead (init ++ b :: a :: post) none := by
      simpa using h.next
    obtain ⟨first, hhead⟩ := head_of_concat (seg_append.mp h.next).choose_spec.1
    have hfirst : first ∈ init ++ [b] := by
      rw [hhead] at hseg
      cases init with
      | nil => simp [Option.some.inj (seg_cons.mp hseg).1]
      | cons x init => simp [Option.some.inj (seg_cons.mp hseg).1]
    obtain ⟨g, hg⟩ := h.fetched (a := first) (List.mem_append_left _ (List.mem_append_left _ hfirst))
    have hgid : g.id ≠ c.id := hids first hfirst g.toRegistration (by simp [content, hg])
    rw [hhead] at hseg
    have hlen := hseg.length_le (by simpa using h.nodup.of_append_left)
    have hremoved := removeAfter_present hseg hd hc rfl hlen hids
    have hab : a ≠ b := (hne b (by simp)).symm
    have hbnotin : b ∉ init ∧ b ∉ post ∧ b ∉ fresh := by
      have hn := h.nodup
      rw [List.append_assoc, List.append_assoc, List.singleton_append, List.nodup_middle,
        List.nodup_cons] at hn
      simp at hn
      tauto
    have hneb : ∀ x, x ∈ init ∨ x ∈ post ∨ x ∈ fresh → x ≠ b := by
      rintro x hx rfl
      tauto
    refine ⟨{ s with cells := release (store s.cells b { d with next := c.next }) a,
                     clbNum := s.clbNum - 1 }, init ++ [b] ++ post, ?_, ?_⟩
    · simp [pclbUnregister, hhead, deref_of_fetch hg, ok_bind, hgid, hremoved]
    · apply h.freed hseen hpre hpost
      · have hunlinked : Seg PeriodicClb.next (release (store s.cells b { d with next := c.next }) a)
            (some first) (init ++ b :: post) none := by
          apply Seg.unlink (c := { d with next := c.next }) hseg hc rfl
          · rw [fetch_release_ne hab.symm, fetch_store_self hd]
          · rintro x (hx | hx)
            · rw [fetch_release_ne (hne x (by simp [hx])), fetch_store_ne (hneb x (by simp [hx]))]
            · rw [fetch_release_ne (hne x (by simp [hx])), fetch_store_ne (hneb x (by simp [hx]))]
        simpa [hhead] using hunlinked
      · exact fetch_release_self _ _
      · simp
      · intro x hx
        unfold content
        rw [fetch_release_ne hx]
        exact map_fetch_store PeriodicClb.toRegistration hd { d with next := c.next } rfl x
      · intro x hx
        rw [fetch_release_ne hx]
        exact map_fetch_store PeriodicClb.shadowNext hd { d with next := c.next } rfl x
      · intro x hx
        rw [fetch_release_ne (hne x (by simp [hx])), fetch_store_ne (hneb x (by simp [hx]))]
      all_goals rfl

theorem register_refused (hargs : ¬ args.allocated = true) : r.register args = r := by
  simp [Registry.register, hargs]

theorem pclbRegister_refused (hargs : ¬ args.allocated = true) :
    pclbRegister args s = .ok ((errNoMemory, none), s) := by
  simp [pclbRegister, hargs]

@[simp] theorem register_removed : (r.register args).removed = r.removed := by
  unfold Registry.register
  split <;> rfl

@[simp] theorem register_seen : (r.register args).seen = r.seen := by
  unfold Registry.register
  split <;> rfl

def withSeen (r : Registry) (l : List Registration) : Registry := { r with seen := l }

@[simp] theorem withSeen_seen (l : List Registration) : (withSeen r l).seen = l := rfl

@[simp] theorem withSeen_removed (l : List Registration) : (withSeen r l).removed = r.removed := rfl

@[simp] theorem withSeen_withSeen (l l' : List Registration) :
    withSeen (withSeen r l) l' = withSeen r l' := rfl

theorem register_withSeen (l : List Registration) :
    (withSeen r l).register args = withSeen (r.register args) l := by
  unfold Registry.register
  split <;> rfl

theorem made_le_register : r.made ≤ (r.register args).made := by
  unfold Registry.register
  split
  · exact Int.le_of_lt (Int.lt_succ r.made)
  · exact Int.le_refl r.made

theorem made_le_foldl (l : List RegisterArgs) : r.made ≤ (l.foldl Registry.register r).made := by
  induction l generalizing r with
  | nil => exact Int.le_refl _
  | cons args l ih => exact Int.le_trans made_le_register ih

theorem foldl_withSeen (l : List RegisterArgs) (es : List Registration) :
    l.foldl Registry.register (withSeen r es) = withSeen (l.foldl Registry.register r) es := by
  induction l generalizing r with
  | nil => rfl
  | cons args l ih => rw [List.foldl_cons, List.foldl_cons, register_withSeen, ih]

@[simp] theorem foldl_seen (l : List RegisterArgs) :
    (l.foldl Registry.register r).seen = r.seen := by
  induction l generalizing r with
  | nil => rfl
  | cons args l ih => rw [List.foldl_cons, ih, register_seen]

@[simp] theorem foldl_removed (l : List RegisterArgs) :
    (l.foldl Registry.register r).removed = r.removed := by
  induction l generalizing r with
  | nil => rfl
  | cons args l ih => rw [List.foldl_cons, ih, register_removed]

theorem registerAll_follows (l : List RegisterArgs) (h : Represents s r linked fresh)
    (hr : r.removed = false) :
    ((l.foldl Registry.register r).made ≤ int32Max → ∃ s' fresh', registerAll l s = .ok s' ∧
      Represents s' (l.foldl Registry.register r) linked fresh') ∧
    (¬ (l.foldl Registry.register r).made ≤ int32Max → ∃ f, registerAll l s = .error f) := by
  induction l generalizing s r fresh with
  | nil =>
      exact ⟨fun _ => ⟨s, fresh, rfl, h⟩, fun hm => absurd h.small hm⟩
  | cons args l ih =>
      rw [List.foldl_cons]
      by_cases hargs : args.allocated = true
      · by_cases hm : r.made < int32Max
        · obtain ⟨s', fresh', hreg, h'⟩ := register_follows h hargs hr hm
          obtain ⟨hok, herr⟩ := ih h' (by simpa using hr)
          simp only [registerAll, hreg, ok_bind]
          exact ⟨hok, herr⟩
        · obtain ⟨f, hf⟩ := register_unsafe h hargs (fun hs => hm hs.2)
          refine ⟨fun hle => ?_, fun _ => ⟨f, by simp [registerAll, hf, error_bind]⟩⟩
          have hmade : (r.register args).made = r.made + 1 := by simp [Registry.register, hargs]
          have hfold := made_le_foldl (r := r.register args) l
          omega
      · rw [register_refused hargs]
        simp only [registerAll, pclbRegister_refused hargs, ok_bind]
        exact ih h hr

theorem Represents.rewrite {ds as : List Nat} {des es : List Registration} {a : Nat}
    {e : Registration} {c d : PeriodicClb} (h : Represents s r (ds ++ a :: as) fresh)
    (hseen : r.seen = des ++ e :: es) (hlen : ds.length = des.length)
    (hc : fetch s.cells a = some c) (hid : d.id = e.id) (hnext : d.next = c.next)
    (hshadow : d.shadowNext = c.shadowNext) :
    Represents { s with cells := store s.cells a d } (withSeen r (des ++ d.toRegistration :: es))
      (ds ++ a :: as) fresh := by
  have hnodup := h.nodup
  rw [List.append_assoc, List.cons_append, List.nodup_middle, List.nodup_cons] at hnodup
  have hne : ∀ x ∈ ds ++ (as ++ fresh), x ≠ a := by
    rintro x hx rfl
    exact hnodup.1 hx
  have hcontent : ∀ x ∈ ds ++ (as ++ fresh),
      content (store s.cells a d) x = content s.cells x := by
    intro x hx
    unfold content
    rw [fetch_store_ne (hne x hx)]
  have hsplit := h.seen
  rw [hseen, List.map_append, List.map_append, List.map_cons, List.map_cons] at hsplit
  obtain ⟨hds, has⟩ := List.append_inj hsplit (by simpa using hlen)
  have hids : (withSeen r (des ++ d.toRegistration :: es)).registrations.map Registration.id =
      r.registrations.map Registration.id := by
    simp [Registry.registrations, withSeen, hseen, hid]
  have hlength : (withSeen r (des ++ d.toRegistration :: es)).registrations.length =
      r.registrations.length := by
    simp [Registry.registrations, withSeen, hseen]
  constructor
  · exact h.next.congr (fun x _ => map_fetch_store PeriodicClb.next hc d hnext x)
  · intro x hx
    rw [map_fetch_store PeriodicClb.next hc d hnext x]
    exact h.unlinked x hx
  · rw [List.map_append, List.map_cons, List.map_congr_left (fun x hx => hcontent x (by simp [hx])),
      hds, List.map_congr_left (fun x hx => hcontent x (by simp [hx])), (List.cons.inj has).2]
    simp [content, fetch_store_self hc]
  · rw [List.map_congr_left (fun x hx => hcontent x (by simp [hx]))]
    exact h.recent
  · exact h.nodup
  · intro hr
    exact (h.whole hr).congr (fun x _ => map_fetch_store PeriodicClb.shadowNext hc d hshadow x)
  · intro hr
    obtain ⟨l, b, hseg, hb, hlt⟩ := h.broken hr
    have hba : b ≠ a := by
      rintro rfl
      simp [hb] at hc
    exact ⟨l, b, hseg.congr (fun x _ => map_fetch_store PeriodicClb.shadowNext hc d hshadow x),
      by rw [fetch_store_ne hba, hb], by simpa using hlt⟩
  · exact h.made
  · rw [hlength]
    exact h.count
  · exact h.time
  · rw [hids]
    exact h.ids
  · intro x hx
    have hmem := List.mem_map_of_mem (f := Registration.id) hx
    rw [hids] at hmem
    obtain ⟨y, hy, heq⟩ := List.mem_map.mp hmem
    have hlt := h.below y hy
    rwa [heq] at hlt
  · rw [hlength]
    exact h.few
  · exact h.small

end

section

variable (dtime : SysTime) (within : Int → List RegisterArgs)

theorem calledWithin_cons (e : Registration) (es : List Registration) :
    Registry.calledWithin dtime within (e :: es) =
      (if Registry.due dtime e then within e.id else []) ++
        Registry.calledWithin dtime within es := by
  unfold Registry.calledWithin
  by_cases h : Registry.due dtime e = true
  · simp [h]
  · simp [h]

def visited (r : Registry) (e : Registration) (des es : List Registration) : Registry :=
  (if Registry.due dtime e then within e.id else []).foldl Registry.register
    (withSeen r (des ++ Registry.tick dtime e :: es))

def advance (e : Registration) : Registration := { e with cnt := e.cnt + dtime.toUInt64 }

variable {s : Statics} {r : Registry} {linked fresh ds as : List Nat} {a : Nat}
  {e : Registration} {des es : List Registration}

theorem Represents.fetchAt (h : Represents s r (ds ++ a :: as) fresh)
    (hseen : r.seen = des ++ e :: es) (hlen : ds.length = des.length) :
    ∃ c, fetch s.cells a = some c ∧ c.toRegistration = e := by
  have hsplit := h.seen
  rw [hseen, List.map_append, List.map_append, List.map_cons, List.map_cons] at hsplit
  have ha := (List.cons.inj (List.append_inj hsplit (by simpa using hlen)).2).1
  exact Option.map_eq_some_iff.mp ha

variable {dtime within}

theorem visited_due (hd : Registry.due dtime e = true) (l : List Registration) :
    visited dtime within r e des es = withSeen ((within e.id).foldl Registry.register (withSeen r l))
      (des ++ Registry.tick dtime e :: es) := by
  rw [visited, if_pos hd, foldl_withSeen, foldl_withSeen, withSeen_withSeen]

theorem visitOne_follows (h : Represents s r (ds ++ a :: as) fresh)
    (hseen : r.seen = des ++ e :: es) (hlen : ds.length = des.length) (hr : r.removed = false) :
    ((visited dtime within r e des es).made ≤ int32Max → ∃ s' fresh',
      visitOne dtime within a s = .ok (Registry.visit dtime e, s') ∧
        Represents s' (visited dtime within r e des es) (ds ++ a :: as) fresh') ∧
    (¬ (visited dtime within r e des es).made ≤ int32Max →
      ∃ f, visitOne dtime within a s = .error f) := by
  obtain ⟨c, hc, rfl⟩ := h.fetchAt hseen hlen
  have h1 : Represents _ (withSeen r (des ++ advance dtime c.toRegistration :: es)) _ _ :=
    h.rewrite (d := { c with cnt := c.cnt + dtime.toUInt64 }) hseen hlen hc rfl rfl rfl
  by_cases hdue : c.period < c.cnt + dtime.toUInt64
  · have hd : Registry.due dtime c.toRegistration = true := decide_eq_true hdue
    obtain ⟨hok, herr⟩ := registerAll_follows (within c.id) h1 hr
    rw [visited_due hd (des ++ advance dtime c.toRegistration :: es)]
    refine ⟨fun hm => ?_, fun hm => ?_⟩
    · obtain ⟨s2, fresh2, hreg, h2⟩ := hok hm
      have hseen2 := foldl_seen (r := withSeen r (des ++ advance dtime c.toRegistration :: es))
        (within c.id)
      obtain ⟨c2, hc2, he2⟩ := h2.fetchAt hseen2 hlen
      have hid : c2.id = (advance dtime c.toRegistration).id := congrArg Registration.id he2
      have h3 := h2.rewrite (d := { c2 with cnt := 0 }) hseen2 hlen hc2 hid rfl rfl
      have htick : ({ c2 with cnt := 0 } : PeriodicClb).toRegistration =
          Registry.tick dtime c.toRegistration := by
        simp [Registry.tick, hd, he2, advance]
      rw [htick] at h3
      refine ⟨_, fresh2, ?_, h3⟩
      simp [visitOne, deref_of_fetch hc, deref_of_fetch hc2, ok_bind, hdue, hreg, Registry.visit,
        Registry.due]
    · obtain ⟨f, hf⟩ := herr hm
      exact ⟨f, by simp [visitOne, deref_of_fetch hc, ok_bind, error_bind, hdue, hf]⟩
  · have hd : ¬ Registry.due dtime c.toRegistration = true := by simpa [Registry.due] using hdue
    have htick : Registry.tick dtime c.toRegistration = advance dtime c.toRegistration := by
      simp [Registry.tick, hd, advance]
    rw [visited, if_neg hd, htick]
    refine ⟨fun _ => ⟨_, fresh, ?_, h1⟩, fun hm => absurd h.small hm⟩
    simp [visitOne, deref_of_fetch hc, ok_bind, hdue, Registry.visit, Registry.due]

/-- What the visits of the registrations behind the first ones make of the registry. -/
def ran (dtime : SysTime) (within : Int → List RegisterArgs) (r : Registry)
    (des es : List Registration) : Registry :=
  (Registry.calledWithin dtime within es).foldl Registry.register
    (withSeen r (des ++ es.map (Registry.tick dtime)))

theorem ran_cons : ran dtime within r des (e :: es) =
    ran dtime within (visited dtime within r e des es) (des ++ [Registry.tick dtime e]) es := by
  have hseen : des ++ [Registry.tick dtime e] ++ es.map (Registry.tick dtime) =
      des ++ (e :: es).map (Registry.tick dtime) := by simp
  unfold ran visited
  rw [calledWithin_cons, List.foldl_append]
  simp only [foldl_withSeen, withSeen_withSeen, hseen]

theorem ran_nil (hseen : r.seen = des) : ran dtime within r des [] = r := by
  unfold ran
  rw [List.map_nil, List.append_nil, ← hseen]
  rfl

theorem made_le_ran : r.made ≤ (ran dtime within r des es).made :=
  made_le_foldl (r := withSeen r (des ++ es.map (Registry.tick dtime))) _

theorem visitFrom_follows {fuel : Nat} {p : Option Nat} (h : Represents s r (ds ++ as) fresh)
    (hseen : r.seen = des ++ es) (hlen : ds.length = des.length) (hr : r.removed = false)
    (hseg : Seg PeriodicClb.next s.cells p as none) (hfuel : as.length ≤ fuel) :
    ((ran dtime within r des es).made ≤ int32Max → ∃ s' fresh',
      visitFrom dtime within fuel p s = .ok (es.map (Registry.visit dtime), s') ∧
        Represents s' (ran dtime within r des es) (ds ++ as) fresh') ∧
    (¬ (ran dtime within r des es).made ≤ int32Max →
      ∃ f, visitFrom dtime within fuel p s = .error f) := by
  have hlengths : as.length = es.length := by
    have hl := congrArg List.length h.seen
    rw [hseen] at hl
    simp at hl
    omega
  induction as generalizing s r ds des es fresh p fuel with
  | nil =>
      cases hseg
      obtain rfl := List.length_eq_zero_iff.mp hlengths.symm
      rw [ran_nil (by simpa using hseen)]
      refine ⟨fun _ => ⟨s, fresh, ?_, h⟩, fun hm => absurd h.small hm⟩
      cases fuel <;> rfl
  | cons a as ih =>
      obtain ⟨rfl, -⟩ := seg_cons.mp hseg
      cases es with
      | nil => simp at hlengths
      | cons e es =>
      cases fuel with
      | zero => simp at hfuel
      | succ fuel =>
      obtain ⟨hok, herr⟩ := @visitOne_follows dtime within _ _ _ _ _ _ _ _ _ h hseen hlen hr
      rw [ran_cons]
      by_cases hm : (visited dtime within r e des es).made ≤ int32Max
      · obtain ⟨s1, fresh1, hvisit, h1⟩ := hok hm
        obtain ⟨-, d, hd, hrest⟩ := h1.next.split
        have h1' : Represents s1 (visited dtime within r e des es) (ds ++ [a] ++ as) fresh1 := by
          simpa using h1
        obtain ⟨hok1, herr1⟩ := @ih s1 _ fresh1 _ (des ++ [Registry.tick dtime e]) es fuel _ h1'
          (by simp [visited]) (by simp [hlen]) (by simpa [visited] using hr) hrest
          (by simpa using hfuel) (by simpa using hlengths)
        refine ⟨fun hle => ?_, fun hle => ?_⟩
        · obtain ⟨s2, fresh2, hvisits, h2⟩ := hok1 hle
          refine ⟨s2, fresh2, ?_, by simpa using h2⟩
          simp [visitFrom, hvisit, deref_of_fetch hd, ok_bind, hvisits]
        · obtain ⟨f, hf⟩ := herr1 hle
          exact ⟨f, by simp [visitFrom, hvisit, deref_of_fetch hd, ok_bind, error_bind, hf]⟩
      · obtain ⟨f, hf⟩ := herr hm
        refine ⟨fun hle => absurd (Int.le_trans made_le_ran hle) hm, fun _ => ⟨f, ?_⟩⟩
        simp [visitFrom, hf, error_bind]

end

section

variable {s : Statics} {r : Registry} {linked fresh : List Nat} {ms now later : SysTime}
  {within : Int → List RegisterArgs}

theorem Represents.next_none (h : Represents s r linked fresh) {init : List Nat} {b : Nat}
    (hb : linked ++ fresh = init ++ [b]) : (fetch s.cells b).map PeriodicClb.next = some none := by
  rcases List.eq_nil_or_concat' fresh with rfl | ⟨f, c, rfl⟩
  · rw [List.append_nil] at hb
    subst hb
    obtain ⟨-, c, hc, hend⟩ := h.next.split
    rw [hc, Option.map_some]
    generalize c.next = p at hend
    cases hend
    rfl
  · rw [← List.append_assoc] at hb
    obtain ⟨-, hcb⟩ := List.append_inj' hb rfl
    obtain rfl := List.singleton_inj.mp hcb
    exact h.unlinked c (by simp)

theorem Represents.relinked (h : Represents s r linked fresh) (hr : r.removed = false) {first : Nat}
    (hfirst : s.shadowPeriodicClbHead = some first) (last : SysTime) :
    ∃ m, relink s.cells.length first s.cells = .ok m ∧ m.length = s.cells.length ∧
      Represents { s with cells := m, periodicClbHead := some first, lastSystemTime := last }
        { r with seen := r.registrations, fresh := [], lastSystemTime := last }
        (linked ++ fresh) [] := by
  have hwhole := h.whole hr
  rw [hfirst] at hwhole
  obtain ⟨m, hm, hlen, hnext, -, hshadow, hcontent⟩ :=
    relink_links hwhole h.nodup (hwhole.length_le h.nodup) (fun init b hb => h.next_none hb)
  have hregs : ({ r with seen := r.registrations, fresh := [], lastSystemTime := last } :
      Registry).registrations = r.registrations := by
    simp [Registry.registrations]
  refine ⟨m, hm, hlen, ?_⟩
  constructor
  · exact hwhole.relabel hnext
  · simp
  · rw [List.map_congr_left (fun x _ => hcontent x), List.map_append, h.seen, h.recent,
      ← List.map_append]
    rfl
  · rfl
  · rw [List.append_nil]
    exact h.nodup
  · intro _
    rw [List.append_nil]
    exact (h.whole hr).congr (fun x _ => hshadow x)
  · intro hbad
    exact absurd (hr.symm.trans hbad) (by decide)
  · exact h.made
  · rw [hregs]
    exact h.count
  · rfl
  · rw [hregs]
    exact h.ids
  · rw [hregs]
    exact h.below
  · rw [hregs]
    exact h.few
  · exact h.small

theorem Represents.head (h : Represents s r linked fresh) (hr : r.removed = false) :
    s.shadowPeriodicClbHead = none ↔ r.registrations = [] := by
  have hmap : (linked ++ fresh).map (content s.cells) = r.registrations.map some := by
    rw [List.map_append, h.seen, h.recent, ← List.map_append]
    rfl
  have hwhole := h.whole hr
  constructor
  · intro hnone
    rw [hnone] at hwhole
    rw [(seg_none hwhole).1] at hmap
    simpa using hmap.symm
  · intro hnil
    rw [hnil] at hmap
    rw [List.map_eq_nil_iff.mp hmap] at hwhole
    generalize s.shadowPeriodicClbHead = p at hwhole
    cases hwhole
    rfl

theorem pclbTask_none (hhead : s.shadowPeriodicClbHead = none) (hnext : s.periodicClbHead = none) :
    pclbTask ms now later within s = .ok ([], s) := by
  obtain ⟨cells, head, shadow, cnt, num, last⟩ := s
  obtain rfl : shadow = none := hhead
  obtain rfl : head = none := hnext
  rfl

theorem pclbTask_some {first : Nat} {m : Memory PeriodicClb}
    (hhead : s.shadowPeriodicClbHead = some first)
    (hm : relink s.cells.length first s.cells = .ok m) :
    pclbTask ms now later within s =
      visitFrom (elapsed ms now later s.lastSystemTime).1 within m.length (some first)
        { s with cells := m, periodicClbHead := some first,
                 lastSystemTime := (elapsed ms now later s.lastSystemTime).2 } := by
  obtain ⟨cells, head, shadow, cnt, num, last⟩ := s
  obtain rfl : shadow = some first := hhead
  simp only [pclbTask, hm, ok_bind]

theorem task_follows (h : Represents s r linked fresh) (hr : r.removed = false) :
    ((r.task ms now later within).made ≤ int32Max → ∃ s' linked' fresh',
      pclbTask ms now later within s = .ok
        (r.registrations.map (Registry.visit (elapsed ms now later r.lastSystemTime).1), s') ∧
        Represents s' (r.task ms now later within) linked' fresh') ∧
    (¬ (r.task ms now later within).made ≤ int32Max →
      ∃ f, pclbTask ms now later within s = .error f) := by
  cases hhead : s.shadowPeriodicClbHead with
  | none =>
      have hnil := (h.head hr).mp hhead
      have htask : r.task ms now later within = r := by simp [Registry.task, hnil]
      have hlinked : linked = [] ∧ fresh = [] := by
        have hwhole := h.whole hr
        rw [hhead] at hwhole
        simpa using (seg_none hwhole).1
      rw [htask]
      refine ⟨fun _ => ⟨s, linked, fresh, ?_, h⟩, fun hm => absurd h.small hm⟩
      have hnext : s.periodicClbHead = none := by
        have hseg := h.next
        rw [hlinked.1] at hseg
        generalize s.periodicClbHead = p at hseg
        cases hseg
        rfl
      rw [hnil]
      exact pclbTask_none hhead hnext
  | some first =>
      have hne : r.registrations ≠ [] := by
        intro hnil
        rw [(h.head hr).mpr hnil] at hhead
        cases hhead
      obtain ⟨m, hm, hlen, h1⟩ :=
        h.relinked hr hhead (elapsed ms now later r.lastSystemTime).2
      obtain ⟨hok, herr⟩ := @visitFrom_follows (elapsed ms now later r.lastSystemTime).1 within
        _ _ _ [] _ [] _ m.length _ h1 rfl rfl hr h1.next
        (h1.next.length_le h1.nodup.of_append_left)
      have htask : r.task ms now later within =
          ran (elapsed ms now later r.lastSystemTime).1 within
            { r with seen := r.registrations, fresh := [],
                     lastSystemTime := (elapsed ms now later r.lastSystemTime).2 } []
            r.registrations := by
        simp only [Registry.task, if_neg hne]
        rfl
      rw [htask, pclbTask_some hhead hm, h.time]
      refine ⟨fun hle => ?_, fun hle => herr hle⟩
      obtain ⟨s', fresh', hvisits, h'⟩ := hok hle
      exact ⟨s', _, fresh', hvisits, h'⟩

theorem task_removed (h : Represents s r linked fresh) (hr : r.removed = true) :
    ∃ f, pclbTask ms now later within s = .error f := by
  obtain ⟨l, a, hseg, ha, -⟩ := h.broken hr
  obtain ⟨first, hfirst⟩ : ∃ first, s.shadowPeriodicClbHead = some first := by
    generalize s.shadowPeriodicClbHead = p at hseg
    cases hseg with
    | nil => exact ⟨a, rfl⟩
    | cons _ _ => exact ⟨_, rfl⟩
  rw [hfirst] at hseg
  obtain ⟨f, hf⟩ := relink_freed s.cells.length hseg ha
  exact ⟨f, by simp only [pclbTask, hfirst, hf, error_bind]⟩

end

section

variable {s : Statics} {r : Registry} {linked fresh : List Nat}

theorem answer_follows (h : Represents s r linked fresh) (call : Call) (hs : r.Safe call) :
    ∃ s' linked' fresh', answer call s = .ok (r.reply call, s') ∧
      Represents s' (r.after call) linked' fresh' := by
  cases call with
  | register args =>
      by_cases hargs : args.allocated = true
      · obtain ⟨hr, hm⟩ := hs hargs
        obtain ⟨s', fresh', hreg, h'⟩ := register_follows h hargs (by simpa using hr) hm
        exact ⟨s', linked, fresh', by simp [answer, hreg, ok_bind, Registry.reply, hargs], h'⟩
      · refine ⟨s, linked, fresh, ?_, ?_⟩
        · simp [answer, pclbRegister_refused hargs, ok_bind, Registry.reply, hargs]
        · rw [Registry.after, register_refused hargs]
          exact h
  | unregister id =>
      have hiff : id ∈ r.registrations.map Registration.id ↔ id ∈ r.seen.map Registration.id := by
        unfold Registry.registrations
        rw [List.map_append, List.mem_append]
        exact or_iff_left hs
      by_cases hid : id ∈ r.seen.map Registration.id
      · obtain ⟨s', linked', hun, h'⟩ := unregister_follows h hid
        refine ⟨s', linked', fresh, ?_, h'⟩
        rw [answer, Registry.reply, if_pos (hiff.mpr hid), hun, ok_bind]
      · refine ⟨s, linked, fresh, ?_, ?_⟩
        · rw [answer, Registry.reply, if_neg (fun hm => hid (hiff.mp hm)),
            pclbUnregister_absent h hid, ok_bind]
        · rw [Registry.after, Registry.unregister, if_neg (fun hm => hid (hiff.mp hm))]
          exact h
  | getClbNum =>
      refine ⟨s, linked, fresh, ?_, h⟩
      rw [answer, pclbGetClbNum, h.count]
      rfl
  | task ms now later within =>
      obtain ⟨s', linked', fresh', htask, h'⟩ :=
        (task_follows h (by simpa using hs.1)).1 hs.2
      exact ⟨s', linked', fresh', by rw [answer, htask, ok_bind]; rfl, h'⟩

theorem answer_unsafe (h : Represents s r linked fresh) (call : Call) (hs : ¬ r.Safe call)
    (s' : Statics) : answer call s ≠ .ok (r.reply call, s') := by
  intro heq
  cases call with
  | register args =>
      unfold Registry.Safe at hs
      push Not at hs
      obtain ⟨hargs, hs⟩ := hs
      obtain ⟨f, hf⟩ := register_unsafe h hargs (fun hok => by
        have hle := hs (by simp [hok.1])
        omega)
      rw [answer, hf, error_bind] at heq
      cases heq
  | unregister id =>
      have hfresh : id ∈ r.fresh.map Registration.id := not_not.mp hs
      have hseen : id ∉ r.seen.map Registration.id := by
        have hn := h.ids
        unfold Registry.registrations at hn
        rw [List.map_append, List.nodup_append] at hn
        exact fun hm => hn.2.2 id hm id hfresh rfl
      have hmem : id ∈ r.registrations.map Registration.id := by
        simp only [Registry.registrations, List.map_append]
        exact List.mem_append_right _ hfresh
      rw [answer, pclbUnregister_absent h hseen, ok_bind, Registry.reply, if_pos hmem] at heq
      have hstatus := Reply.unregistered.inj (congrArg Prod.fst (Except.ok.inj heq))
      exact absurd hstatus (by decide)
  | getClbNum => exact hs trivial
  | task ms now later within =>
      by_cases hr : r.removed = true
      · obtain ⟨f, hf⟩ := @task_removed _ _ _ _ ms now later within h hr
        rw [answer, hf, error_bind] at heq
        cases heq
      · have hr' : r.removed = false := by simpa using hr
        obtain ⟨f, hf⟩ := (task_follows h hr').2 (fun hm => hs ⟨hr, hm⟩)
        rw [answer, hf, error_bind] at heq
        cases heq

theorem answers_iff (h : Represents s r linked fresh) (calls : List Call) :
    answers calls s = .ok (r.replies calls) ↔ Guarded Registry.after Registry.Safe r calls := by
  induction calls generalizing s r linked fresh with
  | nil => exact ⟨fun _ => trivial, fun _ => rfl⟩
  | cons call calls ih =>
      constructor
      · intro heq
        have hsafe : r.Safe call := by
          by_contra hs
          cases ha : answer call s with
          | error f =>
              rw [answers, ha, error_bind] at heq
              cases heq
          | ok x =>
              obtain ⟨reply, s'⟩ := x
              rw [answers, ha, ok_bind] at heq
              cases hrest : answers calls s' with
              | error f =>
                  simp only [hrest, error_bind] at heq
                  cases heq
              | ok replies =>
                  simp only [hrest, ok_bind] at heq
                  have hreply := (List.cons.inj (Except.ok.inj heq)).1
                  exact answer_unsafe h call hs s' (ha.trans (by rw [hreply]))
        obtain ⟨s', linked', fresh', ha, h'⟩ := answer_follows h call hsafe
        refine ⟨hsafe, (ih h').mp ?_⟩
        rw [answers, ha, ok_bind] at heq
        cases hrest : answers calls s' with
        | error f =>
            simp only [hrest, error_bind] at heq
            cases heq
        | ok replies =>
            simp only [hrest, ok_bind] at heq
            rw [(List.cons.inj (Except.ok.inj heq)).2]
      · rintro ⟨hsafe, hrest⟩
        obtain ⟨s', linked', fresh', ha, h'⟩ := answer_follows h call hsafe
        have hreplies := (ih h').mpr hrest
        simp only [answers, ha, ok_bind, hreplies, Registry.replies]

/-- The calls of a sequence are answered as they should be if and only if each of them is
safe for the registrations at that moment. -/
theorem correct_iff_safe (calls : List Call) :
    Correct calls ↔ Guarded Registry.after Registry.Safe Registry.empty calls :=
  answers_iff represents_zero calls

end

/-- A registration that no run has started with is not found, and one that is removed
leaves a freed record in the list of the next run. -/
theorem unregister_breaks :
    ¬ Correct [.register ⟨10, 1, 0, true⟩, .unregister 0] ∧
      ¬ Correct [.register ⟨10, 1, 0, true⟩, .task 10 0 0 (fun _ => []), .unregister 0,
        .task 10 0 0 (fun _ => [])] := by
  unfold Correct
  constructor <;> decide

end ErSdk.PclbRegistry
