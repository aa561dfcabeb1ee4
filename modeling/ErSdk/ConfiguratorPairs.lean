import ErSdk.ConfiguratorServer

namespace ErSdk.ConfiguratorPairs

open ConfiguratorServer ConfiguratorFields Strings Pmatch Error

variable {P A W : Type}

abbrev Pair := List UInt8 × List UInt8

def applyPairs (l : List Pair) (s : Settings) : Settings :=
  l.foldl (fun s p => processHeaderField p.1 p.2 s) s

/-- The pair that is passed on when the collected field and value are complete. -/
def clientPair (client : ClientSocket P) : List Pair :=
  match client.headerField, client.headerValue with
  | some field, some value => [(cString field.buffer, cString value.buffer)]
  | _, _ => []

/-- The pairs that one callback passes to process_header_field. -/
def eventPairs (env : Env P W) (c : Ctx P W) : Event → List Pair
  | .url text =>
      if c.client.status = .httpError then []
      else match (stringNewConst env text c.world).1 with
        | some str => [(bytes "URL", cString str.buffer)]
        | none => []
  | .headerField _ =>
      if c.client.status = .httpError then []
      else if c.client.headerValue.isSome then clientPair c.client else []
  | .headersComplete =>
      if c.client.status = .httpError then []
      else if c.client.headerField.isSome ∨ c.client.headerValue.isSome then clientPair c.client
      else []
  | _ => []

def eventsPairs (env : Env P W) : Ctx P W → List Event → List Pair
  | _, [] => []
  | c, e :: l => eventPairs env c e ++ eventsPairs env (onEvent env c e) l

theorem applyPairs_append (l l' : List Pair) (s : Settings) :
    applyPairs (l ++ l') s = applyPairs l' (applyPairs l s) := List.foldl_append

section

variable (env : Env P W) (c : Ctx P W)

theorem processPair_settings :
    (processPair c).settings = applyPairs (clientPair c.client) c.settings := by
  cases hf : c.client.headerField with
  | none => simp [processPair, clientPair, applyPairs, hf]
  | some field =>
      cases hv : c.client.headerValue with
      | none => simp [processPair, clientPair, applyPairs, hf, hv]
      | some value => simp [processPair, clientPair, applyPairs, hf, hv]

theorem onEvent_settings (e : Event) :
    (onEvent env c e).settings = applyPairs (eventPairs env c e) c.settings := by
  cases e with
  | messageBegin => rfl
  | url text =>
      show (onUrl env text c).settings = _
      unfold onUrl eventPairs
      split
      · rfl
      · dsimp only [Ctx.call]
        cases (ConfiguratorServer.stringNewConst env text c.world).1 with
        | some str => rfl
        | none => rfl
  | headerField text =>
      show (onHeaderField env text c).settings = _
      unfold onHeaderField eventPairs
      split
      · rfl
      · dsimp only [Ctx.call, Ctx.mapClient]
        split
        · exact processPair_settings c
        · rfl
  | headerValue text =>
      show (onHeaderValue env text c).settings = _
      unfold onHeaderValue
      split
      · rfl
      · rfl
  | headersComplete =>
      show (onHeadersComplete c).settings = _
      unfold onHeadersComplete eventPairs
      split
      · rfl
      · split
        · exact processPair_settings c
        · rfl
  | body text => rfl
  | messageComplete => rfl

theorem events_settings (l : List Event) :
    (l.foldl (onEvent env) c).settings = applyPairs (eventsPairs env c l) c.settings := by
  induction l generalizing c with
  | nil => rfl
  | cons e l ih =>
      rw [List.foldl_cons, ih, onEvent_settings]
      exact (applyPairs_append _ _ _).symm

end

/-- The texts of a field and its value as far as they are collected. -/
abbrev Collected := Option (List UInt8) × Option (List UInt8)

def pairOf : Collected → List Pair
  | (some field, some value) => [(cString field, cString value)]
  | _ => []

/-- What a callback collects and passes on where no allocation fails. -/
def collect (b : Collected) : Event → Collected × List Pair
  | .messageBegin => ((none, none), [])
  | .url text => (b, [(bytes "URL", cString text)])
  | .headerField text =>
      if b.2.isSome then ((some text, none), pairOf b) else ((some (b.1.getD [] ++ text), none), [])
  | .headerValue text => ((b.1, some (b.2.getD [] ++ text)), [])
  | .headersComplete => ((none, none), pairOf b)
  | .body _ => (b, [])
  | .messageComplete => (b, [])

def collectAll (b : Collected) : List Event → Collected × List Pair
  | [] => (b, [])
  | e :: l => ((collectAll (collect b e).1 l).1, (collect b e).2 ++ (collectAll (collect b e).1 l).2)

theorem collectAll_append (b : Collected) (l l' : List Event) :
    collectAll b (l ++ l') =
      ((collectAll (collectAll b l).1 l').1, (collectAll b l).2 ++ (collectAll (collectAll b l).1 l').2) := by
  induction l generalizing b with
  | nil => rfl
  | cons e l ih =>
      rw [List.cons_append]
      simp only [collectAll, ih, List.append_assoc]

/-- An event whose text is reported in two pieces. -/
inductive Cut : Event → Event → Event → Prop
  | url (x y : List UInt8) : Cut (.url (x ++ y)) (.url x) (.url y)
  | headerField (x y : List UInt8) : Cut (.headerField (x ++ y)) (.headerField x) (.headerField y)
  | headerValue (x y : List UInt8) : Cut (.headerValue (x ++ y)) (.headerValue x) (.headerValue y)
  | body (x y : List UInt8) : Cut (.body (x ++ y)) (.body x) (.body y)

/-- The events of a text that is parsed in parts: where two parts meet an event may be cut,
and the last part has an event. -/
inductive Splits : List Event → List (List Event) → Prop
  | last {l : List Event} : l ≠ [] → Splits l [l]
  | between (l : List Event) {rest : List Event} {parts : List (List Event)} :
      Splits rest parts → Splits (l ++ rest) (l :: parts)
  | within (l : List Event) {e x y : Event} {rest : List Event} {parts : List (List Event)} :
      Cut e x y → Splits (y :: rest) parts → Splits (l ++ e :: rest) ((l ++ [x]) :: parts)

def isUrl : Event → Bool
  | .url _ => true
  | _ => false

def urls (l : List Event) : Nat := l.countP isUrl

theorem cut_state {e x y : Event} (h : Cut e x y) (b : Collected) :
    (collect (collect b x).1 y).1 = (collect b e).1 := by
  cases h with
  | url x y => rfl
  | headerField x y =>
      unfold collect
      dsimp only
      split
      · rfl
      · simp
  | headerValue x y => simp [collect]
  | body x y => rfl

theorem cut_pairs {e x y : Event} (h : Cut e x y) (he : isUrl e = false) (b : Collected) :
    (collect b x).2 ++ (collect (collect b x).1 y).2 = (collect b e).2 := by
  cases h with
  | url x y => cases he
  | headerField x y =>
      unfold collect
      dsimp only
      split
      · exact List.append_nil _
      · rfl
  | headerValue x y => rfl
  | body x y => rfl

theorem cut_url {e x y : Event} (h : Cut e x y) : isUrl x = isUrl e ∧ isUrl y = isUrl e := by
  cases h with
  | url x y => exact ⟨rfl, rfl⟩
  | headerField x y => exact ⟨rfl, rfl⟩
  | headerValue x y => exact ⟨rfl, rfl⟩
  | body x y => exact ⟨rfl, rfl⟩

theorem url_pairs {e : Event} (h : isUrl e = true) (b : Collected) : (collect b e).2.length = 1 := by
  cases e with
  | url text => rfl
  | messageBegin => cases h
  | headerField text => cases h
  | headerValue text => cases h
  | headersComplete => cases h
  | body text => cases h
  | messageComplete => cases h

theorem splits_urls {l : List Event} {parts : List (List Event)} (h : Splits l parts) :
    urls l ≤ urls parts.flatten := by
  induction h with
  | last hl => simp [urls]
  | between l h ih =>
      simp only [urls, List.flatten_cons, List.countP_append] at ih ⊢
      omega
  | within l hcut h ih =>
      obtain ⟨hx, hy⟩ := cut_url hcut
      simp only [urls, List.flatten_cons, List.countP_append, List.countP_cons, List.countP_nil, hx, hy]
        at ih ⊢
      omega

theorem splits_collect {l : List Event} {parts : List (List Event)} (h : Splits l parts)
    (b : Collected) :
    (collectAll b parts.flatten).1 = (collectAll b l).1 ∧
      (collectAll b parts.flatten).2.length + urls l =
        (collectAll b l).2.length + urls parts.flatten := by
  induction h generalizing b with
  | last hl => simp
  | between l h ih =>
      obtain ⟨hstate, hlength⟩ := ih (collectAll b l).1
      simp only [List.flatten_cons, collectAll_append, urls, List.countP_append, List.length_append]
        at hstate hlength ⊢
      exact ⟨hstate, by omega⟩
  | within l hcut h ih =>
      rename_i e x y rest parts
      generalize hd : (collectAll b l).1 = d
      obtain ⟨hstate, hlength⟩ := ih (collect d x).1
      obtain ⟨hx, hy⟩ := cut_url hcut
      have hcount : (collect d x).2.length + (collect (collect d x).1 y).2.length + (if isUrl e then 1 else 0) =
          (collect d e).2.length + (if isUrl x then 1 else 0) + (if isUrl y then 1 else 0) := by
        cases he : isUrl e with
        | false =>
            rw [← cut_pairs hcut he d, List.length_append, hx, hy, he]
            rfl
        | true =>
            rw [hx, hy, url_pairs he, url_pairs (hx.trans he), url_pairs (hy.trans he)]
            simp [he]
      simp only [List.flatten_cons, collectAll_append, collectAll, urls, List.countP_append,
        List.countP_cons, List.countP_nil, List.length_append, List.append_nil, cut_state hcut, hd] at hstate hlength ⊢
      exact ⟨hstate, by omega⟩

theorem splits_pairs {l : List Event} {parts : List (List Event)} (h : Splits l parts)
    (hurls : urls parts.flatten = urls l) (b : Collected) :
    collectAll b parts.flatten = collectAll b l := by
  induction h generalizing b with
  | last hl => simp
  | between l h ih =>
      have hle := splits_urls h
      rw [List.flatten_cons, collectAll_append, collectAll_append, ih]
      simp only [urls, List.flatten_cons, List.countP_append] at hurls hle ⊢
      omega
  | within l hcut h ih =>
      rename_i e x y rest parts
      have hle := splits_urls h
      obtain ⟨hx, hy⟩ := cut_url hcut
      simp only [urls, List.flatten_cons, List.countP_append, List.countP_cons, List.countP_nil, hx, hy]
        at hurls hle
      have he : isUrl e = false := by
        by_contra hne
        simp only [Bool.not_eq_false] at hne
        simp only [hne, if_true] at hurls hle
        omega
      have hrest : urls parts.flatten = urls (y :: rest) := by
        simp only [urls, List.countP_cons, hy, he] at hurls ⊢
        simpa using hurls
      rw [List.flatten_cons, collectAll_append, collectAll_append, collectAll_append, ih hrest]
      simp only [collectAll, cut_state hcut, List.append_nil, ← cut_pairs hcut he, List.append_assoc]

end ErSdk.ConfiguratorPairs
