import ErSdk.ConfiguratorUrl
import ErSdk.ConfiguratorChunks
import ErSdk.HttpParser

namespace ErSdk.ConfiguratorForm

open Pmatch ConfiguratorFields ConfiguratorServer ConfiguratorPairs ConfiguratorChunks ConfiguratorUrl

/-- A byte that application/x-www-form-urlencoded leaves as it is. -/
def isFormSafe (c : UInt8) : Bool := isAlnum c || c = 42 || c = 45 || c = 46 || c = 95

def hexDigit (n : UInt8) : UInt8 := if n < 10 then 48 + n else 55 + n

def encodeByte (c : UInt8) : List UInt8 :=
  if c = 32 then [43] else if isFormSafe c then [c] else [lEsc, hexDigit (c / 16), hexDigit (c % 16)]

/-- application/x-www-form-urlencoded of a value. -/
def formEncode (l : List UInt8) : List UInt8 := l.flatMap encodeByte

def optionText : Security → List UInt8
  | .unsecured => bytes "open"
  | .wpa2 => bytes "wpa2"

/-- The URL that a browser asks for when the form of the main page is submitted. -/
def formUrl (security : Security) (ssid passphrase : List UInt8) : List UInt8 :=
  bytes "/network_settings" ++ (bytes "?security=" ++ optionText security ++
    (bytes "&ssid=" ++ (formEncode ssid ++ (bytes "&passphrase=" ++ formEncode passphrase))))

theorem hexDigit_plain {n : UInt8} (h : n < 16) :
    (hexDigit n ≠ 0 ∧ hexDigit n ≠ 63 ∧ hexDigit n ≠ ampersand) ∧ hexDigit n ≠ lEsc := by
  have hn : n.toNat < 16 := UInt8.lt_iff_toNat_lt.mp h
  have hrange : 48 ≤ (hexDigit n).toNat ∧ (hexDigit n).toNat ≠ 63 := by
    unfold hexDigit
    split
    · rename_i hten
      have hten : n.toNat < 10 := UInt8.lt_iff_toNat_lt.mp hten
      rw [UInt8.toNat_add, show (48 : UInt8).toNat = 48 from rfl]
      omega
    · rename_i hten
      have hten : ¬ n.toNat < 10 := fun hlt => hten (UInt8.lt_iff_toNat_lt.mpr hlt)
      rw [UInt8.toNat_add, show (55 : UInt8).toNat = 55 from rfl]
      omega
  have hne (k : UInt8) (hk : k.toNat < 48 ∨ k.toNat = 63) : hexDigit n ≠ k := by
    rintro rfl
    omega
  exact ⟨⟨hne 0 (by decide), hne 63 (by decide), hne ampersand (by decide)⟩, hne lEsc (by decide)⟩

theorem safe_plain {c : UInt8} (h : isFormSafe c = true) :
    c ≠ 0 ∧ c ≠ 32 ∧ c ≠ lEsc ∧ c ≠ 63 ∧ c ≠ ampersand := by
  refine ⟨?_, ?_, ?_, ?_, ?_⟩
  · rintro rfl
    exact absurd h (by decide)
  · rintro rfl
    exact absurd h (by decide)
  · rintro rfl
    exact absurd h (by decide)
  · rintro rfl
    exact absurd h (by decide)
  · rintro rfl
    exact absurd h (by decide)

section

variable (c : UInt8)

theorem encodeByte_blank : encodeByte 32 = [43] := rfl

theorem encodeByte_safe (h : isFormSafe c = true) : encodeByte c = [c] := by
  unfold encodeByte
  rw [if_neg (safe_plain h).2.1, if_pos h]

theorem encodeByte_escaped (h : isFormSafe c = false) (hblank : c ≠ 32) :
    encodeByte c = [lEsc, hexDigit (c / 16), hexDigit (c % 16)] := by
  unfold encodeByte
  rw [if_neg hblank, if_neg (by simp [h])]

theorem encodeByte_escape (h : isFormSafe c = false) (hblank : c ≠ 32) : lEsc ∈ encodeByte c := by
  rw [encodeByte_escaped c h hblank]
  exact List.mem_cons_self

theorem highDigit_lt : c / 16 < 16 := by
  rw [UInt8.lt_iff_toNat_lt, UInt8.toNat_div]
  have hc := c.toNat_lt
  simp only [UInt8.reduceToNat]
  omega

theorem encodeByte_plain : ∀ b ∈ encodeByte c, b ≠ 0 ∧ b ≠ 63 ∧ b ≠ ampersand := by
  intro b hb
  by_cases hblank : c = 32
  · rw [hblank, encodeByte_blank, List.mem_singleton] at hb
    rw [hb]
    decide
  · cases hsafe : isFormSafe c with
    | true =>
        rw [encodeByte_safe c hsafe, List.mem_singleton] at hb
        obtain ⟨hzero, -, -, hmark, hamp⟩ := safe_plain hsafe
        rw [hb]
        exact ⟨hzero, hmark, hamp⟩
    | false =>
        have hhigh := highDigit_lt c
        have hlow : c % 16 < 16 := by
          rw [UInt8.lt_iff_toNat_lt, UInt8.toNat_mod]
          simp only [UInt8.reduceToNat]
          omega
        rw [encodeByte_escaped c hsafe hblank] at hb
        rcases List.mem_cons.mp hb with rfl | hb
        · decide
        · rcases List.mem_cons.mp hb with rfl | hb
          · exact (hexDigit_plain hhigh).1
          · rw [List.mem_singleton.mp hb]
            exact (hexDigit_plain hlow).1

theorem encodeByte_single : lEsc ∈ encodeByte c ∨ encodeByte c = [if c = 32 then 43 else c] := by
  by_cases hblank : c = 32
  · rw [hblank]
    exact .inr rfl
  · rw [if_neg hblank]
    cases hsafe : isFormSafe c with
    | true => exact .inr (encodeByte_safe c hsafe)
    | false => exact .inl (encodeByte_escape c hsafe hblank)

theorem encodeByte_length : (encodeByte c).length ≤ 3 := by
  unfold encodeByte
  split
  · decide
  · split
    · simp
    · simp

end

section

variable (l : List UInt8)

theorem formEncode_plain : ∀ b ∈ formEncode l, b ≠ 0 ∧ b ≠ 63 ∧ b ≠ ampersand := by
  intro b hb
  obtain ⟨c, -, hc⟩ := List.mem_flatMap.mp hb
  exact encodeByte_plain c b hc

theorem formEncode_length : (formEncode l).length ≤ 3 * l.length := by
  induction l with
  | nil => exact Nat.le_refl 0
  | cons c l ih =>
      have hc := encodeByte_length c
      unfold formEncode at ih ⊢
      rw [List.flatMap_cons, List.length_append, List.length_cons]
      omega

theorem formEncode_map (h : lEsc ∉ formEncode l) :
    formEncode l = l.map (fun c => if c = 32 then 43 else c) := by
  induction l with
  | nil => rfl
  | cons c l ih =>
      unfold formEncode at h ih ⊢
      rw [List.flatMap_cons, List.mem_append, not_or] at h
      rw [List.flatMap_cons, ih h.2, (encodeByte_single c).resolve_left h.1]
      rfl

theorem formEncode_safe (h : ∀ c ∈ l, isFormSafe c = true) :
    formEncode l = l ∧ lEsc ∉ formEncode l := by
  induction l with
  | nil => exact ⟨rfl, nofun⟩
  | cons c l ih =>
      obtain ⟨hl, hesc⟩ := ih (fun d hd => h d (List.mem_cons_of_mem c hd))
      have hc := encodeByte_safe c (h c List.mem_cons_self)
      obtain ⟨-, -, hne, -⟩ := safe_plain (h c List.mem_cons_self)
      unfold formEncode at hl hesc ⊢
      rw [List.flatMap_cons, hl, hc]
      rw [hl] at hesc
      refine ⟨rfl, ?_⟩
      rw [List.singleton_append, List.mem_cons, not_or]
      exact ⟨Ne.symm hne, hesc⟩

theorem safe_of_formEncode (h : formEncode l = l) (hesc : lEsc ∉ formEncode l) :
    ∀ c ∈ l, isFormSafe c = true := by
  intro c hc
  by_contra hne
  rw [Bool.not_eq_true] at hne
  have hmap := (formEncode_map l hesc).symm.trans h
  have hblank : c = 32 := by
    by_contra hb
    exact hesc (List.mem_flatMap.mpr ⟨c, hc, encodeByte_escape c hne hb⟩)
  obtain ⟨i, hi, hget⟩ := List.mem_iff_getElem.mp hc
  have hsame := congrArg (fun x : List UInt8 => x[i]?) hmap
  simp only [List.getElem?_map, List.getElem?_eq_getElem hi, hget, hblank, Option.map_some, if_true] at hsame
  exact absurd (Option.some.inj hsame) (by decide)

end

section

variable {name x l rest : List UInt8}

theorem behindLast_skip (h : ∀ b ∈ x, b ≠ 63 ∧ b ≠ ampersand) (hl : behindLast name l = none) :
    behindLast name (x ++ l) = none := by
  induction x with
  | nil => exact hl
  | cons c x ih =>
      obtain ⟨h63, hamp⟩ := h c List.mem_cons_self
      rw [List.cons_append]
      unfold behindLast
      rw [ih (fun b hb => h b (List.mem_cons_of_mem c hb)), Option.none_or, if_neg]
      simp [marked, h63, hamp]

theorem behindLast_prepend (x : List UInt8) (h : behindLast name l = some rest) :
    behindLast name (x ++ l) = some rest := by
  induction x with
  | nil => exact h
  | cons c x ih =>
      rw [List.cons_append]
      unfold behindLast
      rw [ih, Option.some_or]

theorem behindLast_here {c : UInt8} (hc : c = 63 ∨ c = ampersand)
    (h : behindLast name (name ++ 61 :: l) = none) :
    behindLast name (c :: (name ++ 61 :: l)) = some l := by
  have hmarked : marked name (c :: (name ++ 61 :: l)) = true := by
    unfold marked
    rw [Bool.and_eq_true, List.isPrefixOf_iff_prefix]
    refine ⟨by simpa using hc, l, by simp⟩
  unfold behindLast
  rw [h, Option.none_or, if_pos hmarked]
  simp [← List.drop_drop]

theorem textOf_end (h : ∀ b ∈ x, b ≠ ampersand) : textOf x = x :=
  List.takeWhile_eq_self_iff.mpr (fun b hb => decide_eq_true (h b hb))

theorem textOf_before (h : ∀ b ∈ x, b ≠ ampersand) (l : List UInt8) :
    textOf (x ++ ampersand :: l) = x := by
  have hx : ∀ b ∈ x, inValue b = true := fun b hb => decide_eq_true (h b hb)
  unfold textOf
  rw [List.takeWhile_append_of_pos hx, List.takeWhile_cons_of_neg (by decide), List.append_nil]

end

section

variable (security : Security) (ssid passphrase : List UInt8)

def behindSsid : List UInt8 := bytes "&passphrase=" ++ formEncode passphrase

theorem behindWord_form :
    behindWord (formUrl security ssid passphrase) = some (bytes "?security=" ++ optionText security ++
      (bytes "&ssid=" ++ (formEncode ssid ++ behindSsid passphrase))) := rfl

theorem behindLast_free {name x : List UInt8} (h : ∀ b ∈ x, b ≠ 63 ∧ b ≠ ampersand) :
    behindLast name x = none := by
  have hx : behindLast name (x ++ []) = none := behindLast_skip h rfl
  rwa [List.append_nil] at hx

theorem plain_name {l : List UInt8} (h : l.all (fun b => b ≠ 63 && b ≠ ampersand) = true) :
    ∀ b ∈ l, b ≠ 63 ∧ b ≠ ampersand := by
  simpa using h

theorem parameter_passphrase :
    parameter (bytes "passphrase") (formUrl security ssid passphrase) = some (formEncode passphrase) := by
  have hfree : behindLast (bytes "passphrase") (bytes "passphrase" ++ 61 :: formEncode passphrase) = none := by
    have hname := plain_name (l := bytes "passphrase=") (by decide)
    exact behindLast_skip (x := bytes "passphrase=") hname
      (behindLast_free (fun b hb => (formEncode_plain passphrase b hb).2))
  have hhere := behindLast_here (c := ampersand) (.inr rfl) hfree
  unfold parameter
  rw [behindWord_form, Option.bind_some]
  exact behindLast_prepend _ (behindLast_prepend (bytes "&ssid=") (behindLast_prepend (formEncode ssid) hhere))

theorem parameter_ssid :
    parameter (bytes "ssid") (formUrl security ssid passphrase) =
      some (formEncode ssid ++ behindSsid passphrase) := by
  have hbehind : behindLast (bytes "ssid") (behindSsid passphrase) = none := by
    have hname := plain_name (l := bytes "passphrase=") (by decide)
    have hrest : behindLast (bytes "ssid") (bytes "passphrase=" ++ formEncode passphrase) = none :=
      behindLast_skip hname (behindLast_free (fun b hb => (formEncode_plain passphrase b hb).2))
    show behindLast (bytes "ssid") (ampersand :: (bytes "passphrase=" ++ formEncode passphrase)) = none
    unfold behindLast
    rw [hrest]
    rfl
  have hfree : behindLast (bytes "ssid")
      (bytes "ssid" ++ 61 :: (formEncode ssid ++ behindSsid passphrase)) = none := by
    have hname := plain_name (l := bytes "ssid=") (by decide)
    exact behindLast_skip (x := bytes "ssid=") hname
      (behindLast_skip (fun b hb => (formEncode_plain ssid b hb).2) hbehind)
  have hhere := behindLast_here (c := ampersand) (.inr rfl) hfree
  unfold parameter
  rw [behindWord_form, Option.bind_some]
  exact behindLast_prepend _ hhere

end

/-- A request without a body, as the parser reports it in one chunk. -/
def requestEvents (url : List UInt8) (headers : List Pair) : List Event :=
  .messageBegin :: .url url ::
    headers.flatMap (fun h => [.headerField h.1, .headerValue h.2]) ++ [.headersComplete]

theorem collect_headers (b : Collected) (h : b.1.isSome = b.2.isSome) (headers : List Pair) :
    (collectAll b (headers.flatMap (fun h => [.headerField h.1, .headerValue h.2]) ++
      [.headersComplete, .messageComplete])).2 =
      pairOf b ++ headers.map (fun h => (cString h.1, cString h.2)) := by
  induction headers generalizing b with
  | nil => simp [collectAll, collect]
  | cons header headers ih =>
      have hstep : (collect (collect b (.headerField header.1)).1 (.headerValue header.2)).1 =
          (some header.1, some header.2) := by
        obtain ⟨field, value⟩ := b
        cases value with
        | none =>
            cases field with
            | none => rfl
            | some field => cases h
        | some value => rfl
      have hpairs : (collect b (.headerField header.1)).2 = pairOf b := by
        obtain ⟨field, value⟩ := b
        cases value with
        | none =>
            cases field with
            | none => rfl
            | some field => cases h
        | some value => rfl
      rw [List.flatMap_cons, List.append_assoc]
      show (collect b (.headerField header.1)).2 ++ ([] ++
        (collectAll (collect (collect b (.headerField header.1)).1 (.headerValue header.2)).1
          (headers.flatMap (fun h => [.headerField h.1, .headerValue h.2]) ++
            [.headersComplete, .messageComplete])).2) = _
      rw [hstep, ih (some header.1, some header.2) rfl, hpairs]
      rfl

theorem processHeaderField_other {field : List UInt8} (h : field ≠ bytes "URL") (value : List UInt8)
    (s : Settings) : processHeaderField field value s = s := by
  have hfilter (filter : HeaderFieldFilter) (hurl : filter.headerField = bytes "URL") (s : Settings) :
      applyFilter field value s filter = s := by
    unfold applyFilter
    rw [hurl, if_neg h]
  unfold processHeaderField fieldsOfInterest
  rw [List.foldl_cons, List.foldl_cons, List.foldl_cons, List.foldl_nil, hfilter _ rfl, hfilter _ rfl,
    hfilter _ rfl]

theorem applyPairs_other {l : List Pair} (h : ∀ p ∈ l, p.1 ≠ bytes "URL") (s : Settings) :
    applyPairs l s = s := by
  induction l with
  | nil => rfl
  | cons p l ih =>
      show applyPairs l (processHeaderField p.1 p.2 s) = s
      rw [processHeaderField_other (h p List.mem_cons_self)]
      exact ih (fun q hq => h q (List.mem_cons_of_mem p hq))

/-- The callback is called once, with settings that hold these texts. -/
def Passed (ssid passphrase : List UInt8) (calls : List (Except Undefined WifiSettings)) : Prop :=
  ∃ wifi, calls = [.ok wifi] ∧ cString wifi.ssid = ssid ∧ cString wifi.passpharase = passphrase

/-- The callback of the application is called with what process_header_field makes of the URL. -/
theorem calls_of_request {P A : Type} (site : Site P A) (sn : Block) (socket : Nat) (wifi : WifiSettings)
    (changed : Bool) (app : A) {url : List UInt8} (hurl : 0 ∉ url) {headers : List Pair}
    (hheaders : ∀ h ∈ headers, cString h.1 ≠ bytes "URL") {request : List UInt8} (hrequest : request ≠ [])
    (hparse : (site.httpParserExecute site.httpParserInit request).1 =
      (requestEvents url headers ++ [.messageComplete], request.length))
    (hchanged : (processHeaderField (bytes "URL") url ⟨.ok wifi, false⟩).cfgChanged = true) :
    (served site sn true (start site socket true (.ok wifi) changed app) [some request]).calls =
      [(processHeaderField (bytes "URL") url ⟨.ok wifi, false⟩).wifi] := by
  have hnot : Event.messageComplete ∉ requestEvents url headers := by
    unfold requestEvents
    simp
  have hconsumed : Consumed site site.httpParserInit (some request) :=
    ⟨hrequest, congrArg Prod.snd hparse⟩
  have hevents : (parse site site.httpParserInit (some request)).1 =
      requestEvents url headers ++ [.messageComplete] := congrArg Prod.fst hparse
  have hserved := served_append site sn true (l := []) (c := start site socket true (.ok wifi) changed app)
    (start_follows site true socket (.ok wifi) changed app) hconsumed hevents hnot
  have hpairs : (collectAll (none, none) (requestEvents url headers ++ [.messageComplete])).2 =
      (bytes "URL", url) :: headers.map (fun h => (cString h.1, cString h.2)) := by
    have htail := collect_headers (none, none) rfl headers
    have hlist : requestEvents url headers ++ [.messageComplete] = .messageBegin :: .url url ::
        (headers.flatMap (fun h => [.headerField h.1, .headerValue h.2]) ++
          [.headersComplete, .messageComplete]) := by
      unfold requestEvents
      simp
    rw [hlist]
    show [] ++ ([(bytes "URL", cString url)] ++ (collectAll (none, none) _).2) = _
    rw [htail, cString_of_not_mem hurl]
    rfl
  have hsettings : (start site socket true (.ok wifi) changed app).settings = ⟨.ok wifi, false⟩ := by
    unfold start
    rw [Bool.not_true, Bool.and_false]
  have happly : applyPairs (collectAll (none, none) (requestEvents url headers ++ [.messageComplete])).2
      (start site socket true (.ok wifi) changed app).settings =
      processHeaderField (bytes "URL") url ⟨.ok wifi, false⟩ := by
    rw [hpairs, hsettings]
    show applyPairs (headers.map (fun h => (cString h.1, cString h.2)))
      (processHeaderField (bytes "URL") url ⟨.ok wifi, false⟩) = _
    refine applyPairs_other (fun p hp => ?_) _
    obtain ⟨h, hh, rfl⟩ := List.mem_map.mp hp
    exact hheaders h hh
  have hcalls := (notify_calls site true (s := processHeaderField (bytes "URL") url ⟨.ok wifi, false⟩)
    (w := (start site socket true (.ok wifi) changed app).world) ⟨hchanged, rfl⟩).2.2.1
  rw [← happly] at hcalls ⊢
  exact (congrArg Served.calls hserved).trans hcalls

theorem printed_encodeByte (c : UInt8) (rest : List UInt8) :
    printed (encodeByte c ++ rest) =
      if lEsc ∈ encodeByte c then .error .conversion
      else (printed rest).map (encodeByte c ++ ·) := by
  by_cases hesc : lEsc ∈ encodeByte c
  · have hblank : c ≠ 32 := by
      rintro rfl
      exact absurd hesc (by decide)
    have hsafe : isFormSafe c = false := by
      rw [Bool.eq_false_iff]
      intro hsafe
      rw [encodeByte_safe c hsafe, List.mem_singleton] at hesc
      exact (safe_plain hsafe).2.2.1 hesc.symm
    rw [if_pos hesc, encodeByte_escaped c hsafe hblank]
    change (if lEsc = lEsc then if hexDigit (c / 16) = lEsc then _ else _ else _) = _
    rw [if_pos rfl, if_neg (hexDigit_plain (highDigit_lt c)).2]
  · rw [if_neg hesc, printed_append hesc]

theorem printed_formEncode (value rest : List UInt8) :
    printed (formEncode value ++ rest) =
      if lEsc ∈ formEncode value then .error .conversion
      else (printed rest).map (formEncode value ++ ·) := by
  by_cases hesc : lEsc ∈ formEncode value
  · rw [if_pos hesc]
    induction value with
    | nil => cases hesc
    | cons c value ih =>
        unfold formEncode at hesc ih ⊢
        rw [List.flatMap_cons, List.mem_append] at hesc
        rw [List.flatMap_cons, List.append_assoc, printed_encodeByte]
        by_cases hc : lEsc ∈ encodeByte c
        · rw [if_pos hc]
        · rw [if_neg hc, ih (hesc.resolve_left hc)]
          rfl
  · rw [if_neg hesc, printed_append hesc]

theorem printed_behindSsid {ssid passphrase : List UInt8}
    (h : lEsc ∈ formEncode ssid ++ behindSsid passphrase) :
    printed (formEncode ssid ++ behindSsid passphrase) = .error .conversion := by
  have hname : lEsc ∉ bytes "&passphrase=" := by decide
  have hbehind : printed (behindSsid passphrase) =
      if lEsc ∈ formEncode passphrase then .error .conversion
      else .ok (behindSsid passphrase) := by
    have hpass := printed_formEncode passphrase []
    rw [List.append_nil] at hpass
    unfold behindSsid
    rw [printed_append hname, hpass]
    split
    · rfl
    · rw [printed, Except.map, Except.map, List.append_nil]
  rw [printed_formEncode]
  by_cases hssid : lEsc ∈ formEncode ssid
  · rw [if_pos hssid]
  · have hpass : lEsc ∈ formEncode passphrase := by
      have hmem := (List.mem_append.mp h).resolve_left hssid
      unfold behindSsid at hmem
      exact (List.mem_append.mp hmem).resolve_left hname
    rw [if_neg hssid, hbehind, if_pos hpass]
    rfl

theorem stored_text {buffer value rest : List UInt8} (htext : textOf rest = formEncode value)
    (hesc : lEsc ∉ rest) (hsize : value.length + 1 ≤ buffer.length)
    (hvalue : lEsc ∉ formEncode value) :
    ∃ buffer', store buffer (some rest) = .ok buffer' ∧ cString buffer' = formEncode value := by
  have hlength : (formEncode value).length = value.length := by
    rw [formEncode_map value hvalue, List.length_map]
  refine ⟨textOf rest ++ 0 :: buffer.drop ((textOf rest).length + 1), ?_, ?_⟩
  · rw [store_plain hesc, if_pos (by rw [htext, hlength]; exact hsize)]
  · have hzero : ∀ b ∈ formEncode value, decide (b ≠ 0) = true :=
      fun b hb => decide_eq_true (formEncode_plain value b hb).1
    unfold cString
    rw [htext, List.takeWhile_append_of_pos hzero, List.takeWhile_cons_of_neg (by decide), List.append_nil]

theorem formUrl_length (security : Security) {ssid passphrase : List UInt8}
    (hssid : ssid.length ≤ maxSsidLength) (hpassphrase : passphrase.length ≤ maxPassphraseLength) :
    (formUrl security ssid passphrase).length < 2 ^ 64 := by
  have h₁ := formEncode_length ssid
  have h₂ := formEncode_length passphrase
  have hoption : (optionText security).length = 4 := by
    cases security with
    | unsecured => rfl
    | wpa2 => rfl
  have hword : (bytes "/network_settings").length = 17 := rfl
  have hsecurity : (bytes "?security=").length = 10 := rfl
  have hname : (bytes "&ssid=").length = 6 := rfl
  have hname' : (bytes "&passphrase=").length = 12 := rfl
  unfold maxSsidLength at hssid
  unfold maxPassphraseLength at hpassphrase
  unfold formUrl
  simp only [List.length_append, hoption, hword, hsecurity, hname, hname']
  omega

theorem formUrl_string (security : Security) (ssid passphrase : List UInt8) :
    0 ∉ formUrl security ssid passphrase := by
  have h₁ : 0 ∉ formEncode ssid := fun h => (formEncode_plain ssid 0 h).1 rfl
  have h₂ : 0 ∉ formEncode passphrase := fun h => (formEncode_plain passphrase 0 h).1 rfl
  have hoption : 0 ∉ optionText security := by
    cases security with
    | unsecured => decide
    | wpa2 => decide
  have hword : 0 ∉ bytes "/network_settings" := by decide
  have hsecurity : 0 ∉ bytes "?security=" := by decide
  have hname : 0 ∉ bytes "&ssid=" := by decide
  have hname' : 0 ∉ bytes "&passphrase=" := by decide
  unfold formUrl
  simp only [List.mem_append, not_or]
  exact ⟨hword, ⟨hsecurity, hoption⟩, hname, h₁, hname', h₂⟩

/-- A submitted form arrives as it was filled in if and only if the SSID and the passphrase
have only letters, digits and the bytes * - . _ -/
theorem form_round_trip_iff {P A : Type} (site : Site P A) (sn : Block) (socket : Nat) {wifi : WifiSettings}
    (hwifi : Sized wifi) (changed : Bool) (app : A) (security : Security) {ssid passphrase : List UInt8}
    (hssid : ssid.length ≤ maxSsidLength) (hpassphrase : passphrase.length ≤ maxPassphraseLength)
    {headers : List Pair} (hheaders : ∀ h ∈ headers, cString h.1 ≠ bytes "URL") {request : List UInt8}
    (hrequest : request ≠ [])
    (hparse : (site.httpParserExecute site.httpParserInit request).1 =
      (requestEvents (formUrl security ssid passphrase) headers ++ [.messageComplete], request.length)) :
    Passed ssid passphrase
        (served site sn true (start site socket true (.ok wifi) changed app) [some request]).calls ↔
      (∀ b ∈ ssid, isFormSafe b = true) ∧ (∀ b ∈ passphrase, isFormSafe b = true) := by
  have hsize : (formUrl security ssid passphrase).length < 2 ^ 64 := formUrl_length security hssid hpassphrase
  have hzero : 0 ∉ formUrl security ssid passphrase := formUrl_string security ssid passphrase
  have hprocess := processHeaderField_url hsize wifi false
  rw [parameter_ssid, parameter_passphrase] at hprocess
  have hcalls := calls_of_request site sn socket wifi changed app hzero hheaders hrequest hparse
    (by rw [hprocess]; simp)
  rw [hcalls, hprocess]
  have htext : textOf (formEncode ssid ++ behindSsid passphrase) = formEncode ssid :=
    textOf_before (fun b hb => (formEncode_plain ssid b hb).2.2) (bytes "passphrase=" ++ formEncode passphrase)
  have htext' : textOf (formEncode passphrase) = formEncode passphrase :=
    textOf_end (fun b hb => (formEncode_plain passphrase b hb).2.2)
  have hesc : lEsc ∉ formEncode ssid ++ behindSsid passphrase ↔
      lEsc ∉ formEncode ssid ∧ lEsc ∉ formEncode passphrase := by
    have hname : lEsc ∉ bytes "&passphrase=" := by decide
    unfold behindSsid
    simp only [List.mem_append, not_or, hname, not_false_eq_true, true_and]
  constructor
  · rintro ⟨wifi', hwifi', hssid', hpass'⟩
    obtain ⟨ssid', hstore, hrest⟩ := bind_eq_ok (List.singleton_inj.mp hwifi')
    obtain ⟨passphrase', hstore', hrest⟩ := bind_eq_ok hrest
    cases hrest
    have hplain : lEsc ∉ formEncode ssid ++ behindSsid passphrase := by
      intro hmem
      rw [store_some, printed_behindSsid hmem] at hstore
      cases hstore
    obtain ⟨hplainSsid, hplainPass⟩ := hesc.mp hplain
    obtain ⟨x, hx, htextX⟩ := stored_text htext hplain (by rw [hwifi.ssid]; omega) hplainSsid
    obtain ⟨y, hy, htextY⟩ := stored_text htext' hplainPass (by rw [hwifi.passpharase]; omega) hplainPass
    obtain rfl := Except.ok.inj (hx.symm.trans hstore)
    obtain rfl := Except.ok.inj (hy.symm.trans hstore')
    exact ⟨safe_of_formEncode ssid (htextX.symm.trans hssid') hplainSsid,
      safe_of_formEncode passphrase (htextY.symm.trans hpass') hplainPass⟩
  · rintro ⟨hsafe, hsafe'⟩
    obtain ⟨hid, hplainSsid⟩ := formEncode_safe ssid hsafe
    obtain ⟨hid', hplainPass⟩ := formEncode_safe passphrase hsafe'
    obtain ⟨x, hx, htextX⟩ := stored_text htext (hesc.mpr ⟨hplainSsid, hplainPass⟩)
      (by rw [hwifi.ssid]; omega) hplainSsid
    obtain ⟨y, hy, htextY⟩ := stored_text htext' hplainPass (by rw [hwifi.passpharase]; omega) hplainPass
    refine ⟨⟨securityOf wifi.security (parameter (bytes "security") (formUrl security ssid passphrase)), x, y⟩,
      ?_, htextX.trans hid, htextY.trans hid'⟩
    rw [hx, hy]
    rfl

def submission (security : Security) (ssid passphrase : List UInt8) : List UInt8 :=
  bytes "GET " ++ (formUrl security ssid passphrase ++ bytes " HTTP/1.1\r\nHost: a\r\n\r\n")

def submitted (security : Security) (ssid passphrase : List UInt8) : Site Nat Unit :=
  scripted [((0, submission security ssid passphrase),
    requestEvents (formUrl security ssid passphrase) [(bytes "Host", bytes "a")] ++ [.messageComplete])]

theorem submitted_parse (security : Security) (ssid passphrase : List UInt8) :
    ((submitted security ssid passphrase).httpParserExecute (submitted security ssid passphrase).httpParserInit
      (submission security ssid passphrase)).1 =
      (requestEvents (formUrl security ssid passphrase) [(bytes "Host", bytes "a")] ++ [.messageComplete],
        (submission security ssid passphrase).length) := by
  simp [submitted, scripted]

theorem submission_headers : ∀ h ∈ [(bytes "Host", bytes "a")], cString h.1 ≠ bytes "URL" := by
  decide

theorem form_round_trip_iff_home :
    Passed (bytes "home") (bytes "secret") (served (submitted .wpa2 (bytes "home") (bytes "secret"))
      (.live (bytes "1")) true
      (start (submitted .wpa2 (bytes "home") (bytes "secret")) 0 true (.ok blankWifi) false ())
      [some (submission .wpa2 (bytes "home") (bytes "secret"))]).calls :=
  (form_round_trip_iff (submitted .wpa2 (bytes "home") (bytes "secret")) (.live (bytes "1")) 0
    ⟨rfl, rfl⟩ false () .wpa2 (by decide) (by decide) submission_headers
    (List.cons_ne_nil _ _) (submitted_parse _ _ _)).mpr ⟨List.all_eq_true.mp (by decide), List.all_eq_true.mp (by decide)⟩

/-- A blank of an SSID arrives as a plus sign. -/
theorem blank_becomes_plus :
    ¬ Passed (bytes "my home") (bytes "secret") (served (submitted .wpa2 (bytes "my home") (bytes "secret"))
      (.live (bytes "1")) true
      (start (submitted .wpa2 (bytes "my home") (bytes "secret")) 0 true (.ok blankWifi) false ())
      [some (submission .wpa2 (bytes "my home") (bytes "secret"))]).calls := by
  have hprocess : (processHeaderField (bytes "URL") (formUrl .wpa2 (bytes "my home") (bytes "secret"))
        ⟨.ok blankWifi, false⟩).cfgChanged = true ∧
      (processHeaderField (bytes "URL") (formUrl .wpa2 (bytes "my home") (bytes "secret"))
        ⟨.ok blankWifi, false⟩).wifi.toOption.map (fun wifi => cString wifi.ssid) =
          some (bytes "my+home") := by
    decide +kernel
  obtain ⟨hchanged, hplus⟩ := hprocess
  have hcalls := calls_of_request (submitted .wpa2 (bytes "my home") (bytes "secret")) (.live (bytes "1")) 0
    blankWifi false () (formUrl_string .wpa2 (bytes "my home") (bytes "secret")) submission_headers
    (List.cons_ne_nil _ _) (submitted_parse _ _ _) hchanged
  rintro ⟨wifi, hwifi, hssid, -⟩
  rw [List.singleton_inj.mp (hcalls.symm.trans hwifi)] at hplus
  have hsame : bytes "my home" = bytes "my+home" := hssid.symm.trans (Option.some.inj hplus)
  exact absurd hsame (by decide)

end ErSdk.ConfiguratorForm
