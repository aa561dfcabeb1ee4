import ErSdk.ConfiguratorUrl

namespace ErSdk.ConfiguratorSecurity

open Pmatch ConfiguratorFields ConfiguratorUrl

def others (url : List UInt8) (s : Settings) : Settings :=
  (fieldsOfInterest.eraseIdx 1).foldl (applyFilter (bytes "URL") url) s

def setSecurity (security : Security) (s : Settings) : Settings :=
  s.change (fun wifi => .ok { wifi with security })

/-- What process_header_field is to do with a URL: only the two words count. -/
def expected (url : List UInt8) (s : Settings) : Settings :=
  match (parameter (bytes "security") url).map textOf with
  | none => others url s
  | some text =>
      if text = bytes "open" then setSecurity .unsecured (others url s)
      else if text = bytes "wpa2" then setSecurity .wpa2 (others url s)
      else others url s

/-- The mode that strncmp with the length of a text selects. -/
def selected (text : List UInt8) : Option Security :=
  if text <+: bytes "open" then some .unsecured
  else if text <+: bytes "wpa2" then some .wpa2
  else none

/-- snprintf can print a parameter, and what it writes of it has at most `limit` bytes. -/
def Printable (name : List UInt8) (limit : Nat) (url : List UInt8) : Prop :=
  ∀ rest, parameter name url = some rest →
    ∃ out, printed rest = .ok out ∧ (out.take (textOf rest).length).length ≤ limit

/-- The value is one of the two words; or it changes nothing that the other parameters have not
changed: the settings are marked anyway, and the mode that it selects is the one they have. -/
def Harmless (url : List UInt8) (wifi : WifiSettings) (changed : Bool) (text : List UInt8) : Prop :=
  text = bytes "open" ∨ text = bytes "wpa2" ∨
    ((changed = true ∨ parameter (bytes "ssid") url ≠ none ∨
        parameter (bytes "passphrase") url ≠ none) ∧
      (Printable (bytes "ssid") maxSsidLength url →
        Printable (bytes "passphrase") maxPassphraseLength url →
        ∀ mode, selected text = some mode → mode = wifi.security))

theorem strncmpEq_iff {w text rest : List UInt8} (h : text <+: rest) :
    strncmpEq w rest text.length = true ↔ text <+: w := by
  induction text generalizing w rest with
  | nil => exact iff_of_true (by cases w <;> cases rest <;> rfl) List.nil_prefix
  | cons c text ih =>
      obtain ⟨t, rfl⟩ := h
      cases w with
      | nil => exact iff_of_false nofun (fun hp => List.cons_ne_nil c text (List.prefix_nil.mp hp))
      | cons d w =>
          have hrest := @ih w (text ++ t) (List.prefix_append text t)
          simp only [List.length_cons, List.cons_append, strncmpEq, Bool.and_eq_true,
            decide_eq_true_eq, List.cons_prefix_cons, hrest]
          exact and_congr_left' eq_comm

theorem securityOf_some (security : Security) (rest : List UInt8) :
    securityOf security (some rest) = (selected (textOf rest)).getD security := by
  have hprefix : textOf rest <+: rest := List.takeWhile_prefix inValue
  unfold securityOf selected
  simp only [strncmpEq_iff hprefix]
  by_cases ho : textOf rest <+: bytes "open"
  · rw [if_pos ho, if_pos ho]
    rfl
  · rw [if_neg ho, if_neg ho]
    by_cases hw : textOf rest <+: bytes "wpa2"
    · rw [if_pos hw, if_pos hw]
      rfl
    · rw [if_neg hw, if_neg hw]
      rfl

section

variable {url : List UInt8} (hsize : url.length < 2 ^ 64) (wifi : WifiSettings) (changed : Bool)

include hsize

theorem others_eq : others url ⟨.ok wifi, changed⟩ =
    ⟨do
        let ssid ← store wifi.ssid (parameter (bytes "ssid") url)
        let passpharase ← store wifi.passpharase (parameter (bytes "passphrase") url)
        .ok ⟨wifi.security, ssid, passpharase⟩,
      changed || (parameter (bytes "ssid") url).isSome ||
        (parameter (bytes "passphrase") url).isSome⟩ := by
  have hfilters : fieldsOfInterest.eraseIdx 1 =
      [⟨bytes "URL", parameterPattern (bytes "ssid"), clbSetSsid⟩,
        ⟨bytes "URL", parameterPattern (bytes "passphrase"), clbSetPasspharas⟩] := rfl
  unfold others
  rw [hfilters, List.foldl_cons, List.foldl_cons, List.foldl_nil, filter_ssid hsize,
    filter_passpharase hsize]
  simp only [bind, Except.bind]
  generalize store wifi.ssid (parameter (bytes "ssid") url) = ssid
  cases ssid with
  | error e => rfl
  | ok ssid => rfl

theorem setSecurity_others (mode : Security) : setSecurity mode (others url ⟨.ok wifi, changed⟩) =
    ⟨do
        let ssid ← store wifi.ssid (parameter (bytes "ssid") url)
        let passpharase ← store wifi.passpharase (parameter (bytes "passphrase") url)
        .ok ⟨mode, ssid, passpharase⟩,
      true⟩ := by
  rw [others_eq hsize]
  unfold setSecurity Settings.change
  simp only [bind, Except.bind]
  generalize store wifi.ssid (parameter (bytes "ssid") url) = ssid
  generalize store wifi.passpharase (parameter (bytes "passphrase") url) = passpharase
  cases ssid with
  | error e => rfl
  | ok ssid =>
      cases passpharase with
      | error e => rfl
      | ok passpharase => rfl

end

theorem store_printable {buffer : List UInt8} {name url : List UInt8} {limit : Nat}
    (hlen : buffer.length = limit + 1) :
    (∃ buffer', store buffer (parameter name url) = .ok buffer') ↔ Printable name limit url := by
  unfold Printable
  cases parameter name url with
  | none => exact ⟨fun _ _ hr => (nomatch hr), fun _ => ⟨buffer, rfl⟩⟩
  | some rest =>
      rw [store_some, hlen]
      cases hprinted : printed rest with
      | error e =>
          refine iff_of_false (fun ⟨buffer', hs⟩ => nomatch hs) (fun hall => ?_)
          obtain ⟨out, hout, -⟩ := hall rest rfl
          cases hprinted.symm.trans hout
      | ok out =>
          change (∃ buffer', (if (out.take (textOf rest).length).length + 1 ≤ limit + 1 then _
            else _) = Except.ok buffer') ↔ _
          constructor
          · rintro ⟨buffer', hs⟩ r hr
            obtain rfl := Option.some.inj hr
            split at hs
            · exact ⟨out, hprinted, Nat.le_of_succ_le_succ ‹_›⟩
            · cases hs
          · intro hall
            obtain ⟨out', hout, hle⟩ := hall rest rfl
            obtain rfl := Except.ok.inj (hprinted.symm.trans hout)
            rw [if_pos (Nat.succ_le_succ hle)]
            exact ⟨_, rfl⟩

theorem stored_eq_iff {mode mode' : Security} {a b : Except Undefined (List UInt8)} :
    ((do let ssid ← a
         let passpharase ← b
         .ok ⟨mode, ssid, passpharase⟩ : Except Undefined WifiSettings) =
      do let ssid ← a
         let passpharase ← b
         .ok ⟨mode', ssid, passpharase⟩) ↔
    ((∃ ssid, a = .ok ssid) → (∃ passpharase, b = .ok passpharase) → mode = mode') := by
  cases a with
  | error e => exact iff_of_true rfl (fun ⟨_, h⟩ => nomatch h)
  | ok ssid =>
      cases b with
      | error e => exact iff_of_true rfl (fun _ ⟨_, h⟩ => nomatch h)
      | ok passpharase =>
          constructor
          · intro h _ _
            exact congrArg WifiSettings.security (Except.ok.inj h)
          · intro h
            rw [h ⟨ssid, rfl⟩ ⟨passpharase, rfl⟩]

/-- The security parameter does what it is to do if and only if its value is one of the two words
or harmless. -/
theorem security_set_iff {url : List UInt8} (h : IsString url) {wifi : WifiSettings}
    (hwifi : Sized wifi) (changed : Bool) :
    processHeaderField (bytes "URL") url ⟨.ok wifi, changed⟩ = expected url ⟨.ok wifi, changed⟩ ↔
      ∀ rest, parameter (bytes "security") url = some rest →
        Harmless url wifi changed (textOf rest) := by
  rw [processHeaderField_url h.size]
  unfold expected
  cases hp : parameter (bytes "security") url with
  | none =>
      refine iff_of_true ?_ nofun
      simp only [Option.map_none, others_eq h.size, Option.isSome_none, Bool.or_false]
      rfl
  | some rest =>
      have hone : (∀ r, some rest = some r → Harmless url wifi changed (textOf r)) ↔
          Harmless url wifi changed (textOf rest) :=
        ⟨fun hall => hall rest rfl, fun hr r he => Option.some.inj he ▸ hr⟩
      rw [hone]
      simp only [Option.map_some, securityOf_some, Option.isSome_some, Bool.or_true, Bool.true_or]
      by_cases hopen : textOf rest = bytes "open"
      · refine iff_of_true ?_ (.inl hopen)
        rw [if_pos hopen, setSecurity_others h.size, hopen]
        rfl
      · rw [if_neg hopen]
        by_cases hwpa : textOf rest = bytes "wpa2"
        · refine iff_of_true ?_ (.inr (.inl hwpa))
          rw [if_pos hwpa, setSecurity_others h.size, hwpa]
          rfl
        · rw [if_neg hwpa, others_eq h.size, Settings.mk.injEq, stored_eq_iff,
            store_printable hwifi.ssid, store_printable hwifi.passpharase]
          have hmode : (selected (textOf rest)).getD wifi.security = wifi.security ↔
              ∀ mode, selected (textOf rest) = some mode → mode = wifi.security := by
            cases selected (textOf rest) <;> simp
          have hchanged : true = (changed || (parameter (bytes "ssid") url).isSome ||
                (parameter (bytes "passphrase") url).isSome) ↔
              changed = true ∨ parameter (bytes "ssid") url ≠ none ∨
                parameter (bytes "passphrase") url ≠ none := by
            rw [eq_comm, Bool.or_eq_true, Bool.or_eq_true, Option.isSome_iff_ne_none,
              Option.isSome_iff_ne_none, or_assoc]
          rw [hmode, hchanged, and_comm]
          unfold Harmless
          simp only [hopen, hwpa, false_or]

theorem security_set_iff_open :
    processHeaderField (bytes "URL") (bytes "/network_settings?security=open") ⟨.ok blankWifi, false⟩ =
      expected (bytes "/network_settings?security=open") ⟨.ok blankWifi, false⟩ := by
  refine (security_set_iff ⟨by decide, by decide⟩ ⟨rfl, rfl⟩ false).mpr (fun rest hr => .inl ?_)
  obtain rfl : bytes "open" = rest := by
    refine Option.some.inj (Eq.trans ?_ hr)
    decide
  decide

def securedWifi : WifiSettings := { blankWifi with security := .wpa2 }

/-- An empty value turns the encryption off. -/
theorem empty_value_opens : ¬ ∀ url s,
    processHeaderField (bytes "URL") url s = expected url s := by
  intro h
  have hset := h (bytes "/network_settings?security=") ⟨.ok securedWifi, false⟩
  have hmode : (processHeaderField (bytes "URL") (bytes "/network_settings?security=")
      ⟨.ok securedWifi, false⟩).wifi.toOption.map WifiSettings.security = some .unsecured := by
    decide +kernel
  have hkept : (expected (bytes "/network_settings?security=")
      ⟨.ok securedWifi, false⟩).wifi.toOption.map WifiSettings.security = some .wpa2 := by
    decide +kernel
  rw [hset, hkept] at hmode
  exact absurd hmode (by decide)

end ErSdk.ConfiguratorSecurity
