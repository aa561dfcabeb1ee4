import ErSdk.ConfiguratorFields
import ErSdk.Patterns

namespace ErSdk.ConfiguratorUrl

open Pmatch Patterns ConfiguratorFields

def word : List UInt8 := bytes "network_settings"

/-- The pattern for the parameter `name` in fields_of_interest. -/
def parameterPattern (name : List UInt8) : List UInt8 :=
  word ++ (bytes ".*[%?&]" ++ (name ++ bytes "=([^&]*)"))

def ampersand : UInt8 := 38

def inValue (c : UInt8) : Bool := c ≠ ampersand

/-- What stands behind the first `network_settings`. -/
def behindWord : List UInt8 → Option (List UInt8)
  | [] => none
  | c :: l => if word.isPrefixOf (c :: l) then some ((c :: l).drop word.length) else behindWord l

/-- Whether `?name=` or `&name=` starts here. -/
def marked (name : List UInt8) : List UInt8 → Bool
  | [] => false
  | c :: l => (c = 63 || c = ampersand) && (name ++ [61]).isPrefixOf l

/-- What stands behind the last `?name=` or `&name=`. -/
def behindLast (name : List UInt8) : List UInt8 → Option (List UInt8)
  | [] => none
  | c :: l => (behindLast name l).or
      (if marked name (c :: l) then some (l.drop (name.length + 1)) else none)

/-- The URL from the text of a parameter on, as the pattern finds it. -/
def parameter (name url : List UInt8) : Option (List UInt8) :=
  (behindWord url).bind (behindLast name)

def textOf (rest : List UInt8) : List UInt8 := rest.takeWhile inValue

def captureOf (size : Nat) (rest : List UInt8) : StringCapture :=
  ⟨size - rest.length, (textOf rest).length⟩

section

variable {src : List UInt8}

theorem matchPattern_text {fuel : Nat} {ms : MatchState} {s : Nat} (hl : ms.level < luaMaxcaptures) :
    matchPattern src (fuel + 4) (bytes "([^&]*)") ms s = outcome ms
      (some (s + runOf inValue src s, ⟨ms.capture ++ [⟨s, runOf inValue src s⟩]⟩)) := by
  have hitem : (fun c => singleMatch c (bytes "[^&]*)") (42 :: bytes ")")) = inValue := by
    funext c
    have hset : singleMatch c (bytes "[^&]*)") (42 :: bytes ")") =
        !(if (38 : UInt8) = lEsc then matchClass c 93 else decide ((38 : UInt8) = c)) := rfl
    rw [hset, if_neg (by decide)]
    unfold inValue ampersand
    by_cases hc : c = 38
    · simp [hc]
    · simp [hc, Ne.symm hc]
  refine startCapture_pop (k := matchPattern src (fuel + 3) (bytes "[^&]*)")) hl ?_
  refine (matchRepeated_star (k := matchPattern src (fuel + 2)) (p := bytes "[^&]*)")
    (q := bytes ")")).trans ?_
  rw [hitem]
  exact maxExpand_all (captureRun_all (k := matchPattern src (fuel + 1) []) rfl)

end

theorem lastUpTo_cons (P : Nat → Bool) (n : Nat) :
    lastUpTo P (n + 1) =
      ((lastUpTo (fun i => P (i + 1)) n).map (· + 1)).or (if P 0 then some 0 else none) := by
  induction n with
  | zero =>
      cases h : P 1 with
      | true => simp [lastUpTo, h]
      | false => simp [lastUpTo, h]
  | succ n ih =>
      rw [lastUpTo, ih, lastUpTo]
      cases h : P (n + 1 + 1) with
      | true => simp
      | false => simp

theorem behindLast_eq (name l : List UInt8) :
    (lastUpTo (fun i => marked name (l.drop i)) l.length).map
      (fun i => l.drop (i + 1 + (name.length + 1))) = behindLast name l := by
  induction l with
  | nil => rfl
  | cons c l ih =>
      unfold behindLast
      rw [List.length_cons, lastUpTo_cons, ← ih]
      simp only [List.drop_succ_cons, List.drop_zero]
      cases lastUpTo (fun i => marked name (l.drop i)) l.length with
      | some i =>
          simp only [Option.map_some, Option.some_or]
          rw [show i + 1 + 1 + (name.length + 1) = (i + 1 + (name.length + 1)) + 1 by omega,
            List.drop_succ_cons]
      | none =>
          simp only [Option.map_none, Option.none_or]
          split
          · rw [Option.map_some, show 0 + 1 + (name.length + 1) = (name.length + 1) + 1 by omega,
              List.drop_succ_cons]
          · rfl

theorem escape_plain {l : List UInt8} (h : ∀ c ∈ l, c ∉ specials) : escape l = l := by
  induction l with
  | nil => rfl
  | cons c l ih =>
      unfold escape
      rw [if_neg (h c List.mem_cons_self), ih (fun d hd => h d (List.mem_cons_of_mem c hd))]

/-- A name without special bytes and parentheses. -/
structure Plain (name : List UInt8) : Prop where
  special : ∀ c ∈ name, c ∉ specials
  close : 41 ∉ name

section

variable {src name : List UInt8}

def textAt (src : List UInt8) (i : Nat) : Nat × MatchState :=
  (i + runOf inValue src i, ⟨[⟨i, runOf inValue src i⟩]⟩)

theorem any_marked (t : Nat) : marked name (src.drop t) =
    ((src[t]?).any (fun c => c = 63 || c = ampersand) && (name ++ [61]).isPrefixOf (src.drop (t + 1))) := by
  rcases h : src[t]? with - | c
  · rw [List.drop_eq_nil_of_le (List.getElem?_eq_none_iff.mp h)]
    rfl
  · obtain ⟨ht, hc⟩ := List.getElem?_eq_some_iff.mp h
    rw [List.drop_eq_getElem_cons ht, hc]
    rfl

theorem matchPattern_marked (h : Plain name) (fuel t : Nat) :
    matchPattern src (fuel + 4 + (name.length + 1) + 1)
      (bytes "[%?&]" ++ (name ++ bytes "=([^&]*)")) ⟨[]⟩ t =
      outcome ⟨[]⟩ (if marked name (src.drop t) then some (textAt src (t + 1 + (name.length + 1)))
        else none) := by
  let rest := name ++ bytes "=([^&]*)"
  have hnext : isRepetition (rest.headD 0) = false := by
    unfold rest
    cases hn : name with
    | nil => decide
    | cons c l => exact (not_special (h.special c (hn ▸ List.mem_cons_self))).2.2.2.2.2
  have hitem (c : UInt8) : singleMatch c (bytes "[%?&]" ++ rest) rest =
      (decide (c = 63) || decide (c = ampersand)) := by
    have hsize : (bytes "[%?&]" ++ rest).length - rest.length - 2 = 3 := by
      rw [List.length_append, Nat.add_sub_cancel]
      rfl
    have hset : matchBracketClass c (bytes "[%?&]" ++ rest) rest = inSet c (bytes "%?&") := by
      unfold matchBracketClass
      rw [hsize]
      rfl
    have hclass : inSet c (bytes "%?&") = (matchClass c 63 || decide (38 = c)) := rfl
    have hmark : matchClass c 63 = decide (63 = c) := by
      unfold matchClass
      rw [show classOf (toLower 63) = none by decide]
    show matchBracketClass c (bytes "[%?&]" ++ rest) rest = _
    rw [hset, hclass, hmark, Bool.eq_iff_iff]
    unfold ampersand
    simp only [Bool.or_eq_true, decide_eq_true_eq]
    exact or_congr eq_comm eq_comm
  have hend : classend (bytes "[%?&]" ++ rest) = .ok rest := rfl
  have hplain : escape (name ++ [61]) = name ++ [61] :=
    escape_plain (fun c hc => by
      obtain hc | hc := List.mem_append.mp hc
      · exact h.special c hc
      · rw [List.mem_singleton.mp hc]
        decide)
  have hclose : 41 ∉ name ++ [61] := by
    rw [List.mem_append, not_or]
    exact ⟨h.close, by decide⟩
  have htext := @matchPattern_escape src _ (bytes "([^&]*)") hclose rfl (fuel + 4) ⟨[]⟩ (t + 1)
  rw [hplain, List.length_append, List.length_singleton, List.append_assoc] at htext
  have hstep : matchPattern src (fuel + 4 + (name.length + 1) + 1) (bytes "[%?&]" ++ rest) ⟨[]⟩ t =
      if (src[t]?).any (fun c => singleMatch c (bytes "[%?&]" ++ rest) rest) then
        matchPattern src (fuel + 4 + (name.length + 1)) rest ⟨[]⟩ (t + 1) else .ok (none, ⟨[]⟩) := by
    refine Eq.trans ?_ (matchRepeated_single hnext)
    rfl
  refine hstep.trans ?_
  rw [any_marked]
  simp only [hitem]
  cases (src[t]?).any (fun c => decide (c = 63) || decide (c = ampersand)) with
  | false => rfl
  | true =>
      rw [if_pos rfl, Bool.true_and]
      refine htext.trans ?_
      split
      · rw [matchPattern_text (by decide)]
        rfl
      · rfl

def restAt (size : Nat) (rest : List UInt8) : Nat × MatchState :=
  (size - rest.length + (textOf rest).length, made [captureOf size rest])

theorem textAt_drop {i : Nat} (h : i ≤ src.length) : textAt src i = restAt src.length (src.drop i) := by
  have hsub : src.length - (src.length - i) = i := by omega
  unfold restAt captureOf
  rw [List.length_drop, hsub]
  rfl

theorem marked_length {t : Nat} (h : marked name (src.drop t) = true) :
    t + 1 + (name.length + 1) ≤ src.length := by
  rw [any_marked, Bool.and_eq_true] at h
  have hle := (List.isPrefixOf_iff_prefix.mp h.2).length_le
  rw [List.length_append, List.length_singleton, List.length_drop] at hle
  omega

theorem matchPattern_last (h : Plain name) (fuel s : Nat) :
    matchPattern src (fuel + 4 + (name.length + 1) + 2)
      (bytes ".*[%?&]" ++ (name ++ bytes "=([^&]*)")) ⟨[]⟩ s =
      outcome ⟨[]⟩ ((behindLast name (src.drop s)).map (restAt src.length)) := by
  let rest := name ++ bytes "=([^&]*)"
  have hrun : runOf (fun c => singleMatch c (bytes ".*[%?&]" ++ rest) (42 :: (bytes "[%?&]" ++ rest)))
      src s = (src.drop s).length := by
    show ((src.drop s).takeWhile (fun _ => true)).length = _
    rw [takeWhile_true]
  have hlast := maxExpand_last (s := s) (P := fun i => marked name ((src.drop s).drop i))
    (f := fun i => textAt src (s + i + 1 + (name.length + 1)))
    (fun i => by
      rw [List.drop_drop]
      exact matchPattern_marked h fuel (s + i)) (src.drop s).length
  refine (matchRepeated_star (k := matchPattern src (fuel + 4 + (name.length + 1) + 1))
    (p := bytes ".*[%?&]" ++ rest) (q := bytes "[%?&]" ++ rest)).trans ?_
  rw [hrun, hlast, ← behindLast_eq, Option.map_map]
  cases hi : lastUpTo (fun i => marked name ((src.drop s).drop i)) (src.drop s).length with
  | none => rfl
  | some i =>
      have hmarked := (lastUpTo_eq_some.mp hi).2.1
      rw [List.drop_drop] at hmarked
      have hle := marked_length hmarked
      simp only [Option.map_some, Function.comp_apply, List.drop_drop]
      rw [textAt_drop hle, show s + (i + 1 + (name.length + 1)) = s + i + 1 + (name.length + 1) by omega]

theorem matchPattern_parameter (h : Plain name) (s : Nat) :
    matchPattern src ((parameterPattern name).length + 1) (parameterPattern name) ⟨[]⟩ s =
      outcome ⟨[]⟩ ((if word.isPrefixOf (src.drop s) then
        behindLast name ((src.drop s).drop word.length) else none).map (restAt src.length)) := by
  have hfuel : (parameterPattern name).length + 1 =
      (9 + 4 + (name.length + 1) + 2) + word.length := by
    unfold parameterPattern
    rw [List.length_append, List.length_append, List.length_append,
      show (bytes ".*[%?&]").length = 7 from rfl, show (bytes "=([^&]*)").length = 8 from rfl]
    omega
  have hword : escape word = word := escape_plain (by decide +kernel)
  have hpattern := @matchPattern_escape src word
    (bytes ".*[%?&]" ++ (name ++ bytes "=([^&]*)")) (by decide) rfl
    (9 + 4 + (name.length + 1) + 2) ⟨[]⟩ s
  rw [hword] at hpattern
  rw [hfuel]
  refine hpattern.trans ?_
  split
  · rw [matchPattern_last h, List.drop_drop]
  · rfl

end

theorem behindLast_drop {name l : List UInt8} (h : behindLast name l = none) (n : Nat) :
    behindLast name (l.drop n) = none := by
  induction l generalizing n with
  | nil =>
      rw [List.drop_nil]
      rfl
  | cons c l ih =>
      cases n with
      | zero => exact h
      | succ n =>
          unfold behindLast at h
          exact ih (Option.or_eq_none_iff.mp h).1 n

theorem findSome_parameter (name : List UInt8) {α : Type} (f : List UInt8 → α) (l : List UInt8) :
    (List.range (l.length + 1)).findSome? (fun s =>
      (if word.isPrefixOf (l.drop s) then behindLast name ((l.drop s).drop word.length) else none).map f) =
      (parameter name l).map f := by
  unfold parameter
  induction l with
  | nil => rfl
  | cons c l ih =>
      rw [List.length_cons, List.range_succ_eq_map, List.findSome?_cons, List.findSome?_map]
      have hrest : ((fun s => (if word.isPrefixOf ((c :: l).drop s) then
            behindLast name (((c :: l).drop s).drop word.length) else none).map f) ∘ Nat.succ) =
          fun s => (if word.isPrefixOf (l.drop s) then
            behindLast name ((l.drop s).drop word.length) else none).map f := by
        funext s
        simp only [Function.comp_apply, Nat.succ_eq_add_one, List.drop_succ_cons]
      rw [hrest, List.drop_zero]
      unfold behindWord
      by_cases hw : word.isPrefixOf (c :: l) = true
      · rw [if_pos hw, if_pos hw, Option.bind_some]
        cases hb : behindLast name ((c :: l).drop word.length) with
        | some rest => rfl
        | none =>
            refine List.findSome?_eq_none_iff.mpr (fun s _ => ?_)
            have hlate : behindLast name ((l.drop s).drop word.length) = none := by
              have hdrop := behindLast_drop hb (s + 1)
              rw [List.drop_drop, Nat.add_comm word.length, ← List.drop_drop, List.drop_succ_cons] at hdrop
              exact hdrop
            rw [hlate, ite_self]
            rfl
      · rw [if_neg hw, if_neg hw]
        exact ih

theorem behindWord_suffix {l rest : List UInt8} (h : behindWord l = some rest) : rest <:+ l := by
  induction l with
  | nil => cases h
  | cons c l ih =>
      unfold behindWord at h
      split at h
      · rw [← Option.some.inj h]
        exact List.drop_suffix _ _
      · exact (ih h).trans (List.suffix_cons c l)

theorem behindLast_suffix {name l rest : List UInt8} (h : behindLast name l = some rest) :
    rest <:+ l := by
  induction l with
  | nil => cases h
  | cons c l ih =>
      unfold behindLast at h
      rcases Option.or_eq_some_iff.mp h with hl | ⟨-, hl⟩
      · exact (ih hl).trans (List.suffix_cons c l)
      · split at hl
        · rw [← Option.some.inj hl]
          exact (List.drop_suffix _ _).trans (List.suffix_cons c l)
        · cases hl

theorem parameter_suffix {name url rest : List UInt8} (h : parameter name url = some rest) :
    rest <:+ url := by
  obtain ⟨l, hl, hrest⟩ := Option.bind_eq_some_iff.mp h
  exact (behindLast_suffix hrest).trans (behindWord_suffix hl)

/-- str_find with the pattern of a parameter. -/
theorem find_parameter {name url : List UInt8} (h : Plain name) (hsize : url.length < 2 ^ 64) (len : Nat) :
    strFind url (parameterPattern name) false 0 (len + 1) =
      .ok ⟨(parameter name url).isSome, (parameter name url).map (fun rest => [captureOf url.length rest])⟩ := by
  have hspecial : (parameterPattern name).any (fun c => c ∈ specials) = true := by
    unfold parameterPattern
    rw [List.any_append, List.any_append]
    refine Bool.or_eq_true_iff.mpr (.inr (Bool.or_eq_true_iff.mpr (.inl ?_)))
    decide
  have hanchor : (parameterPattern name).headD 0 ≠ 94 := by
    show (bytes "network_settings").headD 0 ≠ 94
    decide
  rw [strFind_findSome hspecial hanchor (fun s => matchPattern_parameter h s)]
  simp only [Option.map_map]
  rw [findSome_parameter]
  refine congrArg Except.ok ?_
  cases hp : parameter name url with
  | none => rfl
  | some rest =>
      refine report_made (by simp) (fun c hc => ?_)
      rw [List.mem_singleton.mp hc]
      have htext : (textOf rest).length ≤ rest.length := (List.takeWhile_sublist _).length_le
      have hrest := (parameter_suffix hp).length_le
      exact Nat.lt_of_le_of_lt (Nat.le_trans htext hrest) hsize

/-- What a callback writes into a buffer for the text at the start of `rest`. -/
def store (buffer : List UInt8) : Option (List UInt8) → Except Undefined (List UInt8)
  | none => .ok buffer
  | some rest => snprintf buffer ((textOf rest).length + 1) rest

def securityOf (security : Security) : Option (List UInt8) → Security
  | none => security
  | some rest =>
      if strncmpEq (bytes "open") rest (textOf rest).length then .unsecured
      else if strncmpEq (bytes "wpa2") rest (textOf rest).length then .wpa2
      else security

theorem drop_capture {url rest : List UInt8} (h : rest <:+ url) :
    url.drop (captureOf url.length rest).init = rest := (List.suffix_iff_eq_drop.mp h).symm

section

variable {url : List UInt8} (hsize : url.length < 2 ^ 64) (s : Settings)

include hsize

theorem applyFilter_parameter {name : List UInt8} (h : Plain name)
    (clb : List UInt8 → List StringCapture → Settings → Settings) :
    applyFilter (bytes "URL") url s ⟨bytes "URL", parameterPattern name, clb⟩ =
      clb url (((parameter name url).map (fun rest => [captureOf url.length rest])).getD []) s := by
  unfold applyFilter
  rw [if_pos rfl, find_parameter h hsize 9]

theorem filter_ssid :
    applyFilter (bytes "URL") url s ⟨bytes "URL", parameterPattern (bytes "ssid"), clbSetSsid⟩ =
      ⟨s.wifi >>= fun wifi => do
          let ssid ← store wifi.ssid (parameter (bytes "ssid") url)
          .ok { wifi with ssid },
        s.cfgChanged || (parameter (bytes "ssid") url).isSome⟩ := by
  rw [applyFilter_parameter hsize s ⟨by decide +kernel, by decide +kernel⟩]
  cases hp : parameter (bytes "ssid") url with
  | none =>
      show s = _
      cases s with
      | mk wifi changed =>
          cases wifi with
          | error e => simp [bind, Except.bind]
          | ok wifi => simp [bind, Except.bind, store]
  | some rest =>
      have hdrop := drop_capture (parameter_suffix hp)
      show Settings.mk _ true = _
      simp only [Option.isSome_some, Bool.or_true]
      show Settings.mk (s.wifi >>= fun wifi => do
        let ssid ← snprintf wifi.ssid ((textOf rest).length + 1)
          (url.drop (captureOf url.length rest).init)
        .ok { wifi with ssid }) true = _
      rw [hdrop]
      rfl

theorem filter_security :
    applyFilter (bytes "URL") url s ⟨bytes "URL", parameterPattern (bytes "security"), clbSetSecurity⟩ =
      ⟨s.wifi >>= fun wifi =>
          .ok { wifi with security := securityOf wifi.security (parameter (bytes "security") url) },
        s.cfgChanged || (parameter (bytes "security") url).isSome⟩ := by
  rw [applyFilter_parameter hsize s ⟨by decide +kernel, by decide +kernel⟩]
  cases hp : parameter (bytes "security") url with
  | none =>
      show s = _
      cases s with
      | mk wifi changed =>
          cases wifi with
          | error e => simp [bind, Except.bind]
          | ok wifi => simp [bind, Except.bind, securityOf]
  | some rest =>
      have hdrop := drop_capture (parameter_suffix hp)
      simp only [Option.isSome_some, Bool.or_true]
      show Settings.mk (s.wifi >>= fun wifi =>
        if strncmpEq (bytes "open") (url.drop (captureOf url.length rest).init) (textOf rest).length then
          .ok { wifi with security := .unsecured }
        else if strncmpEq (bytes "wpa2") (url.drop (captureOf url.length rest).init) (textOf rest).length then
          .ok { wifi with security := .wpa2 }
        else .ok wifi) true = _
      rw [hdrop]
      refine congrArg (fun f => Settings.mk (s.wifi >>= f) true) (funext (fun wifi => ?_))
      unfold securityOf
      dsimp only
      split
      · rfl
      · split
        · rfl
        · rfl

theorem filter_passpharase :
    applyFilter (bytes "URL") url s
        ⟨bytes "URL", parameterPattern (bytes "passphrase"), clbSetPasspharas⟩ =
      ⟨s.wifi >>= fun wifi => do
          let passpharase ← store wifi.passpharase (parameter (bytes "passphrase") url)
          .ok { wifi with passpharase },
        s.cfgChanged || (parameter (bytes "passphrase") url).isSome⟩ := by
  rw [applyFilter_parameter hsize s ⟨by decide +kernel, by decide +kernel⟩]
  cases hp : parameter (bytes "passphrase") url with
  | none =>
      show s = _
      cases s with
      | mk wifi changed =>
          cases wifi with
          | error e => simp [bind, Except.bind]
          | ok wifi => simp [bind, Except.bind, store]
  | some rest =>
      have hdrop := drop_capture (parameter_suffix hp)
      simp only [Option.isSome_some, Bool.or_true]
      show Settings.mk (s.wifi >>= fun wifi => do
        let passpharase ← snprintf wifi.passpharase ((textOf rest).length + 1)
          (url.drop (captureOf url.length rest).init)
        .ok { wifi with passpharase }) true = _
      rw [hdrop]
      rfl

/-- What process_header_field does with a URL. -/
theorem processHeaderField_url (wifi : WifiSettings) (changed : Bool) :
    processHeaderField (bytes "URL") url ⟨.ok wifi, changed⟩ =
      ⟨do
          let ssid ← store wifi.ssid (parameter (bytes "ssid") url)
          let passpharase ← store wifi.passpharase (parameter (bytes "passphrase") url)
          .ok ⟨securityOf wifi.security (parameter (bytes "security") url), ssid, passpharase⟩,
        changed || (parameter (bytes "ssid") url).isSome || (parameter (bytes "security") url).isSome ||
          (parameter (bytes "passphrase") url).isSome⟩ := by
  have hfilters : fieldsOfInterest =
      [⟨bytes "URL", parameterPattern (bytes "ssid"), clbSetSsid⟩,
        ⟨bytes "URL", parameterPattern (bytes "security"), clbSetSecurity⟩,
        ⟨bytes "URL", parameterPattern (bytes "passphrase"), clbSetPasspharas⟩] := rfl
  unfold processHeaderField
  rw [hfilters, List.foldl_cons, List.foldl_cons, List.foldl_cons, List.foldl_nil, filter_ssid hsize,
    filter_security hsize, filter_passpharase hsize]
  simp only [bind, Except.bind]
  generalize store wifi.ssid (parameter (bytes "ssid") url) = ssid
  cases ssid with
  | error e => rfl
  | ok ssid => rfl

end

/-- A parameter of the URL fits when its text has at most `limit` bytes and no percent sign
stands in it or behind it. -/
def Fits (name : List UInt8) (limit : Nat) (url : List UInt8) : Prop :=
  ∀ rest, parameter name url = some rest → (textOf rest).length ≤ limit ∧ lEsc ∉ rest

/-- A buffer that is left alone, or that holds the captured text and its terminator. -/
def Kept (buffer buffer' : List UInt8) (rest : Option (List UInt8)) : Prop :=
  buffer' = buffer ∨ ∃ r, rest = some r ∧ textOf r ++ [0] <+: buffer'

theorem store_some (buffer rest : List UInt8) :
    store buffer (some rest) =
      (printed rest >>= fun out =>
        if (out.take (textOf rest).length).length + 1 ≤ buffer.length then
          .ok (out.take (textOf rest).length ++
            0 :: buffer.drop ((out.take (textOf rest).length).length + 1))
        else .error .overflow) := rfl

theorem take_textOf (rest : List UInt8) : rest.take (textOf rest).length = textOf rest :=
  (List.prefix_iff_eq_take.mp (List.takeWhile_prefix inValue)).symm

theorem store_plain {rest : List UInt8} (hesc : lEsc ∉ rest) (buffer : List UInt8) :
    store buffer (some rest) =
      if (textOf rest).length + 1 ≤ buffer.length then
        .ok (textOf rest ++ 0 :: buffer.drop ((textOf rest).length + 1))
      else .error .overflow := by
  rw [store_some, printed_plain hesc]
  change (if (rest.take (textOf rest).length).length + 1 ≤ buffer.length then _ else _) = _
  rw [take_textOf]

/-- snprintf prints the bytes of a parameter, which are its format, as they are. -/
def Literal (rest : Option (List UInt8)) : Prop := ∀ r, rest = some r → printed r = .ok r

theorem store_ok (buffer : List UInt8) (rest : Option (List UInt8)) :
    (Literal rest ∧ ∃ buffer', store buffer rest = .ok buffer' ∧ Kept buffer buffer' rest) ↔
      ∀ r, rest = some r → (textOf r).length + 1 ≤ buffer.length ∧ lEsc ∉ r := by
  cases rest with
  | none => exact ⟨fun _ _ hr => (nomatch hr), fun _ => ⟨nofun, buffer, rfl, .inl rfl⟩⟩
  | some rest =>
      constructor
      · rintro ⟨hliteral, buffer', hs, -⟩ r hr
        obtain rfl := Option.some.inj hr
        have hesc := printed_self.mp (hliteral rest rfl)
        rw [store_plain hesc] at hs
        split at hs
        · rename_i hle
          exact ⟨hle, hesc⟩
        · cases hs
      · intro h
        obtain ⟨hle, hesc⟩ := h rest rfl
        rw [store_plain hesc, if_pos hle]
        refine ⟨fun r hr => ?_, _, rfl, .inr ⟨rest, rfl, ?_⟩⟩
        · obtain rfl := Option.some.inj hr
          exact printed_plain hesc
        · exact ⟨buffer.drop ((textOf rest).length + 1), by simp⟩

/-- The buffers of struct wifi_settings. -/
structure Sized (wifi : WifiSettings) : Prop where
  ssid : wifi.ssid.length = maxSsidLength + 1
  passpharase : wifi.passpharase.length = maxPassphraseLength + 1

/-- A text in memory, without its terminator. -/
structure IsString (text : List UInt8) : Prop where
  terminator : 0 ∉ text
  size : text.length < 2 ^ 64

/-- What process_header_field is to do with a URL: to stay inside the two buffers, to print
no text of the URL as a format, and to leave each buffer alone or with its text. -/
def Safe (url : List UInt8) (wifi : WifiSettings) (changed : Bool) : Prop :=
  Literal (parameter (bytes "ssid") url) ∧ Literal (parameter (bytes "passphrase") url) ∧
  ∃ wifi', (processHeaderField (bytes "URL") url ⟨.ok wifi, changed⟩).wifi = .ok wifi' ∧
    Kept wifi.ssid wifi'.ssid (parameter (bytes "ssid") url) ∧
    Kept wifi.passpharase wifi'.passpharase (parameter (bytes "passphrase") url)

/-- The settings are safe from a URL if and only if its SSID and its passphrase fit. -/
theorem url_safe_iff {url : List UInt8} (h : IsString url) {wifi : WifiSettings} (hwifi : Sized wifi)
    (changed : Bool) :
    Safe url wifi changed ↔
      Fits (bytes "ssid") maxSsidLength url ∧ Fits (bytes "passphrase") maxPassphraseLength url := by
  have hssid := store_ok wifi.ssid (parameter (bytes "ssid") url)
  have hpass := store_ok wifi.passpharase (parameter (bytes "passphrase") url)
  rw [hwifi.ssid] at hssid
  rw [hwifi.passpharase] at hpass
  simp only [Nat.add_le_add_iff_right] at hssid hpass
  unfold Safe Fits
  rw [← hssid, ← hpass, processHeaderField_url h.size]
  constructor
  · rintro ⟨hliteral, hliteral', wifi', hs, hkept, hkept'⟩
    obtain ⟨ssid, hstore, hs⟩ := bind_eq_ok hs
    obtain ⟨passpharase, hstore', hs⟩ := bind_eq_ok hs
    cases hs
    exact ⟨⟨hliteral, ssid, hstore, hkept⟩, ⟨hliteral', passpharase, hstore', hkept'⟩⟩
  · rintro ⟨⟨hliteral, ssid, hstore, hkept⟩, ⟨hliteral', passpharase, hstore', hkept'⟩⟩
    refine ⟨hliteral, hliteral', ⟨securityOf wifi.security (parameter (bytes "security") url), ssid,
      passpharase⟩, ?_, hkept, hkept'⟩
    dsimp only
    rw [hstore, hstore']
    rfl

def blankWifi : WifiSettings :=
  ⟨.unsecured, List.replicate (maxSsidLength + 1) 0, List.replicate (maxPassphraseLength + 1) 0⟩

theorem url_safe_iff_home :
    Safe (bytes "/network_settings?ssid=home&passphrase=secret") blankWifi false := by
  refine (url_safe_iff ⟨by decide, by decide⟩ ⟨rfl, rfl⟩ false).mpr ⟨?_, ?_⟩
  · intro rest hr
    obtain rfl : bytes "home&passphrase=secret" = rest := by
      refine Option.some.inj (Eq.trans ?_ hr)
      decide
    decide
  · intro rest hr
    obtain rfl : bytes "secret" = rest := by
      refine Option.some.inj (Eq.trans ?_ hr)
      decide
    decide

/-- A byte of the URL is taken for a conversion. -/
theorem percent_is_conversion :
    IsString (bytes "/network_settings?ssid=%n") ∧ Sized blankWifi ∧
      ¬ Safe (bytes "/network_settings?ssid=%n") blankWifi false := by
  refine ⟨⟨by decide, by decide⟩, ⟨rfl, rfl⟩, ?_⟩
  rintro ⟨-, -, wifi', hs, -⟩
  have herror : (processHeaderField (bytes "URL") (bytes "/network_settings?ssid=%n")
      ⟨.ok blankWifi, false⟩).wifi.isOk = false := by decide
  rw [hs] at herror
  cases herror

end ErSdk.ConfiguratorUrl
