import ErSdk.Pmatch

namespace ErSdk.ConfiguratorFields

open Pmatch

def maxSsidLength : Nat := 32

def maxPassphraseLength : Nat := 64

inductive Security
  | unsecured
  | wpa2
  deriving DecidableEq, Repr

/-- struct wifi_settings, with the bytes of its two buffers. -/
structure WifiSettings where
  security : Security
  ssid : List UInt8
  passpharase : List UInt8
  deriving DecidableEq, Repr

/-- Why the settings are no longer what the text of a URL makes them: the pattern matcher
left its buffers, snprintf took bytes of the URL for a conversion and had no argument for it, or
snprintf wrote behind a buffer. -/
inductive Undefined
  | search (fault : Pmatch.Fault)
  | conversion
  | overflow
  deriving DecidableEq, Repr

/-- `wifi` and `cfg_changed` of the server. -/
structure Settings where
  wifi : Except Undefined WifiSettings
  cfgChanged : Bool
  deriving Repr

/-- What a format prints that no arguments follow: two percent signs make one, and any other
conversion asks for an argument. -/
def printed : List UInt8 → Except Undefined (List UInt8)
  | [] => .ok []
  | [c] => if c = lEsc then .error .conversion else .ok [c]
  | c :: x :: format =>
      if c = lEsc then
        if x = lEsc then (printed format).map (lEsc :: ·) else .error .conversion
      else (printed (x :: format)).map (c :: ·)

/-- snprintf without arguments behind the format: it writes the first `n - 1` bytes of what the
format prints, and a terminator. -/
def snprintf (dst : List UInt8) (n : Nat) (format : List UInt8) :
    Except Undefined (List UInt8) := do
  let out ← printed format
  let text := out.take (n - 1)
  if text.length + 1 ≤ dst.length then .ok (text ++ 0 :: dst.drop (text.length + 1))
  else .error .overflow

theorem printed_cons {c : UInt8} (hc : c ≠ lEsc) (format : List UInt8) :
    printed (c :: format) = (printed format).map (c :: ·) := by
  cases format with
  | nil => exact if_neg hc
  | cons x format => exact if_neg hc

theorem printed_append {a : List UInt8} (ha : lEsc ∉ a) (format : List UInt8) :
    printed (a ++ format) = (printed format).map (a ++ ·) := by
  induction a with
  | nil =>
      cases h : printed format with
      | error e => exact h
      | ok out => exact h
  | cons c a ih =>
      rw [List.mem_cons, not_or] at ha
      rw [List.cons_append, printed_cons (Ne.symm ha.1), ih ha.2]
      cases printed format with
      | error e => rfl
      | ok out => rfl

theorem printed_plain {format : List UInt8} (h : lEsc ∉ format) : printed format = .ok format := by
  have happend := printed_append h []
  rw [List.append_nil] at happend
  rw [happend, printed, Except.map, List.append_nil]

theorem printed_length {format out : List UInt8} (h : printed format = .ok out) :
    out.length ≤ format.length ∧ (lEsc ∈ format → out.length < format.length) := by
  fun_induction printed format generalizing out with
  | case1 =>
      obtain rfl := Except.ok.inj h
      exact ⟨Nat.le_refl _, nofun⟩
  | case2 => cases h
  | case3 c hc =>
      obtain rfl := Except.ok.inj h
      exact ⟨Nat.le_refl _, fun hmem => absurd (List.mem_singleton.mp hmem).symm hc⟩
  | case4 format ih =>
      cases hrest : printed format with
      | error e =>
          rw [hrest] at h
          cases h
      | ok rest =>
          rw [hrest] at h
          obtain rfl := Except.ok.inj h
          have hle := (ih hrest).1
          simp only [List.length_cons]
          omega
  | case5 => cases h
  | case6 c x format hc ih =>
      cases hrest : printed (x :: format) with
      | error e =>
          rw [hrest] at h
          cases h
      | ok rest =>
          rw [hrest] at h
          obtain rfl := Except.ok.inj h
          obtain ⟨hle, hlt⟩ := ih hrest
          rw [List.length_cons, List.length_cons]
          refine ⟨Nat.succ_le_succ hle, fun hmem => Nat.succ_lt_succ (hlt ?_)⟩
          exact (List.mem_cons.mp hmem).resolve_left (Ne.symm hc)

theorem printed_self {format : List UInt8} : printed format = .ok format ↔ lEsc ∉ format :=
  ⟨fun h hmem => Nat.lt_irrefl _ ((printed_length h).2 hmem), printed_plain⟩

def strncmpEq : List UInt8 → List UInt8 → Nat → Bool
  | _, _, 0 => true
  | [], [], _ + 1 => true
  | x :: a, y :: b, n + 1 => x = y && strncmpEq a b n
  | _, _, _ + 1 => false

/-- A callback for a captured text changes the settings and marks them as changed. -/
def Settings.change (f : WifiSettings → Except Undefined WifiSettings) (s : Settings) : Settings :=
  ⟨s.wifi >>= f, true⟩

/-- `value` is the subject that the captures point into. -/
def clbSetSsid (value : List UInt8) (captures : List StringCapture) (s : Settings) : Settings :=
  match captures with
  | [] => s
  | cap :: _ => s.change (fun wifi => do
      let ssid ← snprintf wifi.ssid (cap.len + 1) (value.drop cap.init)
      .ok { wifi with ssid })

def clbSetSecurity (value : List UInt8) (captures : List StringCapture) (s : Settings) : Settings :=
  match captures with
  | [] => s
  | cap :: _ => s.change (fun wifi =>
      if strncmpEq (bytes "open") (value.drop cap.init) cap.len then
        .ok { wifi with security := .unsecured }
      else if strncmpEq (bytes "wpa2") (value.drop cap.init) cap.len then
        .ok { wifi with security := .wpa2 }
      else .ok wifi)

def clbSetPasspharas (value : List UInt8) (captures : List StringCapture) (s : Settings) : Settings :=
  match captures with
  | [] => s
  | cap :: _ => s.change (fun wifi => do
      let passpharase ← snprintf wifi.passpharase (cap.len + 1) (value.drop cap.init)
      .ok { wifi with passpharase })

structure HeaderFieldFilter where
  headerField : List UInt8
  pattern : List UInt8
  clb : List UInt8 → List StringCapture → Settings → Settings

def fieldsOfInterest : List HeaderFieldFilter :=
  [⟨bytes "URL", bytes "network_settings.*[%?&]ssid=([^&]*)", clbSetSsid⟩,
    ⟨bytes "URL", bytes "network_settings.*[%?&]security=([^&]*)", clbSetSecurity⟩,
    ⟨bytes "URL", bytes "network_settings.*[%?&]passphrase=([^&]*)", clbSetPasspharas⟩]

/-- Without a match the number of captures stays 0. -/
def applyFilter (field value : List UInt8) (s : Settings) (filter : HeaderFieldFilter) : Settings :=
  if field = filter.headerField then
    match strFind value filter.pattern false 0 10 with
    | .ok find => filter.clb value (find.captures.getD []) s
    | .error fault => { s with wifi := .error (.search fault) }
  else s

def processHeaderField (field value : List UInt8) (s : Settings) : Settings :=
  fieldsOfInterest.foldl (applyFilter field value) s

end ErSdk.ConfiguratorFields
