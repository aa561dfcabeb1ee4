import ErSdk.Basic
import ErSdk.Runs

namespace ErSdk.Rtc

open Runs

/-- The two statics of rtc.c. -/
structure Statics where
  systemTimeLinux : SysTime
  previousSystemTime : SysTime
  deriving DecidableEq, Repr

/-- The reading of the clock when `t` milliseconds have passed since it was zero. -/
def systemGetTime (t : Nat) : SysTime := UInt32.ofNat t

def rtcSet (newTime : SysTime) (t : Nat) : Statics := ⟨newTime, systemGetTime t⟩

def rtcGet (s : Statics) : SysTime := s.systemTimeLinux

def rtcPeriodic (s : Statics) (t : Nat) : Statics :=
  let systemTime := systemGetTime t
  { systemTimeLinux := s.systemTimeLinux + (systemTime - s.previousSystemTime) / 1000
    previousSystemTime := systemTime - (systemTime - s.previousSystemTime) % 1000 }

/-- The calls of all callers, at the times of a list, the first one after `t`: time does not go
back, and each gap is below 2^32 - 1000. -/
def Spaced : Nat → List Nat → Prop
  | _, [] => True
  | t, next :: calls => t ≤ next ∧ next - t < 2 ^ 32 - 1000 ∧ Spaced next calls

instance decidableSpaced : (t : Nat) → (calls : List Nat) → Decidable (Spaced t calls)
  | _, [] => .isTrue trivial
  | t, next :: calls =>
      have := decidableSpaced next calls
      inferInstanceAs (Decidable (t ≤ next ∧ next - t < 2 ^ 32 - 1000 ∧ Spaced next calls))

/-- What the statics hold at time `t`, when rtc_set has been called at `set`: the seconds that
are full, and the moment at which the last of them was. -/
structure Kept (t0 : SysTime) (set t : Nat) (s : Statics) : Prop where
  ordered : set ≤ t
  seconds : s.systemTimeLinux = t0 + UInt32.ofNat ((t - set) / 1000)
  residue : s.previousSystemTime = systemGetTime (t - (t - set) % 1000)

theorem kept_rtcSet (t0 : SysTime) (t : Nat) : Kept t0 t t (rtcSet t0 t) := by
  constructor <;> simp [rtcSet]

theorem Kept.difference {t0 : SysTime} {set t next : Nat} {s : Statics} (h : Kept t0 set t s)
    (hle : t ≤ next) : systemGetTime next - s.previousSystemTime =
      UInt32.ofNat (next - t + (t - set) % 1000) := by
  have hresidue : (t - set) % 1000 ≤ t - set := Nat.mod_le _ _
  rw [h.residue, systemGetTime, systemGetTime, ← UInt32.ofNat_sub (by omega)]
  congr 1
  have := h.ordered
  omega

theorem Kept.periodic {t0 : SysTime} {set t next : Nat} {s : Statics} (h : Kept t0 set t s)
    (hle : t ≤ next) (hgap : next - t < 2 ^ 32 - 1000) :
    Kept t0 set next (rtcPeriodic s next) := by
  have hset := h.ordered
  have hlt : next - t + (t - set) % 1000 < 2 ^ 32 := by omega
  have hdiv : (next - set) / 1000 =
      (t - set) / 1000 + (next - t + (t - set) % 1000) / 1000 := by omega
  have hmod : (next - set) % 1000 = (next - t + (t - set) % 1000) % 1000 := by omega
  refine ⟨Nat.le_trans hset hle, ?_, ?_⟩
  · rw [hdiv, UInt32.ofNat_add, UInt32.ofNat_div hlt (by decide), ← UInt32.add_assoc, ← h.seconds,
      ← h.difference hle]
    rfl
  · have hresidue : (next - t + (t - set) % 1000) % 1000 ≤ next := by omega
    rw [hmod, systemGetTime, UInt32.ofNat_sub hresidue, UInt32.ofNat_mod hlt (by decide),
      ← h.difference hle]
    rfl

theorem Kept.after {t0 : SysTime} {set t : Nat} {calls : List Nat} {s : Statics}
    (h : Kept t0 set t s) (hspaced : Spaced t calls) (i : Nat) (hi : i < calls.length) :
    Kept t0 set calls[i] (run rtcPeriodic s (calls.take (i + 1))) := by
  induction calls generalizing t s i with
  | nil => exact absurd hi (Nat.not_lt_zero _)
  | cons next calls ih =>
      obtain ⟨hle, hgap, hrest⟩ := hspaced
      have hnext := h.periodic hle hgap
      cases i with
      | zero => exact hnext
      | succ i => exact ih hnext hrest i (Nat.lt_of_succ_lt_succ hi)

/-- After each call of rtc_periodic rtc_get gives the time that was set and the full seconds
that have passed since then. -/
theorem no_time_lost (t0 : SysTime) (set : Nat) {calls : List Nat} (h : Spaced set calls) (i : Nat)
    (hi : i < calls.length) : rtcGet (run rtcPeriodic (rtcSet t0 set) (calls.take (i + 1))) =
      t0 + UInt32.ofNat ((calls[i] - set) / 1000) :=
  ((kept_rtcSet t0 set).after h i hi).seconds

/-- Two callers, and a clock that wraps between the second call and the third one. -/
theorem no_time_lost_wrapped : rtcGet (run rtcPeriodic (rtcSet 7 (2 ^ 32 - 2500))
      [2 ^ 32 - 1700, 2 ^ 32 - 1000, 2 ^ 32 + 600]) = 7 + UInt32.ofNat 3 := by
  have hspaced : Spaced (2 ^ 32 - 2500) [2 ^ 32 - 1700, 2 ^ 32 - 1000, 2 ^ 32 + 600] := by decide
  exact no_time_lost 7 _ hspaced 2 (by decide)

end ErSdk.Rtc
