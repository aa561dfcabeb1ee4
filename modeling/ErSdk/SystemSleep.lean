import ErSdk.SystemPoll
import Mathlib.Data.Nat.Find

namespace ErSdk.SystemSleep

open Pclb SystemPoll Runs

/-- The `j`-th reading is the first one since the `n`-th at which `delay` milliseconds have passed. -/
structure Due (clock : Nat → Nat) (delay n j : Nat) : Prop where
  since : n ≤ j
  passed : clock n + delay ≤ clock j
  first : ∀ k, n ≤ k → k < j → clock k < clock n + delay

/-- A clock that is read over and over advances without end. -/
structure Advances (clock : Nat → Nat) : Prop where
  monotone : Monotone clock
  unbounded : ∀ t, ∃ i, t ≤ clock i

theorem Advances.due {clock : Nat → Nat} (h : Advances clock) (delay n : Nat) :
    ∃ j, Due clock delay n j := by
  have hpassed : ∃ d, clock n + delay ≤ clock (n + d) := by
    obtain ⟨i, hi⟩ := h.unbounded (clock n + delay)
    exact ⟨i, hi.trans (h.monotone (Nat.le_add_left i n))⟩
  refine ⟨n + Nat.find hpassed, Nat.le_add_right _ _, Nat.find_spec hpassed, fun k hn hk => ?_⟩
  have hearly := Nat.find_min hpassed (show k - n < Nat.find hpassed by omega)
  rw [Nat.add_sub_cancel' hn] at hearly
  exact Nat.lt_of_not_le hearly

theorem Due.unique {clock : Nat → Nat} {delay n i j : Nat} (hi : Due clock delay n i)
    (hj : Due clock delay n j) : i = j := by
  rcases Nat.lt_trichotomy i j with hlt | heq | hgt
  · exact absurd hi.passed (Nat.not_le_of_lt (hj.first i hi.since hlt))
  · exact heq
  · exact absurd hj.passed (Nat.not_le_of_lt (hi.first j hj.since hgt))

namespace Exos

variable (clock : Nat → Nat)

/-- The `n`-th reading of the clock. -/
def platformGetTimeMs (n : Nat) : SysTime := UInt32.ofNat (clock n)

/-- The loop of system_sleep_ms while `end` holds the `i`-th reading: the reading with which it
ends, none if `fuel` tests are not enough. -/
def sleepLoop (target : UInt64) : Nat → Nat → Option Nat
  | 0, _ => none
  | fuel + 1, i =>
      if target > (platformGetTimeMs clock i).toUInt64 then sleepLoop target fuel (i + 1) else some i

/-- The sum is one of 64 bits, as the type of `delay_ms` is. -/
def systemSleepMs (delayMs : UInt64) (fuel n : Nat) : Option Nat :=
  sleepLoop clock ((platformGetTimeMs clock n).toUInt64 + delayMs) fuel n

/-- The call that reads its start time with the `n`-th reading returns, with the first reading at
which the delay is over. -/
def Sleeps (delayMs : UInt64) (n : Nat) : Prop :=
  ∃ j, Due clock delayMs.toNat n j ∧ ∃ fuel, systemSleepMs clock delayMs fuel n = some j

variable {clock}

theorem sleepLoop_sound {target : UInt64} {fuel i j : Nat}
    (h : sleepLoop clock target fuel i = some j) :
    i ≤ j ∧ target ≤ (platformGetTimeMs clock j).toUInt64 ∧
      ∀ k, i ≤ k → k < j → (platformGetTimeMs clock k).toUInt64 < target := by
  induction fuel generalizing i with
  | zero => exact absurd h nofun
  | succ fuel ih =>
      rw [sleepLoop] at h
      split at h
      · rename_i hwait
        obtain ⟨hle, htarget, hbefore⟩ := ih h
        refine ⟨Nat.le_of_succ_le hle, htarget, fun k hik hkj => ?_⟩
        rcases Nat.eq_or_lt_of_le hik with rfl | hlt
        · exact hwait
        · exact hbefore k hlt hkj
      · rename_i hstop
        obtain rfl := Option.some.inj h
        exact ⟨Nat.le_refl _, UInt64.not_lt.mp hstop, fun k hik hki => absurd hki (Nat.not_lt.mpr hik)⟩

theorem sleepLoop_complete {target : UInt64} {j : Nat}
    (htarget : target ≤ (platformGetTimeMs clock j).toUInt64) (d : Nat) {i : Nat} (hj : i + d = j)
    (hbefore : ∀ k, i ≤ k → k < j → (platformGetTimeMs clock k).toUInt64 < target) :
    sleepLoop clock target (d + 1) i = some j := by
  induction d generalizing i with
  | zero =>
      obtain rfl : i = j := hj
      rw [sleepLoop, if_neg (UInt64.not_lt.mpr htarget)]
  | succ d ih =>
      have hwait := hbefore i (Nat.le_refl i) (by omega)
      rw [sleepLoop, if_pos hwait]
      exact ih (by omega) (fun k hik hkj => hbefore k (Nat.le_of_succ_le hik) hkj)

theorem sleepLoop_iff {target : UInt64} {i j : Nat} :
    (∃ fuel, sleepLoop clock target fuel i = some j) ↔
      i ≤ j ∧ target ≤ (platformGetTimeMs clock j).toUInt64 ∧
        ∀ k, i ≤ k → k < j → (platformGetTimeMs clock k).toUInt64 < target := by
  constructor
  · rintro ⟨fuel, h⟩
    exact sleepLoop_sound h
  · rintro ⟨hle, htarget, hbefore⟩
    exact ⟨_, sleepLoop_complete htarget (j - i) (Nat.add_sub_cancel' hle) hbefore⟩

theorem reading_toNat (n : Nat) : (platformGetTimeMs clock n).toUInt64.toNat = clock n % 2 ^ 32 := by
  rw [UInt32.toNat_toUInt64, platformGetTimeMs, UInt32.toNat_ofNat']

theorem target_toNat {delayMs : UInt64} (hdelay : delayMs.toNat < 2 ^ 32) (n : Nat) :
    ((platformGetTimeMs clock n).toUInt64 + delayMs).toNat = clock n % 2 ^ 32 + delayMs.toNat := by
  rw [UInt64.toNat_add, reading_toNat]
  omega

theorem sleeps_for_ever {delayMs : UInt64} {n : Nat} (hdelay : delayMs.toNat < 2 ^ 32)
    (h : 2 ^ 32 ≤ clock n % 2 ^ 32 + delayMs.toNat) (fuel : Nat) :
    systemSleepMs clock delayMs fuel n = none := by
  cases hend : systemSleepMs clock delayMs fuel n with
  | none => rfl
  | some j =>
      have htarget := UInt64.le_iff_toNat_le.mp (sleepLoop_sound hend).2.1
      rw [target_toNat hdelay, reading_toNat] at htarget
      omega

theorem ends_iff (hclock : Monotone clock) {delayMs : UInt64} (hdelay : delayMs.toNat < 2 ^ 32)
    {n j : Nat} (hdue : Due clock delayMs.toNat n j) :
    (∃ fuel, systemSleepMs clock delayMs fuel n = some j) ↔
      clock n % 2 ^ 32 + delayMs.toNat ≤ clock j % 2 ^ 32 := by
  have hearly (k : Nat) (hnk : n ≤ k) (hkj : k < j) : (platformGetTimeMs clock k).toUInt64 <
      (platformGetTimeMs clock n).toUInt64 + delayMs := by
    have hpast := hclock hnk
    have hshort := hdue.first k hnk hkj
    rw [UInt64.lt_iff_toNat_lt, target_toNat hdelay, reading_toNat]
    omega
  unfold systemSleepMs
  have hreading : (platformGetTimeMs clock j).toUInt64.toNat = clock j % 2 ^ 32 := reading_toNat j
  rw [sleepLoop_iff, ← target_toNat hdelay, ← hreading, ← UInt64.le_iff_toNat_le]
  exact ⟨fun h => h.2.1, fun h => ⟨hdue.since, h, hearly⟩⟩

/-- The wait ends when it should exactly if the first reading behind the delay still shows no less
than the sum of the start time and the delay, which the wrap of the clock takes away. -/
theorem sleeps_iff (hclock : Advances clock) {delayMs : UInt64} (hdelay : delayMs.toNat < 2 ^ 32)
    (n : Nat) : Sleeps clock delayMs n ↔ ∀ j, Due clock delayMs.toNat n j →
      clock n % 2 ^ 32 + delayMs.toNat ≤ clock j % 2 ^ 32 := by
  constructor
  · rintro ⟨i, hi, hends⟩ j hj
    obtain rfl := hi.unique hj
    exact (ends_iff hclock.monotone hdelay hi).mp hends
  · intro h
    obtain ⟨j, hj⟩ := hclock.due delayMs.toNat n
    exact ⟨j, hj, (ends_iff hclock.monotone hdelay hj).mpr (h j hj)⟩

theorem advances_id : Advances id := ⟨monotone_id, fun t => ⟨t, Nat.le_refl t⟩⟩

theorem sleeps_iff_short : Sleeps id 3 7 :=
  (sleeps_iff advances_id (by decide) 7).mpr (fun j hj => by
    have hj' : j = 10 := by
      have hpast : 7 + 3 ≤ j := hj.passed
      by_contra hne
      exact absurd (hj.first 10 (by decide) (by omega)) (by decide)
    rw [hj']
    decide)

/-- Five milliseconds before the wrap a delay of ten never ends. -/
theorem wrap_never_ends : Advances (· + (2 ^ 32 - 5)) ∧
    (∀ fuel, systemSleepMs (· + (2 ^ 32 - 5)) 10 fuel 0 = none) ∧
    ¬ Sleeps (· + (2 ^ 32 - 5)) 10 0 := by
  have hnever (fuel : Nat) : systemSleepMs (· + (2 ^ 32 - 5)) 10 fuel 0 = none :=
    sleeps_for_ever (by decide) (by decide) fuel
  refine ⟨⟨fun i j h => Nat.add_le_add_right h _, fun t => ⟨t, Nat.le_add_right t _⟩⟩, hnever, ?_⟩
  rintro ⟨j, -, fuel, hends⟩
  exact absurd ((hnever fuel).symm.trans hends) nofun

theorem Due.exact (htick : ∀ i, clock (i + 1) ≤ clock i + 1) {delay n j : Nat}
    (h : Due clock delay n j) : clock j = clock n + delay := by
  have hpast := h.passed
  rcases Nat.eq_or_lt_of_le h.since with rfl | hlt
  · omega
  · obtain ⟨i, rfl⟩ : ∃ i, j = i + 1 := ⟨j - 1, by omega⟩
    have hshort := h.first i (Nat.le_of_lt_succ hlt) (Nat.lt_succ_self i)
    have hnext := htick i
    omega

theorem sleeps_ticking (hclock : Advances clock) (htick : ∀ i, clock (i + 1) ≤ clock i + 1)
    {delayMs : UInt64} (hdelay : delayMs.toNat < 2 ^ 32) (n : Nat) :
    Sleeps clock delayMs n ↔ clock n % 2 ^ 32 + delayMs.toNat < 2 ^ 32 := by
  obtain ⟨j, hj⟩ := hclock.due delayMs.toNat n
  have hends := ends_iff hclock.monotone hdelay hj
  rw [Due.exact htick hj] at hends
  constructor
  · rintro ⟨i, hi, hi'⟩
    obtain rfl := hi.unique hj
    have hsum := hends.mp hi'
    omega
  · intro h
    exact ⟨j, hj, hends.mpr (by omega)⟩

end Exos

namespace Posix

structure Timespec where
  tvSec : Int
  tvNsec : Int
deriving DecidableEq, Repr

/-- system_sleep_ms up to its call of nanosleep. The cast is one of `nanosec`, not of the quotient. -/
def systemSleepMs (delayMs : UInt64) : Timespec :=
  let nanosec := delayMs * 1000000
  { tvSec := (nanosec.toUInt32 / 1000000000).toNat
    tvNsec := (nanosec % 1000000000).toNat }

def nanosleeps (clock : Nat → Nat) (s : System) : Action → List Timespec
  | .poll _ => []
  | .delay ms _ =>
      if s.delay = none ∧ s.hasThread = true then [systemSleepMs ms.toUInt64] else []
  | .round _ =>
      match s.delay with
      | none => []
      | some d =>
          if s.diffTime clock d < d.ms then [systemSleepMs (if d.ms ≤ 10 then d.ms else 10).toUInt64]
          else []

/-- A request for exactly `ms` milliseconds. -/
structure Timespec.Asks (t : Timespec) (ms : Nat) : Prop where
  total : t.tvSec * 1000000000 + t.tvNsec = ms * 1000000
  nonneg : 0 ≤ t.tvNsec
  below : t.tvNsec < 1000000000

theorem nanosec_toNat (ms : SysTime) : (ms.toUInt64 * 1000000).toNat = ms.toNat * 1000000 := by
  have hlt := ms.toNat_lt
  rw [UInt64.toNat_mul, UInt32.toNat_toUInt64]
  exact Nat.mod_eq_of_lt (by simp; omega)

theorem tvSec_eq (ms : SysTime) : (systemSleepMs ms.toUInt64).tvSec =
    (ms.toNat * 1000000 % 2 ^ 32 / 1000000000 : Nat) := by
  have hquotient (n : UInt64) : (n.toUInt32 / 1000000000).toNat = n.toNat % 2 ^ 32 / 1000000000 := by
    rw [UInt32.toNat_div, UInt64.toNat_toUInt32, UInt32.toNat_ofNat_of_lt (by decide)]
  exact congrArg Int.ofNat ((hquotient _).trans (by rw [nanosec_toNat]))

theorem tvNsec_eq (ms : SysTime) : (systemSleepMs ms.toUInt64).tvNsec =
    (ms.toNat * 1000000 % 1000000000 : Nat) := by
  have hrest (n : UInt64) : (n % 1000000000).toNat = n.toNat % 1000000000 := by
    rw [UInt64.toNat_mod, UInt64.toNat_ofNat_of_lt (by decide)]
  exact congrArg Int.ofNat ((hrest _).trans (by rw [nanosec_toNat]))

theorem asks_iff (ms : SysTime) :
    (systemSleepMs ms.toUInt64).Asks ms.toNat ↔ ms.toNat ≤ 4294 := by
  have hlt := ms.toNat_lt
  constructor
  · intro h
    have htotal := h.total
    rw [tvSec_eq, tvNsec_eq] at htotal
    omega
  · intro h
    constructor
    · rw [tvSec_eq, tvNsec_eq]
      omega
    · rw [tvNsec_eq]
      omega
    · rw [tvNsec_eq]
      omega

theorem round_asks (clock : Nat → Nat) (s : System) (within : Int → List RegisterArgs) :
    ∀ t ∈ nanosleeps clock s (.round within), ∃ ms ≤ 10, t.Asks ms := by
  intro t ht
  unfold nanosleeps at ht
  dsimp only at ht
  split at ht
  · exact absurd ht (List.not_mem_nil)
  · rename_i d hd
    split at ht
    · rw [List.mem_singleton.mp ht]
      refine ⟨(if d.ms ≤ 10 then d.ms else 10).toNat, ?_, (asks_iff _).mpr ?_⟩
      · split
        · rename_i hle
          exact UInt32.le_iff_toNat_le.mp hle
        · exact Nat.le_refl 10
      · split
        · rename_i hle
          exact (UInt32.le_iff_toNat_le.mp hle).trans (by decide)
        · decide
    · exact absurd ht (List.not_mem_nil)

/-- With a thread no call is ever in its loop. -/
structure Threaded (s : System) : Prop where
  hasThread : s.hasThread = true
  delay : s.delay = none

theorem Threaded.step {clock : Nat → Nat} {s : System} (h : Threaded s) (a : Action) :
    Threaded (System.step clock s a) := by
  have hpoll (t : System) (ht : t.hasThread = true) (ms : SysTime) (within : Int → List RegisterArgs) :
      t.systemPoll clock ms within = t := by
    unfold System.systemPoll
    rw [if_neg (by rw [ht]; decide)]
  unfold System.step
  rw [h.delay]
  cases a with
  | poll within =>
      dsimp only
      rw [hpoll s h.hasThread]
      exact h
  | delay ms within =>
      dsimp only
      unfold System.systemDelayAndPoll
      dsimp only
      rw [if_pos h.hasThread, hpoll s.read h.hasThread]
      exact ⟨h.hasThread, h.delay⟩
  | round within => exact h

/-- With a thread system_delay_and_poll asks nanosleep for the delay exactly if it is at most 4294
milliseconds. -/
theorem delay_asks_iff (clock : Nat → Nat) (registry : Registry) (acts : List Action) (ms : SysTime)
    (within : Int → List RegisterArgs) :
    let s := run (System.step clock) (System.start registry true) acts
    (∃ t, nanosleeps clock s (.delay ms within) = [t] ∧ t.Asks ms.toNat) ↔ ms.toNat ≤ 4294 := by
  intro s
  have hs : Threaded s := Runs.invariant (fun _ a h => h.step a) acts ⟨rfl, rfl⟩
  have hcall : nanosleeps clock s (.delay ms within) = [systemSleepMs ms.toUInt64] :=
    if_pos ⟨hs.delay, hs.hasThread⟩
  rw [hcall, ← asks_iff]
  constructor
  · rintro ⟨t, ht, hasks⟩
    rwa [List.singleton_inj.mp ht]
  · intro h
    exact ⟨_, rfl, h⟩

/-- Five seconds become no time at all. -/
theorem five_seconds : nanosleeps (fun _ => 0) (System.start Registry.empty true)
      (.delay 5000 (fun _ => [])) = [⟨0, 0⟩] ∧ ¬ (Timespec.mk 0 0).Asks 5000 :=
  ⟨rfl, fun h => absurd h.total (by decide)⟩

end Posix

end ErSdk.SystemSleep
