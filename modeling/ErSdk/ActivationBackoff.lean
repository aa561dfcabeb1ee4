import ErSdk.ExositeRuns
import ErSdk.WorldSteps
import Mathlib.Data.Nat.Size

namespace ErSdk.ActivationBackoff

open ProtocolClientSm RequestArgs ExositeApi ExositeCalls ExositeBooks ExositeSteps ExositeRuns
open WorldSteps Runs Error
open Sessions (Script)

variable {E : Type}

theorem toInt_shiftRight {a b : Int32} {n k : Nat} (ha : a.toInt = n) (hb : b.toInt = k)
    (hk : k < 32) : (a >>> b).toInt = (n / 2 ^ k : Nat) := by
  have hshift : (b.toBitVec.smod 32).toNat = k := by
    have hsmod : (b.toBitVec.smod 32).toInt = (k : Int).fmod 32 := by
      rw [BitVec.toInt_smod, Int32.toInt_toBitVec, hb]
      rfl
    rw [Int.fmod_eq_emod_of_nonneg _ (by decide), Int.emod_eq_of_lt (by omega) (by omega)] at hsmod
    have hlt := (b.toBitVec.smod 32).isLt
    rw [BitVec.toInt_eq_toNat_cond] at hsmod
    split at hsmod <;> omega
  rw [← Int32.toInt_toBitVec, Int32.toBitVec_shiftRight, BitVec.toInt_sshiftRight', hshift,
    Int32.toInt_toBitVec, ha, Int.shiftRight_eq_div_pow]
  norm_cast

theorem size_succ (n : Nat) : (n + 1 < 2 ^ Nat.size n ∧ Nat.size (n + 1) = Nat.size n) ∨
    (n + 1 = 2 ^ Nat.size n ∧ Nat.size (n + 1) = Nat.size n + 1) := by
  rcases Nat.lt_or_eq_of_le (Nat.succ_le_of_lt (Nat.lt_size_self n)) with hlt | heq
  · refine .inl ⟨hlt, Nat.le_antisymm (Nat.size_le.mpr hlt) (Nat.size_le_size (Nat.le_succ n))⟩
  · refine .inr ⟨heq, ?_⟩
    rw [show n + 1 = 2 ^ Nat.size n from heq, Nat.size_pow]

/-- The two counters of the exponential delay. -/
def counters (exo : ExositeClass) : Int32 × Int32 :=
  (exo.activateRequests, exo.activateRequestAttempts)

/-- The calls of should_delay_activate since the last activation that succeeded, or else since the
object was made: how many there were, and the numbers of those that allowed an attempt. Between them
is whatever leaves the counters alone. -/
inductive Since (api : Api E) : World E → Nat → List Nat → Prop
  | made (protocolType : AppType) (vendor model sn : List UInt8) (globals : Globals Nat)
      (messageId : Int) (objects : Nat) (ext : E) : Since api
        (exositeNew api protocolType vendor model sn globals messageId objects ext).world 0 []
  | activated (cik : List UInt8) (w : World E) : Since api (onActivate api errSuccess cik w) 0 []
  | call {w n allowed} (h : Since api w n allowed) :
      Since api (shouldDelayActivate api w).2 (n + 1)
        (if (shouldDelayActivate api w).1 then allowed else allowed ++ [n + 1])
  | other {w w' n allowed} (h : Since api w n allowed)
      (hsame : counters w'.exo = counters w.exo) : Since api w' n allowed

/-- What the counters and the attempts are like behind `n` calls, as long as nothing overflows. -/
structure Kept (w : World E) (n : Nat) (allowed : List Nat) : Prop where
  requests : w.exo.activateRequests.toInt = n
  attempts : w.exo.activateRequestAttempts.toInt = Nat.size n
  powers : allowed = (List.range (Nat.size n)).map (2 ^ ·)

theorem kept_zero {w : World E} (h : counters w.exo = (0, 0)) : Kept w 0 [] := by
  obtain ⟨hrequests, hattempts⟩ := Prod.mk.inj h
  refine ⟨?_, ?_, rfl⟩
  · rw [hrequests]
    rfl
  · rw [hattempts]
    rfl

theorem Kept.congr {w w' : World E} {n : Nat} {allowed : List Nat} (h : Kept w n allowed)
    (hsame : counters w'.exo = counters w.exo) : Kept w' n allowed := by
  obtain ⟨hrequests, hattempts⟩ := Prod.mk.inj hsame
  refine ⟨?_, ?_, h.powers⟩
  · rw [hrequests]
    exact h.requests
  · rw [hattempts]
    exact h.attempts

theorem counters_onActivate (api : Api E) (cik : List UInt8) (w : World E) :
    counters (onActivate api errSuccess cik w).exo = (0, 0) := by
  unfold onActivate
  rw [if_pos rfl]
  dsimp only
  split <;> rfl

section

variable (api : Api E) (htype : api.config.activationRetryType = 2)

include htype

theorem shouldDelayActivate_cases (w : World E) :
    let requests := w.exo.activateRequests + 1
    let attempts := w.exo.activateRequestAttempts
    if requests >>> attempts = 0 then
      (shouldDelayActivate api w).1 = true ∧
        counters (shouldDelayActivate api w).2.exo = (requests, attempts)
    else
      (shouldDelayActivate api w).1 = false ∧
        counters (shouldDelayActivate api w).2.exo = (requests, attempts + 1) := by
  intro requests attempts
  have hlinear : ¬ api.config.activationRetryType = 1 := by
    rw [htype]
    decide
  unfold shouldDelayActivate
  rw [if_neg hlinear, if_pos htype]
  dsimp only [World.mapExo]
  by_cases hzero : requests >>> attempts = 0
  · rw [if_pos hzero, if_pos hzero]
    exact ⟨rfl, rfl⟩
  · rw [if_neg hzero, if_neg hzero]
    exact ⟨rfl, rfl⟩

theorem Kept.call {w : World E} {n : Nat} {allowed : List Nat} (h : Kept w n allowed)
    (hn : n + 1 < 2 ^ 31) : Kept (shouldDelayActivate api w).2 (n + 1)
      (if (shouldDelayActivate api w).1 then allowed else allowed ++ [n + 1]) := by
  have hsize : Nat.size n < 32 := (Nat.size_le.mpr (show n < 2 ^ 31 by omega)).trans_lt (by decide)
  have hrequests : (w.exo.activateRequests + 1).toInt = (n + 1 : Nat) := by
    rw [Int32.toInt_add, h.requests, Int32.toInt_one]
    exact Int.bmod_eq_of_le (by omega) (by omega)
  have hshift := toInt_shiftRight hrequests h.attempts hsize
  have hcases := shouldDelayActivate_cases api htype w
  have hzero : (w.exo.activateRequests + 1) >>> w.exo.activateRequestAttempts = 0 ↔
      n + 1 < 2 ^ Nat.size n := by
    rw [← Int32.toInt_inj, hshift, Int32.toInt_zero]
    norm_cast
    exact Nat.div_eq_zero_iff_lt (Nat.two_pow_pos _)
  rcases size_succ n with ⟨hlt, hnext⟩ | ⟨heq, hnext⟩
  · rw [if_pos (hzero.mpr hlt)] at hcases
    obtain ⟨hdelay, hcounters⟩ := hcases
    obtain ⟨hcounted, hattempts⟩ := Prod.mk.inj hcounters
    rw [hdelay, if_pos rfl]
    refine ⟨?_, ?_, ?_⟩
    · rw [hcounted, hrequests]
    · rw [hattempts, hnext, h.attempts]
    · rw [hnext]
      exact h.powers
  · rw [if_neg (fun hz => absurd (hzero.mp hz) (by omega))] at hcases
    obtain ⟨hallowed, hcounters⟩ := hcases
    obtain ⟨hcounted, hattempts⟩ := Prod.mk.inj hcounters
    rw [hallowed, if_neg (by decide)]
    refine ⟨?_, ?_, ?_⟩
    · rw [hcounted, hrequests]
    · rw [hattempts, hnext, Int32.toInt_add, h.attempts, Int32.toInt_one]
      exact Int.bmod_eq_of_le (by omega) (by omega)
    · rw [hnext, List.range_succ, List.map_append, ← h.powers, heq]
      rfl

theorem Since.kept {w : World E} {n : Nat} {allowed : List Nat} (h : Since api w n allowed)
    (hn : n < 2 ^ 31) : Kept w n allowed := by
  induction h with
  | made => exact kept_zero rfl
  | activated cik w => exact kept_zero (counters_onActivate api cik w)
  | call _ ih => exact (ih (Nat.lt_of_succ_lt hn)).call api htype hn
  | other _ hsame ih => exact (ih hn).congr hsame

end

/-- The exponential delay behind `n` calls: the attempt number `i + 1` was made at the call 2^i, so
that the number of the attempts is the logarithm of the number of the calls, the shift is one of at
most 31 bits, and the calls are counted. -/
structure Backoff (w : World E) (n : Nat) (allowed : List Nat) : Prop where
  calls : ∀ i c, allowed[i]? = some c → c = 2 ^ i
  least : 0 < n → 2 ^ (allowed.length - 1) ≤ n
  below : n < 2 ^ allowed.length
  shift : w.exo.activateRequestAttempts.toInt = allowed.length ∧ allowed.length < 32
  counted : w.exo.activateRequests.toInt = n

theorem Kept.backoff {w : World E} {n : Nat} {allowed : List Nat} (h : Kept w n allowed)
    (hn : n < 2 ^ 31) : Backoff w n allowed := by
  have hlength : allowed.length = Nat.size n := by
    rw [h.powers, List.length_map, List.length_range]
  have hsize : Nat.size n < 32 := (Nat.size_le.mpr hn).trans_lt (by decide)
  refine ⟨fun i c hc => ?_, fun hpos => ?_, ?_, ⟨?_, ?_⟩, h.requests⟩
  · rw [h.powers, List.getElem?_map, Option.map_eq_some_iff] at hc
    obtain ⟨j, hj, rfl⟩ := hc
    obtain ⟨hi, hget⟩ := List.getElem?_eq_some_iff.mp hj
    rw [← hget, List.getElem_range]
  · rw [hlength]
    exact Nat.lt_size.mp (Nat.sub_one_lt (Nat.size_pos.mpr hpos).ne')
  · rw [hlength]
    exact Nat.lt_size_self n
  · rw [hlength]
    exact h.attempts
  · rw [hlength]
    exact hsize

theorem Backoff.lt {w : World E} {n : Nat} {allowed : List Nat} (h : Backoff w n allowed) :
    n < 2 ^ 31 := by
  have hcounted := h.counted
  have hlt := w.exo.activateRequests.toInt_lt
  omega

/-- The delay grows exponentially as long as there were fewer than 2^31 calls. -/
theorem backoff_iff (api : Api E) (htype : api.config.activationRetryType = 2) {w : World E} {n : Nat}
    {allowed : List Nat} (h : Since api w n allowed) : Backoff w n allowed ↔ n < 2 ^ 31 := by
  constructor
  · exact Backoff.lt
  · intro hn
    exact (h.kept api htype hn).backoff hn

def backoffApi : Api Script :=
  let api := scriptApi (fun _ payload _ _ _ => (errSuccess, payload)) (fun _ => false)
  { api with config := { api.config with activationRetryType := 2 } }

def made : World Script :=
  (exositeNew backoffApi .http [] [] [] ⟨none, 0, .reset, 0⟩ 0 0 ⟨[], [], [], []⟩).world

def delayed (w : World Script) : World Script := (shouldDelayActivate backoffApi w).2

theorem backoff_iff_three : Backoff (delayed (delayed (delayed made))) 3 [1, 2] := by
  have hmade : Since backoffApi made 0 [] := .made .http [] [] [] _ 0 0 _
  have hfirst : Since backoffApi (delayed made) 1 [1] := hmade.call
  have hsecond : Since backoffApi (delayed (delayed made)) 2 [1, 2] := hfirst.call
  have hthird : Since backoffApi (delayed (delayed (delayed made))) 3 [1, 2] := hsecond.call
  exact (backoff_iff backoffApi rfl hthird).mpr (by decide)

theorem since_exists (api : Api E) (w : World E) (n : Nat) : ∃ w allowed, Since api w n allowed := by
  induction n with
  | zero => exact ⟨_, _, .activated [] w⟩
  | succ n ih =>
      obtain ⟨w, allowed, h⟩ := ih
      exact ⟨_, _, h.call⟩

/-- The call number 2^31 makes the counter negative. -/
theorem counter_overflows : ∃ w allowed, Since backoffApi w (2 ^ 31) allowed ∧
    ¬ Backoff w (2 ^ 31) allowed := by
  obtain ⟨w, allowed, h⟩ := since_exists backoffApi made (2 ^ 31)
  exact ⟨w, allowed, h, fun hb => absurd hb.lt (by decide)⟩

/-- The counters tell the calls since an activation. -/
def Explained (api : Api E) (w : World E) : Prop := ∃ n allowed, Since api w n allowed

section

variable {api : Api E} {w v : World E}

theorem Explained.other (h : Explained api w) (hsame : counters v.exo = counters w.exo) :
    Explained api v := by
  obtain ⟨n, allowed, hsince⟩ := h
  exact ⟨n, allowed, hsince.other hsame⟩

theorem userChanges_counters {limit : Nat} {x y : Account} (h : UserChanges limit x y) :
    counters y.exo = counters x.exo := by
  induction h with
  | refl => rfl
  | tail _ hc ih =>
      cases hc with
      | told | queued | subscribed => exact ih

theorem Explained.changes (h : Explained api w) (hc : Changes api w v) : Explained api v :=
  h.other (userChanges_counters hc)

theorem Explained.onActivate (h : Explained api w) (status : Int) (cik : List UInt8) :
    Explained api (onActivate api status cik w) := by
  by_cases hs : status = errSuccess
  · rw [hs]
    exact ⟨0, [], .activated cik w⟩
  · unfold ExositeApi.onActivate
    rw [if_neg hs]
    exact h.other rfl

theorem Explained.dispatch (h : Explained api w) (args : ExoRequestArgs) (status : Int)
    (payload : List UInt8) : Explained api (dispatch api args status payload w) := by
  unfold ExositeApi.dispatch
  split
  · exact h.changes (tell_told api _ _ _ _ _)
  · exact h.changes (tell_told api _ _ _ _ _)
  · have hsubscriber : Explained api (tellSubscriber api status args (cString payload) w) :=
      h.changes (tellSubscriber_changes api w)
    unfold onSubscribe
    dsimp only
    split
    · exact hsubscriber
    · exact hsubscriber.other rfl
  · exact h.onActivate status payload
  · unfold onTimestamp
    split
    · split <;> exact h.other rfl
    · exact h.other rfl
  · exact h

theorem along_explained (api : Api E) (i : Nat) :
    Along (machineEnv api i) (fun w v => Explained api w → Explained api v) where
  refl _ h := h
  trans hfirst hsecond h := hsecond (hfirst h)
  systemGetTime _ h := h.other rfl
  memAlloc _ h := h.other rfl
  queuePushTail _ h := h.other rfl
  lookup _ h := h.other rfl
  createSocket _ h := h.other rfl
  connect _ _ h := h.other rfl
  close _ _ h := h.other rfl
  setSocket _ _ h := h.other rfl
  clearSocket _ h := h.other rfl
  sendRequest request w h := by
    refine h.other ?_
    unfold machineEnv
    dsimp only
    split <;> rfl
  recvResponse _ _ h := h.other rfl
  clientClose _ h := h.other rfl
  clb request response w h := by
    have hnoted (status : Int) :
        Explained api (noteInvalidCik status (w.record (.called request))) := by
      unfold noteInvalidCik
      split <;> exact h.other rfl
    have hcalled := (hnoted (statusOf api request response)).dispatch request.request.args
      (statusOf api request response) (api.responseCallback request.request.args response.payload
        response.payloadSize response.maxPayloadSize response.responseCode).2
    refine hcalled.other ?_
    show counters (requestDelete _ _ _).exo = _
    unfold requestDelete
    split <;> rfl

theorem counters_pushed {args : ExoRequestArgs} {b b' : Books} {error : Int}
    (h : Pushed args b error b') : counters b'.exo = counters b.exo := by
  cases h <;> rfl

theorem counters_obtained {b b' : Books} (h : Obtained b b') : counters b'.exo = counters b.exo := by
  cases h <;> rfl

theorem counters_sends {b b' : Books} (h : Sends b b') : counters b'.exo = counters b.exo := by
  induction h with
  | refl => rfl
  | tail _ hsend ih =>
      refine Eq.trans ?_ ih
      cases hsend with
      | subscribe _ _ ho hp | queued _ ho hp =>
          refine Eq.trans ?_ ((counters_pushed hp).trans (counters_obtained ho))
          split <;> rfl

/-- In the other states activate_sm leaves the counters alone. -/
theorem counters_activates {b b' : Books} (h : Activates b b')
    (hs : b.exo.nextState ≠ .prepareActivate) : counters b'.exo = counters b.exo := by
  have henter : counters b.enter.exo = counters b.exo := rfl
  cases h with
  | waits | loads | reactivates => rfl
  | delays _ _ _ hprepare | clears _ _ _ hprepare => exact absurd hprepare hs
  | asks _ ho hp =>
      refine Eq.trans ?_ ((counters_pushed hp).trans ((counters_obtained ho).trans henter))
      split <;> rfl
  | sends _ hsends => exact (counters_sends hsends).trans henter

theorem explained_activateSm {d d' : Device E} (hd : activateSm api d = some d')
    (hsound : Sound (books d)) (h : Explained api d.world) : Explained api d'.world := by
  by_cases hs : d.world.exo.nextState = .prepareActivate
  · have hentered : Explained api (d.mapExo (fun exo =>
        { exo with activateState := some d.world.exo.nextState })).world := h.other rfl
    unfold activateSm at hd
    dsimp only at hd
    generalize d.mapExo _ = e at hd hentered
    rw [hs] at hd
    obtain rfl := Option.some.inj hd
    obtain ⟨n, allowed, hsince⟩ := hentered
    have hcalled : Explained api (shouldDelayActivate api e.world).2 := ⟨_, _, hsince.call⟩
    split
    · exact hcalled
    · exact hcalled.other rfl
  · exact h.other (counters_activates (activateSm_activates api hsound.tidy.keys hd) hs)

/-- In every state that an object gets into, its counters tell the calls of should_delay_activate
since the last activation. -/
theorem explained_run (api : Api E) (protocolType : AppType) (vendor model sn : List UInt8)
    (globals : Globals Nat) (messageId : Int) (objects : Nat) (ext : E) (acts : List (Action E)) :
    Explained api (run (step api)
      (exositeNew api protocolType vendor model sn globals messageId objects ext) acts).world := by
  have hkeep : ∀ (d : Device E) (a : Action E), (Sound (books d) ∧ Explained api d.world) →
      (Sound (books (step api d a)) ∧ Explained api (step api d a).world) := by
    rintro d a ⟨hsound, h⟩
    refine ⟨sound_step api hsound, ?_⟩
    cases a with
    | activateSm =>
        unfold ExositeApi.step
        cases hd : activateSm api d with
        | none => exact h
        | some d' => exact explained_activateSm hd hsound h
    | task i =>
        cases hi : d.machines[i]? with
        | none =>
            rw [step_no_task hi]
            exact h
        | some item =>
            rw [step_task hi]
            exact protocolClientSmTask_along (along_explained api i) (d.view item) i h
    | user c => exact h.changes (userCall_changes api d.world c)
    | interfere => exact h.other rfl
  exact (Runs.invariant hkeep acts ⟨sound_exositeNew protocolType vendor model sn globals messageId
    objects ext, 0, [], .made protocolType vendor model sn globals messageId objects ext⟩).2

end

end ErSdk.ActivationBackoff
