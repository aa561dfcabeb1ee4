import ErSdk.ExositeCalls
import ErSdk.ExositeHttpApi

namespace ErSdk.ValueDelivery

open ProtocolClientSm RequestArgs ExositeApi ExositeCalls ExositeHttpApi HttpClient Sessions Error

variable {E : Type}

/-- No NUL, no ampersand and no equality sign. -/
def Plain (s : List UInt8) : Prop := 0 ∉ s ∧ 38 ∉ s ∧ 61 ∉ s

instance (s : List UInt8) : Decidable (Plain s) := inferInstanceAs (Decidable (_ ∧ _ ∧ _))

/-- A request for the value of an alias, to be told to the function `f` of the application. -/
structure Asks (f : Nat) (aliasName : List UInt8) (args : ExoRequestArgs) : Prop where
  named : args.aliasName = some aliasName
  asked : (args.method = .read ∧ args.callback = .user f) ∨
    (args.method = .subscribe ∧ args.callback = .onSubscribe ∧ args.subscribeUsrCallback = some f)

/-- A response with code 200 and the body `aliasName=value`, in a payload buffer that holds it. -/
structure Carries (aliasName value : List UInt8) (response : ProtocolClientResponse) : Prop where
  code : response.responseCode = 200
  body : (aliasName ++ 61 :: value) <+: response.payload
  size : response.payloadSize = (aliasName ++ 61 :: value).length
  fits : (aliasName ++ 61 :: value).length ≤ response.maxPayloadSize
  maxSize : response.maxPayloadSize < 2 ^ 64

def overHttp (api : Api E) : Api E := { api with responseCallback := httpResponseCallback }

/-- http_parse_payload leaves the value in the payload, and the application gets it. -/
structure Delivered (api : Api E) (f : Nat) (aliasName value : List UInt8)
    (request : ProtocolClientRequest Request) (response : ProtocolClientResponse) (w : World E) :
    Prop where
  parsed : ∃ payload, httpParsePayload request.request.args.method response.payload
      response.payloadSize response.maxPayloadSize response.responseCode = .ok (errSuccess, payload) ∧
    (value ++ [0]) <+: payload
  told : (w.log ++ [.called request, .told f errSuccess (some aliasName) (some value)]) <+:
    (exositeApiCallback (overHttp api) request response w).2.log

theorem takeWhile_eq_self_iff {s : List UInt8} :
    s.takeWhile isAlnum = s ↔ ∀ c ∈ s, isAlnum c = true := List.takeWhile_eq_self_iff

theorem terminate_overwrite {payload word : List UInt8} (h : word.length < payload.length)
    (maxSize : Nat) : terminate (overwrite payload word) word.length maxSize =
      if word.length + 1 < maxSize then word ++ 0 :: payload.drop (word.length + 1)
      else word ++ payload.drop word.length := by
  unfold terminate overwrite
  split
  · rw [List.set_append_right _ _ (Nat.le_refl _), Nat.sub_self, List.drop_eq_getElem_cons h,
      List.set_cons_zero]
  · rfl

theorem stored_iff {aliasName value : List UInt8} (rest : List UInt8) {maxSize : Nat} (hv : 0 ∉ value)
    (hfits : (aliasName ++ 61 :: value).length ≤ maxSize) :
    (value ++ [0]) <+: terminate (overwrite (aliasName ++ 61 :: value ++ rest)
        (value.takeWhile isAlnum)) (value.takeWhile isAlnum).length maxSize ↔
      (∀ c ∈ value, isAlnum c = true) ∧ ¬ (aliasName = [] ∧ value.length + 1 = maxSize) := by
  have hlen : (aliasName ++ 61 :: value).length = aliasName.length + 1 + value.length := by
    rw [List.length_append, List.length_cons]
    omega
  obtain ⟨tail, htail⟩ := List.takeWhile_prefix isAlnum (l := value)
  have hword : (value.takeWhile isAlnum).length + tail.length = value.length := by
    rw [← List.length_append, htail]
  rw [terminate_overwrite (by rw [List.length_append, hlen]; omega), ← takeWhile_eq_self_iff]
  by_cases hall : value.takeWhile isAlnum = value
  · rw [hall]
    split
    · rename_i hroom
      refine iff_of_true ⟨_, by rw [List.append_assoc]; rfl⟩ ⟨rfl, fun h => ?_⟩
      omega
    · rename_i hroom
      have hnil : aliasName = [] := List.eq_nil_of_length_eq_zero (by omega)
      subst hnil
      refine iff_of_false (fun h => ?_) (fun h => h.2 ⟨rfl, by rw [List.length_nil] at hlen; omega⟩)
      rw [List.prefix_append_right_inj] at h
      -- the byte behind the value is the equality sign or the last byte of the value itself
      have hzero : (61 :: value ++ rest)[value.length]? = some 0 := by
        obtain ⟨t, ht⟩ := h
        rw [List.nil_append] at ht
        rw [← Nat.add_zero value.length, ← List.getElem?_drop, ← ht]
        rfl
      rw [List.cons_append, ← List.cons_append,
        List.getElem?_append_left (by rw [List.length_cons]; omega)] at hzero
      cases hn : value.length with
      | zero =>
          rw [hn, List.getElem?_cons_zero] at hzero
          exact absurd (Option.some.inj hzero) (by decide)
      | succ n =>
          rw [hn, List.getElem?_cons_succ] at hzero
          exact hv (List.mem_of_getElem? hzero)
  · refine iff_of_false (fun h => ?_) (fun h => hall h.1)
    have hne : tail ≠ [] := fun hnil => hall (by rw [hnil, List.append_nil] at htail; exact htail)
    have hpos := List.length_pos_iff.mpr hne
    rw [if_pos (by omega)] at h
    obtain ⟨c, t, rfl⟩ := List.exists_cons_of_ne_nil hne
    nth_rewrite 1 [← htail] at h
    rw [List.append_assoc, List.prefix_append_right_inj, List.cons_append] at h
    obtain rfl : c = 0 := (List.cons_prefix_cons.mp h).1
    exact hv (htail ▸ List.mem_append_right _ List.mem_cons_self)

theorem cString_of_isPrefix {value payload : List UInt8} (hv : 0 ∉ value)
    (h : (value ++ [0]) <+: payload) : cString payload = value := by
  obtain ⟨t, rfl⟩ := h
  unfold cString
  rw [List.append_assoc, List.takeWhile_append_of_pos (fun c hc => by
    simpa using ne_of_mem_of_not_mem hc hv)]
  simp

theorem dispatch_told (api : Api E) {f : Nat} {aliasName : List UInt8} {args : ExoRequestArgs}
    (ha : Asks f aliasName args) (payload : List UInt8) (w : World E) :
    (w.log ++ [.told f errSuccess (some aliasName) (some (cString payload))]) <+:
      (dispatch api args errSuccess payload w).log := by
  have htell : (w.log ++ [.told f errSuccess (some aliasName) (some (cString payload))]) <+:
      (tell api f errSuccess (some aliasName) (some (cString payload)) w).log :=
    (tell_changes api f errSuccess (some aliasName) (some (cString payload)) w).log_extends
  unfold dispatch
  obtain ⟨hm, hc⟩ | ⟨hm, hc, hs⟩ := ha.asked
  · rw [hm, hc, ha.named]
    exact htell
  · rw [hm, hc]
    unfold onSubscribe tellSubscriber
    rw [hs, ha.named]
    exact htell

/-- A value comes through exactly when all its bytes are letters or digits, and the buffer
has room for a NUL behind it that the code makes use of. -/
theorem value_delivered_iff (api : Api E) {f : Nat} {aliasName value : List UInt8}
    {request : ProtocolClientRequest Request} {response : ProtocolClientResponse} (w : World E)
    (hn : Plain aliasName) (hv : Plain value) (ha : Asks f aliasName request.request.args)
    (hr : Carries aliasName value response) :
    Delivered api f aliasName value request response w ↔
      (∀ c ∈ value, isAlnum c = true) ∧
        ¬ (aliasName = [] ∧ value.length + 1 = response.maxPayloadSize) := by
  obtain ⟨rest, hrest⟩ := hr.body
  have hparse := httpParsePayload_body rest response.maxPayloadSize
    (ha.asked.imp And.left And.left) hn.2.2 hv.2.2 (Nat.lt_of_le_of_lt hr.fits hr.maxSize)
  rw [hrest, ← hr.size, ← hr.code] at hparse
  rw [← stored_iff rest hv.1 hr.fits, hrest]
  constructor
  · intro h
    obtain ⟨payload, hp, hstored⟩ := h.parsed
    obtain rfl : _ = payload := congrArg Prod.snd (Except.ok.inj (hparse.symm.trans hp))
    exact hstored
  · intro h
    refine ⟨⟨_, hparse, h⟩, ?_⟩
    generalize terminate _ _ _ = payload at hparse h
    have hcallback : httpResponseCallback request.request.args response.payload
        response.payloadSize response.maxPayloadSize response.responseCode =
          (errSuccess, payload) := by
      unfold httpResponseCallback
      rw [hparse]
    have hlog : (exositeApiCallback (overHttp api) request response w).2.log =
        (account (requestDelete request.request response.requestType
          (dispatch (overHttp api) request.request.args errSuccess payload
            (w.record (.called request))))).log := by
      unfold exositeApiCallback
      dsimp only
      rw [show (overHttp api).responseCallback = httpResponseCallback from rfl, hcallback]
      rfl
    rw [hlog, account_requestDelete, Account.record, account_log]
    refine List.IsPrefix.trans ?_ (List.prefix_append _ _)
    have htold := dispatch_told (overHttp api) ha payload (w.record (.called request))
    rw [cString_of_isPrefix hv.1 h] at htold
    have hsplit (e : Event) : w.log ++ [.called request, e] =
        (w.record (.called request)).log ++ [e] := by
      rw [World.record, List.append_assoc]
      rfl
    rw [hsplit]
    exact htold

def device : Device Script :=
  exositeNew (scriptApi httpResponseCallback (fun _ => false)) .http [] [] []
    ⟨none, 0, .reset, 0⟩ 6 0 ⟨[], [], [], []⟩

/-- A read request for the alias `temp`, answered by the function 7 of the application. -/
def readRequest : ProtocolClientRequest Request :=
  ⟨0, .normal, ⟨0, { ExoRequestArgs.zero .read with
    aliasName := some (bytes "temp"), callback := .user 7 }⟩, 0, 1⟩

def response (body : List UInt8) : ProtocolClientResponse :=
  ⟨body ++ List.replicate (512 - body.length) 0, 512, body.length, 200, 1, .normal, true⟩

theorem value_delivered_number :
    Delivered (scriptApi httpResponseCallback (fun _ => false)) 7 (bytes "temp") (bytes "42")
      readRequest (response (bytes "temp=42")) device.world :=
  (value_delivered_iff _ _ (by decide) (by decide) ⟨rfl, .inl ⟨rfl, rfl⟩⟩
    ⟨rfl, List.isPrefixOf_iff_prefix.mp (by decide), rfl, by decide, by decide⟩).mpr
    ⟨by decide +kernel, by decide⟩

/-- Of a value with a decimal point only the part before the point comes through. -/
theorem decimal_point_cuts_value :
    ¬ Delivered (scriptApi httpResponseCallback (fun _ => false)) 7 (bytes "temp") (bytes "3.14")
      readRequest (response (bytes "temp=3.14")) device.world := by
  intro h
  obtain ⟨payload, hp, hvalue⟩ := h.parsed
  have hparse : httpParsePayload .read (response (bytes "temp=3.14")).payload 9 512 200 =
      .ok (errSuccess, bytes "3" ++ 0 :: (response (bytes "temp=3.14")).payload.drop 2) := by
    decide +kernel
  obtain rfl := congrArg Prod.snd (Except.ok.inj (hparse.symm.trans hp))
  exact absurd (List.isPrefixOf_iff_prefix.mpr hvalue) (by decide)

end ErSdk.ValueDelivery
