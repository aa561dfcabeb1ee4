import ErSdk.HttpClient
import ErSdk.RequestArgs

namespace ErSdk.ExositeHttpApi

open Pmatch Patterns HttpClient RequestArgs Error

def responseCodeToSystemError (responseCode : Int) : Int :=
  if responseCode < 0 then responseCode
  else if responseCode = 204 then errNoContent
  else if responseCode = 200 ∨ responseCode = 205 then errSuccess
  else if responseCode = 304 then errUnchanged
  else if responseCode = 401 then errCikNotValid
  else if responseCode = 404 then errActivateNotFound
  else if responseCode = 409 then errActivateConflict
  else errFailure

/-- The NUL behind a value of `len` bytes, where there is room for it. -/
def terminate (payload : List UInt8) (len maxSize : Nat) : List UInt8 :=
  if len + 1 < maxSize then payload.set len 0 else payload

/-- The value of a timestamp or of an activation stays where it is. -/
def parseWord (payload : List UInt8) (maxSize : Nat) (f : Find) : Int × List UInt8 :=
  match f.captures with
  | some (c :: _) => (errSuccess, terminate payload c.len maxSize)
  | _ => (errInvalidFormat, payload)

/-- The value of a pair is moved to the start of the payload. -/
def parsePair (payload : List UInt8) (maxSize : Nat) (f : Find) : Int × List UInt8 :=
  match f.captures with
  | some (_ :: c :: _) =>
      (errSuccess, terminate (overwrite payload ((payload.drop c.init).take c.len)) c.len maxSize)
  | _ => (errInvalidFormat, payload)

def httpParsePayload (method : Method) (payload : List UInt8) (size maxSize : Nat)
    (responseCode : Int) : Except Fault (Int × List UInt8) :=
  let status := responseCodeToSystemError responseCode
  if status ≠ errSuccess then
    .ok (if status = errNoContent then errSuccess else status, payload)
  else
    match method with
    | .activate | .timestamp => do
        let f ← strFind (payload.take size) (bytes "(%w*)") false 0 10
        .ok (parseWord payload maxSize f)
    | _ => do
        let f ← strFind (payload.take size) (bytes "(%w-)=(%w*)") false 0 10
        .ok (parsePair payload maxSize f)

/-- http_parse_payload as the response callback of a request; by `httpParsePayload_ok`
there is always a result. -/
def httpResponseCallback (args : ExoRequestArgs) (payload : List UInt8) (size maxSize : Nat)
    (responseCode : Int) : Int × List UInt8 :=
  match httpParsePayload args.method payload size maxSize responseCode with
  | .ok r => r
  | .error _ => (errFailure, payload)

/-- The patterns of http_parse_payload never lead the matcher astray. -/
theorem httpParsePayload_ok {payload : List UInt8} {size : Nat}
    (hsize : (payload.take size).length < 2 ^ 64) (method : Method) (maxSize : Nat) (code : Int) :
    ∃ r, httpParsePayload method payload size maxSize code = .ok r := by
  unfold httpParsePayload
  dsimp only
  split
  · exact ⟨_, rfl⟩
  · split
    · rw [find_word hsize 9]
      exact ⟨_, rfl⟩
    · rw [find_word hsize 9]
      exact ⟨_, rfl⟩
    · rw [find_pair hsize 8]
      exact ⟨_, rfl⟩

/-- The first and only equality sign of a body ends the first capture, whatever its
start, and the second one begins behind it. -/
theorem firstPair_of_body {aliasName value : List UInt8} (ha : 61 ∉ aliasName) (hv : 61 ∉ value) :
    ∃ c, firstPair (aliasName ++ 61 :: value) =
      some [c, ⟨aliasName.length + 1, (value.takeWhile isAlnum).length⟩] := by
  have hrun : runOf isAlnum (aliasName ++ 61 :: value) (aliasName.length + 1) =
      (value.takeWhile isAlnum).length := by
    unfold runOf
    rw [← List.drop_drop, List.drop_left]
    rfl
  have hsign (i : Nat) (h : (aliasName ++ 61 :: value)[i]? = some 61) : i = aliasName.length := by
    obtain hi | hi | hi := Nat.lt_trichotomy i aliasName.length
    · rw [List.getElem?_append_left hi] at h
      exact absurd (List.mem_of_getElem? h) ha
    · exact hi
    · rw [List.getElem?_append_right (Nat.le_of_lt hi)] at h
      obtain ⟨j, hj⟩ := Nat.exists_eq_add_of_lt hi
      rw [show i - aliasName.length = j + 1 by omega, List.getElem?_cons_succ] at h
      exact absurd (List.mem_of_getElem? h) hv
  have hat : ∀ s cs, pairAt (aliasName ++ 61 :: value) s = some cs →
      ∃ c, cs = [c, ⟨aliasName.length + 1, (value.takeWhile isAlnum).length⟩] := by
    intro s cs hs
    unfold pairAt at hs
    dsimp only at hs
    split at hs
    · rename_i he
      have hlen := hsign _ he
      obtain rfl := Option.some.inj hs
      exact ⟨_, by rw [hlen, hrun]⟩
    · exact absurd hs nofun
  unfold firstPair
  cases hf : (List.range ((aliasName ++ 61 :: value).length + 1)).findSome?
      (pairAt (aliasName ++ 61 :: value)) with
  | some cs =>
      obtain ⟨s, -, hs⟩ := List.exists_of_findSome?_eq_some hf
      obtain ⟨c, rfl⟩ := hat s cs hs
      exact ⟨c, rfl⟩
  | none =>
      have hnone := List.findSome?_eq_none_iff.mp hf aliasName.length
        (List.mem_range.mpr (by rw [List.length_append, List.length_cons]; omega))
      have hzero : runOf isAlnum (aliasName ++ 61 :: value) aliasName.length = 0 := by
        unfold runOf
        rw [List.drop_left]
        rfl
      unfold pairAt at hnone
      dsimp only at hnone
      rw [hzero, Nat.add_zero, if_pos (by simp)] at hnone
      exact absurd hnone nofun

/-- What http_parse_payload makes of the answer to a request for a value. -/
theorem httpParsePayload_body {aliasName value : List UInt8} (rest : List UInt8) {method : Method}
    (maxSize : Nat) (hm : method = .read ∨ method = .subscribe) (ha : 61 ∉ aliasName) (hv : 61 ∉ value)
    (hsize : (aliasName ++ 61 :: value).length < 2 ^ 64) :
    httpParsePayload method (aliasName ++ 61 :: value ++ rest) (aliasName ++ 61 :: value).length
        maxSize 200 =
      .ok (errSuccess, terminate
        (overwrite (aliasName ++ 61 :: value ++ rest) (value.takeWhile isAlnum))
        (value.takeWhile isAlnum).length maxSize) := by
  have htake : (aliasName ++ 61 :: value ++ rest).take (aliasName ++ 61 :: value).length =
      aliasName ++ 61 :: value := List.take_left
  obtain ⟨c, hc⟩ := firstPair_of_body ha hv
  have hpair : parsePair (aliasName ++ 61 :: value ++ rest) maxSize
      ⟨(firstPair (aliasName ++ 61 :: value)).isSome, firstPair (aliasName ++ 61 :: value)⟩ =
      (errSuccess, terminate
        (overwrite (aliasName ++ 61 :: value ++ rest) (value.takeWhile isAlnum))
        (value.takeWhile isAlnum).length maxSize) := by
    have hcopy : ((aliasName ++ 61 :: value ++ rest).drop (aliasName.length + 1)).take
        (value.takeWhile isAlnum).length = value.takeWhile isAlnum := by
      have hpre : value.takeWhile isAlnum <+: value ++ rest :=
        (List.takeWhile_prefix isAlnum).trans (List.prefix_append _ _)
      rw [List.append_assoc, ← List.drop_drop, List.drop_left]
      exact (List.prefix_iff_eq_take.mp hpre).symm
    unfold parsePair
    rw [hc]
    dsimp only
    rw [hcopy]
  obtain rfl | rfl := hm
  · unfold httpParsePayload
    rw [htake, find_pair hsize 8, ← hpair]
    rfl
  · unfold httpParsePayload
    rw [htake, find_pair hsize 8, ← hpair]
    rfl

end ErSdk.ExositeHttpApi
