import ErSdk.HttpParser

namespace ErSdk.HttpClient

open Pmatch Patterns HttpParser Error

def recvBufferSize : Nat := 256

/-- The message id of every HTTP request and response. -/
def httpMagicId : Int := 1

/-- What one call of http_recv returns, with its out parameters; `none` where a
parameter is not written. -/
structure Recv where
  error : Int
  responseCode : Option Int
  token : Option Int
  payload : List UInt8
  payloadSize : Option Nat
  deriving DecidableEq, Repr

/-- memcpy to the start of a buffer. -/
def overwrite (buffer chunk : List UInt8) : List UInt8 := chunk ++ buffer.drop chunk.length

/-- http_recv, given what the recv operation of the network returns. -/
def httpRecv (net : Int × List UInt8) (alloc : Allocations) (payload : List UInt8)
    (maxSize : Nat) : Except Fault Recv :=
  if net.1 ≠ errSuccess then .ok ⟨net.1, none, some httpMagicId, payload, none⟩
  else do
    let header ← httpParseHeader net.2 alloc
    let index := header.payloadIndex.getD 0
    let toCopy := net.2.length - index
    if !header.found then
      .ok ⟨errFailure, header.resultCode, some httpMagicId, payload, none⟩
    else if index ≠ 0 ∧ maxSize < toCopy then
      .ok ⟨errOverflow, header.resultCode, none, payload, none⟩
    else
      let copied := if index ≠ 0 then overwrite payload (net.2.drop index) else payload
      .ok ⟨errSuccess, header.resultCode, some httpMagicId,
        if header.contentLength.getD 0 = 0 ∧ maxSize > 0 then copied.set 0 0 else copied,
        if index ≠ 0 then some toCopy else none⟩

def httpGetResponseStatus (responseCode : Int) : Bool := 200 ≤ responseCode && responseCode < 300

/-- Successive calls of http_recv, each with what the network delivers to it. -/
def recvAll (maxSize : Nat) : List (Allocations × List UInt8) → List UInt8 →
    Except Fault (List Recv)
  | [], _ => .ok []
  | (alloc, chunk) :: rest, payload => do
      let call ← httpRecv (errSuccess, chunk) alloc payload maxSize
      let calls ← recvAll maxSize rest call.payload
      .ok (call :: calls)

/-- The payload buffer behind a call that returns success. -/
def received (chunk payload : List UInt8) (maxSize i : Nat) (n : Int) : List UInt8 :=
  if sizeT n = 0 ∧ maxSize > 0 then (overwrite payload (chunk.drop (i + 4))).set 0 0
  else overwrite payload (chunk.drop (i + 4))

theorem lastOf_blank {chunk : List UInt8} {i : Nat} (h : lastOf blankLine chunk = some i) :
    blankLine <+: chunk.drop i ∧ i + 4 ≤ chunk.length := by
  obtain ⟨-, hp, -⟩ := lastUpTo_eq_some.mp h
  have hpre := List.isPrefixOf_iff_prefix.mp hp
  have hlen := hpre.length_le
  rw [List.length_drop, show blankLine.length = 4 from rfl] at hlen
  exact ⟨hpre, by omega⟩

/-- The results of http_recv on a chunk that the network delivers. -/
theorem httpRecv_cases {chunk : List UInt8} (hsize : chunk.length < 2 ^ 64) (alloc : Allocations)
    (payload : List UInt8) (maxSize : Nat) :
    ∃ c, httpRecv (errSuccess, chunk) alloc payload maxSize = .ok c ∧
      ((c.error = errFailure ∧ c.payload = payload ∧ ∀ i code n, ¬ Parsed chunk alloc i code n) ∨
        ∃ i code n, Parsed chunk alloc i code n ∧
          (maxSize < chunk.length - (i + 4) ∧ c.error = errOverflow ∨
            ¬ maxSize < chunk.length - (i + 4) ∧
              c = ⟨errSuccess, some (toInt32 code), some httpMagicId,
                received chunk payload maxSize i n, some (chunk.length - (i + 4))⟩)) := by
  obtain ⟨g, hg, hcases⟩ := httpParseHeader_cases hsize alloc
  unfold httpRecv
  rw [if_neg (fun h => h rfl)]
  dsimp only
  rw [hg, ok_bind]
  obtain ⟨hf, hnot⟩ | ⟨i, code, n, hp, rfl⟩ := hcases
  · rw [if_pos (by simpa using hf)]
    exact ⟨_, rfl, .inl ⟨rfl, rfl, hnot⟩⟩
  · dsimp only [Option.getD_some]
    rw [if_neg (by decide)]
    by_cases ho : maxSize < chunk.length - (i + 4)
    · rw [if_pos ⟨Nat.succ_ne_zero _, ho⟩]
      exact ⟨_, rfl, .inr ⟨i, code, n, hp, .inl ⟨ho, rfl⟩⟩⟩
    · rw [if_neg (fun h => ho h.2)]
      exact ⟨_, rfl, .inr ⟨i, code, n, hp, .inr ⟨ho, rfl⟩⟩⟩

end ErSdk.HttpClient
