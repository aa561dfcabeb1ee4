import ErSdk.Basic

namespace ErSdk.Strings

open Error

/-- struct string_class; the buffer is what stands in its first `size` bytes. -/
structure StringClass where
  buffer : List UInt8
  bufsize : Nat
  fixedSize : Bool
  deriving DecidableEq, Repr

def StringClass.size (str : StringClass) : Nat := str.buffer.length

/-- `none` when one of the two allocations fails. -/
def stringNew (initString : List UInt8) (allocated bufferAllocated : Bool) : Option StringClass :=
  if allocated ∧ bufferAllocated then some ⟨initString, initString.length + 1 + 256, false⟩ else none

/-- A string that nothing can be appended to. -/
def stringNewConst (initString : List UInt8) (allocated bufferAllocated : Bool) :
    Option StringClass :=
  if allocated ∧ bufferAllocated then some ⟨initString, initString.length + 1, true⟩ else none

/-- Whether the call needs a larger buffer. -/
def grows (str : StringClass) (newChunk : List UInt8) : Prop :=
  newChunk.length + str.size > str.bufsize - 1

instance (str : StringClass) (newChunk : List UInt8) : Decidable (grows str newChunk) :=
  inferInstanceAs (Decidable (_ > _))

def stringCatcn (str : StringClass) (newChunk : List UInt8) (reallocated : Bool) :
    Int × StringClass :=
  if newChunk.length = 0 then (errSuccess, str)
  else if str.fixedSize then (errFailure, str)
  else if grows str newChunk then
    if reallocated then
      (errSuccess, { str with buffer := str.buffer ++ newChunk,
                              bufsize := str.bufsize + newChunk.length })
    else (errNoMemory, str)
  else (errSuccess, { str with buffer := str.buffer ++ newChunk })

theorem stringCatcn_success {str str' : StringClass} {newChunk : List UInt8} {reallocated : Bool}
    (h : stringCatcn str newChunk reallocated = (errSuccess, str')) :
    str'.buffer = str.buffer ++ newChunk := by
  unfold stringCatcn at h
  split at h
  · rename_i hlen
    obtain ⟨-, rfl⟩ := Prod.mk.inj h
    rw [List.eq_nil_of_length_eq_zero hlen, List.append_nil]
  · split at h
    · exact absurd (Prod.mk.inj h).1 (by decide)
    · split at h
      · split at h
        · obtain ⟨-, rfl⟩ := Prod.mk.inj h
          rfl
        · exact absurd (Prod.mk.inj h).1 (by decide)
      · obtain ⟨-, rfl⟩ := Prod.mk.inj h
        rfl

end ErSdk.Strings
