import Mathlib.Data.List.Basic
import Mathlib.Data.List.TakeWhile
import Mathlib.Algebra.Group.Int.Defs
import Mathlib.Algebra.GroupWithZero.Nat

namespace ErSdk

/-- Milliseconds of the system clock, which wraps modulo 2^32. -/
abbrev SysTime := UInt32

namespace Error

abbrev errSuccess : Int := 0
abbrev errFailure : Int := -1
abbrev errWouldBlock : Int := -2
abbrev errNoMemory : Int := -3
abbrev errNotImplemented : Int := -4
abbrev errTimeout : Int := -13
abbrev errOverflow : Int := -14
abbrev errNotFound : Int := -15
abbrev errBadArgs : Int := -16
abbrev errBusy : Int := -17
abbrev errInvalidFormat : Int := -18
abbrev errCouldNotSend : Int := -19
abbrev errNoResource : Int := -20
abbrev errDuplicate : Int := -21
abbrev errNoNetDev : Int := -22
abbrev errNoContent : Int := -101
abbrev errUnchanged : Int := -102
abbrev errCikNotValid : Int := -104
abbrev errRequestAborted : Int := -105
abbrev errActivateConflict : Int := -106
abbrev errActivateNotFound : Int := -107
abbrev errNetTimedout : Int := -205
abbrev errNetClosed : Int := -206
abbrev errNetAborted : Int := -207

end Error

def bytes (s : String) : List UInt8 := s.toList.map (fun c => c.toNat.toUInt8)

def isDigit (c : UInt8) : Bool := 48 ≤ c && c ≤ 57

def isUpper (c : UInt8) : Bool := 65 ≤ c && c ≤ 90

def isLower (c : UInt8) : Bool := 97 ≤ c && c ≤ 122

def isAlpha (c : UInt8) : Bool := isUpper c || isLower c

def isAlnum (c : UInt8) : Bool := isAlpha c || isDigit c

/-- The text of a C string buffer: what stands before the first NUL. -/
def cString (buffer : List UInt8) : List UInt8 := buffer.takeWhile (· ≠ 0)

theorem cString_of_not_mem {l : List UInt8} (h : 0 ∉ l) : cString l = l := by
  unfold cString
  rw [List.takeWhile_eq_self_iff]
  intro c hc
  simp only [ne_eq, decide_not, Bool.not_eq_true', decide_eq_false_iff_not]
  rintro rfl
  exact h hc

end ErSdk
