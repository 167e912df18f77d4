import Mathlib.Tactic

/-! The error codes of `carrier/IOEX_carrier.h`. -/
namespace Carrier.Common

/-- `IOEX_MK_ERROR`, an `unsigned int`. -/
def mkError (facility code : ℕ) : ℕ :=
  0x80000000 ||| (facility <<< 24) ||| (((code &&& 0x80000000) >>> 8) ||| (code &&& 0x7fffffff))

/-- The codes of the general facility that the modelled functions return. -/
inductive ErrorCode where
  | invalidArgs
  | outOfMemory
  | notReady
  | notExist
  | alreadyExist
  | wrongState
  | limitExceeded
  | busy
  | encrypt
  | noMatchedRequest
  | fileInvalid
  | fileTrackerInvalid
  deriving DecidableEq

def ErrorCode.code : ErrorCode → ℕ
  | .invalidArgs => 0x01
  | .outOfMemory => 0x02
  | .notReady => 0x0A
  | .notExist => 0x0B
  | .alreadyExist => 0x0C
  | .wrongState => 0x12
  | .busy => 0x13
  | .limitExceeded => 0x19
  | .encrypt => 0x15
  | .noMatchedRequest => 0x0D
  | .fileInvalid => 0x27
  | .fileTrackerInvalid => 0x29

def sysError (code : ℕ) : ℕ := mkError 0x02 code

def iceError (code : ℕ) : ℕ := mkError 0x05 code

def generalError (e : ErrorCode) : ℕ := mkError 0x01 e.code

/-- A general error as the result of a function that returns `int`. -/
def intError (e : ErrorCode) : ℤ := (generalError e : ℤ) - 2 ^ 32

theorem intError_neg (e : ErrorCode) : intError e < 0 := by
  cases e <;> decide

end Carrier.Common
