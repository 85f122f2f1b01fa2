/-! `Error` and `Result<T>` of shared/util/result.hpp. A result is a value or
an error, so `UD_TRY` is the bind of `Except`. -/
namespace UltraDisplay

inductive ErrorCode where
  | success
  | unknownError
  | outOfMemory
  | networkError
  | timeout
  | invalidParameter
  | notImplemented
  | systemError
  deriving DecidableEq

structure Error where
  code : ErrorCode
  message : Option String := none
  deriving DecidableEq

def systemError (message : String) : Error := { code := .systemError, message := message }

abbrev Result (α : Type) := Except Error α

end UltraDisplay
