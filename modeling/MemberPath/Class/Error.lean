import MemberPath.Type.Names

/-!
# What can go wrong with a value or a call

`CopyError` says why a value cannot be copied, `CallError` why a call of a method failed. An error
names the types involved; its message writes them with their paths.
-/

namespace MemberPath

/-- An error raised by the body of a method: what it says, and what its causes say, the nearest
first. -/
structure Raised where
  message : String
  causes : List String
  deriving DecidableEq

/-- Why a value cannot be copied. -/
inductive CopyError
  | notCopyable (ty : Ty)
  deriving DecidableEq

def CopyError.message (n : Naming) : CopyError → String
  | .notCopyable ty => "`reflect_clone` is not supported for `" ++ n.path ty ++ "`"

/-- Why a call failed. -/
inductive CallError
  | argCount (expected received : Nat)
  | argType (index : Nat) (expected received : Ty)
  /-- The receiver has no part of the declaring type. -/
  | receiver (expected received : Ty)
  | raised (error : Raised)
  deriving DecidableEq

namespace CallError

def message (n : Naming) : CallError → String
  | .argCount expected received =>
    "expected " ++ toString expected ++ " argument(s), received " ++ toString received
  | .argType index expected received =>
    "argument " ++ toString index ++ " expected `" ++ n.path expected ++ "`, received `" ++
      n.path received ++ "`"
  | .receiver expected received =>
    "receiver of type `" ++ n.path received ++ "` is not a `" ++ n.path expected ++ "`"
  | .raised _ => "method raised an error"

def causes : CallError → List String
  | .raised e => e.message :: e.causes
  | _ => []

end CallError

end MemberPath
