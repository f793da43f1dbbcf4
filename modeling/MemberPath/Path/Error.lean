import MemberPath.Class.Error

/-!
# Why a path fails

The causes for which a path cannot be resolved, read or called on an object.
-/

namespace MemberPath

/-- Why resolving, reading or calling a path failed. -/
inductive PathError
  /-- A name is no member of the type it is looked up on. -/
  | missingMember (segment : String) (on : Ty)
  /-- No member gives a value of the asked type. -/
  | noTypeMatch (typeName : String) (on : Ty)
  /-- Several members give a value of the asked type where exactly one is wanted. -/
  | ambiguousType (typeName : String) (on : Ty) (candidates : Nat)
  /-- The expression has no segments. -/
  | unresolved (path : String)
  | nullValue (member : String)
  /-- The path ends at a field, which cannot be called. -/
  | notInvocable (field : String)
  /-- The value has another type than the one asked for. -/
  | invalidCast (expected actual : Ty)
  | failedCall (method : String) (cause : CallError)
  /-- A field of a method's result cannot be copied out of it. -/
  | detach (member : String) (cause : CopyError)
  deriving DecidableEq

namespace PathError

def message (n : Naming) : PathError → String
  | .missingMember segment on =>
    "no field or method found for `" ++ segment ++ "` in " ++ n.short on
  | .noTypeMatch typeName on =>
    "no member found of type `" ++ typeName ++ "` in " ++ n.short on
  | .ambiguousType typeName on candidates =>
    toString candidates ++ " members of type `" ++ typeName ++ "` found in " ++ n.short on ++
      ", expected exactly one"
  | .unresolved path => "failed to resolve path: " ++ path
  | .nullValue member => "`" ++ member ++ "` holds no value"
  | .notInvocable field => "cannot invoke field `" ++ field ++ "` as a method"
  | .invalidCast expected actual =>
    "cannot cast `" ++ n.path actual ++ "` to `" ++ n.path expected ++ "`"
  | .failedCall method _ => "failed to invoke `" ++ method ++ "`"
  | .detach member _ => "cannot detach `" ++ member ++ "` from a method result"

def causes (n : Naming) : PathError → List String
  | .failedCall _ e => e.message n :: e.causes
  | .detach _ e => [e.message n]
  | _ => []

end PathError

end MemberPath
