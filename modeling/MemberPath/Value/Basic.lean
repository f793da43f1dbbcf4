import MemberPath.Type.Basic

/-!
# Values

A value knows its type. An object of a defined type has one slot per field, which may be empty, and
the embedded object of its superclass, if it has one.
-/

namespace MemberPath

/-- A value of any type. A floating-point number is carried as its text. -/
inductive Value
  | bool (b : Bool)
  | char (c : Char)
  | int (kind : IntKind) (n : Int)
  | float (kind : FloatKind) (text : String)
  | text (s : String)
  | unit
  | list (elem : Ty) (items : List Value)
  | object (id : Nat) (slots : List (Option Value)) (base : Option Value) (tag : String)

namespace Value

/-- The concrete type of a value. -/
def ty : Value → Ty
  | .bool _ => .bool
  | .char _ => .char
  | .int k _ => .int k
  | .float k _ => .float k
  | .text _ => .text
  | .unit => .unit
  | .list e _ => .list e
  | .object id .. => .defined id

/-- The embedded object of the superclass. -/
def base? : Value → Option Value
  | .object _ _ base _ => base
  | _ => none

def slot? (i : Nat) : Value → Option Value
  | .object _ slots _ _ => slots[i]?.join
  | _ => none

def tag : Value → String
  | .object _ _ _ tag => tag
  | _ => ""

theorem sizeOf_base?_lt {v b : Value} (h : v.base? = some b) : sizeOf b < sizeOf v := by
  cases v with
  | object id slots base tag =>
    cases h
    simp only [object.sizeOf_spec, Option.some.sizeOf_spec]
    omega
  | _ => cases h

end Value

end MemberPath
