import MemberPath.Assoc
import MemberPath.Class.Args

/-!
# Members of classes

A field reads a part of an object of its declaring class, a method computes a value from one. A
class lists its own members only; what it inherits is found along its superclasses.
-/

namespace MemberPath

structure Field where
  name : String
  /-- The declared type of the value. -/
  ty : Ty
  /-- The field may hold no value. -/
  optional : Bool
  /-- The declaring class. -/
  owner : Ty
  /-- Reads the field from an object of the declaring class. -/
  get : Value → Option Value

structure Method where
  name : String
  params : List Ty
  result : Ty
  /-- The declaring class. -/
  owner : Ty
  /-- Runs the method on an object of the declaring class. -/
  run : Value → Args → Except CallError Value

namespace Field

def ofSlot (owner : Ty) (i : Nat) (name : String) (ty : Ty) (optional : Bool) : Field :=
  ⟨name, ty, optional, owner, Value.slot? i⟩

end Field

namespace Method

/-- A run that insists on a receiver of the declaring class, takes one argument per entry of
`takes`, and leaves the rest to `body`. -/
def runTaking (owner : Ty) (takes : List Ty) (body : Value → List Value → Except Raised Value)
    (this : Value) (args : Args) : Except CallError Value :=
  if this.ty = owner then
    match args.takeAll takes with
    | .error e => .error e
    | .ok vs => (body this vs).mapError .raised
  else .error (.receiver owner this.ty)

def ofBody (owner : Ty) (name : String) (params : List Ty) (result : Ty)
    (body : Value → List Value → Except Raised Value) : Method :=
  ⟨name, params, result, owner, runTaking owner params body⟩

end Method

inductive Member
  | field (f : Field)
  | method (m : Method)

namespace Member

def name : Member → String
  | .field f => f.name
  | .method m => m.name

/-- The declared type of what the member gives. -/
def target : Member → Ty
  | .field f => f.ty
  | .method m => m.result

/-- The declaring class. -/
def owner : Member → Ty
  | .field f => f.owner
  | .method m => m.owner

def isMethod : Member → Bool
  | .field _ => false
  | .method _ => true

end Member

/-- The own members of a class in the order of their declaration, and its superclass. -/
structure Class where
  fields : List Field
  methods : List Method
  parent : Option Ty

namespace Class

/-- The position of the field of each name; of several fields of one name, the last. -/
def fieldIndex (c : Class) : Assoc String Nat :=
  c.fields.zipIdx.foldl (fun index (f, i) => index.insert f.name i) Assoc.empty

/-- The field that the index finds under a name. -/
def field? (c : Class) (name : String) : Option Field := do
  c.fields[← c.fieldIndex.get? name]?

/-- The first method of a name. -/
def method? (c : Class) (name : String) : Option Method :=
  c.methods.find? (·.name == name)

end Class

end MemberPath
