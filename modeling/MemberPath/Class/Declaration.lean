import MemberPath.Class.Universe
import MemberPath.Value.Layout

/-!
# Declarations of types

Types can be declared by data alone: what the body of a method does and how values are copied are
chosen from a few ways. `Universe.ofDeclarations?` makes a universe of declared types.
-/

namespace MemberPath

/-- What the body of a declared method does. -/
inductive Body
  | const (v : Value)
  /-- Gives what slot `i` of the receiver holds, and fails if it is empty. -/
  | slot (i : Nat)
  | this
  | arg (i : Nat)
  /-- Gives the debug text of the receiver and the arguments. -/
  | debug
  | raise (e : Raised)
  | unit

namespace Body

def failure (message : String) : Raised := ⟨message, []⟩

/-- Runs the body on a receiver and the arguments taken. -/
def run (n : Naming) (this : Value) (args : List Value) : Body → Except Raised Value
  | .const v => .ok v
  | .slot i =>
    match this.slot? i with
    | some v => .ok v
    | none => .error (failure "field holds no value")
  | .this => .ok this
  | .arg i => .ok (args[i]?.getD .unit)
  | .debug =>
    .ok (.text (this.debug n ++ "(" ++ ", ".intercalate (args.map (·.debug n)) ++ ")"))
  | .raise e => .error e
  | .unit => .ok .unit

end Body

/-- How values of a declared type are copied. -/
inductive Copying
  | faithful
  | refused
  /-- The copy is the unit value, of another type than the value. -/
  | hollow
  deriving DecidableEq

def Copying.copy (t : Ty) : Copying → Value → Except CopyError Value
  | .faithful, v => .ok v
  | .refused, _ => .error (.notCopyable t)
  | .hollow, _ => .ok .unit

structure FieldDecl where
  name : String
  ty : Ty
  optional : Bool

/-- A declared method; `takes` are the types that it takes its arguments as. -/
structure MethodDecl where
  name : String
  params : List Ty
  result : Ty
  takes : List Ty
  body : Body

inductive ShapeDecl
  | object (fields : List FieldDecl) (methods : List MethodDecl) (parent : Option Ty)
  | array (elem : Ty)
  | leaf

structure TypeDecl where
  names : TypeNames
  shape : ShapeDecl
  copying : Copying

/-- The fields of a class in the order of their slots. -/
def FieldDecl.fields (owner : Ty) (ds : List FieldDecl) : List Field :=
  ds.zipIdx.map fun (d, i) => .ofSlot owner i d.name d.ty d.optional

def MethodDecl.method (n : Naming) (owner : Ty) (d : MethodDecl) : Method :=
  ⟨d.name, d.params, d.result, owner,
    Method.runTaking owner d.takes fun this args => d.body.run n this args⟩

def ShapeDecl.shape (n : Naming) (owner : Ty) : ShapeDecl → Shape
  | .object fs ms parent => .object ⟨FieldDecl.fields owner fs, ms.map (·.method n owner), parent⟩
  | .array e => .array e
  | .leaf => .leaf

/-- The definition of a declared type with the number `id`. -/
def TypeDecl.definition (n : Naming) (id : Nat) (d : TypeDecl) : Definition :=
  ⟨d.names, d.shape.shape n (.defined id), d.copying.copy (.defined id)⟩

namespace Universe

/-- The universe of some definitions and the declared types behind them. -/
def ofDeclarations? (defs : List Definition) (decls : List TypeDecl) : Option Universe :=
  let names := (defs.map (·.names) ++ decls.map (·.names)).toArray
  let naming : Naming := ⟨fun id => names.getD id Definition.vacant.names⟩
  let declared := decls.zipIdx.map fun (d, i) => d.definition naming (defs.length + i)
  ofDefinitions? (defs ++ declared).toArray

end Universe

end MemberPath
