import MemberPath.Class.Universe
import MemberPath.Path.Component

/-!
# Finding members

Members are looked up along the hierarchy of a type, either by their name or by the type of what
they give.
-/

namespace MemberPath.Universe

/-- A type answers to a component: the array marker agrees, and the name is one of the names of the
type or, for an array, of its elements. -/
def answers (u : Universe) (t : Ty) (name : String) (isArray : Bool) : Bool :=
  match u.shape t with
  | .array e => isArray && u.naming.isNamed e name
  | _ => !isArray && u.naming.isNamed t name

/-- The field of a name that is declared nearest to `t`. -/
def findField? (u : Universe) (t : Ty) (name : String) : Option Field :=
  (u.hierarchy t).findSome? fun c => (u.class? c).bind (·.field? name)

/-- The method of a name that is declared nearest to `t`. -/
def findMethod? (u : Universe) (t : Ty) (name : String) : Option Method :=
  (u.hierarchy t).findSome? fun c => (u.class? c).bind (·.method? name)

/-- The member of a name: a field anywhere in the hierarchy comes before every method. -/
def memberNamed? (u : Universe) (t : Ty) (name : String) : Option Member :=
  match u.findField? t name with
  | some f => some (.field f)
  | none => (u.findMethod? t name).map .method

/-- The method that lookup by type may be told to leave out. -/
def hiddenName : String := "to_string"

/-- The method can be found by the type of its result. -/
def yields (u : Universe) (c : Component) (ignoreToString : Bool) (m : Method) : Bool :=
  m.params.isEmpty && !(ignoreToString && m.name == hiddenName) &&
    u.answers m.result c.typeName c.isArray

/-- The members that give a value of the asked type: the fields of the hierarchy, then its methods
without parameters, the most derived class first and in the order of declaration. -/
def membersOfType (u : Universe) (t : Ty) (c : Component) (ignoreToString : Bool) : List Member :=
  (((u.hierarchy t).flatMap u.fields).filter (u.answers ·.ty c.typeName c.isArray)).map .field ++
    (((u.hierarchy t).flatMap u.methods).filter (u.yields c ignoreToString)).map .method

end MemberPath.Universe
