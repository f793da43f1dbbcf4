import MemberPath.Type.Basic

/-!
# Names of types

Every type has three names: the full path, the name with its parameters, and the short name. A
defined type brings its names along, those of a list are built around the names of its elements.
-/

namespace MemberPath

/-- The names of a type, and the module it lives in. -/
structure TypeNames where
  path : String
  name : String
  short : String
  home : Option String
  deriving DecidableEq

namespace TypeNames

/-- One of the three names, letter for letter. -/
def isNamed (n : TypeNames) (name : String) : Bool :=
  n.short == name || n.path == name || n.name == name

/-- The names of a type without parameters: the path is the module and the name. -/
def simple (home : Option String) (name : String) : TypeNames :=
  ⟨match home with
    | some m => m ++ "::" ++ name
    | none => name, name, name, home⟩

/-- The names of a list whose elements have the names `e`. -/
def list (e : TypeNames) : TypeNames :=
  ⟨"alloc::vec::Vec<" ++ e.path ++ ">", "Vec<" ++ e.name ++ ">", "Vec", some "alloc::vec"⟩

end TypeNames

structure Naming where
  defined : Nat → TypeNames

namespace Naming

def names (n : Naming) : Ty → TypeNames
  | .defined id => n.defined id
  | .list e => (n.names e).list
  | .text => .simple (some "alloc::string") "String"
  | t => .simple none (t.word?.getD "")

def path (n : Naming) (t : Ty) : String := (n.names t).path

def name (n : Naming) (t : Ty) : String := (n.names t).name

def short (n : Naming) (t : Ty) : String := (n.names t).short

def home (n : Naming) (t : Ty) : Option String := (n.names t).home

def isNamed (n : Naming) (t : Ty) (name : String) : Bool := (n.names t).isNamed name

end Naming

end MemberPath
