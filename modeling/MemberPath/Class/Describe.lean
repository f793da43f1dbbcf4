import MemberPath.Class.Universe
import MemberPath.Text.Layout
import MemberPath.Text.Quoted

/-!
# Types and members as debug text

The debug layouts of the names of a type, of fields and methods, and of a type as a whole. A type
inside a layout is written as its path.
-/

namespace MemberPath

def optionLayout : Option Layout → Layout
  | some x => .tuple "Some" [x]
  | none => .word "None"

namespace Naming

def tyLayout (n : Naming) (t : Ty) : Layout := .word (n.path t)

def namesLayout (n : Naming) (t : Ty) : Layout :=
  .record "TypePathTable" [
    ("type_path", .word (quotedText (n.path t))),
    ("type_name", .word (quotedText (n.name t))),
    ("type_ident", .word (quotedText (n.short t))),
    ("module_path", optionLayout ((n.home t).map fun m => .word (quotedText m)))]

def parentLayout (n : Naming) (parent : Ty) : Layout :=
  .tuple "Superclass" [n.tyLayout parent]

end Naming

def Field.layout (n : Naming) (f : Field) : Layout :=
  .record "FieldInfo" [
    ("name", .word (quotedText f.name)),
    ("ty", n.tyLayout f.ty),
    ("declaring", n.tyLayout f.owner),
    ("optional", .word (if f.optional then "true" else "false"))]

def Method.layout (n : Naming) (m : Method) : Layout :=
  .record "MethodInfo" [
    ("name", .word (quotedText m.name)),
    ("params", .list (m.params.map n.tyLayout)),
    ("ret", n.tyLayout m.result),
    ("declaring", n.tyLayout m.owner)]

/-- A type with its members; arrays have no layout. -/
def Universe.layout? (u : Universe) (t : Ty) : Option Layout :=
  let n := u.naming
  match u.shape t with
  | .object c => some (.tuple "Class" [.record "ClassInfo" [
      ("ty", n.tyLayout t),
      ("fields", .list (c.fields.map (·.layout n))),
      ("methods", .list (c.methods.map (·.layout n))),
      ("superclass", optionLayout (c.parent.map n.parentLayout))]])
  | .leaf => some (.tuple "Opaque" [.record "OpaqueInfo" [("ty", n.tyLayout t)]])
  | .array _ => none

end MemberPath
