import MemberPath.Text.Layout
import MemberPath.Text.Quoted
import MemberPath.Type.Names
import MemberPath.Value.Basic

/-!
# Values as debug text

Native values are written as literals and lists item by item; of an object only its type is shown.
-/

namespace MemberPath.Value

mutual

def layout (n : Naming) : Value → Layout
  | .bool b => .word (if b then "true" else "false")
  | .char c => .word (quotedChar c)
  | .int _ i => .word (toString i)
  | .float _ digits => .word digits
  | .text s => .word (quotedText s)
  | .unit => .word "()"
  | .list _ items => .list (layouts n items)
  | .object id .. => .word ("Reflect(" ++ n.path (.defined id) ++ ")")

def layouts (n : Naming) : List Value → List Layout
  | [] => []
  | v :: vs => layout n v :: layouts n vs

end

/-- The debug text of a value, on one line. -/
def debug (n : Naming) (v : Value) : String :=
  (v.layout n).compact

/-- The debug text of a value, one item per line. -/
def pretty (n : Naming) (v : Value) : String :=
  (v.layout n).pretty

end MemberPath.Value
