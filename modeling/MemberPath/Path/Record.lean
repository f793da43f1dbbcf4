import MemberPath.Path.Component
import MemberPath.Type.Names

/-!
# Records of a resolution

What a resolution writes into the log: that it starts, what each segment found, and that another
resolution for the same type was stored first.
-/

namespace MemberPath

/-- One record of the log; `path` is the text of the expression. -/
inductive Record
  /-- The hierarchy of `target` is about to be searched. -/
  | resolving (path : String) (target : Ty)
  /-- A component matched `count` members of `on`. -/
  | counted (path : String) (count : Nat) (component : Component) (on : Ty)
  | selected (path : String) (isMethod : Bool) (name : String) (on : Ty)
  /-- Another resolution for `target` was stored first. -/
  | overtaken (path : String) (target : Ty)
  deriving DecidableEq

namespace Record

inductive Level
  | debug
  | trace
  deriving DecidableEq

def level : Record → Level
  | .resolving .. | .overtaken .. => .debug
  | .counted .. | .selected .. => .trace

def message (n : Naming) : Record → String
  | .resolving path target => "resolving `" ++ path ++ "` for `" ++ n.path target ++ "`"
  | .counted path count component on =>
    "`" ++ path ++ "`: " ++ toString count ++ " candidate(s) of `" ++ component.display ++
      "` on `" ++ n.short on ++ "`"
  | .selected path isMethod name on =>
    "`" ++ path ++ "`: " ++ (if isMethod then "method" else "field") ++ " `" ++ name ++ "` on `" ++
      n.short on ++ "`"
  | .overtaken path target =>
    "`" ++ path ++ "` was resolved concurrently for `" ++ n.path target ++ "`, keeping the first"

def line (n : Naming) (r : Record) : String :=
  (match r.level with
    | .debug => "DEBUG "
    | .trace => "TRACE ") ++ r.message n

end Record

end MemberPath
