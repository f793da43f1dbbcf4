import MemberPath.Class.Universe

/-!
# Copies of values

Native values are copied as they are, objects as their definition says, and lists item by item. A
list takes only copies of exactly its element type.
-/

namespace MemberPath.Universe

mutual

/-- A copy of a value that does not share anything with it. -/
def copy (u : Universe) : Value → Except CopyError Value
  | .list e items => (u.copyItems e items).map (.list e)
  | .object id slots base tag => (u.definition id).copy (.object id slots base tag)
  | v => .ok v

/-- Copies of the items of a list; the first item that does not yield one decides the error. -/
def copyItems (u : Universe) (e : Ty) : List Value → Except CopyError (List Value)
  | [] => .ok []
  | v :: vs =>
    match u.copy v with
    | .error err => .error err
    | .ok w =>
      if w.ty = e then (u.copyItems e vs).map (w :: ·)
      else .error (.notCopyable (.list e))

end

end MemberPath.Universe
