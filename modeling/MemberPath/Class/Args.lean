import MemberPath.Class.Error
import MemberPath.Value.Basic

/-!
# Taking the arguments of a call

A cursor over the arguments of a call. `next` takes the argument under the cursor if it has exactly
the asked type; if not, the cursor stays where it is.
-/

namespace MemberPath

/-- The arguments of a call, and how many of them have been taken. -/
structure Args where
  values : List Value
  taken : Nat

namespace Args

def ofList (values : List Value) : Args := ⟨values, 0⟩

/-- Takes the next argument as a value of type `t`. -/
def next (a : Args) (t : Ty) : Except CallError Value × Args :=
  match a.values[a.taken]? with
  | none => (.error (.argCount (a.taken + 1) a.values.length), a)
  | some v =>
    if v.ty = t then (.ok v, ⟨a.values, a.taken + 1⟩)
    else (.error (.argType a.taken t v.ty), a)

/-- The answers to several calls of `next`, whatever the calls before them answered, and the cursor
behind them. -/
def nexts (a : Args) : List Ty → List (Except CallError Value) × Args
  | [] => ([], a)
  | t :: ts =>
    let (r, a) := a.next t
    let (rs, a) := a.nexts ts
    (r :: rs, a)

/-- Takes one argument per type; the first failure is the answer. -/
def takeAll (a : Args) : List Ty → Except CallError (List Value)
  | [] => .ok []
  | t :: ts =>
    match a.next t with
    | (.error e, _) => .error e
    | (.ok v, a) => (a.takeAll ts).map (v :: ·)

end Args

end MemberPath
