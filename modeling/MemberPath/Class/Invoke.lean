import MemberPath.Value.Upcast

/-!
# Reading fields and calling methods

Both work on any object that has a part of the declaring class: that part is found first, along
superclass links `parent`.
-/

namespace MemberPath

/-- Reads a field; nothing if the value has no part of the declaring class or the field is empty. -/
def Field.readAlong (parent : Ty → Option Ty) (f : Field) (v : Value) : Option Value :=
  (v.upcast parent f.owner).bind f.get

/-- Calls a method. The number of arguments is checked first, then the receiver. -/
def Method.callAlong (parent : Ty → Option Ty) (m : Method) (v : Value) (args : List Value) :
    Except CallError Value :=
  if args.length = m.params.length then
    match v.upcast parent m.owner with
    | some this => m.run this (.ofList args)
    | none => .error (.receiver m.owner v.ty)
  else .error (.argCount m.params.length args.length)

def Field.read (u : Universe) (f : Field) (v : Value) : Option Value :=
  f.readAlong u.parent? v

def Method.call (u : Universe) (m : Method) (v : Value) (args : List Value) :
    Except CallError Value :=
  m.callAlong u.parent? v args

variable {u : Universe} {v part : Value} {args : List Value}

theorem Field.read_eq (f : Field) : f.read u v = (u.upcast f.owner v).bind f.get :=
  rfl

theorem Method.call_of_upcast {m : Method} (hn : args.length = m.params.length)
    (h : u.upcast m.owner v = some part) : m.call u v args = m.run part (.ofList args) := by
  have h' : v.upcast u.parent? m.owner = some part := h
  rw [call, callAlong, if_pos hn, h']

theorem Method.call_of_ne {m : Method} (hn : args.length ≠ m.params.length) :
    m.call u v args = .error (.argCount m.params.length args.length) :=
  if_neg hn

end MemberPath
