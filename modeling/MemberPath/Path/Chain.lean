import MemberPath.Class.Invoke
import MemberPath.Path.Error
import MemberPath.Value.Copy

/-!
# Chains of members

A resolved path is a non-empty chain of members: each is applied to what the one in front of it
gave. `read` follows a chain from a root. As long as it passes fields only, the value is a part of
the root itself; the result of a method stands alone, and so does whatever is read out of one,
which is therefore copied.
-/

namespace MemberPath

structure Reading where
  value : Value
  /-- The value is a part of the root, and not a copy or the result of a method. -/
  borrowed : Bool

/-- Applies a member to the value found so far. -/
def Member.advance (u : Universe) (r : Reading) : Member → Except PathError Reading
  | .field f =>
    match f.read u r.value with
    | none => .error (.nullValue f.name)
    | some v =>
      if r.borrowed then .ok ⟨v, true⟩
      else
        match u.copy v with
        | .ok w => .ok ⟨w, false⟩
        | .error e => .error (.detach f.name e)
  | .method m =>
    match m.call u r.value [] with
    | .ok v => .ok ⟨v, false⟩
    | .error e => .error (.failedCall m.name e)

def advanceAll (u : Universe) (r : Reading) (ms : List Member) : Except PathError Reading :=
  ms.foldlM (Member.advance u) r

/-- A non-empty list of members. -/
structure Chain where
  init : List Member
  last : Member

namespace Chain

def members (c : Chain) : List Member := c.init ++ [c.last]

def ofMembers? (ms : List Member) : Option Chain :=
  ms.getLast?.map (⟨ms.dropLast, ·⟩)

def parent? (c : Chain) : Option Chain := ofMembers? c.init

def length (c : Chain) : Nat := c.init.length + 1

def target (c : Chain) : Ty := c.last.target

/-- The value at the end of the chain; methods are called without arguments. -/
def read (u : Universe) (c : Chain) (root : Value) : Except PathError Reading :=
  advanceAll u ⟨root, true⟩ c.members

/-- Calls the method at the end of the chain on the value in front of it. -/
def call (u : Universe) (c : Chain) (root : Value) (args : List Value) : Except PathError Value :=
  match c.last with
  | .field f => .error (.notInvocable f.name)
  | .method m => do
    let r ← advanceAll u ⟨root, true⟩ c.init
    (m.call u r.value args).mapError (.failedCall m.name)

/-- A member with its class, as a chain shows it. -/
def memberText (n : Naming) : Member → String
  | .field f => n.short f.owner ++ "::" ++ f.name
  | .method m => n.short m.owner ++ "::" ++ m.name ++ "()"

def text (n : Naming) (c : Chain) : String :=
  " -> ".intercalate (c.members.map (memberText n))

theorem ofMembers?_members (c : Chain) : ofMembers? c.members = some c := by
  simp [ofMembers?, members]

theorem members_of_ofMembers? {ms : List Member} {c : Chain} (h : ofMembers? ms = some c) :
    c.members = ms := by
  rw [ofMembers?, Option.map_eq_some_iff] at h
  obtain ⟨m, hm, rfl⟩ := h
  obtain ⟨init, rfl⟩ := List.getLast?_eq_some_iff.1 hm
  simp [members]

theorem ofMembers?_eq_none_iff {ms : List Member} : ofMembers? ms = none ↔ ms = [] := by
  simp [ofMembers?]

end Chain

end MemberPath
