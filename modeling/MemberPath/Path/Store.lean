import MemberPath.Assoc
import MemberPath.Path.Walk

/-!
# Stored resolutions

A resolution is made once per type of target and then shared. Every resolution that is built gets
a number of its own, so that two of them are told apart even where their chains agree. Resolving
has three steps: look for a stored resolution, build one, and store it unless another one was
stored in the meantime.
-/

namespace MemberPath

/-- A resolution that can be shared; the number identifies it. -/
structure Shared where
  number : Nat
  chain : Chain

/-- The stored resolutions by type of target, and how many have ever been built. -/
structure Store where
  cached : Assoc Ty Shared
  built : Nat

/-- What resolving gave, the store after it, and the records it wrote. -/
structure Resolved where
  outcome : Except PathError Shared
  store : Store
  records : List Record

namespace Store

def empty : Store := ⟨.empty, 0⟩

/-- Numbers a chain that was just built. -/
def allocate (s : Store) (c : Chain) : Shared × Store :=
  (⟨s.built, c⟩, ⟨s.cached, s.built + 1⟩)

/-- Stores a resolution for a type unless there is one; the answer is the stored one. -/
def keep (s : Store) (t : Ty) (own : Shared) : Shared × Store :=
  let entry := s.cached.getOrInsert t fun _ => own
  (entry.value, ⟨entry.map, s.built⟩)

/-- The record that a resolution was stored too late. -/
def overtaken (path : String) (t : Ty) (own stored : Shared) : List Record :=
  if stored.number = own.number then [] else [.overtaken path t]

def clear (s : Store) : Store := ⟨.empty, s.built⟩

/-- Resolves an expression for targets of type `t`. -/
def resolve (u : Universe) (e : Expression) (o : Options) (t : Ty) (s : Store) : Resolved :=
  match s.cached.get? t with
  | some found => ⟨.ok found, s, []⟩
  | none =>
    let w := u.chainOf e o t
    let records := .resolving e.text t :: w.records
    match w.outcome with
    | .error err => ⟨.error err, s, records⟩
    | .ok chain =>
      let (own, s) := s.allocate chain
      let (stored, s) := s.keep t own
      ⟨.ok stored, s, records ++ overtaken e.text t own stored⟩

end Store

end MemberPath
