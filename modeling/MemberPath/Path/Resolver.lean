import MemberPath.Path.Calls
import MemberPath.Value.Layout

/-!
# Paths in use

A resolver is an expression with its options and its stored resolutions. Everything that is asked
of it goes through `resolve`, which stores what it found even if reading or calling then fails.
-/

namespace MemberPath

/-- An expression in use. -/
structure Resolver where
  expression : Expression
  options : Options
  store : Store

namespace Resolver

/-- What a resolver answered, the resolver after it, and the records it wrote. -/
structure Answer (α : Type) where
  outcome : Except PathError α
  resolver : Resolver
  records : List Record

/-- Goes on with the answer; a failure keeps what was stored. -/
def Answer.bind (a : Answer α) (f : α → Except PathError β) : Answer β :=
  ⟨a.outcome.bind f, a.resolver, a.records⟩

def ofString (text : String) (o : Options) : Except ParseError Resolver :=
  (Expression.ofString text).map (⟨·, o, .empty⟩)

theorem ofString_eq_ok_iff {text : String} {o : Options} {r : Resolver} :
    ofString text o = .ok r ↔ ∃ e, Expression.ofString text = .ok e ∧ r = ⟨e, o, .empty⟩ := by
  cases he : Expression.ofString text with
  | error err => simp [ofString, he, Except.map]
  | ok e => simp [ofString, he, Except.map, eq_comm]

/-- Changes whether lookup by type leaves out `to_string`; stored resolutions stay. -/
def setIgnoreToString (r : Resolver) (ignore : Bool) : Resolver :=
  { r with options := { r.options with ignoreToString := ignore } }

def clear (r : Resolver) : Resolver := { r with store := r.store.clear }

def isCached (r : Resolver) (t : Ty) : Bool := r.store.cached.contains t

def cacheSize (r : Resolver) : Nat := r.store.cached.size

def resolve (u : Universe) (r : Resolver) (target : Value) : Answer Shared :=
  let result := r.store.resolve u r.expression r.options target.ty
  ⟨result.outcome, { r with store := result.store }, result.records⟩

def get (u : Universe) (r : Resolver) (target : Value) : Answer Reading :=
  (r.resolve u target).bind fun s => s.chain.read u target

/-- A reading, if its value has exactly the type `t`. -/
def castTo (t : Ty) (found : Reading) : Except PathError Reading :=
  if found.value.ty = t then .ok found else .error (.invalidCast t found.value.ty)

/-- The value at the end of the path, if it has exactly the type `t`. -/
def getAs (u : Universe) (r : Resolver) (t : Ty) (target : Value) : Answer Reading :=
  (r.get u target).bind (castTo t)

def call (u : Universe) (r : Resolver) (target : Value) (args : List Value) : Answer Value :=
  (r.resolve u target).bind fun s => s.chain.call u target args

/-- Lets `n` calls for one target take their steps in turn, and then one more. -/
def resolveTogether (u : Universe) (r : Resolver) (target : Value) (n : Nat) : Resolver × Calls :=
  let calls := List.replicate (n + 1) (Call.start target.ty)
  let round := List.range n
  let after := Calls.run u r.expression r.options ⟨r.store, calls⟩
    (round ++ round ++ round ++ [n, n, n])
  ({ r with store := after.store }, after)

def layout (r : Resolver) : Layout :=
  .record "ReflectionPath" [
    ("path", .word (quotedText r.expression.text)),
    ("kind", .word r.expression.segments.kind.word),
    ("options", .record "PathOptions" [
      ("strategy", .word r.options.strategy.name),
      ("ignore_to_string", .word (if r.options.ignoreToString then "true" else "false"))]),
    ("cached", .word (toString r.cacheSize))]

end Resolver

end MemberPath
