import MemberPath.Path.Store

/-!
# Calls that share a path

Several threads may resolve one expression at the same time. Each call takes the steps of
`Store.resolve` one by one, and the steps of different calls may come in any order.
-/

namespace MemberPath

/-- How far a call has come. -/
inductive Phase
  /-- It has not yet looked for a stored resolution. -/
  | asked
  | missed
  | built (own : Shared)
  | done (outcome : Except PathError Shared)

/-- A call of `resolve` for a type, how far it has come, and the records it wrote. -/
structure Call where
  target : Ty
  phase : Phase
  records : List Record

namespace Call

def start (t : Ty) : Call := ⟨t, .asked, []⟩

def outcome? (c : Call) : Option (Except PathError Shared) :=
  match c.phase with
  | .done r => some r
  | _ => none

def step (u : Universe) (e : Expression) (o : Options) (s : Store) (c : Call) : Store × Call :=
  match c.phase with
  | .asked =>
    match s.cached.get? c.target with
    | some found => (s, { c with phase := .done (.ok found) })
    | none => (s, { c with phase := .missed, records := c.records ++ [.resolving e.text c.target] })
  | .missed =>
    let w := u.chainOf e o c.target
    match w.outcome with
    | .error err => (s, { c with phase := .done (.error err), records := c.records ++ w.records })
    | .ok chain =>
      let (own, s) := s.allocate chain
      (s, { c with phase := .built own, records := c.records ++ w.records })
  | .built own =>
    let (stored, s) := s.keep c.target own
    (s, { c with
      phase := .done (.ok stored)
      records := c.records ++ Store.overtaken e.text c.target own stored })
  | .done _ => (s, c)

/-- A call that nobody else interferes with takes three steps and does what `Store.resolve` does. -/
theorem step_alone (u : Universe) (e : Expression) (o : Options) (s : Store) (t : Ty) :
    let one := (start t).step u e o s
    let two := one.2.step u e o one.1
    let three := two.2.step u e o two.1
    let r := s.resolve u e o t
    three = (r.store, ⟨t, .done r.outcome, r.records⟩) := by
  simp only [start, Store.resolve]
  cases h : s.cached.get? t with
  | some found => simp [step, h]
  | none =>
    cases hw : (u.chainOf e o t).outcome with
    | error err => simp [step, h, hw]
    | ok chain => simp [step, h, hw, Store.allocate]

end Call

structure Calls where
  store : Store
  calls : List Call

namespace Calls

/-- The next step of call `i`; nothing happens if there is no such call. -/
def step (u : Universe) (e : Expression) (o : Options) (cs : Calls) (i : Nat) : Calls :=
  match cs.calls[i]? with
  | none => cs
  | some c =>
    let (s, c) := c.step u e o cs.store
    ⟨s, cs.calls.set i c⟩

/-- The steps of a schedule, one after the other. -/
def run (u : Universe) (e : Expression) (o : Options) (cs : Calls) (schedule : List Nat) : Calls :=
  schedule.foldl (step u e o) cs

end Calls

end MemberPath
