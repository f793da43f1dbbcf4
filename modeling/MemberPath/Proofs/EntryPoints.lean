import MemberPath.Proofs.ErrorPropagation
import MemberPath.Proofs.Requests
import MemberPath.Proofs.WalkComposition

/-!
# The ways to use a path on an object

A path can be resolved for an object, read from it, read as a value of one type, and called on it.
`uses_agree`: reading as a type is reading and then looking at the type, calling without arguments
is reading where the path ends at a method, and all four leave the same behind. Reading and calling
go along a chain by different functions (`Chain.call_nil`).
-/

namespace MemberPath
variable {u : Universe} {o : Options} {e : Expression} {t expected actual : Ty} {root : Value}

theorem Universe.chainOf_ne_invalidCast :
    (u.chainOf e o t).outcome ≠ .error (.invalidCast expected actual) := by
  intro h
  rcases chainOf_error_cases h with ⟨-, herr⟩ | ⟨_, hplace⟩
  · cases herr
  · cases hplace

namespace Chain
variable {c : Chain} {m : Method} {r : Reading}

theorem read_ne_invalidCast : c.read u root ≠ .error (.invalidCast expected actual) := by
  intro h
  obtain ⟨_, m, _, r, -, -, hm⟩ := advanceAll_eq_error_iff.1 h
  have hfails := Member.failsWith_of_advance hm
  cases hfails

/-- A call without arguments gives what reading gives. -/
theorem call_nil (h : c.last = .method m) :
    c.call u root [] = (c.read u root).map (·.value) := by
  rw [read_eq_bind, call, h]
  show (advanceAll u ⟨root, true⟩ c.init).bind _ = _
  cases advanceAll u ⟨root, true⟩ c.init with
  | error err => rfl
  | ok r =>
    simp only [Except.bind, Member.advance]
    cases m.call u r.value [] <;> rfl

theorem not_borrowed_of_read (h : c.last = .method m) (hr : c.read u root = .ok r) :
    r.borrowed = false := by
  rw [borrowed_of_advanceAll hr]
  simp [members, h, Member.isMethod]

end Chain

namespace Resolver
variable {r : Resolver} {v : Value} {x : Shared} {err : PathError}

/-- What the uses of a path on the object `v` have to do with each other, whatever state the path is
in. -/
structure UsesAgree (u : Universe) (r : Resolver) (v : Value) : Prop where
  cast : ∀ t y, (r.getAs u t v).outcome = .ok y ↔
    (r.get u v).outcome = .ok y ∧ y.value.ty = t
  miscast : ∀ t expected actual,
    (r.getAs u t v).outcome = .error (.invalidCast expected actual) ↔
      ∃ y, (r.get u v).outcome = .ok y ∧ y.value.ty ≠ t ∧ expected = t ∧ actual = y.value.ty
  unread : ∀ t err, (r.get u v).outcome = .error err → (r.getAs u t v).outcome = .error err
  called : ∀ x m, (r.resolve u v).outcome = .ok x → x.chain.last = .method m →
    (r.call u v []).outcome = (r.get u v).outcome.map (·.value) ∧
      ∀ y, (r.get u v).outcome = .ok y → y.borrowed = false
  notInvocable : ∀ x f, (r.resolve u v).outcome = .ok x → x.chain.last = .field f →
    ∀ args, (r.call u v args).outcome = .error (.notInvocable f.name)
  unresolved : ∀ err, (r.resolve u v).outcome = .error err →
    (r.get u v).outcome = .error err ∧ (∀ t, (r.getAs u t v).outcome = .error err) ∧
      ∀ args, (r.call u v args).outcome = .error err
  /-- What is stored does not depend on what the path is used for, nor on how that ends. -/
  store : (r.get u v).resolver = (r.resolve u v).resolver ∧
    (∀ t, (r.getAs u t v).resolver = (r.resolve u v).resolver) ∧
      ∀ args, (r.call u v args).resolver = (r.resolve u v).resolver

theorem outcome_get : (r.get u v).outcome =
    (r.resolve u v).outcome.bind fun x => x.chain.read u v := rfl

theorem outcome_getAs : (r.getAs u t v).outcome = (r.get u v).outcome.bind (castTo t) := rfl

theorem outcome_call {args : List Value} : (r.call u v args).outcome =
    (r.resolve u v).outcome.bind fun x => x.chain.call u v args := rfl

theorem castTo_eq_ok_iff {y z : Reading} : castTo t y = .ok z ↔ z = y ∧ y.value.ty = t := by
  rw [castTo]
  split
  · next ht => simp [ht, eq_comm]
  · next ht => simp [ht]

theorem castTo_eq_error_iff {y : Reading} :
    castTo t y = .error err ↔ y.value.ty ≠ t ∧ err = .invalidCast t y.value.ty := by
  rw [castTo]
  split
  · next ht => simp [ht]
  · next ht => simp [ht, eq_comm]

theorem resolve_ne_invalidCast :
    (r.resolve u v).outcome ≠ .error (.invalidCast expected actual) := by
  have ho : (r.resolve u v).outcome = _ := Store.outcome_resolve ..
  rw [ho]
  cases r.store.cached.get? v.ty with
  | some x => nofun
  | none =>
    cases hw : (u.chainOf r.expression r.options v.ty).outcome with
    | ok c => nofun
    | error err =>
      rintro h
      cases h
      exact Universe.chainOf_ne_invalidCast hw

theorem get_ne_invalidCast : (r.get u v).outcome ≠ .error (.invalidCast expected actual) := by
  rw [outcome_get]
  cases hr : (r.resolve u v).outcome with
  | error err =>
    intro h
    cases h
    exact resolve_ne_invalidCast hr
  | ok x => exact Chain.read_ne_invalidCast

theorem getAs_eq_ok_iff {y : Reading} : (r.getAs u t v).outcome = .ok y ↔
    (r.get u v).outcome = .ok y ∧ y.value.ty = t := by
  rw [outcome_getAs]
  cases (r.get u v).outcome with
  | error err => simp [Except.bind]
  | ok z =>
    simp only [Except.bind, castTo_eq_ok_iff, Except.ok.injEq]
    constructor
    · rintro ⟨rfl, ht⟩
      exact ⟨rfl, ht⟩
    · rintro ⟨rfl, ht⟩
      exact ⟨rfl, ht⟩

/-- Only the cast itself gives an `invalidCast`. -/
theorem getAs_eq_invalidCast_iff :
    (r.getAs u t v).outcome = .error (.invalidCast expected actual) ↔
      ∃ y, (r.get u v).outcome = .ok y ∧ y.value.ty ≠ t ∧ expected = t ∧ actual = y.value.ty := by
  have hne : (r.get u v).outcome ≠ .error (.invalidCast expected actual) := get_ne_invalidCast
  rw [outcome_getAs]
  cases hg : (r.get u v).outcome with
  | error err =>
    rw [hg] at hne
    exact iff_of_false hne nofun
  | ok z =>
    simp [Except.bind, castTo_eq_error_iff]

theorem uses_agree (u : Universe) (r : Resolver) (v : Value) : r.UsesAgree u v where
  cast _ _ := getAs_eq_ok_iff
  miscast _ _ _ := getAs_eq_invalidCast_iff
  unread _ _ h := by rw [outcome_getAs, h]; rfl
  called x m hx hlast := by
    rw [outcome_call, outcome_get, hx]
    exact ⟨Chain.call_nil hlast, fun _ => Chain.not_borrowed_of_read hlast⟩
  notInvocable x f hx hlast args := by
    rw [outcome_call, hx]
    show x.chain.call u v args = _
    rw [Chain.call, hlast]
  unresolved err h := by
    have hget : (r.get u v).outcome = .error err := by rw [outcome_get, h]; rfl
    refine ⟨hget, fun t => ?_, fun args => ?_⟩
    · rw [outcome_getAs, hget]; rfl
    · rw [outcome_call, h]; rfl
  store := ⟨rfl, fun _ => rfl, fun _ => rfl⟩

end Resolver

end MemberPath
