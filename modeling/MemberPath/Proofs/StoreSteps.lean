import MemberPath.Path.Store

/-!
# What resolving does to a store

`outcome_resolve` and `get?_resolve` say what `Store.resolve` answers and what is stored behind it:
a stored resolution is the answer as it is, and for a type without one the walk decides. Nothing
that is stored for other types changes, and a failure changes nothing at all.
-/

namespace MemberPath.Store
variable {u : Universe} {e : Expression} {o : Options} {s : Store} {t : Ty}

theorem keep_of_some {x : Shared} (h : s.cached.get? t = some x) (own : Shared) :
    s.keep t own = (x, s) := by
  simp only [keep, Assoc.getOrInsert_of_some h]

theorem keep_of_none (h : s.cached.get? t = none) (own : Shared) :
    s.keep t own = (own, ⟨s.cached.append t own h, s.built⟩) := by
  simp only [keep, Assoc.getOrInsert_of_none h]

theorem resolve_of_cached {x : Shared} (h : s.cached.get? t = some x) :
    s.resolve u e o t = ⟨.ok x, s, []⟩ := by
  simp only [resolve, h]

theorem resolve_of_error {err : PathError} (h : s.cached.get? t = none)
    (hw : (u.chainOf e o t).outcome = .error err) :
    s.resolve u e o t = ⟨.error err, s, .resolving e.text t :: (u.chainOf e o t).records⟩ := by
  simp only [resolve, h, hw]

/-- A call that nobody overtakes stores its own resolution, and writes no record about that. -/
theorem resolve_of_ok {c : Chain} (h : s.cached.get? t = none)
    (hw : (u.chainOf e o t).outcome = .ok c) :
    s.resolve u e o t =
      ⟨.ok ⟨s.built, c⟩, ⟨s.cached.append t ⟨s.built, c⟩ h, s.built + 1⟩,
        .resolving e.text t :: (u.chainOf e o t).records⟩ := by
  have hk : Store.keep ⟨s.cached, s.built + 1⟩ t ⟨s.built, c⟩ =
      (⟨s.built, c⟩, ⟨s.cached.append t ⟨s.built, c⟩ h, s.built + 1⟩) :=
    keep_of_none (s := ⟨s.cached, s.built + 1⟩) h _
  simp only [resolve, h, hw, allocate, hk, overtaken, ↓reduceIte, List.append_nil]

/-- The answer is what is stored, or else a new resolution of what the walk found. -/
theorem outcome_resolve (u : Universe) (e : Expression) (o : Options) (t : Ty) (s : Store) :
    (s.resolve u e o t).outcome =
      match s.cached.get? t with
      | some x => .ok x
      | none => (u.chainOf e o t).outcome.map fun c => ⟨s.built, c⟩ := by
  cases h : s.cached.get? t with
  | some x => rw [resolve_of_cached h]
  | none =>
    cases hw : (u.chainOf e o t).outcome with
    | error err => rw [resolve_of_error h hw]; rfl
    | ok c => rw [resolve_of_ok h hw]; rfl

/-- Behind a resolution its answer is what is stored for the type; others keep what they had. -/
theorem get?_resolve (u : Universe) (e : Expression) (o : Options) (t t' : Ty) (s : Store) :
    (s.resolve u e o t).store.cached.get? t' =
      if t' = t then (s.resolve u e o t).outcome.toOption else s.cached.get? t' := by
  cases h : s.cached.get? t with
  | some x =>
    rw [resolve_of_cached h]
    split
    · subst t'; exact h
    · rfl
  | none =>
    cases hw : (u.chainOf e o t).outcome with
    | error err =>
      rw [resolve_of_error h hw]
      split
      · subst t'; exact h
      · rfl
    | ok c => rw [resolve_of_ok h hw]; exact Assoc.get?_append _ _ _ _ h

theorem store_resolve_of_error {err : PathError} (h : (s.resolve u e o t).outcome = .error err) :
    (s.resolve u e o t).store = s := by
  cases hs : s.cached.get? t with
  | some x => rw [resolve_of_cached hs]
  | none =>
    cases hw : (u.chainOf e o t).outcome with
    | error err' => rw [resolve_of_error hs hw]
    | ok c => rw [resolve_of_ok hs hw] at h; cases h

/-! ### Stores of one expression -/

/-- Every stored resolution has been built, and is what the walk gives for its type under one of the
two values of the option that may change. -/
structure Sound (u : Universe) (e : Expression) (strategy : Strategy) (s : Store) : Prop where
  numbered : ∀ t x, s.cached.get? t = some x → x.number < s.built
  walked : ∀ t x, s.cached.get? t = some x →
    ∃ ignore, (u.chainOf e ⟨strategy, ignore⟩ t).outcome = .ok x.chain

/-- A store that holds nothing is sound, however many resolutions were built before. -/
theorem sound_of_empty (u : Universe) (e : Expression) (strategy : Strategy) (n : Nat) :
    Sound u e strategy ⟨.empty, n⟩ :=
  ⟨fun _ _ h => (nomatch h), fun _ _ h => (nomatch h)⟩

theorem Sound.resolve (h : s.Sound u e o.strategy) (t : Ty) :
    (s.resolve u e o t).store.Sound u e o.strategy := by
  cases hs : s.cached.get? t with
  | some x => rw [resolve_of_cached hs]; exact h
  | none =>
    cases hw : (u.chainOf e o t).outcome with
    | error err => rw [resolve_of_error hs hw]; exact h
    | ok c =>
      rw [resolve_of_ok hs hw]
      refine ⟨fun t' x hx => ?_, fun t' x hx => ?_⟩ <;> rw [Assoc.get?_append] at hx <;>
        split at hx
      · cases hx; exact Nat.lt_succ_self _
      · exact Nat.lt_succ_of_lt (h.numbered t' x hx)
      · cases hx; subst t'; exact ⟨o.ignoreToString, hw⟩
      · exact h.walked t' x hx

/-- Stored before or just built, the walk has found the chain of every answer. -/
theorem Sound.walked_of_resolve {x : Shared} (h : s.Sound u e o.strategy)
    (hx : (s.resolve u e o t).outcome = .ok x) :
    ∃ ignore, (u.chainOf e ⟨o.strategy, ignore⟩ t).outcome = .ok x.chain := by
  refine (h.resolve t).walked t x ?_
  rw [get?_resolve, if_pos rfl, hx]; rfl

end MemberPath.Store
