import Mathlib.Data.List.Induction
import MemberPath.Path.Calls
import MemberPath.Proofs.StoreSteps

/-!
# Steps of calls that share a store

`Call.Moves` lists the ways in which a call can go on, and `Call.moves_step` says that there are no
others. Everything else about steps is read off this list: what is stored changes only where a call
stores the resolution it has built for a type that still has none (`Moves.get?`), so what is stored
stays (`Moves.grows`), and `Settled` and `Fresh` hold in every state.
-/

namespace MemberPath

namespace Call

/-- The ways in which a call can go on, with the store and the call behind the step. -/
inductive Moves (u : Universe) (e : Expression) (o : Options) (s : Store) (c : Call) :
    Store → Call → Prop
  | hit (x : Shared) : c.phase = .asked → s.cached.get? c.target = some x →
      Moves u e o s c s ⟨c.target, .done (.ok x), c.records⟩
  | miss : c.phase = .asked → s.cached.get? c.target = none →
      Moves u e o s c s ⟨c.target, .missed, c.records ++ [.resolving e.text c.target]⟩
  | fail (err : PathError) : c.phase = .missed → (u.chainOf e o c.target).outcome = .error err →
      Moves u e o s c s
        ⟨c.target, .done (.error err), c.records ++ (u.chainOf e o c.target).records⟩
  | build (chain : Chain) : c.phase = .missed → (u.chainOf e o c.target).outcome = .ok chain →
      Moves u e o s c ⟨s.cached, s.built + 1⟩
        ⟨c.target, .built ⟨s.built, chain⟩, c.records ++ (u.chainOf e o c.target).records⟩
  | store (own : Shared) (h : s.cached.get? c.target = none) : c.phase = .built own →
      Moves u e o s c ⟨s.cached.append c.target own h, s.built⟩
        ⟨c.target, .done (.ok own), c.records⟩
  | yield (own x : Shared) : c.phase = .built own → s.cached.get? c.target = some x →
      Moves u e o s c s
        ⟨c.target, .done (.ok x), c.records ++ Store.overtaken e.text c.target own x⟩
  | rest (r : Except PathError Shared) : c.phase = .done r → Moves u e o s c s c

variable {u : Universe} {e : Expression} {o : Options} {s s' : Store} {c c' : Call}

theorem moves_step (u : Universe) (e : Expression) (o : Options) (s : Store) (c : Call) :
    c.Moves u e o s (c.step u e o s).1 (c.step u e o s).2 := by
  rcases c with ⟨t, phase, records⟩
  cases phase with
  | asked =>
    cases h : s.cached.get? t with
    | some x => simp only [step, h]; exact .hit x rfl h
    | none => simp only [step, h]; exact .miss rfl h
  | missed =>
    cases h : (u.chainOf e o t).outcome with
    | error err => simp only [step, h]; exact .fail err rfl h
    | ok chain => simp only [step, h]; exact .build chain rfl h
  | built own =>
    cases h : s.cached.get? t with
    | some x => simp only [step, Store.keep_of_some h]; exact .yield own x rfl h
    | none =>
      simp only [step, Store.keep_of_none h, Store.overtaken, ↓reduceIte, List.append_nil]
      exact .store own h rfl
  | done r => exact .rest r rfl

theorem Moves.target (h : c.Moves u e o s s' c') : c'.target = c.target := by
  cases h <;> rfl

/-- Only a call that has built a resolution stores one, and only for a type that has none. -/
theorem Moves.get? (h : c.Moves u e o s s' c') {t : Ty} {x : Shared} :
    s'.cached.get? t = some x ↔
      s.cached.get? t = some x ∨
        s.cached.get? t = none ∧ c.phase = .built x ∧ c.target = t := by
  cases h with
  | store own hn hp =>
    rw [Assoc.get?_append, hp]
    split
    · subst t; simp [hn]
    · rename_i hne; simp [Ne.symm hne]
  | yield own y hp hy =>
    refine ⟨.inl, ?_⟩
    rintro (hx | ⟨hn, -, rfl⟩)
    · exact hx
    · rw [hy] at hn; cases hn
  | _ => simp [*]

theorem Moves.grows (h : c.Moves u e o s s' c') {t : Ty} {x : Shared}
    (hx : s.cached.get? t = some x) : s'.cached.get? t = some x :=
  h.get?.2 (.inl hx)

theorem Moves.built_le (h : c.Moves u e o s s' c') : s.built ≤ s'.built := by
  cases h <;> simp

/-- A call that has built a resolution took its number from the store. -/
theorem Moves.built (h : c.Moves u e o s s' c') {own : Shared} (hp : c'.phase = .built own) :
    own.number = s.built ∧ s'.built = s.built + 1 ∧ s'.cached = s.cached := by
  cases h with
  | build chain => cases hp; exact ⟨rfl, rfl, rfl⟩
  | rest r hr => rw [hr] at hp; cases hp
  | _ => cases hp

/-- A step that neither numbers a resolution nor stores one leaves the store as it is. -/
theorem Moves.store_eq {err : PathError} (h : c.Moves u e o s s' c')
    (hw : (u.chainOf e o c.target).outcome = .error err) (hp : ∀ own, c.phase ≠ .built own) :
    s' = s := by
  cases h with
  | build chain _ hc => rw [hw] at hc; cases hc
  | store own _ hc => exact absurd hc (hp own)
  | _ => rfl

/-- What a call has found so far is what the walk gives, or what is stored. -/
def Settled (u : Universe) (e : Expression) (o : Options) (s : Store) (c : Call) : Prop :=
  match c.phase with
  | .asked | .missed => True
  | .built own => (u.chainOf e o c.target).outcome = .ok own.chain
  | .done (.ok x) => s.cached.get? c.target = some x
  | .done (.error err) => (u.chainOf e o c.target).outcome = .error err

theorem Settled.mono (h : c.Settled u e o s)
    (hs : ∀ t x, s.cached.get? t = some x → s'.cached.get? t = some x) : c.Settled u e o s' := by
  rcases c with ⟨t, phase, records⟩
  cases phase with
  | done r =>
    cases r with
    | ok x => exact hs t x h
    | error err => exact h
  | _ => exact h

theorem Moves.settled (h : c.Moves u e o s s' c') (hc : c.Settled u e o s) :
    c'.Settled u e o s' := by
  cases h with
  | hit x _ hx => exact hx
  | miss => trivial
  | fail err _ hw => exact hw
  | build chain _ hw => exact hw
  | store own hn => simp [Settled, Assoc.get?_append]
  | yield own x _ hx => exact hx
  | rest => exact hc

end Call

namespace Calls
variable {u : Universe} {e : Expression} {o : Options} {cs : Calls} {s : Store} {ts : List Ty}

/-- The state after some steps of calls for the types `ts` that have begun on the store `s`. -/
def after (u : Universe) (e : Expression) (o : Options) (s : Store) (ts : List Ty)
    (schedule : List Nat) : Calls :=
  run u e o ⟨s, ts.map Call.start⟩ schedule

/-- Call `i` has built `own` and is about to store it. -/
def Holds (cs : Calls) (i : Nat) (own : Shared) : Prop :=
  ∃ c, cs.calls[i]? = some c ∧ c.phase = .built own

theorem after_concat (u : Universe) (e : Expression) (o : Options) (s : Store) (ts : List Ty)
    (schedule : List Nat) (i : Nat) :
    after u e o s ts (schedule ++ [i]) = (after u e o s ts schedule).step u e o i := by
  simp [after, run]

/-- A step is a move of one call, or none at all. -/
theorem step_cases (u : Universe) (e : Expression) (o : Options) (cs : Calls) (i : Nat) :
    cs.calls[i]? = none ∧ cs.step u e o i = cs ∨
      ∃ c s' c', cs.calls[i]? = some c ∧ c.Moves u e o cs.store s' c' ∧
        cs.step u e o i = ⟨s', cs.calls.set i c'⟩ := by
  cases h : cs.calls[i]? with
  | none => exact .inl ⟨rfl, by simp only [step, h]⟩
  | some c =>
    exact .inr ⟨c, _, _, rfl, c.moves_step u e o cs.store, by simp only [step, h]⟩

/-- The last step of a schedule is a move of one call, or none at all. -/
theorem after_cases (u : Universe) (e : Expression) (o : Options) (s : Store) (ts : List Ty)
    (schedule : List Nat) (i : Nat) :
    (after u e o s ts schedule).calls[i]? = none ∧
        after u e o s ts (schedule ++ [i]) = after u e o s ts schedule ∨
      ∃ c s' c', (after u e o s ts schedule).calls[i]? = some c ∧
        c.Moves u e o (after u e o s ts schedule).store s' c' ∧
        after u e o s ts (schedule ++ [i]) =
          ⟨s', (after u e o s ts schedule).calls.set i c'⟩ := by
  rw [after_concat]
  exact step_cases ..

theorem getElem?_set_of_some {l : List Call} {i : Nat} {c c' : Call} (h : l[i]? = some c)
    (j : Nat) :
    (l.set i c')[j]? = if j = i then some c' else l[j]? := by
  obtain ⟨hi, -⟩ := List.getElem?_eq_some_iff.1 h
  rw [List.getElem?_set]
  by_cases hj : j = i
  · subst j; simp [hi]
  · simp [hj, Ne.symm hj]

end Calls

end MemberPath
