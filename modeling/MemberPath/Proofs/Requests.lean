import Mathlib.Data.List.Induction
import MemberPath.Path.Resolver
import MemberPath.Proofs.StoreSteps

/-!
# Requests to a resolver

A program uses a resolver by requests, one after the other: `run`. The requests that name an object
all resolve the expression for it first, and leave the resolver as that alone would
(`serve_of_target`). Along a run only the option changes, and what is stored stays sound
(`Sound.run`).
-/

namespace MemberPath

inductive Request
  | resolve (target : Value)
  | get (target : Value)
  | getAs (t : Ty) (target : Value)
  | call (target : Value) (args : List Value)
  /-- Changes the option in place. -/
  | setIgnoreToString (ignore : Bool)
  /-- Changes the option of a resolver that is handed over and given back. -/
  | ignoreToString (ignore : Bool)
  | clear

namespace Request

/-- The object that the expression is resolved for. -/
def target? : Request → Option Value
  | .resolve v | .get v | .getAs _ v | .call v _ => some v
  | _ => none

def flag? : Request → Option Bool
  | .setIgnoreToString b | .ignoreToString b => some b
  | _ => none

/-- Every request resolves, sets the option, or drops what is stored. -/
theorem cases_role (q : Request) :
    (∃ v, q.target? = some v) ∨ (∃ b, q.flag? = some b) ∨ q = .clear := by
  cases q <;> simp [target?, flag?]

theorem ne_clear_of_target? {q : Request} {v : Value} (h : q.target? = some v) : q ≠ .clear := by
  rintro rfl; cases h

theorem target?_of_flag? {q : Request} {b : Bool} (h : q.flag? = some b) : q.target? = none := by
  cases q <;> first | rfl | cases h

end Request

inductive Reply
  | shared (outcome : Except PathError Shared)
  | reading (outcome : Except PathError Reading)
  | value (outcome : Except PathError Value)
  | done

namespace Resolver

/-- The reply to a request, the resolver after it, and the records it wrote. -/
structure Served where
  reply : Reply
  resolver : Resolver
  records : List Record

def Answer.served (reply : Except PathError α → Reply) (a : Answer α) : Served :=
  ⟨reply a.outcome, a.resolver, a.records⟩

def serve (u : Universe) (r : Resolver) : Request → Served
  | .resolve v => (r.resolve u v).served .shared
  | .get v => (r.get u v).served .reading
  | .getAs t v => (r.getAs u t v).served .reading
  | .call v args => (r.call u v args).served .value
  | .setIgnoreToString b | .ignoreToString b => ⟨.done, r.setIgnoreToString b, []⟩
  | .clear => ⟨.done, r.clear, []⟩

/-- The resolver after some requests. -/
def run (u : Universe) (r : Resolver) (qs : List Request) : Resolver :=
  qs.foldl (fun r q => (r.serve u q).resolver) r

variable {u : Universe} {r : Resolver}

theorem serve_of_target {q : Request} {v : Value} (h : q.target? = some v) :
    (r.serve u q).resolver = (r.resolve u v).resolver := by
  cases q <;> cases h <;> rfl

/-- Whatever is done with the resolution, only resolving writes records. -/
theorem records_serve_of_target {q : Request} {v : Value} (h : q.target? = some v) :
    (r.serve u q).records = (r.resolve u v).records := by
  cases q <;> cases h <;> rfl

theorem records_serve_of_none {q : Request} (h : q.target? = none) :
    (r.serve u q).records = [] := by
  cases q <;> first | rfl | cases h

theorem serve_of_flag {q : Request} {b : Bool} (h : q.flag? = some b) :
    (r.serve u q).resolver = r.setIgnoreToString b := by
  cases q <;> cases h <;> rfl

@[simp] theorem run_nil (u : Universe) (r : Resolver) : r.run u [] = r := rfl

theorem run_concat (u : Universe) (r : Resolver) (qs : List Request) (q : Request) :
    r.run u (qs ++ [q]) = ((r.run u qs).serve u q).resolver := by
  simp [run]

theorem expression_serve (u : Universe) (r : Resolver) (q : Request) :
    (r.serve u q).resolver.expression = r.expression := by
  cases q <;> rfl

/-- A request changes at most the option it sets. -/
theorem options_serve (u : Universe) (r : Resolver) (q : Request) :
    (r.serve u q).resolver.options =
      ⟨r.options.strategy, q.flag?.getD r.options.ignoreToString⟩ := by
  cases q <;> rfl

theorem expression_run (u : Universe) (r : Resolver) (qs : List Request) :
    (r.run u qs).expression = r.expression := by
  induction qs using List.reverseRecOn with
  | nil => rfl
  | append_singleton qs q ih => rw [run_concat, expression_serve, ih]

/-- The option after some requests: what the last of them that sets it has set it to. -/
def ignoreAfter (ignore : Bool) (qs : List Request) : Bool :=
  (qs.filterMap Request.flag?).getLast?.getD ignore

theorem ignoreAfter_concat (ignore : Bool) (qs : List Request) (q : Request) :
    ignoreAfter ignore (qs ++ [q]) = q.flag?.getD (ignoreAfter ignore qs) := by
  cases h : q.flag? <;> simp [ignoreAfter, h]

theorem options_run (u : Universe) (r : Resolver) (qs : List Request) :
    (r.run u qs).options =
      ⟨r.options.strategy, ignoreAfter r.options.ignoreToString qs⟩ := by
  induction qs using List.reverseRecOn with
  | nil => rfl
  | append_singleton qs q ih => rw [run_concat, options_serve, ih, ignoreAfter_concat]

/-- The stored resolutions belong to the expression and the strategy of the resolver. -/
def Sound (u : Universe) (r : Resolver) : Prop :=
  r.store.Sound u r.expression r.options.strategy

theorem sound_of_ofString {text : String} {o : Options} (h : ofString text o = .ok r) :
    r.Sound u := by
  obtain ⟨e, -, rfl⟩ := ofString_eq_ok_iff.1 h
  exact Store.sound_of_empty ..

theorem Sound.serve (h : r.Sound u) (q : Request) : (r.serve u q).resolver.Sound u := by
  rcases q.cases_role with ⟨v, hq⟩ | ⟨b, hq⟩ | rfl
  · rw [serve_of_target hq]; exact Store.Sound.resolve h v.ty
  · rw [serve_of_flag hq]; exact h
  · exact Store.sound_of_empty ..

theorem Sound.run (h : r.Sound u) (qs : List Request) : (r.run u qs).Sound u := by
  induction qs using List.reverseRecOn with
  | nil => exact h
  | append_singleton qs q ih => rw [run_concat]; exact ih.serve q

end Resolver

end MemberPath
