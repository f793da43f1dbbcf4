import MemberPath.Proofs.ChainShape
import MemberPath.Proofs.Reading
import MemberPath.Sample

/-!
# Objects of a subclass in place of their parts

What is resolved on a type reads and calls an object of a subclass just as it does the part of that
object which belongs to the type (`substitutable`). Only the first member of a chain sees the
object, and it looks for the part of its own class: `upcast_upcast` finds that part above the part
of the type as well.
-/

namespace MemberPath

/-- A value whose type has a superclass holds an object of exactly the superclass, which does the
same. -/
inductive Value.Based (u : Universe) : Value → Prop
  | root {v : Value} : u.parent? v.ty = none → Based u v
  | extend {v b : Value} : v.base? = some b → u.parent? v.ty = some b.ty → Based u b → Based u v

namespace Universe
variable {u : Universe} {t c : Ty} {v w : Value}

theorem exists_upcast (hv : v.Based u) (hc : c ∈ u.hierarchy v.ty) :
    ∃ w, u.upcast c v = some w := by
  induction hv with
  | root hp =>
    rw [hierarchy_of_parent?_eq_none hp, List.mem_singleton] at hc
    exact ⟨_, upcast_self hc.symm⟩
  | @extend v b hb hp _ ih =>
    by_cases hv : v.ty = c
    · exact ⟨v, upcast_self hv⟩
    · rw [hierarchy_of_parent?_eq_some hp, List.mem_cons] at hc
      rw [upcast_base hv hp hb]
      exact ih (hc.resolve_left (Ne.symm hv))

/-- The part of a class further up is found above the part of a class in between. -/
theorem upcast_upcast (hv : v.Based u) (ht : t ∈ u.hierarchy v.ty) (hc : c ∈ u.hierarchy t)
    (hw : u.upcast t v = some w) : u.upcast c w = u.upcast c v := by
  induction hv with
  | @root v hp =>
    rw [hierarchy_of_parent?_eq_none hp, List.mem_singleton] at ht
    rw [upcast_self ht.symm, Option.some_inj] at hw
    rw [hw]
  | @extend v b hb hp _ ih =>
    by_cases hv : v.ty = t
    · rw [upcast_self hv, Option.some_inj] at hw
      rw [hw]
    · -- no class is below itself, so the search for `c` passes by `v` as well
      have hcv : v.ty ≠ c := by
        rintro rfl
        exact hv (mem_hierarchy_antisymm hc ht)
      rw [hierarchy_of_parent?_eq_some hp, List.mem_cons] at ht
      rw [upcast_base hv hp hb] at hw
      rw [upcast_base hcv hp hb]
      exact ih (ht.resolve_left (Ne.symm hv)) hw

/-- Two values have the same part of every class in the hierarchy of `t`. -/
def ShareParts (u : Universe) (t : Ty) (v w : Value) : Prop :=
  ∀ c ∈ u.hierarchy t, ∃ part, u.upcast c v = some part ∧ u.upcast c w = some part

theorem shareParts_of_upcast (hv : v.Based u) (ht : t ∈ u.hierarchy v.ty)
    (hw : u.upcast t v = some w) : u.ShareParts t v w := by
  intro c hc
  obtain ⟨part, hp⟩ := exists_upcast hv (mem_hierarchy_trans hc ht)
  exact ⟨part, hp, (upcast_upcast hv ht hc hw).trans hp⟩

namespace ShareParts
variable (h : u.ShareParts t v w)
include h

theorem read {f : Field} (hf : f.owner ∈ u.hierarchy t) : f.read u v = f.read u w := by
  obtain ⟨part, hv, hw⟩ := h _ hf
  rw [Field.read_eq, Field.read_eq, hv, hw]

theorem call {m : Method} (hm : m.owner ∈ u.hierarchy t) (args : List Value) :
    m.call u v args = m.call u w args := by
  obtain ⟨part, hv, hw⟩ := h _ hm
  by_cases hn : args.length = m.params.length
  · rw [Method.call_of_upcast hn hv, Method.call_of_upcast hn hw]
  · rw [Method.call_of_ne hn, Method.call_of_ne hn]

theorem advance {m : Member} (hm : m.owner ∈ u.hierarchy t) (borrowed : Bool) :
    m.advance u ⟨v, borrowed⟩ = m.advance u ⟨w, borrowed⟩ := by
  cases m with
  | field f => simp only [Member.advance, h.read hm]
  | method m => simp only [Member.advance, h.call hm]

variable {ms : List Member}

theorem advanceAll (hu : u.MembersOwned) (hl : u.Linked t ms) (hne : ms ≠ []) (borrowed : Bool) :
    advanceAll u ⟨v, borrowed⟩ ms = advanceAll u ⟨w, borrowed⟩ ms := by
  cases hl with
  | nil => exact absurd rfl hne
  | cons hm _ => rw [advanceAll_cons, advanceAll_cons, h.advance (hm.owner_mem hu)]

end ShareParts

end Universe

namespace Chain
variable {u : Universe} {t : Ty} {v w : Value} {c : Chain}

theorem read_of_shareParts (hu : u.MembersOwned) (hl : u.Linked t c.members)
    (h : u.ShareParts t v w) : c.read u v = c.read u w :=
  h.advanceAll hu hl (List.append_ne_nil_of_right_ne_nil _ (List.cons_ne_nil _ _)) true

theorem call_of_shareParts (hu : u.MembersOwned) (hl : u.Linked t c.members)
    (h : u.ShareParts t v w) (args : List Value) : c.call u v args = c.call u w args := by
  obtain ⟨init, last⟩ := c
  cases last with
  | field f => rfl
  | method m =>
    obtain ⟨hinit, hlast⟩ := Universe.linked_append.1 hl
    simp only [call]
    by_cases hi : init = []
    · -- the method itself is called on the object
      subst hi
      cases hlast with
      | cons hm _ =>
        show (m.call u v args).mapError _ = (m.call u w args).mapError _
        rw [h.call (hm.owner_mem hu)]
    · rw [h.advanceAll hu hinit hi]

/-- What is resolved on a type finds the same in an object of a subclass and in its part that
belongs to the type. -/
theorem substitutable (hu : u.MembersOwned) {e : Expression} {o : Options}
    (hc : (u.chainOf e o t).outcome = .ok c) (ht : t ∈ u.hierarchy v.ty) (hv : v.Based u) :
    ∃ w, u.upcast t v = some w ∧ w.ty = t ∧ c.read u v = c.read u w ∧
      ∀ args, c.call u v args = c.call u w args := by
  obtain ⟨w, hw⟩ := Universe.exists_upcast hv ht
  have hl := Universe.linked_chainOf hc
  have hparts := Universe.shareParts_of_upcast hv ht hw
  exact ⟨w, hw, Universe.ty_of_upcast hw, read_of_shareParts hu hl hparts,
    call_of_shareParts hu hl hparts⟩

end Chain

namespace Sample

/-- A boss without a pet. -/
def someBoss : Value :=
  .object boss [some (.list (.defined entity) []), none]
    (some (.object mob [some (.int .u16 20), some (.int .u32 7)]
      (some (.object entity [some (.int .u32 9)] none "")) "")) ""

theorem based_someBoss : someBoss.Based world :=
  .extend rfl rfl (.extend rfl rfl (.root rfl))

def describeChain : Chain :=
  (world.chainOf ⟨"describe", .names ["describe"]⟩ .standard (.defined mob)).outcome.toOption.get
    (by decide)

/-- A description resolved on creatures is that of all entities, though bosses have another. -/
theorem substitutable_describe :
    world.MembersOwned ∧
      (world.chainOf ⟨"describe", .names ["describe"]⟩ .standard (.defined mob)).outcome =
        .ok describeChain ∧
      .defined mob ∈ world.hierarchy someBoss.ty ∧ someBoss.Based world ∧
      ∃ w, world.upcast (.defined mob) someBoss = some w ∧
        describeChain.read world w = .ok ⟨.text "entity #9", false⟩ ∧
        describeChain.read world someBoss = .ok ⟨.text "entity #9", false⟩ := by
  have hc : (world.chainOf ⟨"describe", .names ["describe"]⟩ .standard (.defined mob)).outcome =
      .ok describeChain := rfl
  have ht : .defined mob ∈ world.hierarchy someBoss.ty := by decide
  obtain ⟨w, hw, -, hread, -⟩ := Chain.substitutable membersOwned_world hc ht based_someBoss
  have hboss : describeChain.read world someBoss = .ok ⟨.text "entity #9", false⟩ := rfl
  exact ⟨membersOwned_world, hc, ht, based_someBoss, w, hw, hread ▸ hboss, hboss⟩

end Sample

end MemberPath
