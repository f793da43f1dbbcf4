import MemberPath.Proofs.ComponentRoundTrip
import MemberPath.Proofs.WalkComposition
import MemberPath.Sample

/-!
# What the strategies agree on

The exact strategy takes a candidate only where there is no other, so every strategy takes it. Hence
the strategies come to the same chain where the exact one comes to any, and go the same way up to
the component where it stops (`strategies_agree`). Names are looked up without a strategy.
-/

namespace MemberPath

/-- How the exact strategy fails on the components of `e`, with what the others do there: all have
found the members `ms` in front of the component at which it stops. -/
inductive Universe.ExactStop (u : Universe) (e : Expression) (on : Ty) (ignore : Bool) :
    PathError → Prop
  /-- There is no candidate, for no strategy. -/
  | unmatched {before after : List Component} {c : Component} {ms : List Member} :
      e.segments = .types (before ++ c :: after) →
      (∀ s, (u.walk e.text ⟨s, ignore⟩ on (before.map .type)).outcome = .ok ms) →
      u.membersOfType (typeAfter on ms) c ignore = [] →
      (∀ s, (u.chainOf e ⟨s, ignore⟩ on).outcome =
        .error (.noTypeMatch c.typeName (typeAfter on ms))) →
      ExactStop u e on ignore (.noTypeMatch c.typeName (typeAfter on ms))
  /-- There are several candidates, and the other strategies take one of them. -/
  | ambiguous {before after : List Component} {c : Component} {ms found : List Member} :
      e.segments = .types (before ++ c :: after) →
      (∀ s, (u.walk e.text ⟨s, ignore⟩ on (before.map .type)).outcome = .ok ms) →
      u.membersOfType (typeAfter on ms) c ignore = found → 2 ≤ found.length →
      (∀ s, s ≠ .exact → ∃ m ∈ found,
        (u.walk e.text ⟨s, ignore⟩ on ((before ++ [c]).map .type)).outcome = .ok (ms ++ [m])) →
      ExactStop u e on ignore (.ambiguousType c.typeName (typeAfter on ms) found.length)

/-- What does not depend on the strategy when `e` is resolved on the type `on`. -/
structure Expression.StrategiesAgree (u : Universe) (e : Expression) (on : Ty) : Prop where
  names : ∀ ns, e.segments = .names ns → ∀ o o', u.chainOf e o on = u.chainOf e o' on
  resolved : ∀ ignore c, (u.chainOf e ⟨.exact, ignore⟩ on).outcome = .ok c →
    ∀ s, (u.chainOf e ⟨s, ignore⟩ on).outcome = .ok c
  stopped : ∀ cs, e.segments = .types cs → ∀ ignore err,
    (u.chainOf e ⟨.exact, ignore⟩ on).outcome = .error err → u.ExactStop e on ignore err

namespace Universe
variable {u : Universe} {path : String} {on : Ty} {ignore : Bool} {ss : List Segment}
  {ms : List Member} {m : Member} {err : PathError}

theorem walk_names (u : Universe) (path : String) (o o' : Options) (on : Ty) (ns : List String) :
    u.walk path o on (ns.map .name) = u.walk path o' on (ns.map .name) := by
  induction ns generalizing on with
  | nil => rfl
  | cons n ns ih =>
    have hn : u.choose path o on (.name n) = u.choose path o' on (.name n) := rfl
    simp only [List.map_cons, walk, hn, ih]

theorem choose_of_exact {s : Segment}
    (h : (u.choose path ⟨.exact, ignore⟩ on s).outcome = .ok m) (strategy : Strategy) :
    (u.choose path ⟨strategy, ignore⟩ on s).outcome = .ok m := by
  cases s with
  | name n => exact h
  | type c =>
    rw [choose_type_eq_ok_iff, Strategy.select_exact_eq_some_iff] at h
    rw [choose_type_eq_ok_iff, h]
    exact Strategy.select_singleton strategy m

theorem walk_of_exact (h : (u.walk path ⟨.exact, ignore⟩ on ss).outcome = .ok ms)
    (strategy : Strategy) : (u.walk path ⟨strategy, ignore⟩ on ss).outcome = .ok ms := by
  induction ss generalizing on ms with
  | nil => exact h
  | cons s ss ih =>
    obtain ⟨m, ms', hm, hw, rfl⟩ := walk_cons_eq_ok_iff.1 h
    exact walk_cons_eq_ok_iff.2 ⟨m, ms', choose_of_exact hm strategy, ih hw, rfl⟩

theorem walk_concat_eq_ok {o : Options} {s : Segment} (h : (u.walk path o on ss).outcome = .ok ms)
    (hm : (u.choose path o (typeAfter on ms) s).outcome = .ok m) :
    (u.walk path o on (ss ++ [s])).outcome = .ok (ms ++ [m]) :=
  walk_append_eq_ok_iff.2 ⟨ms, [m], h, walk_cons_eq_ok_iff.2 ⟨m, [], hm, rfl, rfl⟩, rfl⟩

theorem exactStop_of_chainOf {e : Expression} {cs : List Component} (hcs : e.segments = .types cs)
    (hne : cs ≠ []) (h : (u.chainOf e ⟨.exact, ignore⟩ on).outcome = .error err) :
    u.ExactStop e on ignore err := by
  have hsegs : e.segments.toList = cs.map .type := by rw [hcs]; rfl
  have hnil : e.segments.toList ≠ [] := by simpa [hsegs] using hne
  rw [chainOf_eq_error_iff hnil, walk_eq_error_iff, hsegs] at h
  obtain ⟨front, s, back, ms, hsplit, hms, herr⟩ := h
  obtain ⟨before, rest, rfl, rfl, hrest⟩ := List.map_eq_append_iff.1 hsplit
  obtain ⟨c, after, rfl, rfl, rfl⟩ := List.map_eq_cons_iff.1 hrest
  have hall := walk_of_exact hms
  rcases choose_type_eq_error_iff.1 herr with ⟨hfound, rfl⟩ | ⟨hfound, hsel, rfl⟩
  · refine .unmatched hcs hall hfound fun strategy => ?_
    rw [chainOf_eq_error_iff hnil, hsegs, List.map_append]
    refine walk_eq_error_iff.2 ⟨_, _, _, ms, rfl, hall strategy, ?_⟩
    exact choose_type_eq_error_iff.2 (.inl ⟨hfound, rfl⟩)
  · refine .ambiguous hcs hall rfl (Strategy.two_le_length_of_select_exact hfound hsel) ?_
    intro strategy hs
    obtain ⟨m, hm⟩ := Strategy.exists_select hs hfound
    refine ⟨m, Strategy.mem_of_select hm, ?_⟩
    rw [List.map_append]
    exact walk_concat_eq_ok (hall strategy) (choose_type_eq_ok_iff.2 hm)

end Universe

theorem Expression.strategies_agree {u : Universe} {text : String} {e : Expression} (on : Ty)
    (h : Expression.ofString text = .ok e) : e.StrategiesAgree u on where
  names ns hns o o' := by
    have hw := u.walk_names e.text o o' on ns
    simp only [Universe.chainOf, hns, Segments.toList, hw]
  resolved ignore c hc strategy :=
    Universe.chainOf_eq_ok_iff.2 (Universe.walk_of_exact (Universe.chainOf_eq_ok_iff.1 hc) strategy)
  stopped cs hcs ignore err herr := by
    have hparsed := (Expression.ofString_eq_ok_iff.1 h).2
    rw [hcs, Segments.ofString_eq_types_iff] at hparsed
    exact Universe.exactStop_of_chainOf hcs (by simpa [hparsed.2] using hparsed.1) herr

namespace Sample

/-- A pet has a number of its own and one as an entity; only the exact strategy minds. -/
theorem strategies_agree_petNumber :
    let e : Expression := ⟨"[Mob].[u32]", .types [⟨"Mob", false⟩, ⟨"u32", false⟩]⟩
    let stop : PathError := .ambiguousType "u32" (.defined mob) 2
    Expression.ofString "[Mob].[u32]" = .ok e ∧
      (world.chainOf e ⟨.exact, true⟩ (.defined boss)).outcome = .error stop ∧
      world.ExactStop e (.defined boss) true stop := by
  intro e stop
  have he : Expression.ofString "[Mob].[u32]" = .ok e := rfl
  have hstop : (world.chainOf e ⟨.exact, true⟩ (.defined boss)).outcome = .error stop :=
    rfl
  exact ⟨he, hstop, (Expression.strategies_agree (.defined boss) he).stopped _ rfl true stop hstop⟩

end Sample

end MemberPath
