import MemberPath.Value.Upcast

/-!
# Hierarchies and the parts of values

A type in the hierarchy of another has its own hierarchy as the end of the other's
(`hierarchy_suffix`), so hierarchies are transitive, and no two types are each in the hierarchy of
the other. `above?` counts the superclass links to a type. `upcast_self` and `upcast_base` are the
two steps of the search for a part of a value.
-/

namespace MemberPath.Universe
variable {u : Universe} {s t c p : Ty}

/-- Induction along superclass links. -/
theorem parent_induction {P : Ty → Prop} (u : Universe)
    (h : ∀ t, (∀ p, u.parent? t = some p → P p) → P t) (t : Ty) : P t := by
  induction hn : u.rank t using Nat.strongRecOn generalizing t with
  | ind n ih =>
    subst hn
    exact h t fun p hp => ih (u.rank p) (rank_parent_lt hp) p rfl

theorem mem_hierarchy_iff :
    c ∈ u.hierarchy t ↔ c = t ∨ ∃ p, u.parent? t = some p ∧ c ∈ u.hierarchy p := by
  cases h : u.parent? t with
  | none => simp [hierarchy_of_parent?_eq_none h]
  | some p => simp [hierarchy_of_parent?_eq_some h]

theorem hierarchy_suffix (h : c ∈ u.hierarchy t) : u.hierarchy c <:+ u.hierarchy t := by
  induction t using u.parent_induction with
  | h t ih =>
    rcases mem_hierarchy_iff.1 h with rfl | ⟨p, hp, hc⟩
    · exact List.suffix_refl _
    · rw [hierarchy_of_parent?_eq_some hp]
      exact (ih p hp hc).trans (List.suffix_cons ..)

theorem mem_hierarchy_trans (hc : c ∈ u.hierarchy t) (ht : t ∈ u.hierarchy s) :
    c ∈ u.hierarchy s :=
  (hierarchy_suffix ht).mem hc

theorem rank_le_of_mem_hierarchy (h : c ∈ u.hierarchy t) : u.rank c ≤ u.rank t := by
  induction t using u.parent_induction with
  | h t ih =>
    rcases mem_hierarchy_iff.1 h with rfl | ⟨p, hp, hc⟩
    · exact Nat.le_refl _
    · exact Nat.le_trans (ih p hp hc) (Nat.le_of_lt (rank_parent_lt hp))

theorem mem_hierarchy_antisymm (hc : c ∈ u.hierarchy t) (ht : t ∈ u.hierarchy c) : c = t := by
  rcases mem_hierarchy_iff.1 hc with rfl | ⟨p, hp, hc⟩
  · rfl
  · have hct := rank_le_of_mem_hierarchy hc
    have htc := rank_le_of_mem_hierarchy ht
    have hpt := rank_parent_lt hp
    omega

theorem nodup_hierarchy (u : Universe) (t : Ty) : (u.hierarchy t).Nodup := by
  induction t using u.parent_induction with
  | h t ih =>
    cases hp : u.parent? t with
    | none => simp [hierarchy_of_parent?_eq_none hp]
    | some p =>
      rw [hierarchy_of_parent?_eq_some hp, List.nodup_cons]
      refine ⟨fun ht => ?_, ih p hp⟩
      have hle := rank_le_of_mem_hierarchy ht
      have hlt := rank_parent_lt hp
      omega

/-- The type at a distance above a type, following superclass links. -/
def above? (u : Universe) : Nat → Ty → Option Ty
  | 0, t => some t
  | n + 1, t => (u.parent? t).bind (u.above? n)

theorem getElem?_hierarchy (u : Universe) (n : Nat) (t : Ty) :
    (u.hierarchy t)[n]? = u.above? n t := by
  induction n generalizing t with
  | zero => cases h : u.parent? t <;> simp [above?, hierarchy_of_parent?_eq_none,
      hierarchy_of_parent?_eq_some, h]
  | succ n ih =>
    cases h : u.parent? t with
    | none => simp [above?, hierarchy_of_parent?_eq_none h, h]
    | some p => simp [above?, hierarchy_of_parent?_eq_some h, h, ih]

theorem exists_above?_of_mem_hierarchy (h : c ∈ u.hierarchy t) : ∃ n, u.above? n t = some c := by
  obtain ⟨n, hn⟩ := List.getElem?_of_mem h
  exact ⟨n, getElem?_hierarchy u n t ▸ hn⟩

theorem upcast_self {v : Value} (h : v.ty = t) : u.upcast t v = some v :=
  Value.upcast_self h

theorem upcast_base {v b : Value} (hne : v.ty ≠ t) (hp : u.parent? v.ty = some p)
    (hb : v.base? = some b) : u.upcast t v = u.upcast t b := by
  have hs : (u.parent? v.ty).isSome := by rw [hp]; rfl
  exact Value.upcast_superPart? hne (Value.superPart?_eq_some_iff.2 ⟨hs, hb⟩)

end MemberPath.Universe
