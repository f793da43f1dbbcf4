import MemberPath.Proofs.ComponentRoundTrip
import MemberPath.Proofs.NameLookup
import MemberPath.Proofs.TypeLookup

/-!
# The same members by name and by type

A type is written between brackets by its path, an array by the path of its elements. What is found
by name is found by that text too, and what is found by type has a name that is found
(`notations_meet`). A field hides those of its name further up and all methods, so lookup by name
may give another member than the one with the name.
-/

namespace MemberPath

/-- Lookup by type does not pass over the member, whatever it gives. -/
def Member.Open (ignore : Bool) : Member → Prop
  | .field _ => True
  | .method m => m.params = [] ∧ ¬ (ignore = true ∧ m.name = "to_string")

namespace Universe
variable {u : Universe} {t k : Ty} {c : Component} {ignore : Bool} {name : String} {m : Member}
  {i : Nat}

/-- The component that asks for a type by its path. -/
def component (u : Universe) (t : Ty) : Component :=
  match u.shape t with
  | .array e => ⟨u.naming.path e, true⟩
  | _ => ⟨u.naming.path t, false⟩

/-- The text that asks for a type by its path. -/
def bracketed (u : Universe) (t : Ty) : String :=
  match u.shape t with
  | .array e => "[" ++ u.naming.path e ++ "[]]"
  | _ => "[" ++ u.naming.path t ++ "]"

/-- What the two notations have in common on the type `t`. -/
structure NotationsMeet (u : Universe) (t : Ty) (ignore : Bool) : Prop where
  by_type : ∀ name m, u.memberNamed? t name = some m → m.Open ignore →
    (u.component m.target).WellFormed →
    Segments.ofString (u.bracketed m.target) = .ok (.types [u.component m.target]) ∧
      m ∈ u.membersOfType t (u.component m.target) ignore
  by_name : ∀ c m, m ∈ u.membersOfType t c ignore →
    ∃ m', u.memberNamed? t m.name = some m' ∧ m'.name = m.name
  /-- The name of a field leads to a field, declared by a class that is as near as any that declares
  the first one. -/
  field : ∀ c f, .field f ∈ u.membersOfType t c ignore →
    ∃ f' i k, u.memberNamed? t f.name = some (.field f') ∧ f'.name = f.name ∧
      u.above? i t = some k ∧ f' ∈ u.fields k ∧
      ∀ j k', u.above? j t = some k' → f ∈ u.fields k' → i ≤ j

/-! ### From a name to a type -/

theorem matches_component (u : Universe) (t : Ty) : u.Matches t (u.component t) := by
  unfold Matches component
  cases u.shape t <;> simp

theorem gives_of_open (h : m.Open ignore) (hm : u.Matches m.target c) : u.Gives c ignore m := by
  cases m with
  | field f => exact hm
  | method n => exact ⟨h.1, h.2, hm⟩

theorem bracketed_eq_written (u : Universe) (t : Ty) :
    u.bracketed t = written [(u.component t, "")] := by
  unfold bracketed component
  cases u.shape t <;> simp [written, Component.display, String.append_assoc]

theorem ofString_bracketed (h : (u.component t).WellFormed) :
    Segments.ofString (u.bracketed t) = .ok (.types [u.component t]) := by
  have hgap : IsGap "" := ⟨by decide, by decide⟩
  have hparts : ∀ part ∈ [(u.component t, "")], part.1.WellFormed ∧ IsGap part.2 := by
    intro part hp
    rw [List.mem_singleton.1 hp]
    exact ⟨h, hgap⟩
  have hs := segments_written "" (by simp) (by simp) hparts
  rwa [String.empty_append, ← bracketed_eq_written] at hs

/-! ### From a type to a name -/

theorem mem_distances_of_field {f : Field} (hk : u.above? i t = some k) (hf : f ∈ u.fields k) :
    i ∈ u.distances t (·.HasField f.name) := by
  unfold fields at hf
  split at hf
  · rename_i c hc
    exact ⟨k, c, hk, hc, f, hf, rfl⟩
  · cases hf

theorem mem_distances_of_method {n : Method} (hk : u.above? i t = some k)
    (hn : n ∈ u.methods k) : i ∈ u.distances t (·.HasMethod n.name) := by
  unfold methods at hn
  split at hn
  · rename_i c hc
    exact ⟨k, c, hk, hc, n, hn, rfl⟩
  · cases hn

/-- The field that a name leads to is the nearest of its name. -/
theorem memberNamed?_of_field {f : Field} (h : u.Offers t (.field f)) :
    ∃ f' i k, u.memberNamed? t f.name = some (.field f') ∧ f'.name = f.name ∧
      u.above? i t = some k ∧ f' ∈ u.fields k ∧
      ∀ j k', u.above? j t = some k' → f ∈ u.fields k' → i ≤ j := by
  obtain ⟨k₀, hk₀, hf⟩ := h
  obtain ⟨j₀, hj₀⟩ := exists_above?_of_mem_hierarchy hk₀
  obtain ⟨i, k, c, f', hleast, hk, hc, hf', hfind⟩ :=
    exists_findSome?_hierarchy (fun _ => Class.isSome_field?_iff)
      ⟨j₀, mem_distances_of_field hj₀ hf⟩
  refine ⟨f', i, k, memberNamed?_of_findField? hfind, Class.name_of_field? hf', hk, ?_, ?_⟩
  · rw [fields, hc]
    exact Class.mem_fields_of_field? hf'
  · intro j k' hj hfk
    exact hleast.2 (mem_distances_of_field hj hfk)

theorem exists_memberNamed? (h : u.Offers t m) : ∃ m', u.memberNamed? t m.name = some m' := by
  cases m with
  | field f =>
    obtain ⟨f', i, k, hm, -⟩ := memberNamed?_of_field h
    exact ⟨.field f', hm⟩
  | method n =>
    cases hf : u.findField? t n.name with
    | some f => exact ⟨.field f, memberNamed?_of_findField? hf⟩
    | none =>
      obtain ⟨k, hk, hn⟩ := h
      obtain ⟨i, hi⟩ := exists_above?_of_mem_hierarchy hk
      obtain ⟨-, -, -, n', -, -, -, -, hfind⟩ :=
        exists_findSome?_hierarchy (fun _ => Class.isSome_method?_iff)
          ⟨i, mem_distances_of_method hi hn⟩
      refine ⟨.method n', ?_⟩
      rw [Member.name, memberNamed?_of_findField?_none hf]
      exact congrArg (Option.map Member.method) hfind

theorem notations_meet (u : Universe) (t : Ty) (ignore : Bool) : u.NotationsMeet t ignore where
  by_type name m hm hopen hwf := by
    have hgives := gives_of_open hopen (matches_component u m.target)
    exact ⟨ofString_bracketed hwf, mem_membersOfType_iff.2 ⟨offers_of_memberNamed? hm, hgives⟩⟩
  by_name c m hm := by
    obtain ⟨m', hm'⟩ := exists_memberNamed? (offers_of_mem_membersOfType hm)
    exact ⟨m', hm', name_of_memberNamed? hm'⟩
  field c f hf := memberNamed?_of_field (offers_of_mem_membersOfType hf)

end Universe

namespace Sample

/-- The cells of a grid are found by the path of their lists. The number of a creature is among the
candidates on a boss, but its name leads to the number that mobs declare. -/
theorem notations_meet_cells :
    let cells : Field := .ofSlot (.defined grid) 0 "cells" (.list (.list .u8)) false
    let id : Field := .ofSlot (.defined entity) 0 "id" .u32 false
    world.memberNamed? (.defined grid) "cells" = some (.field cells) ∧
      (world.component cells.ty).WellFormed ∧
      world.bracketed cells.ty = "[alloc::vec::Vec<u8>[]]" ∧
      Segments.ofString "[alloc::vec::Vec<u8>[]]" =
        .ok (.types [⟨"alloc::vec::Vec<u8>", true⟩]) ∧
      .field cells ∈ world.membersOfType (.defined grid) ⟨"alloc::vec::Vec<u8>", true⟩ true ∧
      .field id ∈ world.membersOfType (.defined boss) ⟨"u32", false⟩ true ∧
      ∃ f, world.memberNamed? (.defined boss) "id" = some (.field f) ∧
        f ∈ world.fields (.defined mob) := by
  intro cells id
  have hcells : world.memberNamed? (.defined grid) "cells" = some (.field cells) := rfl
  have hwf : (world.component cells.ty).WellFormed := by decide
  have hid : .field id ∈ world.membersOfType (.defined boss) ⟨"u32", false⟩ true :=
    List.mem_of_getElem? (i := 1) rfl
  obtain ⟨hread, hmem⟩ :=
    (Universe.notations_meet world (.defined grid) true).by_type "cells" _ hcells trivial hwf
  obtain ⟨f, i, k, hf, -, hk, hfk, hleast⟩ :=
    (Universe.notations_meet world (.defined boss) true).field _ id hid
  have hmob : f ∈ world.fields (.defined mob) := by
    have hname : world.memberNamed? (.defined boss) "id" =
        some (.field (.ofSlot (.defined mob) 1 "id" .u32 false)) := rfl
    rw [show id.name = "id" from rfl, hname] at hf
    cases hf
    exact List.mem_of_getElem? (i := 1) rfl
  exact ⟨hcells, hwf, by decide, hread, hmem, hid, f, hf, hmob⟩

end Sample

end MemberPath
