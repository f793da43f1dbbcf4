import Mathlib.Order.Bounds.Basic
import MemberPath.Proofs.ChainShape
import MemberPath.Proofs.Hierarchy
import MemberPath.Sample

/-!
# Looking members up by name

The search along a hierarchy ends at the least distance at which a class has what is searched for
(`findSome?_hierarchy_eq_some`). Lookup by name searches twice, for a field and then for a method
(`finds_by_name`).
-/

namespace MemberPath

namespace Class

def HasField (c : Class) (name : String) : Prop := ∃ f ∈ c.fields, f.name = name

def HasMethod (c : Class) (name : String) : Prop := ∃ m ∈ c.methods, m.name = name

variable {c : Class} {name : String}

theorem isSome_field?_iff : (c.field? name).isSome ↔ c.HasField name := by
  simp [field?_eq_find?, HasField]

theorem isSome_method?_iff : (c.method? name).isSome ↔ c.HasMethod name := by
  simp [method?, HasMethod]

/-- Of several methods of one name the first is found. -/
theorem method?_eq_some_iff {m : Method} : c.method? name = some m ↔
    m.name = name ∧ ∃ before after, c.methods = before ++ m :: after ∧
      ∀ m' ∈ before, m'.name ≠ name := by
  rw [method?, List.find?_eq_some_iff_append]
  simp

end Class

namespace Universe
variable {u : Universe} {t : Ty} {name : String}

/-- The distances above `t` at which there are classes with a property. -/
def distances (u : Universe) (t : Ty) (P : Class → Prop) : Set Nat :=
  {i | ∃ k c, u.above? i t = some k ∧ u.class? k = some c ∧ P c}

/-- What lookup by name finds on `t`. -/
structure FindsByName (u : Universe) (t : Ty) (name : String) : Prop where
  /-- The nearest class that has a field of the name gives its field, whatever methods there are. -/
  field : (u.distances t (·.HasField name)).Nonempty → ∃ i k c f,
    IsLeast (u.distances t (·.HasField name)) i ∧ u.above? i t = some k ∧ u.class? k = some c ∧
      c.field? name = some f ∧ u.memberNamed? t name = some (.field f)
  /-- Without a field, the nearest class that has a method gives the first, with any parameters. -/
  method : u.distances t (·.HasField name) = ∅ → (u.distances t (·.HasMethod name)).Nonempty →
    ∃ i k c m before after, IsLeast (u.distances t (·.HasMethod name)) i ∧
      u.above? i t = some k ∧ u.class? k = some c ∧ c.methods = before ++ m :: after ∧
      m.name = name ∧ (∀ m' ∈ before, m'.name ≠ name) ∧
      u.memberNamed? t name = some (.method m)
  missing : u.distances t (·.HasField name) = ∅ → u.distances t (·.HasMethod name) = ∅ →
    u.memberNamed? t name = none
  named : ∀ m, u.memberNamed? t name = some m → m.name = name
  /-- No option leaves a member out. -/
  chosen : ∀ path o m, (u.choose path o t (.name name)).outcome = .ok m ↔
    u.memberNamed? t name = some m

section Search
variable {α : Type} {g : Class → Option α} {P : Class → Prop}

theorem not_of_bind_eq_none (hP : ∀ c, (g c).isSome ↔ P c) {k : Ty} {c : Class}
    (hc : u.class? k = some c) (h : (u.class? k).bind g = none) : ¬ P c := by
  rw [hc, Option.bind_some, ← Option.not_isSome_iff_eq_none, hP c] at h
  exact h

theorem findSome?_hierarchy_eq_some (hP : ∀ c, (g c).isSome ↔ P c) {a : α}
    (h : (u.hierarchy t).findSome? (fun k => (u.class? k).bind g) = some a) :
    ∃ i k c, IsLeast (u.distances t P) i ∧ u.above? i t = some k ∧ u.class? k = some c ∧
      g c = some a := by
  obtain ⟨below, k, rest, hsplit, hk, hbelow⟩ := List.findSome?_eq_some_iff.1 h
  obtain ⟨c, hc, ha⟩ := Option.bind_eq_some_iff.1 hk
  have habove : u.above? below.length t = some k := by
    rw [← getElem?_hierarchy, hsplit]
    simp
  have hPc : P c := (hP c).1 (by rw [ha]; rfl)
  refine ⟨below.length, k, c, ⟨⟨k, c, habove, hc, hPc⟩, ?_⟩, habove, hc, ha⟩
  rintro j ⟨k', c', hj, hc', hPc'⟩
  -- the classes below the one that was found have nothing of the kind
  by_contra hlt
  rw [← getElem?_hierarchy, hsplit, List.getElem?_append_left (Nat.lt_of_not_le hlt)] at hj
  exact not_of_bind_eq_none hP hc' (hbelow k' (List.mem_of_getElem? hj)) hPc'

theorem findSome?_hierarchy_eq_none_iff (hP : ∀ c, (g c).isSome ↔ P c) :
    (u.hierarchy t).findSome? (fun k => (u.class? k).bind g) = none ↔ u.distances t P = ∅ := by
  rw [List.findSome?_eq_none_iff, Set.eq_empty_iff_forall_notMem]
  constructor
  · rintro h i ⟨k, c, hk, hc, hPc⟩
    rw [← getElem?_hierarchy] at hk
    exact not_of_bind_eq_none hP hc (h k (List.mem_of_getElem? hk)) hPc
  · intro h k hk
    obtain ⟨i, hi⟩ := exists_above?_of_mem_hierarchy hk
    cases hc : u.class? k with
    | none => rfl
    | some c =>
      rw [Option.bind_some, ← Option.not_isSome_iff_eq_none, hP c]
      exact fun hPc => h i ⟨k, c, hi, hc, hPc⟩

theorem exists_findSome?_hierarchy (hP : ∀ c, (g c).isSome ↔ P c)
    (hne : (u.distances t P).Nonempty) : ∃ i k c a, IsLeast (u.distances t P) i ∧
      u.above? i t = some k ∧ u.class? k = some c ∧ g c = some a ∧
      (u.hierarchy t).findSome? (fun k => (u.class? k).bind g) = some a := by
  cases h : (u.hierarchy t).findSome? (fun k => (u.class? k).bind g) with
  | none => exact absurd ((findSome?_hierarchy_eq_none_iff hP).1 h) hne.ne_empty
  | some a =>
    obtain ⟨i, k, c, hi, hk, hc, ha⟩ := findSome?_hierarchy_eq_some hP h
    exact ⟨i, k, c, a, hi, hk, hc, ha, rfl⟩

end Search

theorem findField?_eq_none_iff :
    u.findField? t name = none ↔ u.distances t (·.HasField name) = ∅ :=
  findSome?_hierarchy_eq_none_iff fun _ => Class.isSome_field?_iff

theorem findMethod?_eq_none_iff :
    u.findMethod? t name = none ↔ u.distances t (·.HasMethod name) = ∅ :=
  findSome?_hierarchy_eq_none_iff fun _ => Class.isSome_method?_iff

theorem memberNamed?_of_findField? {f : Field} (h : u.findField? t name = some f) :
    u.memberNamed? t name = some (.field f) := by
  simp only [memberNamed?, h]

/-- Methods are looked for only where no class has a field of the name. -/
theorem memberNamed?_of_findField?_none (h : u.findField? t name = none) :
    u.memberNamed? t name = (u.findMethod? t name).map .method := by
  simp only [memberNamed?, h]

theorem finds_by_name (u : Universe) (t : Ty) (name : String) : u.FindsByName t name where
  field hne := by
    obtain ⟨i, k, c, f, hi, hk, hc, hf, hfind⟩ :=
      exists_findSome?_hierarchy (fun _ => Class.isSome_field?_iff) hne
    exact ⟨i, k, c, f, hi, hk, hc, hf, memberNamed?_of_findField? hfind⟩
  method hfields hne := by
    obtain ⟨i, k, c, m, hi, hk, hc, hm, hfind⟩ :=
      exists_findSome?_hierarchy (fun _ => Class.isSome_method?_iff) hne
    obtain ⟨hname, before, after, hsplit, hbefore⟩ := Class.method?_eq_some_iff.1 hm
    refine ⟨i, k, c, m, before, after, hi, hk, hc, hsplit, hname, hbefore, ?_⟩
    rw [memberNamed?_of_findField?_none (findField?_eq_none_iff.2 hfields)]
    exact congrArg (Option.map Member.method) hfind
  missing hfields hmethods := by
    rw [memberNamed?_of_findField?_none (findField?_eq_none_iff.2 hfields),
      findMethod?_eq_none_iff.2 hmethods]
    rfl
  named _ hm := name_of_memberNamed? hm
  chosen _ _ _ := choose_name_eq_ok_iff

end Universe

namespace Sample

/-- Boxes have a size; crates are boxes that can be asked for another one. -/
def boxes : Universe where
  definition
    | 0 => classOf 0 "fixtures" "Box" [("size", .u32, false)] [] none
    | 1 => classOf 1 "fixtures" "Crate" [] [getter 1 "size" .u32 fun _ => .int .u32 0]
        (some (.defined 0))
    | _ => .vacant
  rank t := if t = .defined 1 then 1 else 0
  rank_lt t p h := by
    match t with
    | .defined 0 | .defined (_ + 2) => cases h
    | .defined 1 => cases h; decide

/-- The size of a crate is that of the box, though the method is nearer. -/
theorem finds_by_name_size :
    (boxes.distances (.defined 1) (·.HasField "size")).Nonempty ∧
      0 ∈ boxes.distances (.defined 1) (·.HasMethod "size") ∧
      ∃ f, boxes.memberNamed? (.defined 1) "size" = some (.field f) ∧ f.owner = .defined 0 := by
  have hfield : (boxes.distances (.defined 1) (·.HasField "size")).Nonempty :=
    ⟨1, .defined 0, _, rfl, rfl, _, List.mem_singleton_self _, rfl⟩
  have hmethod : 0 ∈ boxes.distances (.defined 1) (·.HasMethod "size") :=
    ⟨.defined 1, _, rfl, rfl, _, List.mem_singleton_self _, rfl⟩
  obtain ⟨i, k, c, f, -, -, -, -, hf⟩ :=
    (Universe.finds_by_name boxes (.defined 1) "size").field hfield
  refine ⟨hfield, hmethod, f, hf, ?_⟩
  have hbox : boxes.memberNamed? (.defined 1) "size" =
      some (.field (.ofSlot (.defined 0) 0 "size" .u32 false)) := rfl
  rw [hbox] at hf
  cases hf
  rfl

end Sample

end MemberPath
