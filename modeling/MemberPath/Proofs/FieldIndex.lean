import MemberPath.Proofs.NameLookup
import MemberPath.Proofs.TypeLookup

/-!
# The index of field names

A class finds its fields through an index from names to positions. The index is built in the order
of declaration and a later field takes the place of an earlier one of its name, so it points at the
last of them (`indexes_last`). A scan in the order of declaration, as methods are found by, stops at
the first: the two part on exactly the names that several fields have.
-/

namespace MemberPath

namespace Class
variable {c : Class} {name : String} {i : Nat}

/-- The positions of the fields of a name in the order of declaration. -/
def positions (c : Class) (name : String) : Set Nat :=
  {i | ∃ f, c.fields[i]? = some f ∧ f.name = name}

/-- What lookup by name finds among the own members of a class. -/
structure IndexesLast (c : Class) (name : String) : Prop where
  /-- The index points at the last field of the name. -/
  points : ∀ i, c.fieldIndex.get? name = some i ↔ IsGreatest (c.positions name) i
  /-- What it points at is there, and is the field that is found. -/
  within : ∀ i, c.fieldIndex.get? name = some i →
    ∃ h : i < c.fields.length, c.field? name = some c.fields[i] ∧ c.fields[i].name = name
  missing : c.field? name = none ↔ ∀ f ∈ c.fields, f.name ≠ name
  /-- A scan stops at the field that the index points at iff no other field has the name. -/
  scanned : c.fieldIndex.get? name = c.fields.findIdx? (·.name == name) ↔
    (c.positions name).Subsingleton
  /-- Methods are found by a scan. -/
  method : ∀ m, c.method? name = some m ↔ m.name = name ∧ ∃ before after,
    c.methods = before ++ m :: after ∧ ∀ m' ∈ before, m'.name ≠ name

theorem mem_positions_iff :
    i ∈ c.positions name ↔ ∃ f, (f, i) ∈ c.fields.zipIdx ∧ f.name = name := by
  simp only [List.mem_zipIdx_iff_getElem?]
  rfl

theorem exists_get?_fieldIndex (h : i ∈ c.positions name) :
    ∃ j, c.fieldIndex.get? name = some j := by
  obtain ⟨f, hf, hname⟩ := mem_positions_iff.1 h
  rw [← Option.isSome_iff_exists, fieldIndex, get?_index, Option.isSome_map, List.find?_isSome]
  exact ⟨(f, i), List.mem_reverse.2 hf, by simpa using hname⟩

theorem isGreatest_of_get?_fieldIndex (h : c.fieldIndex.get? name = some i) :
    IsGreatest (c.positions name) i := by
  rw [fieldIndex, get?_index] at h
  obtain ⟨⟨f, j⟩, hfind, rfl⟩ := Option.map_eq_some_iff.1 h
  obtain ⟨hname, behind, front, hsplit, hbehind⟩ := List.find?_eq_some_iff_append.1 hfind
  have hmem : (f, j) ∈ c.fields.zipIdx := List.mem_reverse.1 (List.mem_of_find?_eq_some hfind)
  refine ⟨mem_positions_iff.2 ⟨f, hmem, by simpa using hname⟩, ?_⟩
  intro k hk
  obtain ⟨f', hf', hname'⟩ := mem_positions_iff.1 hk
  rw [← List.mem_reverse, hsplit, List.mem_append, List.mem_cons] at hf'
  rcases hf' with hf' | hf' | hf'
  · exact absurd hname' (by simpa using hbehind _ hf')
  · exact Nat.le_of_eq (congrArg Prod.snd hf')
  · -- what stands in front of a field has a smaller position
    have hpairs := List.pairwise_reverse.2 (Universe.pairwise_zipIdx c.fields)
    rw [hsplit] at hpairs
    exact Nat.le_of_lt ((List.pairwise_cons.1 (List.pairwise_append.1 hpairs).2.1).1 _ hf')

theorem get?_fieldIndex_eq_some_iff :
    c.fieldIndex.get? name = some i ↔ IsGreatest (c.positions name) i := by
  refine ⟨isGreatest_of_get?_fieldIndex, fun h => ?_⟩
  obtain ⟨j, hj⟩ := exists_get?_fieldIndex h.1
  rw [hj, (isGreatest_of_get?_fieldIndex hj).unique h]

theorem findIdx?_eq_some_iff :
    c.fields.findIdx? (·.name == name) = some i ↔ IsLeast (c.positions name) i := by
  rw [List.findIdx?_eq_some_iff_getElem]
  constructor
  · rintro ⟨hi, hname, hfirst⟩
    refine ⟨⟨c.fields[i], List.getElem?_eq_getElem hi, by simpa using hname⟩, ?_⟩
    rintro j ⟨f, hf, hf'⟩
    by_contra hlt
    have hj := hfirst j (Nat.lt_of_not_le hlt)
    obtain ⟨_, rfl⟩ := List.getElem?_eq_some_iff.1 hf
    exact hj (by simpa using hf')
  · rintro ⟨⟨f, hf, hname⟩, hleast⟩
    obtain ⟨hi, rfl⟩ := List.getElem?_eq_some_iff.1 hf
    refine ⟨hi, by simpa using hname, fun j hj hname' => ?_⟩
    have hle := hleast ⟨_, List.getElem?_eq_getElem (hj.trans hi), by simpa using hname'⟩
    omega

theorem get?_fieldIndex_eq_findIdx?_iff :
    c.fieldIndex.get? name = c.fields.findIdx? (·.name == name) ↔
      (c.positions name).Subsingleton := by
  constructor
  · intro h i hi j hj
    obtain ⟨k, hk⟩ := exists_get?_fieldIndex hi
    have hgreatest := get?_fieldIndex_eq_some_iff.1 hk
    have hleast := findIdx?_eq_some_iff.1 (h ▸ hk)
    exact (Nat.le_antisymm (hgreatest.2 hi) (hleast.2 hi)).trans
      (Nat.le_antisymm (hleast.2 hj) (hgreatest.2 hj))
  · intro h
    ext i
    rw [get?_fieldIndex_eq_some_iff, findIdx?_eq_some_iff]
    constructor
    · rintro ⟨hi, -⟩
      exact ⟨hi, fun j hj => Nat.le_of_eq (h hi hj)⟩
    · rintro ⟨hi, -⟩
      exact ⟨hi, fun j hj => Nat.le_of_eq (h hj hi)⟩

/-- Of the fields of one name, lookup by name finds the last. -/
theorem indexes_last (c : Class) (name : String) : c.IndexesLast name where
  points _ := get?_fieldIndex_eq_some_iff
  within i h := by
    obtain ⟨f, hf, hname⟩ := (get?_fieldIndex_eq_some_iff.1 h).1
    obtain ⟨hi, rfl⟩ := List.getElem?_eq_some_iff.1 hf
    refine ⟨hi, ?_, hname⟩
    rw [field?, h]
    exact hf
  missing := by
    rw [← Option.not_isSome_iff_eq_none, isSome_field?_iff, HasField]
    simp only [not_exists, not_and, ne_eq]
  scanned := get?_fieldIndex_eq_findIdx?_iff
  method _ := method?_eq_some_iff

end Class

namespace Sample

/-- A class that has two fields called `x`. -/
def twins : Class where
  fields := [.ofSlot (.defined 0) 0 "x" .u8 false, .ofSlot (.defined 0) 1 "x" .text false]
  methods := []
  parent := none

/-- A scan stops at the first of the two, the index points at the second. -/
theorem field?_ne_find?_twins : twins.field? "x" ≠ twins.fields.find? (·.name == "x") := by
  intro h
  have hty := congrArg (Option.map Field.ty) h
  revert hty
  decide

end Sample

end MemberPath
