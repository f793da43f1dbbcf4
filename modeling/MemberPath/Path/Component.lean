import MemberPath.Text.Blank

/-!
# Type components

A type component is what stands between two brackets: the name of a type, and whether an array of
it is meant. Blanks around the name are ignored and one trailing `[]` marks an array.
-/

namespace MemberPath

/-- The name of a type as a segment writes it, and whether an array of that type is asked for. -/
structure Component where
  typeName : String
  isArray : Bool
  deriving DecidableEq

namespace Component

def stripMarker? (s : List Char) : Option (List Char) :=
  if ['[', ']'].isSuffixOf s then some (s.take (s.length - 2)) else none

def ofChars (raw : List Char) : Component :=
  match stripMarker? (trim raw) with
  | some element => ⟨String.ofList (trim element), true⟩
  | none => ⟨String.ofList (trim raw), false⟩

def ofString (raw : String) : Component :=
  ofChars raw.toList

/-- The component as a segment writes it, without the brackets around it. -/
def display (c : Component) : String :=
  if c.isArray then c.typeName ++ "[]" else c.typeName

theorem stripMarker?_append (s : List Char) : stripMarker? (s ++ ['[', ']']) = some s := by
  have h : ['[', ']'].isSuffixOf (s ++ ['[', ']']) = true :=
    List.isSuffixOf_iff_suffix.2 (List.suffix_append ..)
  rw [stripMarker?, if_pos h]
  simp

theorem stripMarker?_eq_none_iff {s : List Char} : stripMarker? s = none ↔ ¬ ['[', ']'] <:+ s := by
  rw [stripMarker?, ← List.isSuffixOf_iff_suffix]
  split
  · rename_i h
    simp [h]
  · rename_i h
    simp [h]

theorem stripMarker?_of_notMem {s : List Char} (h : ']' ∉ s) : stripMarker? s = none :=
  stripMarker?_eq_none_iff.2 fun hs => h (hs.mem (by simp))

theorem trim_append_marker (s : List Char) :
    trim (s ++ ['[', ']']) = trimStart s ++ ['[', ']'] := by
  rw [trim, trimStart_append_cons rfl, List.append_cons]
  exact trimEnd_concat_of_not_isBlank rfl _

/-- A marker at the end is taken off once, and what is in front of it is trimmed. -/
theorem ofChars_append_marker (s : List Char) :
    ofChars (s ++ ['[', ']']) = ⟨String.ofList (trim s), true⟩ := by
  rw [ofChars, trim_append_marker, stripMarker?_append]
  simp only [trim_trimStart]

theorem ofChars_of_notMem {s : List Char} (h : ']' ∉ s) :
    ofChars s = ⟨String.ofList (trim s), false⟩ := by
  rw [ofChars, stripMarker?_of_notMem fun hm => h (mem_of_mem_trim hm)]

end Component

end MemberPath
