import MemberPath.Proofs.ComponentRoundTrip

/-!
# The normal form of a component

Blanks and array markers can be written in many ways, and reading a component leaves one of them.
What was read is in normal form, everything in normal form is read back from what it displays
(`ofString_display`), and so components that were read are told apart by what they display
(`normalForm`).
-/

namespace MemberPath.Component

/-- No blanks stand around the name, and only that of an array may end in an array marker. -/
structure Normal (c : Component) : Prop where
  trimmed : Trimmed c.typeName.toList
  plain : c.isArray = false → ¬ ['[', ']'] <:+ c.typeName.toList

/-- What reading makes of the text `raw`. -/
structure NormalForm (raw : String) : Prop where
  trimmed : Trimmed (ofString raw).typeName.toList
  display : ofString (ofString raw).display = ofString raw
  padded : ∀ front back : String, (∀ c ∈ front.toList, isBlank c = true) →
    (∀ c ∈ back.toList, isBlank c = true) → ofString (front ++ raw ++ back) = ofString raw
  /-- A marker behind the text is the one that is taken off. -/
  marked : ofString (raw ++ "[]") = ⟨String.ofList (trim raw.toList), true⟩
  marked_twice : ['[', ']'] <:+ raw.toList →
    ['[', ']'] <:+ (ofString (raw ++ "[]")).typeName.toList
  plain_iff : (ofString raw).isArray = false ↔ ¬ ['[', ']'] <:+ trim raw.toList
  plain : (ofString raw).isArray = false → ¬ ['[', ']'] <:+ (ofString raw).typeName.toList
  display_inj : ∀ raw', ofString raw = ofString raw' ↔
    (ofString raw).display = (ofString raw').display

variable {c d : Component} {raw : String}

theorem normal_ofString (raw : String) : (ofString raw).Normal := by
  rw [ofString, ofChars]
  cases hs : stripMarker? (trim raw.toList) with
  | some element =>
    constructor
    · rw [String.toList_ofList]
      exact trimmed_trim element
    · intro harray
      cases harray
  | none =>
    refine ⟨?_, fun _ => ?_⟩ <;> rw [String.toList_ofList]
    · exact trimmed_trim raw.toList
    · exact stripMarker?_eq_none_iff.1 hs

theorem ofString_display (h : c.Normal) : ofString c.display = c := by
  obtain ⟨name, isArray⟩ := c
  have htrim : trim name.toList = name.toList := trim_of_trimmed h.trimmed
  rw [ofString, toList_display]
  cases isArray with
  | true =>
    have hr := ofChars_append_marker name.toList
    rw [htrim, String.ofList_toList] at hr
    exact hr
  | false =>
    have hs : stripMarker? name.toList = none := stripMarker?_eq_none_iff.2 (h.plain rfl)
    show ofChars (name.toList ++ []) = _
    rw [List.append_nil, ofChars, htrim, hs, String.ofList_toList]

theorem Normal.eq_of_display (hc : c.Normal) (hd : d.Normal) (h : c.display = d.display) :
    c = d := by
  rw [← ofString_display hc, h, ofString_display hd]

theorem ofString_padded {front back : String} (hf : ∀ c ∈ front.toList, isBlank c = true)
    (hb : ∀ c ∈ back.toList, isBlank c = true) (raw : String) :
    ofString (front ++ raw ++ back) = ofString raw := by
  have ht : trim (front ++ raw ++ back).toList = trim raw.toList := by
    rw [String.toList_append, String.toList_append]
    exact trim_padded hf hb raw.toList
  rw [ofString, ofChars, ht, ofString, ofChars]

theorem ofString_append_marker (raw : String) :
    ofString (raw ++ "[]") = ⟨String.ofList (trim raw.toList), true⟩ := by
  rw [ofString, String.toList_append]
  exact ofChars_append_marker raw.toList

theorem isArray_ofString_eq_false_iff :
    (ofString raw).isArray = false ↔ ¬ ['[', ']'] <:+ trim raw.toList := by
  rw [← stripMarker?_eq_none_iff, ofString, ofChars]
  cases stripMarker? (trim raw.toList) <;> simp

/-- Trimming leaves a marker at the end where it is. -/
theorem marker_suffix_trim {s : List Char} (h : ['[', ']'] <:+ s) : ['[', ']'] <:+ trim s := by
  obtain ⟨front, rfl⟩ := h
  rw [trim_append_marker]
  exact List.suffix_append ..

theorem normalForm (raw : String) : NormalForm raw where
  trimmed := (normal_ofString raw).trimmed
  display := ofString_display (normal_ofString raw)
  padded _ _ hf hb := ofString_padded hf hb raw
  marked := ofString_append_marker raw
  marked_twice h := by
    rw [ofString_append_marker, String.toList_ofList]
    exact marker_suffix_trim h
  plain_iff := isArray_ofString_eq_false_iff
  plain := (normal_ofString raw).plain
  display_inj raw' :=
    ⟨congrArg Component.display, (normal_ofString raw).eq_of_display (normal_ofString raw')⟩

/-- Of two markers the last is taken off, and blanks of all kinds may stand around it. -/
theorem normalForm_markers :
    ofString "\t a [] []\n" = ⟨"a []", true⟩ ∧ ofString "a [][]" = ⟨"a []", true⟩ ∧
      ofString ("\u2003" ++ "a [][]" ++ " \u0085") = ofString "a [][]" ∧
      ['[', ']'] <:+ (ofString ("a[]" ++ "[]")).typeName.toList ∧
      (ofString "a []x").isArray = false := by
  have hread : ofString "\t a [] []\n" = ⟨"a []", true⟩ := by decide
  have hdisplay := (normalForm "\t a [] []\n").display
  rw [hread] at hdisplay
  have hfront : "\u2003".toList.all isBlank = true := by decide
  have hback : " \u0085".toList.all isBlank = true := by decide
  have hpadded := (normalForm "a [][]").padded "\u2003" " \u0085" (List.all_eq_true.1 hfront)
    (List.all_eq_true.1 hback)
  have htwice := (normalForm "a[]").marked_twice ⟨['a'], rfl⟩
  have hplain := (normalForm "a []x").plain_iff.2 (by decide)
  exact ⟨hread, hdisplay, hpadded, htwice, hplain⟩

end MemberPath.Component
