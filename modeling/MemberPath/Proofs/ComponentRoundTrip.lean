import MemberPath.Path.Expression
import MemberPath.Proofs.BracketScan

/-!
# Writing and reading type-based expressions

A component is written between brackets, and the text between two segments does not matter as long
as it opens no segment and does not go on with a bracket. `roundTrip_written`: what is written so is
read back, and everything that is read can be written so.
-/

namespace MemberPath
open MemberPath.Bracket

/-- The name of a component can stand between brackets, and nothing of it gets lost there. -/
structure Component.WellFormed (c : Component) : Prop where
  trimmed : Trimmed c.typeName.toList
  no_close : ']' ∉ c.typeName.toList
  one_line : ∀ ch ∈ c.typeName.toList, ch ∉ ['\n', '\r', '\u0085', '\u2028', '\u2029']

instance (c : Component) : Decidable c.WellFormed :=
  decidable_of_iff (Trimmed c.typeName.toList ∧ ']' ∉ c.typeName.toList ∧
      c.typeName.toList.all (!isLineBreak ·) = true)
    ⟨fun h => ⟨h.1, h.2.1, all_not_isLineBreak_iff.1 h.2.2⟩,
      fun h => ⟨h.trimmed, h.no_close, all_not_isLineBreak_iff.2 h.one_line⟩⟩

/-- A text that may follow a segment. -/
structure IsGap (gap : String) : Prop where
  no_open : '[' ∉ gap.toList
  no_close : gap.toList.head? ≠ some ']'

instance (gap : String) : Decidable (IsGap gap) :=
  decidable_of_iff ('[' ∉ gap.toList ∧ gap.toList.head? ≠ some ']')
    ⟨fun h => ⟨h.1, h.2⟩, fun h => ⟨h.no_open, h.no_close⟩⟩

/-- Segments with the components, each followed by a text. -/
def written : List (Component × String) → String
  | [] => ""
  | (c, gap) :: parts => "[" ++ c.display ++ "]" ++ gap ++ written parts

/-- Segments with the components, separated by dots. -/
def dotted (cs : List Component) : String :=
  ".".intercalate (cs.map fun c => "[" ++ c.display ++ "]")

namespace Component

theorem toList_display (c : Component) :
    c.display.toList = c.typeName.toList ++ marker c.isArray := by
  obtain ⟨name, isArray⟩ := c
  cases isArray <;> simp [display, marker]

theorem ofChars_append {s : List Char} (h : ']' ∉ s) (isArray : Bool) :
    ofChars (s ++ marker isArray) = ⟨String.ofList (trim s), isArray⟩ := by
  cases isArray with
  | true => exact ofChars_append_marker s
  | false =>
    show ofChars (s ++ []) = _
    rw [List.append_nil, ofChars_of_notMem h]

theorem ofChars_display {c : Component} (h : c.WellFormed) : ofChars c.display.toList = c := by
  rw [toList_display, ofChars_append h.no_close, trim_of_trimmed h.trimmed, String.ofList_toList]

/-- Every body of a segment gives a component that can be written. -/
theorem wellFormed_ofChars {s body rest : List Char} (h : splitClose? s = some (body, rest)) :
    (ofChars body).WellFormed := by
  obtain ⟨inner, isArray, rfl, hi, hl⟩ := body_of_splitClose? h
  rw [ofChars_append hi]
  refine ⟨?_, ?_, ?_⟩ <;> rw [String.toList_ofList]
  · exact trimmed_trim inner
  · exact fun hm => hi (mem_of_mem_trim hm)
  · exact fun ch hm => isLineBreak_eq_false_iff.1 (hl ch (mem_of_mem_trim hm))

end Component

/-! ### Reading what is written -/

theorem head?_written {gap : String} (h : IsGap gap) (parts : List (Component × String)) :
    (gap.toList ++ (written parts).toList).head? ≠ some ']' := by
  cases hg : gap.toList with
  | nil =>
    cases parts with
    | nil => simp [written]
    | cons part parts => simp [written]
  | cons c s =>
    have hc := h.no_close
    rw [hg] at hc
    exact hc

theorem bodies_written {parts : List (Component × String)}
    (h : ∀ part ∈ parts, part.1.WellFormed ∧ IsGap part.2) :
    bodies (written parts).toList = parts.map fun part => part.1.display.toList := by
  induction parts with
  | nil => rfl
  | cons part parts ih =>
    obtain ⟨c, gap⟩ := part
    obtain ⟨hc, hgap⟩ := h (c, gap) (by simp)
    have htext : (written ((c, gap) :: parts)).toList =
        '[' :: (c.display.toList ++ ']' :: (gap.toList ++ (written parts).toList)) := by
      simp [written]
    -- neither the gap nor the next segment begins with `]`, so the first bracket is the closing one
    have hclose : splitClose? (c.display.toList ++ ']' :: (gap.toList ++ (written parts).toList)) =
        some (c.display.toList, gap.toList ++ (written parts).toList) := by
      have hline : ∀ ch ∈ c.typeName.toList, isLineBreak ch = false :=
        fun ch hm => isLineBreak_eq_false_iff.2 (hc.one_line ch hm)
      rw [Component.toList_display]
      exact splitClose?_append c.isArray hc.no_close hline (head?_written hgap parts)
    rw [htext, bodies_open_of_some hclose, bodies_append_of_notMem hgap.no_open,
      ih fun part hp => h part (List.mem_cons_of_mem _ hp)]
    rfl

/-- An expression is type-based iff it has a bracketed segment. -/
theorem Segments.ofString_eq_types_iff {text : String} {cs : List Component} :
    Segments.ofString text = .ok (.types cs) ↔
      bodies text.toList ≠ [] ∧ cs = (bodies text.toList).map Component.ofChars := by
  rw [Segments.ofString, Segments.ofChars]
  by_cases hempty : text.toList = []
  · simp [hempty, bodies_nil]
  rw [if_neg (by simpa using hempty)]
  cases hb : bodies text.toList with
  | nil => simp
  | cons body bodies => simp [eq_comm]

theorem segments_written (front : String) {parts : List (Component × String)} (hne : parts ≠ [])
    (hf : '[' ∉ front.toList) (h : ∀ part ∈ parts, part.1.WellFormed ∧ IsGap part.2) :
    Segments.ofString (front ++ written parts) = .ok (.types (parts.map (·.1))) := by
  have hb : bodies (front ++ written parts).toList =
      parts.map fun part => part.1.display.toList := by
    rw [String.toList_append, bodies_append_of_notMem hf, bodies_written h]
  rw [Segments.ofString_eq_types_iff, hb]
  refine ⟨by simpa using hne, ?_⟩
  rw [List.map_map]
  exact List.map_congr_left fun part hp => (Component.ofChars_display (h part hp).1).symm

/-! ### Writing what was read -/

theorem wellFormed_of_mem_bodies {text body : List Char} (h : body ∈ bodies text) :
    (Component.ofChars body).WellFormed := by
  induction text using scan_induction with
  | nil => simp [bodies_nil] at h
  | skip c s hc ih => exact ih (bodies_cons_of_ne hc s ▸ h)
  | unclosed s hs ih => exact ih (bodies_open_of_none hs ▸ h)
  | closed s body' rest hs ih =>
    rw [bodies_open_of_some hs] at h
    rcases List.mem_cons.1 h with rfl | h
    · exact Component.wellFormed_ofChars hs
    · exact ih h

/-- The components with the dots behind them. -/
def withDots : List Component → List (Component × String)
  | [] => []
  | [c] => [(c, "")]
  | c :: cs => (c, ".") :: withDots cs

theorem map_fst_withDots (cs : List Component) : (withDots cs).map (·.1) = cs := by
  fun_induction withDots cs with
  | case1 => rfl
  | case2 => rfl
  | case3 c cs _ ih => rw [List.map_cons, ih]

theorem isGap_of_mem_withDots {cs : List Component} {part : Component × String}
    (h : part ∈ withDots cs) : IsGap part.2 := by
  have hdot : IsGap "." := ⟨by decide, by decide⟩
  have hnone : IsGap "" := ⟨by decide, by decide⟩
  fun_induction withDots cs with
  | case1 => cases h
  | case2 c =>
    rw [List.mem_singleton.1 h]; exact hnone
  | case3 c cs _ ih =>
    rcases List.mem_cons.1 h with rfl | h
    · exact hdot
    · exact ih h

theorem written_withDots (cs : List Component) : written (withDots cs) = dotted cs := by
  fun_induction withDots cs with
  | case1 => rfl
  | case2 c => simp [written, dotted]
  | case3 c cs hcs ih =>
    obtain ⟨c', cs', rfl⟩ := List.exists_cons_of_ne_nil hcs
    rw [written, ih, dotted, dotted]
    simp only [List.map_cons, String.intercalate_cons_cons]

theorem segments_dotted {cs : List Component} (hne : cs ≠ []) (h : ∀ c ∈ cs, c.WellFormed) :
    Segments.ofString (dotted cs) = .ok (.types cs) := by
  have hparts : withDots cs ≠ [] := by
    intro hnil
    have hcs := map_fst_withDots cs
    rw [hnil] at hcs
    exact hne hcs.symm
  have hwf : ∀ part ∈ withDots cs, part.1.WellFormed ∧ IsGap part.2 := by
    intro part hp
    have hc : part.1 ∈ cs := map_fst_withDots cs ▸ List.mem_map_of_mem hp
    exact ⟨h _ hc, isGap_of_mem_withDots hp⟩
  have hs := segments_written "" hparts (by simp) hwf
  rwa [map_fst_withDots, String.empty_append, written_withDots] at hs

/-- What is written is read as it was meant, and what was read is read again when it is written with
dots between the segments. -/
theorem Expression.roundTrip_written :
    (∀ front parts, parts ≠ [] → '[' ∉ front.toList →
      (∀ part ∈ parts, part.1.WellFormed ∧ IsGap part.2) →
      Expression.ofString (front ++ written parts) =
        .ok ⟨front ++ written parts, .types (parts.map (·.1))⟩) ∧
    ∀ text e cs, Expression.ofString text = .ok e → e.segments = .types cs →
      (∀ c ∈ cs, c.WellFormed) ∧ Expression.ofString (dotted cs) = .ok ⟨dotted cs, .types cs⟩ := by
  refine ⟨fun front parts hne hf h =>
    ofString_eq_ok_iff.2 ⟨rfl, segments_written front hne hf h⟩, ?_⟩
  intro text e cs he hcs
  have hs := (ofString_eq_ok_iff.1 he).2
  rw [hcs, Segments.ofString_eq_types_iff] at hs
  obtain ⟨hb, rfl⟩ := hs
  have hwf : ∀ c ∈ (bodies text.toList).map Component.ofChars, c.WellFormed := by
    intro c hc
    obtain ⟨body, hbody, rfl⟩ := List.mem_map.1 hc
    exact wellFormed_of_mem_bodies hbody
  exact ⟨hwf, ofString_eq_ok_iff.2 ⟨rfl, segments_dotted (by simpa using hb) hwf⟩⟩

/-- Names may be empty and end in `[`, and gaps may hold brackets and line breaks. -/
theorem Expression.roundTrip_written_nested :
    let parts : List (Component × String) :=
      [(⟨"a[", true⟩, "\n]"), (⟨"", false⟩, ""), (⟨"b [", false⟩, ".x")]
    let cs : List Component := [⟨"A", true⟩, ⟨"B [", false⟩]
    "]c" ++ written parts = "]c[a[[]]\n][][b [].x" ∧
    Expression.ofString ("]c" ++ written parts) =
      .ok ⟨"]c" ++ written parts, .types [⟨"a[", true⟩, ⟨"", false⟩, ⟨"b [", false⟩]⟩ ∧
    Expression.ofString "x[ A []].[ B [] ]" = .ok ⟨"x[ A []].[ B [] ]", .types cs⟩ ∧
    (∀ c ∈ cs, c.WellFormed) ∧ Expression.ofString (dotted cs) = .ok ⟨dotted cs, .types cs⟩ := by
  intro parts cs
  have hparts : ∀ part ∈ parts, part.1.WellFormed ∧ IsGap part.2 := by decide
  have hread : Expression.ofString "x[ A []].[ B [] ]" = .ok ⟨"x[ A []].[ B [] ]", .types cs⟩ := rfl
  have hback := Expression.roundTrip_written.2 _ _ cs hread rfl
  exact ⟨by decide, Expression.roundTrip_written.1 "]c" parts (by decide) (by decide) hparts, hread,
    hback⟩

end MemberPath
