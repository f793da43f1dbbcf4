import Mathlib.Data.List.DropRight
import MemberPath.Path.Expression
import MemberPath.Proofs.BracketScan

/-!
# The names of an expression

`Spells`: names spell a text if they hold no dots, the last is not empty, and the text is the names
with dots between them and dots behind. Every text is spelled by exactly one list of names, those
that an expression without segments is read as (`names_spelled`). On lists of characters this is
`List.splitOn` and `List.rdropWhile` (`dottedNames_eq`).
-/

namespace MemberPath
open MemberPath.Bracket

variable {s part : List Char} {l : List (List Char)}

def dots (n : Nat) : String := String.ofList (List.replicate n '.')

structure Spells (names : List String) (text : String) : Prop where
  dotless : ∀ n ∈ names, '.' ∉ n.toList
  last : ∀ n ∈ names.getLast?, n ≠ ""
  text : ∃ n, text = ".".intercalate names ++ dots n

theorem splitDots_eq_splitOn (s : List Char) : splitDots s = s.splitOn '.' := by
  induction s with
  | nil => rfl
  | cons c s ih =>
    obtain ⟨part, parts, hs⟩ := List.exists_cons_of_ne_nil (splitDots_ne_nil s)
    rw [splitDots, List.splitOn_cons_eq_if_modifyHead, ← ih, hs]
    by_cases hc : c = '.' <;> simp [hc]

theorem dropEmptyTail_concat (l : List (List Char)) (part : List Char) :
    dropEmptyTail (l ++ [part]) = if part.isEmpty then dropEmptyTail l else l ++ [part] := by
  induction l with
  | nil => cases part <;> rfl
  | cons first l ih =>
    simp only [List.cons_append, dropEmptyTail, ih]
    rcases part with _ | ⟨c, part⟩
    · rfl
    · cases first <;> cases l <;> rfl

theorem dropEmptyTail_eq_rdropWhile (l : List (List Char)) :
    dropEmptyTail l = l.rdropWhile List.isEmpty := by
  induction l using List.reverseRecOn with
  | nil => rfl
  | append_singleton l part ih => rw [dropEmptyTail_concat, List.rdropWhile_concat, ih]

theorem dottedNames_eq (s : List Char) :
    dottedNames s = (s.splitOn '.').rdropWhile List.isEmpty := by
  rw [dottedNames, splitDots_eq_splitOn, dropEmptyTail_eq_rdropWhile]

/-! ### What the names of a text are -/

theorem dot_notMem_of_mem_splitDots (h : part ∈ splitDots s) : '.' ∉ part := by
  induction s generalizing part with
  | nil => simp_all [splitDots]
  | cons c s ih =>
    obtain ⟨first, parts, hs⟩ := List.exists_cons_of_ne_nil (splitDots_ne_nil s)
    rw [hs] at ih
    rw [splitDots, hs] at h
    split at h
    · rcases List.mem_cons.1 h with rfl | h
      · simp
      · exact ih h
    · rename_i hc
      rcases List.mem_cons.1 h with rfl | h
      · simp [Ne.symm hc, ih (List.mem_cons_self ..)]
      · exact ih (List.mem_cons_of_mem _ h)

theorem dot_notMem_of_mem_dottedNames (h : part ∈ dottedNames s) : '.' ∉ part := by
  rw [dottedNames, dropEmptyTail_eq_rdropWhile] at h
  exact dot_notMem_of_mem_splitDots ((List.rdropWhile_prefix _ _).mem h)

theorem ne_nil_of_getLast?_dottedNames (h : part ∈ (dottedNames s).getLast?) : part ≠ [] := by
  rw [dottedNames_eq] at h
  have hne : (s.splitOn '.').rdropWhile List.isEmpty ≠ [] := by
    intro hnil
    simp [hnil] at h
  have hlast := List.rdropWhile_last_not List.isEmpty _ hne
  obtain rfl : _ = part := Option.some.inj ((List.getLast?_eq_some_getLast hne).symm.trans h)
  simpa using hlast

theorem intercalate_concat_nil (l : List (List Char)) :
    ∃ n, ['.'].intercalate (l ++ [[]]) = ['.'].intercalate l ++ List.replicate n '.' := by
  induction l with
  | nil => exact ⟨0, rfl⟩
  | cons part l ih =>
    obtain ⟨n, hn⟩ := ih
    by_cases hl : l = []
    · exact ⟨1, by simp [hl]⟩
    · refine ⟨n, ?_⟩
      rw [List.cons_append, List.intercalate_cons_of_ne_nil (by simp), hn,
        List.intercalate_cons_of_ne_nil hl]
      simp

/-- The empty names that are dropped stand for the dots at the end. -/
theorem intercalate_dropEmptyTail (l : List (List Char)) :
    ∃ n, ['.'].intercalate l = ['.'].intercalate (dropEmptyTail l) ++ List.replicate n '.' := by
  induction l using List.reverseRecOn with
  | nil => exact ⟨0, rfl⟩
  | append_singleton l part ih =>
    rw [dropEmptyTail_concat]
    split
    · rename_i hpart
      obtain ⟨n, hn⟩ := ih
      obtain ⟨m, hm⟩ := intercalate_concat_nil l
      refine ⟨n + m, ?_⟩
      rw [List.isEmpty_iff.1 hpart, hm, hn, List.append_assoc, List.replicate_append_replicate]
    · exact ⟨0, by simp⟩

theorem eq_intercalate_dottedNames (s : List Char) :
    ∃ n, s = ['.'].intercalate (dottedNames s) ++ List.replicate n '.' := by
  obtain ⟨n, hn⟩ := intercalate_dropEmptyTail (splitDots s)
  refine ⟨n, ?_⟩
  rw [dottedNames, ← hn, splitDots_eq_splitOn, List.intercalate_splitOn]

/-! ### Texts with given names -/

theorem dottedNames_append_dots (s : List Char) (n : Nat) :
    dottedNames (s ++ List.replicate n '.') = dottedNames s := by
  induction n with
  | zero => simp
  | succ n ih =>
    have hsplit : ((s ++ List.replicate n '.') ++ ['.']).splitOn '.' =
        (s ++ List.replicate n '.').splitOn '.' ++ [[]] :=
      List.splitOn_append_cons_self ..
    rw [List.replicate_succ', ← List.append_assoc, dottedNames_eq, hsplit,
      List.rdropWhile_concat_pos _ _ _ rfl, ← dottedNames_eq, ih]

theorem dottedNames_intercalate (hdot : ∀ part ∈ l, '.' ∉ part)
    (hlast : ∀ part ∈ l.getLast?, part ≠ []) : dottedNames (['.'].intercalate l) = l := by
  by_cases hl : l = []
  · subst hl
    rfl
  · rw [dottedNames_eq, List.splitOn_intercalate '.' hdot hl, List.rdropWhile_eq_self_iff]
    intro hl
    simpa using hlast _ (List.getLast?_eq_some_getLast hl)

theorem dottedNames_eq_nil_iff : dottedNames s = [] ↔ ∀ c ∈ s, c = '.' := by
  constructor
  · intro h
    obtain ⟨n, hn⟩ := eq_intercalate_dottedNames s
    rw [h] at hn
    intro c hc
    rw [hn] at hc
    exact List.eq_of_mem_replicate hc
  · intro h
    have hs := List.eq_replicate_of_mem h
    rw [hs]
    exact dottedNames_append_dots [] _

/-- The names of a text are the only parts that give it when they are put together with dots. -/
theorem eq_dottedNames_iff : l = dottedNames s ↔
    (∀ part ∈ l, '.' ∉ part) ∧ (∀ part ∈ l.getLast?, part ≠ []) ∧
      ∃ n, s = ['.'].intercalate l ++ List.replicate n '.' := by
  constructor
  · rintro rfl
    exact ⟨fun _ => dot_notMem_of_mem_dottedNames, fun _ => ne_nil_of_getLast?_dottedNames,
      eq_intercalate_dottedNames s⟩
  · rintro ⟨hdot, hlast, n, rfl⟩
    rw [dottedNames_append_dots, dottedNames_intercalate hdot hlast]

variable {names : List String} {text : String}

theorem spells_iff : Spells names text ↔ names.map String.toList = dottedNames text.toList := by
  have htext : (∃ n, text = ".".intercalate names ++ dots n) ↔
      ∃ n, text.toList = ['.'].intercalate (names.map String.toList) ++ List.replicate n '.' := by
    simp [← String.toList_inj, dots]
  have hlast : (∀ n ∈ names.getLast?, n ≠ "") ↔
      ∀ part ∈ (names.map String.toList).getLast?, part ≠ [] := by
    simp
  have hdot : (∀ n ∈ names, '.' ∉ n.toList) ↔ ∀ part ∈ names.map String.toList, '.' ∉ part := by
    simp
  rw [eq_dottedNames_iff, ← htext, ← hlast, ← hdot]
  exact ⟨fun h => ⟨h.dotless, h.last, h.text⟩, fun ⟨h₁, h₂, h₃⟩ => ⟨h₁, h₂, h₃⟩⟩

theorem Spells.unique {ns : List String} (h : Spells names text) (hns : Spells ns text) :
    ns = names :=
  List.map_injective_iff.2 (fun _ _ => String.toList_inj.1)
    ((spells_iff.1 hns).trans (spells_iff.1 h).symm)

/-- An expression is name-based iff it is not empty and has no segment. -/
theorem Segments.ofString_eq_names_iff : Segments.ofString text = .ok (.names names) ↔
    text ≠ "" ∧ ¬ Bracketed text.toList ∧ Spells names text := by
  rw [spells_iff, Segments.ofString, Segments.ofChars]
  by_cases hempty : text = ""
  · simp [hempty]
  rw [if_neg (by simpa using hempty)]
  cases hb : bodies text.toList with
  | nil =>
    have hnames : (dottedNames text.toList).map String.ofList = names ↔
        names.map String.toList = dottedNames text.toList := by
      constructor
      · rintro rfl
        simp
      · intro h
        simp [← h]
    simp [hempty, bodies_eq_nil_iff.1 hb, hnames]
  | cons body rest =>
    have hbracketed : Bracketed text.toList :=
      Classical.not_not.1 (mt bodies_eq_nil_iff.2 (by simp [hb]))
    simp [hbracketed]

theorem ne_empty_of_spells (hne : names ≠ []) (h : Spells names text) : text ≠ "" := by
  rintro rfl
  have hnil : names.map String.toList = [] := spells_iff.1 h
  exact hne (List.map_eq_nil_iff.1 hnil)

/-- The names of a name-based expression are the only ones that spell it, and names that spell a
text without segments are read from it. -/
theorem Expression.names_spelled :
    (∀ text e names, Expression.ofString text = .ok e → e.segments = .names names →
      ∀ ns, Spells ns text ↔ ns = names) ∧
    ∀ names, names ≠ [] → (∀ n ∈ names, '.' ∉ n.toList) → (∀ n ∈ names.getLast?, n ≠ "") →
      ¬ Bracketed (".".intercalate names).toList →
      Expression.ofString (".".intercalate names) =
        .ok ⟨".".intercalate names, .names names⟩ := by
  constructor
  · intro text e names he hnames ns
    have hs := (ofString_eq_ok_iff.1 he).2
    rw [hnames] at hs
    obtain ⟨-, -, h⟩ := Segments.ofString_eq_names_iff.1 hs
    constructor
    · exact h.unique
    · rintro rfl
      exact h
  · intro names hne hdot hlast hb
    have h : Spells names (".".intercalate names) := ⟨hdot, hlast, 0, by simp [dots]⟩
    have hs := Segments.ofString_eq_names_iff.2 ⟨ne_empty_of_spells hne h, hb, h⟩
    exact ofString_eq_ok_iff.2 ⟨rfl, hs⟩

/-- Empty names in front and in between count, and brackets in the wrong order stand for
themselves. -/
theorem Expression.names_spelled_brackets :
    let names := ["", "a]", "", "[b"]
    Expression.ofString ".a]..[b.." = .ok ⟨".a]..[b..", .names names⟩ ∧
      (∀ ns, Spells ns ".a]..[b.." ↔ ns = names) ∧
      names ≠ [] ∧ (∀ n ∈ names, '.' ∉ n.toList) ∧ (∀ n ∈ names.getLast?, n ≠ "") ∧
      ".".intercalate names = ".a]..[b" ∧ ¬ Bracketed ".a]..[b".toList ∧
      Expression.ofString ".a]..[b" = .ok ⟨".a]..[b", .names names⟩ := by
  intro names
  have hread : Expression.ofString ".a]..[b.." = .ok ⟨".a]..[b..", .names names⟩ := rfl
  have hdot : ∀ n ∈ names, '.' ∉ n.toList := by decide
  have hlast : ∀ n ∈ names.getLast?, n ≠ "" := by decide
  have hjoin : ".".intercalate names = ".a]..[b" := by decide
  have hb : ¬ Bracketed ".a]..[b".toList := bodies_eq_nil_iff.1 rfl
  have hback := Expression.names_spelled.2 names (by decide) hdot hlast (hjoin ▸ hb)
  rw [hjoin] at hback
  exact ⟨hread, Expression.names_spelled.1 _ _ names hread rfl, by decide, hdot, hlast, hjoin, hb,
    hback⟩

end MemberPath
