/-!
# Blanks and line breaks

`isBlank` is the Unicode property `White_Space`; `trim` removes blanks from both ends of a text.
`trimmed_trim`: what is left has no blank at either end.
-/

namespace MemberPath

/-- The code points of the Unicode property `White_Space`. -/
def isBlank (c : Char) : Bool :=
  let n := c.toNat
  (0x9 ≤ n && n ≤ 0xD) || n == 0x20 || n == 0x85 || n == 0xA0 || n == 0x1680 ||
    (0x2000 ≤ n && n ≤ 0x200A) || n == 0x2028 || n == 0x2029 || n == 0x202F || n == 0x205F ||
    n == 0x3000

/-- The characters that end a line: line feed, carriage return, next line, and the line and
paragraph separators. -/
def isLineBreak (c : Char) : Bool :=
  let n := c.toNat
  n == 0xA || n == 0xD || n == 0x85 || n == 0x2028 || n == 0x2029

theorem isLineBreak_iff {c : Char} :
    isLineBreak c = true ↔ c ∈ ['\n', '\r', '\u0085', '\u2028', '\u2029'] := by
  simp [isLineBreak, ← Char.toNat_inj, or_assoc]

theorem isLineBreak_eq_false_iff {c : Char} :
    isLineBreak c = false ↔ c ∉ ['\n', '\r', '\u0085', '\u2028', '\u2029'] := by
  rw [← isLineBreak_iff, Bool.not_eq_true]

theorem all_not_isLineBreak_iff {s : List Char} :
    s.all (!isLineBreak ·) = true ↔
      ∀ c ∈ s, c ∉ ['\n', '\r', '\u0085', '\u2028', '\u2029'] := by
  simp only [List.all_eq_true, Bool.not_eq_true', isLineBreak_eq_false_iff]

def trimStart (s : List Char) : List Char :=
  s.dropWhile isBlank

def trimEnd (s : List Char) : List Char :=
  (trimStart s.reverse).reverse

def trim (s : List Char) : List Char :=
  trimEnd (trimStart s)

theorem trimStart_cons_of_not_isBlank {c : Char} (h : isBlank c = false) (s : List Char) :
    trimStart (c :: s) = c :: s := by
  simp [trimStart, h]

theorem trimStart_cons_of_isBlank {c : Char} (h : isBlank c = true) (s : List Char) :
    trimStart (c :: s) = trimStart s := by
  simp [trimStart, h]

/-- Trimming at the front leaves no blank there. -/
theorem not_isBlank_of_trimStart {s t : List Char} {c : Char} (h : trimStart s = c :: t) :
    isBlank c = false := by
  induction s with
  | nil => cases h
  | cons d s ih =>
    cases hd : isBlank d with
    | true => exact ih (trimStart_cons_of_isBlank hd s ▸ h)
    | false =>
      rw [trimStart_cons_of_not_isBlank hd] at h
      cases h
      exact hd

theorem trimStart_suffix (s : List Char) : trimStart s <:+ s :=
  List.dropWhile_suffix isBlank

theorem trimStart_of_head {s : List Char} (h : ∀ c, s.head? = some c → isBlank c = false) :
    trimStart s = s := by
  cases s with
  | nil => rfl
  | cons c s => exact trimStart_cons_of_not_isBlank (h c rfl) s

theorem head_of_trimStart {s : List Char} {c : Char} (h : (trimStart s).head? = some c) :
    isBlank c = false := by
  obtain ⟨t, ht⟩ := List.head?_eq_some_iff.1 h
  exact not_isBlank_of_trimStart ht

theorem trimStart_trimStart (s : List Char) : trimStart (trimStart s) = trimStart s :=
  trimStart_of_head fun _ => head_of_trimStart

/-- Blanks are removed up to the first other character and no further. -/
theorem trimStart_append_cons {c : Char} (h : isBlank c = false) (s t : List Char) :
    trimStart (s ++ c :: t) = trimStart s ++ c :: t := by
  induction s with
  | nil => exact trimStart_cons_of_not_isBlank h t
  | cons d s ih =>
    cases hd : isBlank d with
    | true => rw [List.cons_append, trimStart_cons_of_isBlank hd, trimStart_cons_of_isBlank hd, ih]
    | false => simp only [List.cons_append, trimStart_cons_of_not_isBlank hd]

theorem trimEnd_prefix_self (s : List Char) : trimEnd s <+: s := by
  have h := List.reverse_prefix.2 (trimStart_suffix s.reverse)
  rwa [List.reverse_reverse] at h

theorem trimEnd_concat_of_not_isBlank {c : Char} (h : isBlank c = false) (s : List Char) :
    trimEnd (s ++ [c]) = s ++ [c] := by
  rw [trimEnd, List.reverse_append, List.reverse_singleton, List.singleton_append,
    trimStart_cons_of_not_isBlank h]
  simp

theorem trim_trimStart (s : List Char) : trim (trimStart s) = trim s := by
  rw [trim, trimStart_trimStart, trim]

/-! ### Blanks at the ends -/

section Padding
variable {front back : List Char}

theorem trimStart_append_of_blank (h : ∀ c ∈ front, isBlank c = true) (s : List Char) :
    trimStart (front ++ s) = trimStart s := by
  induction front with
  | nil => rfl
  | cons c front ih =>
    rw [List.cons_append, trimStart_cons_of_isBlank (h c List.mem_cons_self)]
    exact ih fun d hd => h d (List.mem_cons_of_mem c hd)

theorem trimEnd_append_of_blank (h : ∀ c ∈ back, isBlank c = true) (s : List Char) :
    trimEnd (s ++ back) = trimEnd s := by
  have hr : ∀ c ∈ back.reverse, isBlank c = true := fun c hc => h c (List.mem_reverse.1 hc)
  rw [trimEnd, List.reverse_append, trimStart_append_of_blank hr, trimEnd]

theorem trim_append_of_blank (h : ∀ c ∈ back, isBlank c = true) (s : List Char) :
    trim (s ++ back) = trim s := by
  induction s with
  | nil =>
    have hnil := trimStart_append_of_blank h []
    rw [List.append_nil] at hnil
    rw [List.nil_append, trim, hnil, trim]
  | cons c s ih =>
    cases hc : isBlank c with
    | true =>
      rw [trim, trim] at ih
      rw [List.cons_append, trim, trimStart_cons_of_isBlank hc, ih, trim,
        trimStart_cons_of_isBlank hc]
    | false =>
      -- nothing is taken off at the front, so the blanks are at the end of the same text
      rw [trim, List.cons_append, trimStart_cons_of_not_isBlank hc, ← List.cons_append,
        trimEnd_append_of_blank h, trim, trimStart_cons_of_not_isBlank hc]

theorem trim_padded (hf : ∀ c ∈ front, isBlank c = true) (hb : ∀ c ∈ back, isBlank c = true)
    (s : List Char) : trim (front ++ s ++ back) = trim s := by
  rw [trim_append_of_blank hb, trim, trimStart_append_of_blank hf, trim]

end Padding

theorem mem_of_mem_trim {s : List Char} {c : Char} (h : c ∈ trim s) : c ∈ s :=
  (trimStart_suffix s).mem ((trimEnd_prefix_self _).mem h)

/-- The text has no blank at either end. -/
structure Trimmed (s : List Char) : Prop where
  head : ∀ c ∈ s.head?, isBlank c = false
  last : ∀ c ∈ s.getLast?, isBlank c = false

instance (s : List Char) : Decidable (Trimmed s) :=
  decidable_of_iff (s.head?.all (!isBlank ·) = true ∧ s.getLast?.all (!isBlank ·) = true)
    ⟨fun h => ⟨by simpa [Option.all_eq_true] using h.1, by simpa [Option.all_eq_true] using h.2⟩,
      fun h => ⟨by simpa [Option.all_eq_true] using h.head,
        by simpa [Option.all_eq_true] using h.last⟩⟩

theorem trimmed_trim (s : List Char) : Trimmed (trim s) := by
  refine ⟨fun c hc => ?_, fun c hc => ?_⟩
  · obtain ⟨t, ht⟩ : trim s <+: trimStart s := trimEnd_prefix_self _
    have hh : (trimStart s).head? = some c := by rw [← ht, List.head?_append, hc]; rfl
    exact head_of_trimStart hh
  · rw [trim, trimEnd, List.getLast?_reverse] at hc
    exact head_of_trimStart hc

theorem trim_of_trimmed {s : List Char} (h : Trimmed s) : trim s = s := by
  have hlast : ∀ c, s.reverse.head? = some c → isBlank c = false := fun c hc =>
    h.last c (by rwa [List.head?_reverse] at hc)
  rw [trim, trimStart_of_head h.head, trimEnd, trimStart_of_head hlast, List.reverse_reverse]

end MemberPath
