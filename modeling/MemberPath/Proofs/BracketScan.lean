import MemberPath.Path.Bracket

/-!
# One scan for bracketed segments

The scan works with byte offsets. `closeFrom_eq` and the equations of `bodies` say the same without
them: a text that begins with `[` goes on with a body, a `]` and the rest (`splitClose?`), or the
opening is skipped. `body_of_splitClose?` and `splitClose?_append` say which texts are bodies,
`bodies_eq_nil_iff` which texts have none, and `bodies_append` that text without brackets does not
matter.
-/

namespace MemberPath.Bracket

/-- Splits a text in front of the `]` that closes the segment it begins in: the body, and what
stands behind the bracket. -/
def splitClose? : List Char → Option (List Char × List Char)
  | [] => none
  | c :: s =>
    if ['[', ']', ']'].isPrefixOf (c :: s) then some (['[', ']'], s.drop 2)
    else if c = ']' then some ([], s)
    else if isLineBreak c then none
    else (splitClose? s).map fun (body, rest) => (c :: body, rest)

theorem closeFrom_eq (pos : Nat) (s : List Char) :
    closeFrom pos s = (splitClose? s).map fun (body, _) =>
      ⟨pos + byteLength body, pos + byteLength body + 1⟩ := by
  induction s generalizing pos with
  | nil => rfl
  | cons c s ih =>
    rw [closeFrom, splitClose?]
    split
    · rfl
    split
    · rfl
    split
    · rfl
    · rw [ih, Option.map_map]
      congr 1
      funext ⟨body, rest⟩
      simp [Nat.add_assoc]

theorem eq_of_splitClose? {s body rest : List Char} (h : splitClose? s = some (body, rest)) :
    s = body ++ ']' :: rest := by
  induction s generalizing body with
  | nil => cases h
  | cons c s ih =>
    rw [splitClose?] at h
    split at h
    · rename_i hp
      obtain ⟨t, ht⟩ := List.isPrefixOf_iff_prefix.1 hp
      cases h
      cases ht
      rfl
    split at h
    · rename_i hc
      cases h
      rw [hc]; rfl
    split at h
    · cases h
    · obtain ⟨⟨body', rest'⟩, hs, he⟩ := Option.map_eq_some_iff.1 h
      cases he
      rw [ih hs]; rfl

/-! ### Moving a scan -/

def Close.shift (n : Nat) (k : Close) : Close := ⟨n + k.bodyEnd, n + k.next⟩

def Attempt.shift (n : Nat) (a : Attempt) : Attempt := ⟨n + a.opening, a.close.map (·.shift n)⟩

@[simp] theorem Attempt.shift_zero (a : Attempt) : a.shift 0 = a := by
  obtain ⟨opening, close⟩ := a
  cases close <;> simp [Attempt.shift, Close.shift]

theorem Attempt.shift_shift (m n : Nat) (a : Attempt) :
    (a.shift n).shift m = a.shift (m + n) := by
  obtain ⟨opening, close⟩ := a
  cases close <;> simp [Attempt.shift, Close.shift, Nat.add_assoc]

theorem closeFrom_add (n pos : Nat) (s : List Char) :
    closeFrom (n + pos) s = (closeFrom pos s).map (·.shift n) := by
  rw [closeFrom_eq, closeFrom_eq, Option.map_map]
  congr 1
  funext ⟨body, rest⟩
  simp [Close.shift, Nat.add_assoc]

theorem attemptsFrom_add (n resume pos : Nat) (s : List Char) :
    attemptsFrom (n + resume) (n + pos) s = (attemptsFrom resume pos s).map (·.shift n) := by
  induction s generalizing resume pos with
  | nil => rfl
  | cons c s ih =>
    have hlt : n + pos < n + resume ↔ pos < resume := by omega
    simp only [attemptsFrom, hlt, Nat.add_assoc n pos]
    split
    · exact ih ..
    · rw [closeFrom_add]
      cases closeFrom (pos + 1) s with
      | none => simp only [Option.map_none, List.map_cons, ih]; rfl
      | some k =>
        show _ :: attemptsFrom (n + k.next) _ s = _
        rw [ih]; rfl

theorem body?_shift (p s : List Char) (a : Attempt) :
    (a.shift (byteLength p)).body? (p ++ s) = a.body? s := by
  obtain ⟨opening, close⟩ := a
  cases close with
  | none => rfl
  | some k => exact slice?_append p s (opening + 1) k.bodyEnd

/-- The openings in front of `resume` are passed over. -/
theorem attemptsFrom_skip (pos : Nat) (p s : List Char) :
    attemptsFrom (pos + byteLength p) pos (p ++ s) =
      attemptsFrom (pos + byteLength p) (pos + byteLength p) s := by
  induction p generalizing pos with
  | nil => rfl
  | cons c p ih =>
    have hc := c.utf8Size_pos
    have h := ih (pos + c.utf8Size)
    rw [Nat.add_assoc] at h
    rw [List.cons_append, attemptsFrom, if_pos (by rw [byteLength_cons]; omega), byteLength_cons, h]

theorem attemptsFrom_of_le {resume resume' pos : Nat} (h : resume ≤ pos) (h' : resume' ≤ pos)
    (s : List Char) : attemptsFrom resume pos s = attemptsFrom resume' pos s := by
  induction s generalizing pos with
  | nil => rfl
  | cons c s ih =>
    simp only [attemptsFrom, Nat.not_lt.2 h, Nat.not_lt.2 h', false_or,
      ih (Nat.le_add_right_of_le h) (Nat.le_add_right_of_le h')]

theorem attemptsFrom_self (n : Nat) (s : List Char) :
    attemptsFrom n n s = (attempts s).map (·.shift n) :=
  attemptsFrom_add n 0 0 s

/-! ### The attempts and the bodies of a text -/

theorem attempts_cons_of_ne {c : Char} (h : c ≠ '[') (s : List Char) :
    attempts (c :: s) = (attempts s).map (·.shift c.utf8Size) := by
  rw [← attemptsFrom_self, attempts, attemptsFrom, if_pos (.inr h), Nat.zero_add]
  exact attemptsFrom_of_le (Nat.zero_le _) (Nat.le_refl _) s

theorem attempts_open_of_none {s : List Char} (h : splitClose? s = none) :
    attempts ('[' :: s) = ⟨0, none⟩ :: (attempts s).map (·.shift 1) := by
  rw [← attemptsFrom_self, attempts, attemptsFrom, if_neg (by simp), closeFrom_eq, h]
  rfl

theorem attempts_open_of_some {s body rest : List Char} (h : splitClose? s = some (body, rest)) :
    attempts ('[' :: s) = ⟨0, some ⟨1 + byteLength body, 1 + byteLength body + 1⟩⟩ ::
      (attempts rest).map (·.shift (1 + byteLength body + 1)) := by
  have hs : s = (body ++ [']']) ++ rest := by rw [eq_of_splitClose? h]; simp
  have hskip := attemptsFrom_skip 1 (body ++ [']']) rest
  rw [byteLength_append, ← Nat.add_assoc, ← hs] at hskip
  rw [attempts, attemptsFrom, if_neg (by simp), closeFrom_eq, h, ← attemptsFrom_self]
  exact congrArg _ hskip

theorem bodies_nil : bodies [] = [] := rfl

theorem filterMap_body?_shift (p s : List Char) :
    ((attempts s).map (·.shift (byteLength p))).filterMap (·.body? (p ++ s)) = bodies s := by
  rw [List.filterMap_map, bodies]
  congr 1
  funext a
  exact body?_shift p s a

theorem bodies_cons_of_ne {c : Char} (h : c ≠ '[') (s : List Char) :
    bodies (c :: s) = bodies s := by
  rw [bodies, attempts_cons_of_ne h]
  exact filterMap_body?_shift [c] s

theorem bodies_open_of_none {s : List Char} (h : splitClose? s = none) :
    bodies ('[' :: s) = bodies s := by
  rw [bodies, attempts_open_of_none h]
  exact filterMap_body?_shift ['['] s

/-- An opening with a close gives a body, and the scan goes on behind the close. -/
theorem bodies_open_of_some {s body rest : List Char} (h : splitClose? s = some (body, rest)) :
    bodies ('[' :: s) = body :: bodies rest := by
  have hb : Attempt.body? ('[' :: s) ⟨0, some ⟨1 + byteLength body, 1 + byteLength body + 1⟩⟩ =
      some body := by
    rw [eq_of_splitClose? h]
    exact slice?_byteLength ['['] body (']' :: rest)
  have hs : '[' :: s = ('[' :: body ++ [']']) ++ rest := by rw [eq_of_splitClose? h]; simp
  have hr := filterMap_body?_shift ('[' :: body ++ [']']) rest
  rw [← hs] at hr
  have hl : byteLength ('[' :: body ++ [']']) = 1 + byteLength body + 1 := by
    rw [byteLength_append]; rfl
  rw [bodies, attempts_open_of_some h, List.filterMap_cons, hb, ← hl, hr]

theorem scan_induction {P : List Char → Prop} (nil : P [])
    (skip : ∀ c s, c ≠ '[' → P s → P (c :: s))
    (unclosed : ∀ s, splitClose? s = none → P s → P ('[' :: s))
    (closed : ∀ s body rest, splitClose? s = some (body, rest) → P rest → P ('[' :: s))
    (text : List Char) : P text := by
  induction hn : text.length using Nat.strongRecOn generalizing text with
  | ind n ih =>
    subst hn
    cases text with
    | nil => exact nil
    | cons c s =>
      by_cases hc : c = '['
      · subst hc
        cases hs : splitClose? s with
        | none => exact unclosed s hs (ih s.length (by simp) s rfl)
        | some p =>
          obtain ⟨body, rest⟩ := p
          have hlt : rest.length < ('[' :: s).length := by
            rw [eq_of_splitClose? hs]; simp; omega
          exact closed s body rest hs (ih rest.length hlt rest rfl)
      · exact skip c s hc (ih s.length (by simp) s rfl)

/-! ### Where a segment closes -/

/-- The characters that mark an array. -/
def marker (isArray : Bool) : List Char := if isArray then ['[', ']'] else []

/-- The body of a segment is on one line, and holds no `]` but that of a marker at its end. -/
theorem body_of_splitClose? {s body rest : List Char} (h : splitClose? s = some (body, rest)) :
    ∃ inner isArray, body = inner ++ marker isArray ∧ ']' ∉ inner ∧
      ∀ c ∈ inner, isLineBreak c = false := by
  induction s generalizing body with
  | nil => cases h
  | cons c s ih =>
    rw [splitClose?] at h
    split at h
    · cases h
      exact ⟨[], true, rfl, by simp, by simp⟩
    split at h
    · cases h
      exact ⟨[], false, rfl, by simp, by simp⟩
    split at h
    · cases h
    · rename_i hc hl
      obtain ⟨⟨body', rest'⟩, hs, he⟩ := Option.map_eq_some_iff.1 h
      cases he
      obtain ⟨inner, isArray, rfl, hi, hb⟩ := ih hs
      refine ⟨c :: inner, isArray, rfl, ?_, ?_⟩
      · simp only [List.mem_cons, not_or]
        exact ⟨fun e => hc e.symm, hi⟩
      · intro d hd
        rcases List.mem_cons.1 hd with rfl | hd
        · exact Bool.eq_false_iff.2 hl
        · exact hb d hd

/-- Such a body is closed by the bracket behind it, unless the text goes on with another one. -/
theorem splitClose?_append {inner rest : List Char} (isArray : Bool) (hi : ']' ∉ inner)
    (hl : ∀ c ∈ inner, isLineBreak c = false) (hr : rest.head? ≠ some ']') :
    splitClose? (inner ++ marker isArray ++ ']' :: rest) =
      some (inner ++ marker isArray, rest) := by
  induction inner with
  | nil => cases isArray <;> rfl
  | cons c inner ih =>
    have hc : c ≠ ']' := fun e => hi (by simp [e])
    have hcl : ¬ isLineBreak c = true := Bool.eq_false_iff.1 (hl c (by simp))
    -- a `[` of the body does not begin a marker that ends the segment
    have hp : ¬ ['[', ']', ']'].isPrefixOf
        (c :: (inner ++ marker isArray ++ ']' :: rest)) = true := by
      rw [List.isPrefixOf_iff_prefix]
      rintro ⟨t, ht⟩
      cases inner with
      | nil =>
        cases isArray with
        | true => simp [marker] at ht
        | false =>
          obtain ⟨-, hd⟩ : '[' = c ∧ ']' :: t = rest := by simpa [marker] using ht
          exact hr (by rw [← hd]; rfl)
      | cons d inner =>
        obtain ⟨-, hd, -⟩ : '[' = c ∧ ']' = d ∧
            ']' :: t = inner ++ (marker isArray ++ ']' :: rest) := by
          simpa using ht
        exact hi (by simp [← hd])
    rw [List.cons_append, List.cons_append, splitClose?, if_neg hp, if_neg hc, if_neg hcl,
      ih (fun h => hi (List.mem_cons_of_mem _ h)) fun d hd => hl d (List.mem_cons_of_mem _ hd)]
    rfl

/-- A text without `[` only moves the attempts behind it. -/
theorem attempts_append_of_notMem {gap : List Char} (h : '[' ∉ gap) (s : List Char) :
    attempts (gap ++ s) = (attempts s).map (·.shift (byteLength gap)) := by
  induction gap with
  | nil => simp
  | cons c gap ih =>
    have hc : c ≠ '[' := fun e => h (by simp [e])
    rw [List.cons_append, attempts_cons_of_ne hc, ih fun hm => h (List.mem_cons_of_mem _ hm),
      List.map_map]
    exact congrArg (List.map · _) (funext (Attempt.shift_shift _ _))

theorem bodies_append_of_notMem {gap : List Char} (h : '[' ∉ gap) (s : List Char) :
    bodies (gap ++ s) = bodies s := by
  induction gap with
  | nil => rfl
  | cons c gap ih =>
    have hc : c ≠ '[' := fun e => h (by simp [e])
    rw [List.cons_append, bodies_cons_of_ne hc, ih fun hm => h (List.mem_cons_of_mem _ hm)]

/-! ### Texts with a segment -/

section Segments
variable {s t text : List Char}

/-- The text goes on with a `]` on the same line. -/
def Closes (s : List Char) : Prop :=
  ∃ q : Nat, s[q]? = some ']' ∧ ∀ i < q, ∀ c, s[i]? = some c → isLineBreak c = false

/-- The text has an opening bracket, and behind it a closing one on the same line. -/
def Bracketed (text : List Char) : Prop :=
  ∃ p q : Nat, p < q ∧ text[p]? = some '[' ∧ text[q]? = some ']' ∧
    ∀ i c, p < i → i < q → text[i]? = some c → c ∉ ['\n', '\r', '\u0085', '\u2028', '\u2029']

theorem not_closes_nil : ¬ Closes [] := by
  rintro ⟨q, hq, -⟩
  simp at hq

theorem closes_cons_iff {c : Char} :
    Closes (c :: s) ↔ c = ']' ∨ isLineBreak c = false ∧ Closes s := by
  constructor
  · rintro ⟨_ | q, hq, hl⟩
    · exact .inl (Option.some.inj hq)
    · exact .inr ⟨hl 0 (Nat.succ_pos q) c rfl, q, hq, fun i hi => hl (i + 1) (Nat.succ_lt_succ hi)⟩
  · rintro (rfl | ⟨hc, q, hq, hl⟩)
    · exact ⟨0, rfl, fun i hi => absurd hi (Nat.not_lt_zero i)⟩
    · refine ⟨q + 1, hq, ?_⟩
      rintro (_ | i) hi d hd
      · cases hd
        exact hc
      · exact hl i (Nat.lt_of_succ_lt_succ hi) d hd

theorem bracketed_cons_iff {c : Char} :
    Bracketed (c :: s) ↔ c = '[' ∧ Closes s ∨ Bracketed s := by
  simp only [Bracketed, Closes, ← isLineBreak_eq_false_iff]
  constructor
  · rintro ⟨_ | p, _ | q, hpq, hp, hq, hl⟩
    · exact absurd hpq (Nat.lt_irrefl 0)
    · refine .inl ⟨Option.some.inj hp, q, hq, fun i hi d hd => ?_⟩
      exact hl (i + 1) d (Nat.succ_pos i) (Nat.succ_lt_succ hi) hd
    · exact absurd hpq (Nat.not_lt_zero _)
    · refine .inr ⟨p, q, Nat.lt_of_succ_lt_succ hpq, hp, hq, fun i d hpi hiq hd => ?_⟩
      exact hl (i + 1) d (Nat.succ_lt_succ hpi) (Nat.succ_lt_succ hiq) hd
  · rintro (⟨rfl, q, hq, hl⟩ | ⟨p, q, hpq, hp, hq, hl⟩)
    · refine ⟨0, q + 1, Nat.succ_pos q, rfl, hq, ?_⟩
      rintro (_ | i) d hpi hiq hd
      · exact absurd hpi (Nat.lt_irrefl 0)
      · exact hl i (Nat.lt_of_succ_lt_succ hiq) d hd
    · refine ⟨p + 1, q + 1, Nat.succ_lt_succ hpq, hp, hq, ?_⟩
      rintro (_ | i) d hpi hiq hd
      · exact absurd hpi (Nat.not_lt_zero _)
      · exact hl i d (Nat.lt_of_succ_lt_succ hpi) (Nat.lt_of_succ_lt_succ hiq) hd

theorem splitClose?_eq_none_iff : splitClose? s = none ↔ ¬ Closes s := by
  induction s with
  | nil => simp [splitClose?, not_closes_nil]
  | cons c s ih =>
    rw [splitClose?, closes_cons_iff]
    split
    · rename_i hp
      obtain ⟨t, ht⟩ := List.isPrefixOf_iff_prefix.1 hp
      cases ht
      simp [closes_cons_iff, isLineBreak]
    split
    · rename_i hc
      simp [hc]
    split
    · rename_i hc hl
      simp [hc, hl]
    · rename_i hc hl
      simp [hc, hl, ih]

/-- A text has a segment iff a bracket that it opens is closed on the same line. -/
theorem bodies_eq_nil_iff : bodies text = [] ↔ ¬ Bracketed text := by
  induction text using scan_induction with
  | nil => simp [bodies_nil, Bracketed]
  | skip c s hc ih => simp [bodies_cons_of_ne hc, bracketed_cons_iff, hc, ih]
  | unclosed s hs ih =>
    simp [bodies_open_of_none hs, bracketed_cons_iff, splitClose?_eq_none_iff.1 hs, ih]
  | closed s body rest hs ih =>
    have hcloses : Closes s :=
      Classical.not_not.1 (mt splitClose?_eq_none_iff.2 (by simp [hs]))
    simp [bodies_open_of_some hs, bracketed_cons_iff, hcloses]

/-- A text without a `]` does not close what is open in front of it. -/
theorem closes_append (ht : ']' ∉ t) : Closes (s ++ t) ↔ Closes s := by
  induction s with
  | nil =>
    refine iff_of_false ?_ not_closes_nil
    rintro ⟨q, hq, -⟩
    exact ht (List.mem_of_getElem? hq)
  | cons c s ih => rw [List.cons_append, closes_cons_iff, closes_cons_iff, ih]

theorem splitClose?_append_of_some {body rest : List Char} (h : splitClose? s = some (body, rest))
    (ht : t.head? ≠ some ']') : splitClose? (s ++ t) = some (body, rest ++ t) := by
  induction s generalizing body with
  | nil => cases h
  | cons c s ih =>
    rw [splitClose?] at h
    rw [List.cons_append, splitClose?]
    split at h
    · rename_i hp
      obtain ⟨r, hr⟩ := List.isPrefixOf_iff_prefix.1 hp
      cases hr
      cases h
      rfl
    rename_i hp
    split at h
    · rename_i hc
      cases h
      rw [if_neg (by simp [hc]), if_pos hc]
    split at h
    · cases h
    · rename_i hc hl
      obtain ⟨⟨body', rest'⟩, hs, he⟩ := Option.map_eq_some_iff.1 h
      cases he
      -- where `s` ends in `[]`, what stands behind it does not make a marker of it
      have hp' : ¬ ['[', ']', ']'].isPrefixOf (c :: (s ++ t)) = true := by
        match s, t, hs with
        | [_], [], _ => exact hp
        | [_], e :: _, _ =>
          have he : e ≠ ']' := fun he => ht (congrArg some he)
          simp [Ne.symm he]
        | _ :: _ :: _, _, _ => simpa using hp
      rw [if_neg hp', if_neg hc, if_neg hl, ih hs]
      rfl

/-- A text without brackets adds no segment to the text in front of it, and takes none away. -/
theorem bodies_append (hopen : '[' ∉ t) (hclose : ']' ∉ t) (s : List Char) :
    bodies (s ++ t) = bodies s := by
  induction s using scan_induction with
  | nil =>
    have h := bodies_append_of_notMem hopen []
    rwa [List.append_nil] at h
  | skip c s hc ih => rw [List.cons_append, bodies_cons_of_ne hc, bodies_cons_of_ne hc, ih]
  | unclosed s hs ih =>
    have hs' : splitClose? (s ++ t) = none := by
      rw [splitClose?_eq_none_iff, closes_append hclose]
      exact splitClose?_eq_none_iff.1 hs
    rw [List.cons_append, bodies_open_of_none hs', bodies_open_of_none hs, ih]
  | closed s body rest hs ih =>
    have ht : t.head? ≠ some ']' := fun h => hclose (List.mem_of_head? h)
    rw [List.cons_append, bodies_open_of_some (splitClose?_append_of_some hs ht),
      bodies_open_of_some hs, ih]

end Segments

end MemberPath.Bracket
