/-!
# Slices of a text by byte offset

A text is a list of characters; an offset counts the bytes that its UTF-8 form has in front.
`slice?` answers only for offsets that fall between two characters, so an answer certifies that
both ends are character boundaries inside the text.
-/

namespace MemberPath

/-- The number of bytes of a text in UTF-8. -/
def byteLength : List Char → Nat
  | [] => 0
  | c :: s => c.utf8Size + byteLength s

@[simp] theorem byteLength_nil : byteLength [] = 0 := rfl

@[simp] theorem byteLength_cons (c : Char) (s : List Char) :
    byteLength (c :: s) = c.utf8Size + byteLength s := rfl

@[simp] theorem byteLength_append (s t : List Char) :
    byteLength (s ++ t) = byteLength s + byteLength t := by
  induction s with
  | nil => simp
  | cons c s ih => simp [ih, Nat.add_assoc]

/-- Cuts a text at a byte offset; nothing if the offset is inside a character or past the end. -/
def cutAt? : List Char → Nat → Option (List Char × List Char)
  | s, 0 => some ([], s)
  | [], _ + 1 => none
  | c :: s, n + 1 =>
    if n + 1 < c.utf8Size then none
    else (cutAt? s (n + 1 - c.utf8Size)).map fun p => (c :: p.1, p.2)

/-- The part from byte `a` up to byte `b`; nothing unless `a ≤ b` and both are boundaries. -/
def slice? (s : List Char) (a b : Nat) : Option (List Char) :=
  if a ≤ b then do
    let (_, rest) ← cutAt? s a
    let (part, _) ← cutAt? rest (b - a)
    return part
  else none

/-- The part from byte `a` on; nothing unless `a` is a boundary. -/
def suffix? (s : List Char) (a : Nat) : Option (List Char) :=
  (cutAt? s a).map (·.2)

/-- Offset `n` lies between two characters of `s`, or at one of its ends. -/
def IsBoundary (s : List Char) (n : Nat) : Prop :=
  ∃ p q, s = p ++ q ∧ byteLength p = n

theorem isBoundary_byteLength (p q : List Char) : IsBoundary (p ++ q) (byteLength p) :=
  ⟨p, q, rfl, rfl⟩

theorem IsBoundary.le {s : List Char} {n : Nat} (h : IsBoundary s n) : n ≤ byteLength s := by
  obtain ⟨p, q, rfl, rfl⟩ := h
  rw [byteLength_append]
  exact Nat.le_add_right _ _

theorem cutAt?_zero (s : List Char) : cutAt? s 0 = some ([], s) := by
  cases s <;> rfl

/-- A text can be cut behind any of its front parts. -/
theorem cutAt?_byteLength (p q : List Char) : cutAt? (p ++ q) (byteLength p) = some (p, q) := by
  induction p with
  | nil => exact cutAt?_zero q
  | cons c p ih =>
    obtain ⟨n, hn⟩ : ∃ n, c.utf8Size + byteLength p = n + 1 :=
      ⟨c.utf8Size + byteLength p - 1, by have := c.utf8Size_pos; omega⟩
    rw [byteLength_cons, hn, List.cons_append, cutAt?, if_neg (by omega),
      show n + 1 - c.utf8Size = byteLength p by omega, ih]
    rfl

/-- A cut loses nothing and falls where it was asked for. -/
theorem eq_append_of_cutAt? {s p q : List Char} {n : Nat} (h : cutAt? s n = some (p, q)) :
    s = p ++ q ∧ byteLength p = n := by
  induction s generalizing n p with
  | nil =>
    cases n with
    | zero =>
      cases h
      exact ⟨rfl, rfl⟩
    | succ n => cases h
  | cons c s ih =>
    cases n with
    | zero =>
      cases h
      exact ⟨rfl, rfl⟩
    | succ n =>
      rw [cutAt?] at h
      split at h
      · cases h
      · obtain ⟨⟨p', q'⟩, hr, he⟩ := Option.map_eq_some_iff.1 h
        cases he
        obtain ⟨rfl, hn⟩ := ih hr
        refine ⟨rfl, ?_⟩
        rw [byteLength_cons]
        show c.utf8Size + byteLength p' = n + 1
        omega

theorem suffix?_byteLength (p q : List Char) : suffix? (p ++ q) (byteLength p) = some q := by
  rw [suffix?, cutAt?_byteLength]
  rfl

theorem cutAt?_append (p s : List Char) (n : Nat) :
    cutAt? (p ++ s) (byteLength p + n) = (cutAt? s n).map fun q => (p ++ q.1, q.2) := by
  induction p with
  | nil => simp
  | cons c p ih =>
    have hc := c.utf8Size_pos
    obtain ⟨k, hk⟩ : ∃ k, byteLength (c :: p) + n = k + 1 :=
      ⟨byteLength (c :: p) + n - 1, by rw [byteLength_cons]; omega⟩
    have hlt : ¬ k + 1 < c.utf8Size := by rw [← hk, byteLength_cons]; omega
    have hsub : k + 1 - c.utf8Size = byteLength p + n := by rw [← hk, byteLength_cons]; omega
    rw [hk, List.cons_append, cutAt?, if_neg hlt, hsub, ih, Option.map_map]
    rfl

/-- Offsets behind a front part are the offsets without it, moved by its length. -/
theorem slice?_append (p s : List Char) (a b : Nat) :
    slice? (p ++ s) (byteLength p + a) (byteLength p + b) = slice? s a b := by
  have hsub : byteLength p + b - (byteLength p + a) = b - a := by omega
  by_cases h : a ≤ b
  · simp only [slice?, cutAt?_append, hsub, if_pos h, Nat.add_le_add_iff_left]
    cases cutAt? s a <;> rfl
  · simp only [slice?, Nat.add_le_add_iff_left, if_neg h]

theorem slice?_byteLength (p q s : List Char) :
    slice? (p ++ q ++ s) (byteLength p) (byteLength p + byteLength q) = some q := by
  have h := slice?_append p (q ++ s) 0 (byteLength q)
  rw [Nat.add_zero, ← List.append_assoc] at h
  rw [h, slice?, if_pos (Nat.zero_le _)]
  simp [cutAt?_zero, cutAt?_byteLength]

end MemberPath
