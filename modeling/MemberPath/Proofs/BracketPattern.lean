import MemberPath.Proofs.BracketScan

/-!
# Brackets as a pattern

The notation of bracketed segments is the pattern `\[(.*?(?:\[\])?)\]`. `Pattern.tries` are the ways
to match a pattern at the front of a text, in the order in which a backtracking search comes to
them; the search takes the first. `bodies_eq_groups`: the scan finds what the search finds.
-/

namespace MemberPath

/-- Patterns of texts. -/
inductive Pattern
  | one (holds : Char → Bool)
  | seq (p q : Pattern)
  /-- The pattern or nothing, in this order. -/
  | optional (p : Pattern)
  /-- The pattern any number of times, the fewest first. -/
  | lazyStar (p : Pattern)
  /-- What the pattern takes is the text of the group. -/
  | group (p : Pattern)

namespace Pattern

/-- A way to match a pattern at the front of a text. -/
structure Match where
  taken : List Char
  group : Option (List Char)
  rest : List Char

namespace Match

def empty (s : List Char) : Match := ⟨[], none, s⟩

/-- A match and another one behind it; of two groups the later one counts. -/
def andThen (m n : Match) : Match := ⟨m.taken ++ n.taken, n.group.or m.group, n.rest⟩

end Match

/-- At most `n` rounds of a step, the fewest first. -/
def lazily (step : List Char → List Match) : Nat → List Char → List Match
  | 0, s => [.empty s]
  | n + 1, s => .empty s :: (step s).flatMap fun m => (lazily step n m.rest).map m.andThen

/-- The ways to match a pattern at the front of a text, the preferred ones first. A round that takes
something shortens the text, so its length bounds the rounds of a repetition. -/
def tries : Pattern → List Char → List Match
  | .one _, [] => []
  | .one holds, c :: s => if holds c then [⟨[c], none, s⟩] else []
  | .seq p q, s => (p.tries s).flatMap fun m => (q.tries m.rest).map m.andThen
  | .optional p, s => p.tries s ++ [.empty s]
  | .lazyStar p, s => lazily p.tries s.length s
  | .group p, s => (p.tries s).map fun m => { m with group := some m.taken }

/-- The successive matches in a text behind its first `skip` characters: each begins where the
pattern matches first, is the preferred one there, and the search goes on right behind it. -/
def findFrom (p : Pattern) : Nat → List Char → List Match
  | _, [] => []
  | skip + 1, _ :: s => p.findFrom skip s
  | 0, c :: s =>
    match (p.tries (c :: s)).head? with
    | none => p.findFrom 0 s
    | some m => m :: p.findFrom (m.taken.length - 1) s

def findAll (p : Pattern) (s : List Char) : List Match := p.findFrom 0 s

theorem findFrom_append (p : Pattern) (front s : List Char) :
    p.findFrom front.length (front ++ s) = p.findAll s := by
  induction front with
  | nil => rfl
  | cons c front ih => exact ih

theorem findAll_cons_of_none {p : Pattern} {c : Char} {s : List Char}
    (h : (p.tries (c :: s)).head? = none) : p.findAll (c :: s) = p.findAll s := by
  simp only [findAll, findFrom, h]

theorem findAll_cons_of_some {p : Pattern} {c : Char} {front s : List Char} {m : Match}
    (h : (p.tries (c :: (front ++ s))).head? = some m) (hm : m.taken = c :: front) :
    p.findAll (c :: (front ++ s)) = m :: p.findAll s := by
  have hl : m.taken.length - 1 = front.length := by rw [hm]; simp
  simp only [findAll, findFrom, h, hl]
  rw [findFrom_append]
  rfl

/-! ### The pattern of a segment -/

def just (c : Char) : Pattern := .one (· == c)

/-- Any character that does not end a line. -/
def dot : Pattern := .one fun c => c ∉ ['\n', '\r', '\u0085', '\u2028', '\u2029']

def marker : Pattern := .optional (.seq (just '[') (just ']'))

def body : Pattern := .seq (.lazyStar dot) marker

/-- A bracketed segment, `\[(.*?(?:\[\])?)\]`. -/
def segment : Pattern := .seq (just '[') (.seq (.group body) (just ']'))

namespace Match

theorem empty_andThen (s : List Char) (m : Match) : (empty s).andThen m = m := by
  simp [empty, andThen]

theorem andThen_assoc (k m n : Match) : (k.andThen m).andThen n = k.andThen (m.andThen n) := by
  simp [andThen, Option.or_assoc]

/-- The body that a match has taken and the text behind the `]` that closes it, if one is next. -/
def closed? (m : Match) : Option (List Char × List Char) :=
  match m.rest with
  | [] => none
  | c :: rest => if c = ']' then some (m.taken, rest) else none

theorem closed?_andThen (c : Char) (s : List Char) (m : Match) :
    ((⟨[c], none, s⟩ : Match).andThen m).closed? =
      m.closed?.map fun (taken, rest) => (c :: taken, rest) := by
  obtain ⟨taken, group, rest⟩ := m
  cases rest with
  | nil => rfl
  | cons d rest => by_cases hd : d = ']' <;> simp [closed?, andThen, hd]

end Match

theorem tries_seq (p q : Pattern) (s : List Char) :
    (seq p q).tries s = (p.tries s).flatMap fun m => (q.tries m.rest).map m.andThen := rfl

theorem tries_dot_cons (c : Char) (s : List Char) :
    dot.tries (c :: s) = if isLineBreak c then [] else [⟨[c], none, s⟩] := by
  by_cases hc : isLineBreak c = true
  · have hm := isLineBreak_iff.1 hc
    simp only [dot, tries, hc, hm, not_true_eq_false, decide_false, Bool.false_eq_true, if_false,
      if_true]
  · have hm := mt isLineBreak_iff.2 hc
    simp only [dot, tries, hc, hm, not_false_eq_true, decide_true, if_true, Bool.false_eq_true,
      if_false]

theorem tries_just_cons (c d : Char) (s : List Char) :
    (just c).tries (d :: s) = if d = c then [⟨[d], none, s⟩] else [] := by
  simp [just, tries]

theorem tries_lazyStar_dot_cons (c : Char) (s : List Char) :
    (lazyStar dot).tries (c :: s) = .empty (c :: s) :: if isLineBreak c then [] else
      ((lazyStar dot).tries s).map (Match.andThen ⟨[c], none, s⟩) := by
  show lazily dot.tries (s.length + 1) (c :: s) = _
  rw [lazily, tries_dot_cons]
  split
  · rfl
  · rw [List.flatMap_singleton]; rfl

/-- The shortest body comes first, then the bodies that take one more character of the line. -/
theorem tries_body_cons (c : Char) (s : List Char) :
    body.tries (c :: s) = marker.tries (c :: s) ++
      if isLineBreak c then [] else (body.tries s).map (Match.andThen ⟨[c], none, s⟩) := by
  have hempty : (marker.tries (c :: s)).map (Match.empty (c :: s)).andThen =
      marker.tries (c :: s) := by
    simp [funext (Match.empty_andThen (c :: s))]
  have htail (m : Match) : (marker.tries m.rest).map ((⟨[c], none, s⟩ : Match).andThen m).andThen =
      ((marker.tries m.rest).map m.andThen).map (Match.andThen ⟨[c], none, s⟩) := by
    rw [List.map_map]
    exact congrArg (List.map · _) (funext (Match.andThen_assoc _ m))
  rw [body, tries_seq, tries_seq, tries_lazyStar_dot_cons, List.flatMap_cons]
  congr 1
  split
  · rfl
  · rw [List.flatMap_map, List.map_flatMap]
    exact congrArg (List.flatMap · _) (funext htail)

theorem findSome?_tries_marker (c : Char) (s : List Char) :
    (marker.tries (c :: s)).findSome? Match.closed? =
      if ['[', ']', ']'].isPrefixOf (c :: s) then some (['[', ']'], s.drop 2)
      else if c = ']' then some ([], s) else none := by
  have htries : marker.tries (c :: s) = (if c = '[' then
      ((just ']').tries s).map (Match.andThen ⟨[c], none, s⟩) else []) ++ [.empty (c :: s)] := by
    show ((just '[').tries (c :: s)).flatMap _ ++ _ = _
    rw [tries_just_cons]
    by_cases hc : c = '[' <;> simp [hc]
  rw [htries, List.findSome?_append]
  by_cases hc : c = '['
  · subst hc
    match s with
    | [] => rfl
    | [d] =>
      by_cases hd : d = ']'
      · subst hd; rfl
      · simp [tries_just_cons, hd, Match.empty, Match.closed?, List.isPrefixOf]
    | d :: d' :: s =>
      by_cases hd : d = ']'
      · by_cases hd' : d' = ']'
        · subst hd hd'; rfl
        · subst hd
          simp [tries_just_cons, Match.empty, Match.andThen, Match.closed?, List.isPrefixOf, hd',
            Ne.symm hd']
      · simp [tries_just_cons, hd, Match.empty, Match.closed?, List.isPrefixOf, Ne.symm hd]
  · simp [hc, Match.empty, Match.closed?, List.isPrefixOf, Ne.symm hc]

/-- The first body behind which a `]` is next is the one that the scan finds. -/
theorem findSome?_tries_body (s : List Char) :
    (body.tries s).findSome? Match.closed? = Bracket.splitClose? s := by
  induction s with
  | nil => rfl
  | cons c s ih =>
    rw [tries_body_cons, List.findSome?_append, findSome?_tries_marker, Bracket.splitClose?]
    -- with no more of the line taken a marker is tried before the bare bracket, as in the scan
    split
    · rfl
    split
    · rfl
    split
    · rfl
    · rw [Option.none_or, List.findSome?_map, ← ih, List.map_findSome?]
      exact congrArg (List.findSome? · _) (funext (Match.closed?_andThen c s))

theorem head?_tries_close (m : Match) :
    (((just ']').tries m.rest).map (Match.andThen ⟨m.taken, some m.taken, m.rest⟩)).head? =
      m.closed?.map fun (taken, rest) => ⟨taken ++ [']'], some taken, rest⟩ := by
  obtain ⟨taken, group, rest⟩ := m
  cases rest with
  | nil => rfl
  | cons c rest =>
    by_cases hc : c = ']' <;> simp [tries_just_cons, Match.closed?, Match.andThen, hc]

theorem head?_tries_segment (s : List Char) :
    (segment.tries ('[' :: s)).head? = (Bracket.splitClose? s).map fun (body, rest) =>
      ⟨'[' :: (body ++ [']']), some body, rest⟩ := by
  have hopen : segment.tries ('[' :: s) =
      ((seq (group body) (just ']')).tries s).map (Match.andThen ⟨['['], none, s⟩) := by
    rw [segment, tries_seq, tries_just_cons, if_pos rfl, List.flatMap_singleton]
  have hgroup : (group body).tries s =
      (body.tries s).map fun m => ⟨m.taken, some m.taken, m.rest⟩ := rfl
  rw [hopen, List.head?_map, tries_seq, hgroup, List.flatMap_map, List.head?_flatMap,
    funext head?_tries_close, ← findSome?_tries_body, List.map_findSome?, List.map_findSome?]
  congr 1
  funext m
  show ((m.closed?.map _).map _) = _
  rw [Option.map_map]
  rfl

theorem tries_segment_of_ne {c : Char} (h : c ≠ '[') (s : List Char) :
    segment.tries (c :: s) = [] := by
  simp [segment, tries, tries_just_cons, h]

end Pattern

/-- The bodies of the bracketed segments are what the groups of the successive matches take. -/
theorem Bracket.bodies_eq_groups (text : List Char) :
    (bodies text).map some = (Pattern.segment.findAll text).map (·.group) := by
  -- a search does not look into a match, so the induction goes along the scan
  induction text using scan_induction with
  | nil => rfl
  | skip c s hc ih =>
    have h : (Pattern.segment.tries (c :: s)).head? = none := by
      rw [Pattern.tries_segment_of_ne hc]; rfl
    rw [bodies_cons_of_ne hc, Pattern.findAll_cons_of_none h, ih]
  | unclosed s hs ih =>
    have h : (Pattern.segment.tries ('[' :: s)).head? = none := by
      rw [Pattern.head?_tries_segment, hs]; rfl
    rw [bodies_open_of_none hs, Pattern.findAll_cons_of_none h, ih]
  | closed s body rest hs ih =>
    have hm := Pattern.head?_tries_segment s
    rw [hs, eq_of_splitClose? hs, List.append_cons] at hm
    rw [bodies_open_of_some hs, eq_of_splitClose? hs, List.append_cons,
      Pattern.findAll_cons_of_some hm rfl, List.map_cons, List.map_cons, ih]

example : (Pattern.segment.findAll "[a[b].[ c[]]".toList).map (·.group) =
    [some "a[b".toList, some " c[]".toList] := by decide

end MemberPath
