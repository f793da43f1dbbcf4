import Mathlib.Data.List.Basic
import MemberPath.Proofs.BracketScan

/-!
# The bracket scan as a loop

A round of the loop looks for the next `[` from a byte offset on, looks for its close, and slices
the body out of the text; a slice is refused where an end of it is not a boundary. `Runs` are the
runs in which no slice is refused and which come to an end. `scans_safely`: every text has one,
with a round for every attempt of the scan.
-/

namespace MemberPath.Bracket

/-- The offset of the first `c` in a text. -/
def offsetOf? (c : Char) : List Char → Option Nat
  | [] => none
  | d :: s => if d = c then some 0 else (offsetOf? c s).map (d.utf8Size + ·)

/-- The characters of a text that starts at byte `pos`, each with its offset. -/
def charsFrom (pos : Nat) : List Char → List (Nat × Char)
  | [] => []
  | c :: s => (pos, c) :: charsFrom (pos + c.utf8Size) s

/-- Looks at characters of `rest` one after the other; `rest` starts at byte `start` of a text. -/
def closeAmong (start : Nat) (rest : List Char) : List (Nat × Char) → Option (Option Close)
  | [] => return none
  | (index, c) :: cs => do
    let ahead ← suffix? rest index
    if ['[', ']', ']'].isPrefixOf ahead then
      return some ⟨start + index + 2, start + index + 3⟩
    else if c = ']' then return some ⟨start + index, start + index + 1⟩
    else if isLineBreak c then return none
    else closeAmong start rest cs

/-- The close of the segment whose body starts at byte `start`. -/
def closeAt (text : List Char) (start : Nat) : Option (Option Close) := do
  let rest ← suffix? text start
  closeAmong start rest (charsFrom 0 rest)

/-- Where the scan goes on behind an attempt. -/
def Attempt.resume (a : Attempt) : Nat := a.close.elim (a.opening + 1) Close.next

/-- An attempt, with the offset that it was looked for from and the text that it gives. -/
structure Round extends Attempt where
  start : Nat
  body : Option (List Char)

/-- A round from byte `start` on. There is none if no `[` is left. -/
def round (text : List Char) (start : Nat) : Option (Option Round) := do
  let rest ← suffix? text start
  match offsetOf? '[' rest with
  | none => return none
  | some offset =>
    let opening := start + offset
    let close ← closeAt text (opening + 1)
    let body ← close.mapM fun k => slice? text (opening + 1) k.bodyEnd
    return some { opening, close, start, body }

/-- The loop ends after the rounds `rs` if it begins at byte `start`. -/
inductive Runs (text : List Char) : Nat → List Round → Prop
  | stop {start : Nat} (h : round text start = some none) : Runs text start []
  | step {start : Nat} {r : Round} {rs : List Round} (h : round text start = some (some r))
      (rest : Runs text r.resume rs) : Runs text start (r :: rs)

namespace Round

/-- The offsets at which a round and the one behind it slice. -/
def cuts (r : Round) : List Nat :=
  match r.close with
  | none => [r.start, r.opening + 1]
  | some k => [r.start, r.opening + 1, k.bodyEnd, k.next]

/-- Where the body of a round stands in the text. -/
def span? (r : Round) : Option (Nat × Nat) :=
  r.close.map fun k => (r.opening + 1, k.bodyEnd)

/-- The offsets of a round lie on boundaries of the text, and it moves past its bracket. -/
structure Safe (text : List Char) (r : Round) : Prop where
  boundary : ∀ n ∈ r.cuts, IsBoundary text n ∧ n ≤ byteLength text
  bracket : ∃ p s, text = p ++ '[' :: s ∧ byteLength p = r.opening
  start_le : r.start ≤ r.opening
  past : r.opening < r.resume
  ordered : ∀ k, r.close = some k →
    r.opening + 1 ≤ k.bodyEnd ∧ k.bodyEnd < k.next ∧ k.next ≤ byteLength text
  sliced : r.span?.map (fun (a, b) => slice? text a b) = r.body.map some

end Round

/-- How the loop goes over a text. -/
structure ScansSafely (text : List Char) (rs : List Round) : Prop where
  runs : Runs text 0 rs
  unique : ∀ qs, Runs text 0 qs → qs = rs
  /-- There are at most as many rounds as opening brackets. -/
  length_le : rs.length ≤ text.count '['
  attempts : rs.map Round.toAttempt = attempts text
  bodies : rs.filterMap Round.body = bodies text
  safe : ∀ r ∈ rs, r.Safe text
  in_order : rs.Pairwise fun r q => r.resume ≤ q.start
  slices : (rs.filterMap Round.span?).map (fun (a, b) => slice? text a b) =
    (Bracket.bodies text).map some
  /-- The bodies do not meet, and stand one behind the other. -/
  disjoint : (rs.filterMap Round.span?).Pairwise fun s t => s.2 < t.1

variable {text p gap s t body rest : List Char} {c : Char} {start : Nat} {r : Round}
  {rs : List Round}

/-! ### Looking for a bracket and its close -/

theorem offsetOf?_eq_none (h : c ∉ s) : offsetOf? c s = none := by
  induction s with
  | nil => rfl
  | cons d s ih =>
    have hd : d ≠ c := fun e => h (by simp [e])
    rw [offsetOf?, if_neg hd, ih fun hm => h (List.mem_cons_of_mem _ hm)]
    rfl

theorem offsetOf?_append (h : c ∉ gap) (s : List Char) :
    offsetOf? c (gap ++ c :: s) = some (byteLength gap) := by
  induction gap with
  | nil => exact if_pos rfl
  | cons d gap ih =>
    have hd : d ≠ c := fun e => h (by simp [e])
    rw [List.cons_append, offsetOf?, if_neg hd, ih fun hm => h (List.mem_cons_of_mem _ hm)]
    rfl

/-- The look ahead from a character is at the text that begins with it. -/
theorem closeAmong_charsFrom (start : Nat) (p s : List Char) :
    closeAmong start (p ++ s) (charsFrom (byteLength p) s) =
      some (closeFrom (start + byteLength p) s) := by
  induction s generalizing p with
  | nil => rfl
  | cons c s ih =>
    have ih' := ih (p ++ [c])
    have hp : byteLength (p ++ [c]) = byteLength p + c.utf8Size := by
      rw [byteLength_append]
      rfl
    rw [hp, ← List.append_cons, ← Nat.add_assoc] at ih'
    rw [charsFrom, closeAmong, suffix?_byteLength, closeFrom, ih']
    show (if _ then _ else _) = _
    split
    · rfl
    split
    · rfl
    split
    · rfl
    · rfl

theorem closeAt_byteLength (p s : List Char) :
    closeAt (p ++ s) (byteLength p) = some (closeFrom (byteLength p) s) := by
  rw [closeAt, suffix?_byteLength]
  exact closeAmong_charsFrom (byteLength p) [] s

/-! ### One round -/

/-- The round behind `p` that passes over `gap` to a bracket, and gives what it closes. -/
def Round.behind (p gap : List Char) (body : Option (List Char)) : Round :=
  let opening := byteLength p + byteLength gap
  let close (b : List Char) := ⟨opening + 1 + byteLength b, opening + 1 + byteLength b + 1⟩
  { opening, close := body.map close, start := byteLength p, body }

theorem append_open (p gap t : List Char) :
    p ++ (gap ++ '[' :: t) = p ++ gap ++ ['['] ++ t := by
  simp

theorem byteLength_open (p gap : List Char) :
    byteLength (p ++ gap ++ ['[']) = byteLength p + byteLength gap + 1 := by
  rw [byteLength_append, byteLength_append]
  rfl

theorem slice?_body (p gap body rest : List Char) :
    slice? (p ++ (gap ++ '[' :: (body ++ ']' :: rest))) (byteLength p + byteLength gap + 1)
      (byteLength p + byteLength gap + 1 + byteLength body) = some body := by
  rw [append_open, ← byteLength_open, ← List.append_assoc]
  exact slice?_byteLength _ body (']' :: rest)

theorem round_of_notMem (p : List Char) (h : '[' ∉ s) :
    round (p ++ s) (byteLength p) = some none := by
  rw [round, suffix?_byteLength, Option.bind_eq_bind, Option.bind_some, offsetOf?_eq_none h]
  rfl

/-- A round takes no slice that is refused. -/
theorem round_append (p : List Char) (hgap : '[' ∉ gap) (t : List Char) :
    round (p ++ (gap ++ '[' :: t)) (byteLength p) =
      some (some (.behind p gap ((splitClose? t).map Prod.fst))) := by
  have hclose : closeAt (p ++ (gap ++ '[' :: t)) (byteLength p + byteLength gap + 1) =
      some (closeFrom (byteLength p + byteLength gap + 1) t) := by
    rw [append_open, ← byteLength_open]
    exact closeAt_byteLength _ t
  rw [round, suffix?_byteLength, Option.bind_eq_bind, Option.bind_some, offsetOf?_append hgap]
  show (closeAt _ _).bind _ = _
  rw [hclose, closeFrom_eq]
  cases hs : splitClose? t with
  | none => rfl
  | some k =>
    obtain ⟨body, rest⟩ := k
    show (Option.map some (slice? _ _ _)).bind _ = _
    rw [eq_of_splitClose? hs]
    show (Option.map some (slice? _ (_ + 1) (_ + 1 + byteLength body))).bind _ = _
    rw [slice?_body]
    rfl

example : round "é[a\n]".toList 2 = some (some ⟨⟨2, none⟩, 2, none⟩) := rfl

-- the first character has two bytes
example : round "é[a]".toList 1 = none := rfl

/-- What is in front of the offset that a round begins at, and what it passes over. -/
theorem exists_behind_of_round (h : round text start = some (some r)) :
    ∃ p gap t, text = p ++ (gap ++ '[' :: t) ∧ byteLength p = start ∧
      r = .behind p gap ((splitClose? t).map Prod.fst) := by
  obtain ⟨s, hs, -⟩ := Option.bind_eq_some_iff.1 h
  obtain ⟨⟨p, q⟩, hcut, rfl⟩ := Option.map_eq_some_iff.1 hs
  obtain ⟨rfl, rfl⟩ := eq_append_of_cutAt? hcut
  by_cases hq : '[' ∈ q
  · obtain ⟨gap, t, rfl, hgap⟩ := List.eq_append_cons_of_mem hq
    rw [round_append p hgap t] at h
    cases h
    exact ⟨p, gap, t, rfl, rfl, rfl⟩
  · rw [round_of_notMem p hq] at h
    cases h

/-! ### The offsets of a round -/

theorem isBoundary_open (p gap t : List Char) :
    IsBoundary (p ++ (gap ++ '[' :: t)) (byteLength p + byteLength gap + 1) := by
  rw [append_open, ← byteLength_open]
  exact isBoundary_byteLength _ t

theorem exists_bracket (p gap t : List Char) :
    ∃ q u, p ++ (gap ++ '[' :: t) = q ++ '[' :: u ∧ byteLength q = byteLength p + byteLength gap :=
  ⟨p ++ gap, t, (List.append_assoc ..).symm, byteLength_append p gap⟩

theorem append_close (p gap body rest : List Char) :
    p ++ (gap ++ '[' :: (body ++ ']' :: rest)) = p ++ gap ++ ['['] ++ body ++ [']'] ++ rest := by
  simp

theorem byteLength_close (p gap body : List Char) :
    byteLength (p ++ gap ++ ['['] ++ body ++ [']']) =
      byteLength p + byteLength gap + 1 + byteLength body + 1 := by
  rw [byteLength_append, byteLength_append, byteLength_open]
  rfl

namespace Round

theorem resume_behind_none (p gap : List Char) :
    (behind p gap none).resume = byteLength (p ++ gap ++ ['[']) :=
  (byteLength_open p gap).symm

theorem resume_behind_some (p gap body : List Char) :
    (behind p gap (some body)).resume = byteLength (p ++ gap ++ ['['] ++ body ++ [']']) :=
  (byteLength_close p gap body).symm

theorem safe_behind_none (p gap t : List Char) :
    (behind p gap none).Safe (p ++ (gap ++ '[' :: t)) := by
  have hstart := isBoundary_byteLength p (gap ++ '[' :: t)
  have hopen := isBoundary_open p gap t
  constructor
  case boundary =>
    intro n hn
    simp only [behind, cuts, Option.map_none, List.mem_cons, List.not_mem_nil, or_false] at hn
    rcases hn with rfl | rfl
    · exact ⟨hstart, hstart.le⟩
    · exact ⟨hopen, hopen.le⟩
  case bracket => exact exists_bracket p gap t
  case start_le => exact Nat.le_add_right _ _
  case past => exact Nat.lt_succ_self _
  case ordered =>
    intro k hk
    cases hk
  case sliced => rfl

theorem safe_behind_some (p gap body rest : List Char) :
    (behind p gap (some body)).Safe (p ++ (gap ++ '[' :: (body ++ ']' :: rest))) := by
  have hstart := isBoundary_byteLength p (gap ++ '[' :: (body ++ ']' :: rest))
  have hopen := isBoundary_open p gap (body ++ ']' :: rest)
  have hend : IsBoundary (p ++ (gap ++ '[' :: (body ++ ']' :: rest)))
      (byteLength p + byteLength gap + 1 + byteLength body) := by
    rw [append_open, ← List.append_assoc, ← byteLength_open, ← byteLength_append]
    exact isBoundary_byteLength _ (']' :: rest)
  have hnext : IsBoundary (p ++ (gap ++ '[' :: (body ++ ']' :: rest)))
      (byteLength p + byteLength gap + 1 + byteLength body + 1) := by
    rw [append_close, ← byteLength_close]
    exact isBoundary_byteLength _ rest
  constructor
  case boundary =>
    intro n hn
    simp only [behind, cuts, Option.map_some, List.mem_cons, List.not_mem_nil, or_false] at hn
    rcases hn with rfl | rfl | rfl | rfl
    · exact ⟨hstart, hstart.le⟩
    · exact ⟨hopen, hopen.le⟩
    · exact ⟨hend, hend.le⟩
    · exact ⟨hnext, hnext.le⟩
  case bracket => exact exists_bracket p gap _
  case start_le => exact Nat.le_add_right _ _
  case past =>
    show byteLength p + byteLength gap < byteLength p + byteLength gap + 1 + byteLength body + 1
    omega
  case ordered =>
    rintro k ⟨⟩
    exact ⟨Nat.le_add_right _ _, Nat.lt_succ_self _, hnext.le⟩
  case sliced =>
    show some (slice? _ _ _) = some (some body)
    exact congrArg some (slice?_body p gap body rest)

theorem safe_behind (p gap t : List Char) :
    (behind p gap ((splitClose? t).map Prod.fst)).Safe (p ++ (gap ++ '[' :: t)) := by
  cases hs : splitClose? t with
  | none => exact safe_behind_none p gap t
  | some k =>
    obtain ⟨body, rest⟩ := k
    rw [eq_of_splitClose? hs]
    exact safe_behind_some p gap body rest

end Round

theorem safe_of_round (h : round text start = some (some r)) : r.Safe text := by
  obtain ⟨p, gap, t, rfl, -, rfl⟩ := exists_behind_of_round h
  exact Round.safe_behind p gap t

theorem start_of_round (h : round text start = some (some r)) : r.start = start := by
  obtain ⟨p, gap, t, -, hp, rfl⟩ := exists_behind_of_round h
  exact hp

/-! ### The rounds of a text -/

namespace Runs

theorem unique {qs : List Round} (h : Runs text start rs) (hq : Runs text start qs) : qs = rs := by
  induction h generalizing qs with
  | stop hround =>
    cases hq with
    | stop => rfl
    | step hround' => simp [hround] at hround'
  | step hround _ ih =>
    cases hq with
    | stop hround' => simp [hround] at hround'
    | step hround' rest =>
      rw [hround] at hround'
      cases hround'
      rw [ih rest]

theorem safe (h : Runs text start rs) : ∀ r ∈ rs, r.Safe text := by
  induction h with
  | stop => exact fun r hr => absurd hr List.not_mem_nil
  | step hround _ ih =>
    intro r hr
    rcases List.mem_cons.1 hr with rfl | hr
    · exact safe_of_round hround
    · exact ih r hr

/-- No round looks at what is in front of the first one. -/
theorem start_le (h : Runs text start rs) : ∀ r ∈ rs, start ≤ r.start := by
  induction h with
  | stop => exact fun r hr => absurd hr List.not_mem_nil
  | step hround _ ih =>
    have hstart := start_of_round hround
    intro q hq
    rcases List.mem_cons.1 hq with rfl | hq
    · exact Nat.le_of_eq hstart.symm
    · have hsafe := safe_of_round hround
      have hle := ih q hq
      have hs := hsafe.start_le
      have hp := hsafe.past
      omega

theorem pairwise (h : Runs text start rs) : rs.Pairwise fun r q => r.resume ≤ q.start := by
  induction h with
  | stop => exact .nil
  | step _ rest ih => exact List.pairwise_cons.2 ⟨rest.start_le, ih⟩

end Runs

theorem round_induction {P : List Char → Prop} (last : ∀ s, '[' ∉ s → P s)
    (unclosed : ∀ gap s, '[' ∉ gap → splitClose? s = none → P s → P (gap ++ '[' :: s))
    (closed : ∀ gap s body rest, '[' ∉ gap → splitClose? s = some (body, rest) → P rest →
      P (gap ++ '[' :: s)) (text : List Char) : P text := by
  -- the scan passes over one character at a time, a round over all of them up to the bracket
  have h : ∀ gap, '[' ∉ gap → P (gap ++ text) := by
    induction text using scan_induction with
    | nil =>
      intro gap hgap
      rw [List.append_nil]
      exact last gap hgap
    | skip c s hc ih =>
      intro gap hgap
      rw [List.append_cons]
      refine ih (gap ++ [c]) ?_
      simp [hgap, Ne.symm hc]
    | unclosed s hs ih => exact fun gap hgap => unclosed gap s hgap hs (ih [] List.not_mem_nil)
    | closed s body rest hs ih =>
      exact fun gap hgap => closed gap s body rest hgap hs (ih [] List.not_mem_nil)
  exact h [] List.not_mem_nil

/-- The rounds `rs` go over `s`, the part of a text behind `p`. -/
structure Scans (p s : List Char) (rs : List Round) : Prop where
  runs : Runs (p ++ s) (byteLength p) rs
  length_le : rs.length ≤ s.count '['
  attempts : rs.map Round.toAttempt = (attempts s).map (·.shift (byteLength p))
  bodies : rs.filterMap Round.body = bodies s

namespace Scans

theorem last (p : List Char) (h : '[' ∉ s) : Scans p s [] where
  runs := .stop (round_of_notMem p h)
  length_le := Nat.zero_le _
  attempts := by
    have hs := attempts_append_of_notMem h []
    rw [List.append_nil] at hs
    rw [hs]
    rfl
  bodies := by
    have hs := bodies_append_of_notMem h []
    rw [List.append_nil] at hs
    rw [hs]
    rfl

theorem unclosed (hgap : '[' ∉ gap) (hs : splitClose? s = none)
    (h : Scans (p ++ gap ++ ['[']) s rs) :
    Scans p (gap ++ '[' :: s) (.behind p gap none :: rs) := by
  have hround := round_append p hgap s
  rw [hs] at hround
  have hruns := h.runs
  rw [← append_open, ← Round.resume_behind_none] at hruns
  constructor
  case runs => exact .step hround hruns
  case length_le =>
    have hlen := h.length_le
    rw [List.count_append, List.count_cons_self, List.length_cons]
    omega
  case attempts =>
    rw [attempts_append_of_notMem hgap, attempts_open_of_none hs, List.map_cons, h.attempts]
    simp only [List.map_cons, List.map_map, Function.comp_def, Attempt.shift_shift,
      byteLength_open, Nat.add_assoc]
    rfl
  case bodies =>
    rw [bodies_append_of_notMem hgap, bodies_open_of_none hs]
    exact h.bodies

theorem closed (hgap : '[' ∉ gap) (hs : splitClose? s = some (body, rest))
    (h : Scans (p ++ gap ++ ['['] ++ body ++ [']']) rest rs) :
    Scans p (gap ++ '[' :: s) (.behind p gap (some body) :: rs) := by
  have hround := round_append p hgap s
  rw [hs] at hround
  have htext := eq_of_splitClose? hs
  have hruns := h.runs
  rw [← append_close, ← Round.resume_behind_some, ← htext] at hruns
  constructor
  case runs => exact .step hround hruns
  case length_le =>
    -- the brackets of the body are never looked at
    have hlen := h.length_le
    have hrest : rest.count '[' ≤ s.count '[' := by
      rw [htext, List.append_cons, List.count_append]
      exact Nat.le_add_left _ _
    rw [List.count_append, List.count_cons_self, List.length_cons]
    omega
  case attempts =>
    rw [attempts_append_of_notMem hgap, attempts_open_of_some hs, List.map_cons, h.attempts]
    simp only [List.map_cons, List.map_map, Function.comp_def, Attempt.shift_shift,
      byteLength_close, Nat.add_assoc]
    simp [Attempt.shift, Close.shift, Round.behind, Nat.add_assoc]
  case bodies =>
    rw [bodies_append_of_notMem hgap, bodies_open_of_some hs, List.filterMap_cons, h.bodies]
    rfl

end Scans

theorem exists_scans (p s : List Char) : ∃ rs, Scans p s rs := by
  induction s using round_induction generalizing p with
  | last s hs => exact ⟨[], .last p hs⟩
  | unclosed gap s hgap hs ih =>
    obtain ⟨rs, h⟩ := ih (p ++ gap ++ ['['])
    exact ⟨_, .unclosed hgap hs h⟩
  | closed gap s body rest hgap hs ih =>
    obtain ⟨rs, h⟩ := ih (p ++ gap ++ ['['] ++ body ++ [']'])
    exact ⟨_, .closed hgap hs h⟩

theorem Round.Safe.span_lt {q : Round} {a b : Nat × Nat} (h : r.Safe text) (hq : q.Safe text)
    (hle : r.resume ≤ q.start) (ha : r.span? = some a) (hb : q.span? = some b) : a.2 < b.1 := by
  obtain ⟨k, hk, rfl⟩ := Option.map_eq_some_iff.1 ha
  obtain ⟨l, -, rfl⟩ := Option.map_eq_some_iff.1 hb
  have hnext : r.resume = k.next := by
    rw [Attempt.resume, hk]
    rfl
  have hend := (h.ordered k hk).2.1
  have hstart := hq.start_le
  show k.bodyEnd < q.opening + 1
  omega

/-- The loop ends on every text, and none of its slices is refused. -/
theorem scans_safely (text : List Char) : ∃ rs, ScansSafely text rs := by
  obtain ⟨rs, h⟩ := exists_scans [] text
  have hsafe := h.runs.safe
  refine ⟨rs, ?_⟩
  constructor
  case runs => exact h.runs
  case unique => exact fun qs hq => h.runs.unique hq
  case length_le => exact h.length_le
  case attempts =>
    rw [h.attempts]
    simp
  case bodies => exact h.bodies
  case safe => exact hsafe
  case in_order => exact h.runs.pairwise
  case slices =>
    rw [← h.bodies, List.map_filterMap, List.map_filterMap]
    exact List.filterMap_congr fun r hr => (hsafe r hr).sliced
  case disjoint =>
    rw [List.pairwise_filterMap]
    refine h.runs.pairwise.imp_of_mem ?_
    intro r q hr hq hle a ha b hb
    exact (hsafe r hr).span_lt (hsafe q hq) hle ha hb

example : attempts "[é].[b[]]".toList = [⟨0, some ⟨3, 4⟩⟩, ⟨5, some ⟨9, 10⟩⟩] := by decide

end MemberPath.Bracket
