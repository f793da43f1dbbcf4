import MemberPath.Text.Blank
import MemberPath.Text.Slice

/-!
# Bracketed segments of an expression

A segment opens at `[` and closes at the first `]` of the same line, but where the text goes on
with `[]]` the marker `[]` still belongs to the body. An opening without a close is skipped, and
the scan goes on right behind it. All positions are byte offsets into the expression.
-/

namespace MemberPath.Bracket

/-- Where a segment closes: its body ends at `bodyEnd`, and the text behind it starts at `next`. -/
structure Close where
  bodyEnd : Nat
  next : Nat
  deriving DecidableEq

/-- Looks for the close of a segment in the text that starts at byte `pos`. -/
def closeFrom (pos : Nat) : List Char → Option Close
  | [] => none
  | c :: s =>
    if ['[', ']', ']'].isPrefixOf (c :: s) then some ⟨pos + 2, pos + 3⟩
    else if c = ']' then some ⟨pos, pos + 1⟩
    else if isLineBreak c then none
    else closeFrom (pos + c.utf8Size) s

/-- An opening bracket that the scan looked at, with its close if it has one. -/
structure Attempt where
  opening : Nat
  close : Option Close
  deriving DecidableEq

/-- The openings looked at in the text that starts at byte `pos`, from left to right; those in
front of byte `resume` are passed over. -/
def attemptsFrom (resume pos : Nat) : List Char → List Attempt
  | [] => []
  | c :: s =>
    if pos < resume ∨ c ≠ '[' then attemptsFrom resume (pos + c.utf8Size) s
    else
      match closeFrom (pos + 1) s with
      | some k => ⟨pos, some k⟩ :: attemptsFrom k.next (pos + 1) s
      | none => ⟨pos, none⟩ :: attemptsFrom (pos + 1) (pos + 1) s

def attempts (text : List Char) : List Attempt :=
  attemptsFrom 0 0 text

def Attempt.body? (text : List Char) (a : Attempt) : Option (List Char) := do
  let k ← a.close
  slice? text (a.opening + 1) k.bodyEnd

/-- The bodies of the bracketed segments, from left to right. -/
def bodies (text : List Char) : List (List Char) :=
  (attempts text).filterMap (·.body? text)

end MemberPath.Bracket
