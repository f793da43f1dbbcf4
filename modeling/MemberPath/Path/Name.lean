/-!
# Names separated by dots

The names of an expression are its parts between dots; empty parts at the end are dropped, those
in front or in between are names like any other.
-/

namespace MemberPath

/-- The parts of a text between its dots; there is one more than there are dots. -/
def splitDots : List Char → List (List Char)
  | [] => [[]]
  | c :: s =>
    if c = '.' then [] :: splitDots s
    else
      match splitDots s with
      | [] => [[c]]
      | part :: parts => (c :: part) :: parts

def dropEmptyTail : List (List Char) → List (List Char)
  | [] => []
  | part :: parts =>
    match part, dropEmptyTail parts with
    | [], [] => []
    | part, kept => part :: kept

def dottedNames (text : List Char) : List (List Char) :=
  dropEmptyTail (splitDots text)

theorem splitDots_ne_nil (s : List Char) : splitDots s ≠ [] := by
  induction s with
  | nil => simp [splitDots]
  | cons c s ih =>
    rw [splitDots]
    split
    · simp
    · cases h : splitDots s <;> simp

end MemberPath
