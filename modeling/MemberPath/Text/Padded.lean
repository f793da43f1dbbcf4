/-!
# Padding to a width

A text is first cut to a number of characters and then filled up to a width.
-/

namespace MemberPath

/-- Where a text stands in a field that is wider than the text. -/
inductive Alignment
  | left
  | right
  | center
  deriving DecidableEq

/-- How many fill characters go in front when `n` are needed; in the centre the odd one goes
behind. -/
def Alignment.before : Alignment → Nat → Nat
  | .left, _ => 0
  | .right, n => n
  | .center, n => n / 2

/-- Cuts a text to `precision` characters, then fills it up to `width` characters. -/
def padded (fill : Char) (align : Alignment) (width : Nat) (precision : Option Nat)
    (text : String) : String :=
  let cs := match precision with
    | none => text.toList
    | some n => text.toList.take n
  let n := width - cs.length
  let before := align.before n
  String.ofList (List.replicate before fill ++ cs ++ List.replicate (n - before) fill)

end MemberPath
