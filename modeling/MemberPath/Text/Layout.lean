/-!
# Layouts of nested data

Nested data is written on one line (`compact`) or with one item per line, four blanks deeper per
level and with a comma behind every item (`pretty`).
-/

namespace MemberPath

/-- Nested data to be written. -/
inductive Layout
  | word (text : String)
  | list (items : List Layout)
  | tuple (name : String) (items : List Layout)
  | record (name : String) (fields : List (String × Layout))

namespace Layout

mutual

def compact : Layout → String
  | .word text => text
  | .list items => "[" ++ ", ".intercalate (compactItems items) ++ "]"
  | .tuple name [] | .record name [] => name
  | .tuple name items => name ++ "(" ++ ", ".intercalate (compactItems items) ++ ")"
  | .record name fields => name ++ " \x7b " ++ ", ".intercalate (compactFields fields) ++ " \x7d"

def compactItems : List Layout → List String
  | [] => []
  | x :: xs => compact x :: compactItems xs

def compactFields : List (String × Layout) → List String
  | [] => []
  | (key, x) :: xs => (key ++ ": " ++ compact x) :: compactFields xs

end

/-- Puts four blanks in front of every line; `atStart` says that a line begins here. -/
def indentChars : Bool → List Char → List Char
  | _, [] => []
  | atStart, c :: s =>
    (if atStart then [' ', ' ', ' ', ' '] else []) ++ c :: indentChars (c == '\n') s

/-- An item on lines of its own, with a comma behind it. -/
def itemLines (text : String) : String :=
  String.ofList (indentChars true (text ++ ",\n").toList)

mutual

def pretty : Layout → String
  | .word text => text
  | .list [] => "[]"
  | .list items => "[\n" ++ String.join (prettyItems items) ++ "]"
  | .tuple name [] | .record name [] => name
  | .tuple name items => name ++ "(\n" ++ String.join (prettyItems items) ++ ")"
  | .record name fields => name ++ " \x7b\n" ++ String.join (prettyFields fields) ++ "\x7d"

def prettyItems : List Layout → List String
  | [] => []
  | x :: xs => itemLines (pretty x) :: prettyItems xs

def prettyFields : List (String × Layout) → List String
  | [] => []
  | (key, x) :: xs => itemLines (key ++ ": " ++ pretty x) :: prettyFields xs

end

end Layout

end MemberPath
