import MemberPath.Text.Printable

/-!
# Quoted texts

A text or character between quotes, with what cannot be shown written as an escape: the usual
letters after a backslash, and the code point in hexadecimal for all else.
-/

namespace MemberPath

/-- The code point of a character in braces. -/
def codeEscape (c : Char) : List Char :=
  ['\\', 'u', '\x7b'] ++ Nat.toDigits 16 c.toNat ++ ['\x7d']

/-- A character as it stands between the quotes `quote`; the other kind of quote is left alone. -/
def escapedChar (quote : Char) (c : Char) : List Char :=
  if c = Char.ofNat 0 then ['\\', '0']
  else if c = '\t' then ['\\', 't']
  else if c = '\r' then ['\\', 'r']
  else if c = '\n' then ['\\', 'n']
  else if c = '\\' ∨ c = quote then ['\\', c]
  else if isExtending c then codeEscape c
  else if isPrintable c then [c]
  else codeEscape c

def quotedText (s : String) : String :=
  String.ofList ('"' :: s.toList.flatMap (escapedChar '"') ++ ['"'])

def quotedChar (c : Char) : String :=
  String.ofList ('\'' :: escapedChar '\'' c ++ ['\''])

end MemberPath
