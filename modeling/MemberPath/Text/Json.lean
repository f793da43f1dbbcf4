/-!
# JSON texts

A reader for JSON: `Token.list?` splits a text into tokens, `Json.ofChars?` builds the value.
Strings may name half of a surrogate pair in an escape; such a string is a valid token without a
text, so that a reader can skip it where the text does not matter.
-/

namespace MemberPath

/-- A JSON value. The text of a string or key is missing if it has an unpaired surrogate; numbers
are only checked, not kept. -/
inductive Json
  | null
  | bool (b : Bool)
  | number
  | string (text : Option String)
  | array (items : List Json)
  | object (members : List (Option String × Json))

namespace Json

inductive Token
  | openArray
  | closeArray
  | openObject
  | closeObject
  | comma
  | colon
  | null
  | bool (b : Bool)
  | number
  | string (text : Option String)
  deriving DecidableEq

/-! ### Strings -/

/-- A unit of a string: a character, or half of a surrogate pair. -/
inductive StringUnit
  | char (c : Char)
  | surrogate (n : Nat)
  deriving DecidableEq

def hexDigit? (c : Char) : Option Nat :=
  if c.isDigit then some (c.toNat - '0'.toNat)
  else if 'a' ≤ c && c ≤ 'f' then some (c.toNat - 'a'.toNat + 10)
  else if 'A' ≤ c && c ≤ 'F' then some (c.toNat - 'A'.toNat + 10)
  else none

/-- The unit that four hexadecimal digits name. -/
def unitOfCode (n : Nat) : StringUnit :=
  if 0xD800 ≤ n && n ≤ 0xDFFF then .surrogate n else .char (Char.ofNat n)

/-- The character that stands for itself after a backslash, or that the letter abbreviates. -/
def shortEscape? : Char → Option Char
  | '"' => some '"'
  | '\\' => some '\\'
  | '/' => some '/'
  | 'b' => some (Char.ofNat 0x8)
  | 'f' => some (Char.ofNat 0xC)
  | 'n' => some '\n'
  | 'r' => some '\r'
  | 't' => some '\t'
  | _ => none

/-- Reads up to the closing quote; the opening one has been read. -/
def stringUnits? : List Char → Option (List StringUnit × List Char)
  | [] => none
  | '"' :: rest => some ([], rest)
  | '\\' :: 'u' :: a :: b :: c :: d :: rest => do
    let n := (((← hexDigit? a) * 16 + (← hexDigit? b)) * 16 + (← hexDigit? c)) * 16 + (← hexDigit? d)
    let (units, rest) ← stringUnits? rest
    return (unitOfCode n :: units, rest)
  | '\\' :: e :: rest => do
    let c ← shortEscape? e
    let (units, rest) ← stringUnits? rest
    return (.char c :: units, rest)
  | c :: rest =>
    if c = '\\' ∨ c.toNat < 0x20 then none
    else do
      let (units, rest) ← stringUnits? rest
      return (.char c :: units, rest)

/-- Joins the surrogate pairs; nothing if a half stands alone. -/
def textOfUnits? : List StringUnit → Option (List Char)
  | [] => some []
  | .char c :: rest => (textOfUnits? rest).map (c :: ·)
  | .surrogate hi :: .surrogate lo :: rest =>
    if hi < 0xDC00 ∧ 0xDC00 ≤ lo then
      (textOfUnits? rest).map (Char.ofNat (0x10000 + (hi - 0xD800) * 0x400 + (lo - 0xDC00)) :: ·)
    else none
  | .surrogate _ :: _ => none

/-! ### Numbers -/

/-- Drops the digits in front; nothing if there is none. -/
def dropDigits? (s : List Char) : Option (List Char) :=
  match s with
  | c :: rest => if c.isDigit then some (rest.dropWhile Char.isDigit) else none
  | [] => none

/-- Drops the digits in front of the point; a leading zero stands alone. -/
def dropWhole? : List Char → Option (List Char)
  | '0' :: rest => some rest
  | s => dropDigits? s

def dropFraction? : List Char → Option (List Char)
  | '.' :: rest => dropDigits? rest
  | s => some s

def dropExponent? : List Char → Option (List Char)
  | 'e' :: '+' :: rest | 'e' :: '-' :: rest | 'E' :: '+' :: rest | 'E' :: '-' :: rest =>
    dropDigits? rest
  | 'e' :: rest | 'E' :: rest => dropDigits? rest
  | s => some s

/-- What follows a number, if the text begins with one. -/
def dropNumber? (s : List Char) : Option (List Char) := do
  let whole ← dropWhole? (if s.head? = some '-' then s.tail else s)
  dropExponent? (← dropFraction? whole)

/-! ### Tokens -/

/-- The first token of a text, and what follows it. -/
def Token.first? : List Char → Option (Token × List Char)
  | [] => none
  | '[' :: rest => some (.openArray, rest)
  | ']' :: rest => some (.closeArray, rest)
  | '\x7b' :: rest => some (.openObject, rest)
  | '\x7d' :: rest => some (.closeObject, rest)
  | ',' :: rest => some (.comma, rest)
  | ':' :: rest => some (.colon, rest)
  | 'n' :: 'u' :: 'l' :: 'l' :: rest => some (.null, rest)
  | 't' :: 'r' :: 'u' :: 'e' :: rest => some (.bool true, rest)
  | 'f' :: 'a' :: 'l' :: 's' :: 'e' :: rest => some (.bool false, rest)
  | '"' :: rest => do
    let (units, rest) ← stringUnits? rest
    return (.string ((textOfUnits? units).map String.ofList), rest)
  | s => do return (.number, ← dropNumber? s)

def isSpace (c : Char) : Bool :=
  c == ' ' || c == '\n' || c == '\t' || c == '\r'

def Token.upTo? : Nat → List Char → Option (List Token)
  | n, s =>
    match n, s.dropWhile isSpace with
    | _, [] => some []
    | 0, _ => none
    | n + 1, s => do
      let (token, rest) ← first? s
      return token :: (← upTo? n rest)

/-- The tokens of a text; there are at most as many as it has characters. -/
def Token.list? (s : List Char) : Option (List Token) :=
  upTo? s.length s

/-! ### Values -/

/-- An array or object that has been opened and not yet closed: the items or members read so far,
the last one first, and for an object the key that waits for its value. -/
inductive Frame
  | array (items : List Json)
  | object (members : List (Option String × Json)) (key : Option String)

/-- What may come next in a text. -/
inductive Expect
  /-- A value, or the end of the array that was just opened. -/
  | item
  | value
  /-- A key, or the end of the object that was just opened. -/
  | member
  | key
  | colon
  /-- A comma or a close after a value, or the end of the text. -/
  | after (v : Json)

/-- Builds the value of a list of tokens; the open arrays and objects are in `frames`, the inner
one first. -/
def build? : Expect → List Frame → List Token → Option Json
  | .after v, [], [] => some v
  | _, _, [] => none
  | .after v, .array items :: frames, .comma :: ts => build? .value (.array (v :: items) :: frames) ts
  | .after v, .array items :: frames, .closeArray :: ts =>
    build? (.after (.array (v :: items).reverse)) frames ts
  | .after v, .object members key :: frames, .comma :: ts =>
    build? .key (.object ((key, v) :: members) none :: frames) ts
  | .after v, .object members key :: frames, .closeObject :: ts =>
    build? (.after (.object ((key, v) :: members).reverse)) frames ts
  | .after _, _, _ :: _ => none
  | .colon, frames, .colon :: ts => build? .value frames ts
  | .colon, _, _ :: _ => none
  | .member, .object members _ :: frames, .string key :: ts
  | .key, .object members _ :: frames, .string key :: ts =>
    build? .colon (.object members key :: frames) ts
  | .member, .object _ _ :: frames, .closeObject :: ts => build? (.after (.object [])) frames ts
  | .member, _, _ :: _ => none
  | .key, _, _ :: _ => none
  | .item, .array _ :: frames, .closeArray :: ts => build? (.after (.array [])) frames ts
  | _, frames, .openArray :: ts => build? .item (.array [] :: frames) ts
  | _, frames, .openObject :: ts => build? .member (.object [] none :: frames) ts
  | _, frames, .null :: ts => build? (.after .null) frames ts
  | _, frames, .bool b :: ts => build? (.after (.bool b)) frames ts
  | _, frames, .number :: ts => build? (.after .number) frames ts
  | _, frames, .string text :: ts => build? (.after (.string text)) frames ts
  | _, _, _ :: _ => none

def ofChars? (s : List Char) : Option Json := do
  build? .value [] (← Token.list? s)

end Json

end MemberPath
