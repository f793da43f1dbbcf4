import MemberPath.Path.Strategy
import MemberPath.Text.Json

/-!
# Options of a path

What a path is built with: the strategy, and whether lookup by type skips methods called
`to_string`. Options are written and read as JSON: an object whose two keys may be missing, or an
array of the two values that may be cut short.
-/

namespace MemberPath

structure Options where
  /-- Which of several members of the asked type is taken. -/
  strategy : Strategy
  /-- Lookup by type skips the methods called `to_string`. -/
  ignoreToString : Bool
  deriving DecidableEq

namespace Options

/-- The options of a path that was built without any. -/
def standard : Options := ⟨.first, true⟩

def toJson (o : Options) : String :=
  "\x7b\"strategy\":\"" ++ o.strategy.word ++ "\",\"ignore_to_string\":" ++
    (if o.ignoreToString then "true" else "false") ++ "\x7d"

/-- A strategy is its word, or an object with that word as its only key and the value null. -/
def strategyOfJson? : Json → Option Strategy
  | .string (some word) => Strategy.ofWord? word
  | .object [(some word, .null)] => Strategy.ofWord? word
  | _ => none

def ignoreOfJson? : Json → Option Bool
  | .bool b => some b
  | _ => none

/-- The two keys of an object as far as they are known; other keys are skipped, a known key that
comes twice is refused. -/
def ofMembers? : Option Strategy → Option Bool → List (Option String × Json) → Option Options
  | strategy, ignore, [] =>
    some ⟨strategy.getD standard.strategy, ignore.getD standard.ignoreToString⟩
  | _, _, (none, _) :: _ => none
  | strategy, ignore, (some key, value) :: rest =>
    if key = "strategy" then
      match strategy with
      | none => do ofMembers? (some (← strategyOfJson? value)) ignore rest
      | some _ => none
    else if key = "ignore_to_string" then
      match ignore with
      | none => do ofMembers? strategy (some (← ignoreOfJson? value)) rest
      | some _ => none
    else ofMembers? strategy ignore rest

def ofJson? : Json → Option Options
  | .object members => ofMembers? none none members
  | .array [] => some standard
  | .array [s] => do return ⟨← strategyOfJson? s, standard.ignoreToString⟩
  | .array [s, i] => do return ⟨← strategyOfJson? s, ← ignoreOfJson? i⟩
  | _ => none

def ofString? (text : String) : Option Options := do
  ofJson? (← Json.ofChars? text.toList)

end Options

end MemberPath
