import MemberPath.Path.Bracket
import MemberPath.Path.Component
import MemberPath.Path.Name

/-!
# Path expressions

An expression is either name-based (`a.b.c`) or type-based (`[A].[B]`). One bracketed segment makes
the whole expression type-based; the text around the brackets is then ignored.
-/

namespace MemberPath

inductive PathKind
  | nameBased
  | typeBased
  deriving DecidableEq

def PathKind.word : PathKind → String
  | .nameBased => "NameBased"
  | .typeBased => "TypeBased"

inductive ParseError
  | empty
  deriving DecidableEq

def ParseError.message : ParseError → String
  | .empty => "path expression cannot be empty"

/-- The segments of an expression, in its notation. -/
inductive Segments
  | names (names : List String)
  | types (components : List Component)
  deriving DecidableEq

namespace Segments

/-- Decides the notation of a text and splits it. -/
def ofChars (text : List Char) : Except ParseError Segments :=
  if text.isEmpty then .error .empty
  else
    match Bracket.bodies text with
    | [] => .ok (.names ((dottedNames text).map String.ofList))
    | bodies => .ok (.types (bodies.map Component.ofChars))

/-- Decides the notation of a text and splits it. -/
def ofString (text : String) : Except ParseError Segments :=
  ofChars text.toList

def kind : Segments → PathKind
  | .names _ => .nameBased
  | .types _ => .typeBased

def nameList : Segments → List String
  | .names ns => ns
  | .types _ => []

def componentList : Segments → List Component
  | .names _ => []
  | .types cs => cs

end Segments

structure Expression where
  text : String
  segments : Segments
  deriving DecidableEq

/-- Reads an expression; only the empty text is refused. -/
def Expression.ofString (text : String) : Except ParseError Expression :=
  (Segments.ofString text).map (⟨text, ·⟩)

theorem Expression.ofString_eq_ok_iff {text : String} {e : Expression} :
    Expression.ofString text = .ok e ↔
      e.text = text ∧ Segments.ofString text = .ok e.segments := by
  obtain ⟨text', ss⟩ := e
  cases hs : Segments.ofString text with
  | error err => simp [Expression.ofString, hs, Except.map]
  | ok ss' => simp [Expression.ofString, hs, Except.map, eq_comm]

end MemberPath
