import MemberPath.Class.Lookup
import MemberPath.Path.Chain
import MemberPath.Path.Expression
import MemberPath.Path.Options
import MemberPath.Path.Record

/-!
# Walking an expression

Each segment is looked up on the declared type of the member before it, the first on the type of
the target. The walk stops at the first segment that selects no member.
-/

namespace MemberPath

inductive Segment
  | name (name : String)
  | type (component : Component)
  deriving DecidableEq

def Segments.toList : Segments → List Segment
  | .names ns => ns.map .name
  | .types cs => cs.map .type

/-- What a walk found, and the records it wrote. -/
structure Walk (α : Type) where
  records : List Record
  outcome : Except PathError α

namespace Universe

/-- Selects the member of type `on` that a segment of the expression `path` means. -/
def choose (u : Universe) (path : String) (o : Options) (on : Ty) : Segment → Walk Member
  | .name name =>
    match u.memberNamed? on name with
    | none => ⟨[], .error (.missingMember name on)⟩
    | some m => ⟨[.selected path m.isMethod m.name on], .ok m⟩
  | .type c =>
    let found := u.membersOfType on c o.ignoreToString
    let counted := Record.counted path found.length c on
    if found.isEmpty then ⟨[counted], .error (.noTypeMatch c.typeName on)⟩
    else
      match o.strategy.select found with
      | none => ⟨[counted], .error (.ambiguousType c.typeName on found.length)⟩
      | some m => ⟨[counted, .selected path m.isMethod m.name on], .ok m⟩

def walk (u : Universe) (path : String) (o : Options) (on : Ty) : List Segment → Walk (List Member)
  | [] => ⟨[], .ok []⟩
  | s :: rest =>
    let first := u.choose path o on s
    match first.outcome with
    | .error e => ⟨first.records, .error e⟩
    | .ok m =>
      let others := u.walk path o m.target rest
      ⟨first.records ++ others.records, others.outcome.map (m :: ·)⟩

/-- The chain that an expression means on the type `target`. -/
def chainOf (u : Universe) (e : Expression) (o : Options) (target : Ty) : Walk Chain :=
  let w := u.walk e.text o target e.segments.toList
  ⟨w.records, w.outcome.bind fun ms =>
    match Chain.ofMembers? ms with
    | some c => .ok c
    | none => .error (.unresolved e.text)⟩

end Universe

end MemberPath
