import MemberPath.Class.Member
import MemberPath.Type.Names

/-!
# Universes of types

A universe gives every defined type its names, its shape and its way to copy values. Following
superclass links always ends, so `hierarchy`, a type followed by its superclasses, is a finite list.
-/

namespace MemberPath

/-- What a type looks like from outside. -/
inductive Shape
  | object (c : Class)
  | array (elem : Ty)
  /-- A type that shows nothing of itself. -/
  | leaf

structure Definition where
  names : TypeNames
  shape : Shape
  copy : Value → Except CopyError Value

/-- The definition that stands where nothing is defined. -/
def Definition.vacant : Definition :=
  ⟨.simple none "", .leaf, .ok⟩

def Definition.parent? (d : Definition) : Option Ty :=
  match d.shape with
  | .object c => c.parent
  | _ => none

/-- The members name the type with the number `id` as their owner. -/
def Definition.owns (d : Definition) (id : Nat) : Bool :=
  match d.shape with
  | .object c =>
    c.fields.all (fun f => decide (f.owner = .defined id)) &&
      c.methods.all fun m => decide (m.owner = .defined id)
  | _ => true

def parentOf (definition : Nat → Definition) : Ty → Option Ty
  | .defined id => (definition id).parent?
  | _ => none

/-- The defined types. Every superclass link lowers the rank, so that no type is a superclass of
itself, at any distance. -/
structure Universe where
  definition : Nat → Definition
  rank : Ty → Nat
  rank_lt : ∀ t p, parentOf definition t = some p → rank p < rank t

namespace Universe

def naming (u : Universe) : Naming := ⟨fun id => (u.definition id).names⟩

/-- What a type looks like; native types are leaves. -/
def shape (u : Universe) : Ty → Shape
  | .defined id => (u.definition id).shape
  | .list e => .array e
  | _ => .leaf

/-- The members that a type declares itself, if it is a class. -/
def class? (u : Universe) (t : Ty) : Option Class :=
  match u.shape t with
  | .object c => some c
  | _ => none

def parent? (u : Universe) (t : Ty) : Option Ty :=
  parentOf u.definition t

/-- The fields that a type declares itself. -/
def fields (u : Universe) (t : Ty) : List Field :=
  match u.class? t with
  | some c => c.fields
  | none => []

def methods (u : Universe) (t : Ty) : List Method :=
  match u.class? t with
  | some c => c.methods
  | none => []

theorem parent?_eq (u : Universe) (t : Ty) : u.parent? t = (u.class? t).bind (·.parent) := by
  cases t with
  | defined id =>
    simp only [parent?, parentOf, class?, shape, Definition.parent?]
    cases (u.definition id).shape <;> rfl
  | _ => rfl

theorem rank_parent_lt {u : Universe} {t p : Ty} (h : u.parent? t = some p) :
    u.rank p < u.rank t :=
  u.rank_lt t p h

/-- A type followed by at most `n` of its superclasses. -/
def ancestors (u : Universe) : Nat → Ty → List Ty
  | 0, t => [t]
  | n + 1, t =>
    match u.parent? t with
    | none => [t]
    | some p => t :: u.ancestors n p

/-- A type followed by its superclasses, the most derived first. -/
def hierarchy (u : Universe) (t : Ty) : List Ty :=
  u.ancestors (u.rank t) t

theorem ancestors_of_parent?_eq_none {u : Universe} {t : Ty} (h : u.parent? t = none) (n : Nat) :
    u.ancestors n t = [t] := by
  cases n <;> simp [ancestors, h]

/-- No type has more superclasses than its rank. -/
theorem ancestors_eq_hierarchy (u : Universe) : ∀ (n : Nat) (t : Ty), u.rank t ≤ n →
    u.ancestors n t = u.hierarchy t
  | 0, t, h => by rw [hierarchy, Nat.le_zero.1 h]
  | n + 1, t, h => by
    cases hp : u.parent? t with
    | none => rw [hierarchy, ancestors_of_parent?_eq_none hp, ancestors_of_parent?_eq_none hp]
    | some p =>
      have hlt := rank_parent_lt hp
      obtain ⟨m, hm⟩ : ∃ m, u.rank t = m + 1 := ⟨u.rank t - 1, by omega⟩
      rw [hierarchy, hm]
      simp only [ancestors, hp]
      rw [ancestors_eq_hierarchy u n p (by omega)]
      by_cases hmn : m = n
      · rw [hmn, ancestors_eq_hierarchy u n p (by omega)]
      · rw [ancestors_eq_hierarchy u m p (by omega)]

theorem hierarchy_of_parent?_eq_none {u : Universe} {t : Ty} (h : u.parent? t = none) :
    u.hierarchy t = [t] :=
  ancestors_of_parent?_eq_none h _

theorem hierarchy_of_parent?_eq_some {u : Universe} {t p : Ty} (h : u.parent? t = some p) :
    u.hierarchy t = t :: u.hierarchy p := by
  have hlt := rank_parent_lt h
  obtain ⟨m, hm⟩ : ∃ m, u.rank t = m + 1 := ⟨u.rank t - 1, by omega⟩
  rw [hierarchy, hm]
  simp only [ancestors, h]
  rw [ancestors_eq_hierarchy u m p (by omega)]

theorem mem_hierarchy_self (u : Universe) (t : Ty) : t ∈ u.hierarchy t := by
  cases h : u.parent? t with
  | none => simp [hierarchy_of_parent?_eq_none h]
  | some p => simp [hierarchy_of_parent?_eq_some h]

/-- Every class lists only members that name it as their owner. -/
def MembersOwned (u : Universe) : Prop :=
  ∀ t c, u.class? t = some c → (∀ f ∈ c.fields, f.owner = t) ∧ ∀ m ∈ c.methods, m.owner = t

theorem MembersOwned.owner_of_mem_fields {u : Universe} (hu : u.MembersOwned) {t : Ty} {f : Field}
    (h : f ∈ u.fields t) : f.owner = t := by
  cases hc : u.class? t with
  | none => simp [fields, hc] at h
  | some c =>
    rw [fields, hc] at h
    exact (hu t c hc).1 f h

theorem MembersOwned.owner_of_mem_methods {u : Universe} (hu : u.MembersOwned) {t : Ty} {m : Method}
    (h : m ∈ u.methods t) : m.owner = t := by
  cases hc : u.class? t with
  | none => simp [methods, hc] at h
  | some c =>
    rw [methods, hc] at h
    exact (hu t c hc).2 m h

theorem membersOwned_of_owns {u : Universe} (h : ∀ id, (u.definition id).owns id = true) :
    u.MembersOwned := by
  intro t c hc
  cases t with
  | defined id =>
    have hd := h id
    rw [class?, shape] at hc
    rw [Definition.owns] at hd
    split at hc
    · rename_i c' hs
      cases hc
      simpa only [hs, Bool.and_eq_true, List.all_eq_true, decide_eq_true_eq] using hd
    · cases hc
  | _ => cases hc

/-! ### Building a universe -/

/-- The number of superclass links above a type, counted no further than `limit`. -/
def height (definition : Nat → Definition) : Nat → Ty → Nat
  | 0, _ => 0
  | limit + 1, t =>
    match parentOf definition t with
    | none => 0
    | some p => height definition limit p + 1

/-- The universe of a table of definitions; nothing if the superclass links run in a circle. -/
def ofDefinitions? (defs : Array Definition) : Option Universe :=
  let definition (id : Nat) : Definition := defs.getD id .vacant
  let rank := height definition (defs.size + 1)
  if h : ∀ id < defs.size, ∀ p ∈ (definition id).parent?, rank p < rank (.defined id) then
    some {
      definition
      rank
      rank_lt := fun t p hp => by
        cases t with
        | defined id =>
          by_cases hid : id < defs.size
          · exact h id hid p hp
          · simp [definition, parentOf, hid, Definition.vacant, Definition.parent?] at hp
        | _ => cases hp }
  else none

end Universe

end MemberPath
