/-!
# Choosing among candidates

A type-based segment may match several members; the strategy says which of them is taken.
-/

namespace MemberPath

/-- How one of several candidates is chosen. -/
inductive Strategy
  | first
  | last
  /-- The only candidate; two or more are an error. -/
  | exact
  deriving DecidableEq

namespace Strategy

/-- The chosen candidate, if the list has one under this strategy. -/
def select : Strategy → List α → Option α
  | .first, candidates => candidates.head?
  | .last, candidates => candidates.getLast?
  | .exact, [only] => some only
  | .exact, _ => none

section Select
variable {α : Type} {strategy : Strategy} {l : List α} {a : α}

@[simp] theorem select_nil (strategy : Strategy) : strategy.select ([] : List α) = none := by
  cases strategy <;> rfl

theorem select_singleton (strategy : Strategy) (a : α) : strategy.select [a] = some a := by
  cases strategy <;> rfl

theorem mem_of_select (h : strategy.select l = some a) : a ∈ l := by
  cases strategy with
  | first => exact List.mem_of_head? h
  | last => exact List.mem_of_getLast? h
  | exact =>
    match l, h with
    | [_], h =>
      cases h
      exact List.mem_singleton_self a

theorem exists_select (hs : strategy ≠ exact) (hne : l ≠ []) : ∃ a, strategy.select l = some a := by
  obtain ⟨b, l, rfl⟩ := List.exists_cons_of_ne_nil hne
  cases strategy with
  | first => exact ⟨b, rfl⟩
  | last => exact ⟨_, List.getLast?_cons⟩
  | exact => exact absurd rfl hs

theorem select_exact_eq_some_iff : exact.select l = some a ↔ l = [a] := by
  match l with
  | [] | [_] | _ :: _ :: _ => simp [select]

theorem two_le_length_of_select_exact (hne : l ≠ []) (h : exact.select l = none) :
    2 ≤ l.length := by
  match l with
  | [] => exact absurd rfl hne
  | [_] => simp [select] at h
  | _ :: _ :: _ => simp

/-- A chosen candidate is chosen again when others are taken away. -/
theorem select_filter {p : α → Bool} (h : strategy.select l = some a) (ha : p a = true) :
    strategy.select (l.filter p) = some a := by
  cases strategy with
  | first =>
    obtain ⟨rest, rfl⟩ := List.head?_eq_some_iff.1 h
    rw [List.filter_cons_of_pos ha]
    rfl
  | last =>
    obtain ⟨front, rfl⟩ := List.getLast?_eq_some_iff.1 h
    show ((front ++ [a]).filter p).getLast? = some a
    rw [List.filter_append, List.filter_cons_of_pos ha, List.filter_nil]
    exact List.getLast?_concat
  | exact =>
    obtain rfl := select_exact_eq_some_iff.1 h
    rw [List.filter_cons_of_pos ha, List.filter_nil]
    rfl

end Select

/-- The word for a strategy in configuration files. -/
def word : Strategy → String
  | .first => "FIRST_MATCH"
  | .last => "LAST_MATCH"
  | .exact => "EXACT_MATCH"

/-- The name of a strategy in descriptions of a path. -/
def name : Strategy → String
  | .first => "FirstMatch"
  | .last => "LastMatch"
  | .exact => "ExactMatch"

def ofWord? : String → Option Strategy
  | "FIRST_MATCH" => some .first
  | "LAST_MATCH" => some .last
  | "EXACT_MATCH" => some .exact
  | _ => none

theorem ofWord?_word (s : Strategy) : ofWord? s.word = some s := by
  cases s <;> rfl

end Strategy

end MemberPath
