import Mathlib.Data.List.Induction
import MemberPath.Path.Walk

/-!
# What a walk selects and what it writes

`chooses` lists what can come of one segment, and the equations of a walk on `s :: ss` put a whole
walk together from that. Every member that a walk selects is declared in the hierarchy of the type
it is looked up on, and the next one is looked up on its declared type (`linked_walk`). A walk
counts candidates and names the members it selects; it writes no other records.
-/

namespace MemberPath

namespace Class
variable {c : Class} {name : String}

/-- The index has the last position of each name. -/
theorem get?_index (l : List (Field × Nat)) (name : String) :
    (l.foldl (fun index (f, i) => index.insert f.name i)
      (Assoc.empty : Assoc String Nat)).get? name =
      (l.reverse.find? (·.1.name == name)).map (·.2) := by
  induction l using List.reverseRecOn with
  | nil => rfl
  | append_singleton l p ih =>
    obtain ⟨f, i⟩ := p
    rw [List.foldl_append, List.foldl_cons, List.foldl_nil, Assoc.get?_insert, ih,
      List.reverse_append, List.reverse_singleton, List.singleton_append, List.find?_cons]
    by_cases hf : f.name = name
    · subst hf; simp
    · rw [if_neg (Ne.symm hf), beq_false_of_ne hf]

/-- Of several fields of one name the index finds the last. -/
theorem field?_eq_find? (c : Class) (name : String) :
    c.field? name = c.fields.reverse.find? (·.name == name) := by
  have hfields : c.fields.reverse = c.fields.zipIdx.reverse.map (·.1) := by
    rw [List.map_reverse, List.zipIdx_map_fst]
  have hfind : c.fields.reverse.find? (·.name == name) =
      (c.fields.zipIdx.reverse.find? (·.1.name == name)).map (·.1) := by
    rw [hfields, List.find?_map]; rfl
  rw [field?, fieldIndex, get?_index, hfind]
  cases hp : c.fields.zipIdx.reverse.find? (·.1.name == name) with
  | none => rfl
  | some p =>
    have hm := List.mem_reverse.1 (List.mem_of_find?_eq_some hp)
    exact List.mem_zipIdx_iff_getElem?.1 hm

theorem name_of_field? {f : Field} (h : c.field? name = some f) : f.name = name := by
  rw [field?_eq_find?] at h
  simpa using List.find?_some h

theorem name_of_method? {m : Method} (h : c.method? name = some m) : m.name = name := by
  simpa using List.find?_some h

theorem mem_fields_of_field? {f : Field} (h : c.field? name = some f) : f ∈ c.fields := by
  obtain ⟨i, -, hi⟩ := Option.bind_eq_some_iff.1 h
  exact List.mem_of_getElem? hi

theorem mem_methods_of_method? {m : Method} (h : c.method? name = some m) : m ∈ c.methods :=
  List.mem_of_find?_eq_some h

end Class

/-- The record is about a segment of the expression `path`. -/
def Record.IsStep (path : String) (r : Record) : Prop :=
  (∃ n c t, r = .counted path n c t) ∨ ∃ isMethod name t, r = .selected path isMethod name t

namespace Universe
variable {u : Universe} {path : String} {o : Options} {on : Ty} {ss : List Segment}
  {ms : List Member} {err : PathError}

/-! ### The members of a type -/

/-- The member is declared by a type in the hierarchy of `t`. -/
def Offers (u : Universe) (t : Ty) : Member → Prop
  | .field f => ∃ c ∈ u.hierarchy t, f ∈ u.fields c
  | .method m => ∃ c ∈ u.hierarchy t, m ∈ u.methods c

theorem class?_of_findSome? {α : Type} {g : Class → Option α} {t : Ty} {a : α}
    (h : (u.hierarchy t).findSome? (fun c => (u.class? c).bind g) = some a) :
    ∃ t' ∈ u.hierarchy t, ∃ c, u.class? t' = some c ∧ g c = some a := by
  obtain ⟨t', ht', h⟩ := List.exists_of_findSome?_eq_some h
  obtain ⟨c, hc, ha⟩ := Option.bind_eq_some_iff.1 h
  exact ⟨t', ht', c, hc, ha⟩

theorem offers_of_memberNamed? {t : Ty} {name : String} {m : Member}
    (h : u.memberNamed? t name = some m) : u.Offers t m := by
  unfold memberNamed? at h
  split at h
  · rename_i f hf
    cases h
    obtain ⟨t', ht', c, hc, hf⟩ := class?_of_findSome? hf
    refine ⟨t', ht', ?_⟩
    rw [fields, hc]
    exact Class.mem_fields_of_field? hf
  · obtain ⟨m', hm, rfl⟩ := Option.map_eq_some_iff.1 h
    obtain ⟨t', ht', c, hc, hm⟩ := class?_of_findSome? hm
    refine ⟨t', ht', ?_⟩
    rw [methods, hc]
    exact Class.mem_methods_of_method? hm

theorem offers_of_mem_membersOfType {t : Ty} {c : Component} {ignore : Bool} {m : Member}
    (h : m ∈ u.membersOfType t c ignore) : u.Offers t m := by
  rcases List.mem_append.1 h with h | h
  · obtain ⟨f, hf, rfl⟩ := List.mem_map.1 h
    exact List.mem_flatMap.1 (List.mem_filter.1 hf).1
  · obtain ⟨m', hm, rfl⟩ := List.mem_map.1 h
    exact List.mem_flatMap.1 (List.mem_filter.1 hm).1

/-! ### One segment -/

/-- The ways in which a segment is looked up on the type `on`, with what comes of it. -/
inductive Chooses (u : Universe) (path : String) (o : Options) (on : Ty) :
    Segment → Walk Member → Prop
  | missing {name : String} : u.memberNamed? on name = none →
      Chooses u path o on (.name name) ⟨[], .error (.missingMember name on)⟩
  | named {name : String} {m : Member} : u.memberNamed? on name = some m →
      Chooses u path o on (.name name) ⟨[.selected path m.isMethod m.name on], .ok m⟩
  | unmatched {c : Component} : u.membersOfType on c o.ignoreToString = [] →
      Chooses u path o on (.type c) ⟨[.counted path 0 c on], .error (.noTypeMatch c.typeName on)⟩
  | ambiguous {c : Component} {found : List Member} :
      u.membersOfType on c o.ignoreToString = found → found ≠ [] → o.strategy.select found = none →
      Chooses u path o on (.type c) ⟨[.counted path found.length c on],
        .error (.ambiguousType c.typeName on found.length)⟩
  | selected {c : Component} {found : List Member} {m : Member} :
      u.membersOfType on c o.ignoreToString = found → o.strategy.select found = some m →
      Chooses u path o on (.type c) ⟨[.counted path found.length c on,
        .selected path m.isMethod m.name on], .ok m⟩

theorem chooses (u : Universe) (path : String) (o : Options) (on : Ty) (s : Segment) :
    u.Chooses path o on s (u.choose path o on s) := by
  cases s with
  | name name =>
    rw [choose]
    split
    · rename_i h
      exact .missing h
    · rename_i h
      exact .named h
  | type c =>
    simp only [choose]
    split
    · rename_i h
      have h := List.isEmpty_iff.1 h
      rw [h]
      exact .unmatched h
    · rename_i hne
      split
      · rename_i h
        exact .ambiguous rfl (fun e => hne (List.isEmpty_iff.2 e)) h
      · rename_i h
        exact .selected rfl h

theorem choose_name_eq_ok_iff {name : String} {m : Member} :
    (u.choose path o on (.name name)).outcome = .ok m ↔ u.memberNamed? on name = some m := by
  cases h : u.memberNamed? on name <;> simp [choose, h]

/-- A component selects what the strategy takes among its candidates. -/
theorem choose_type_eq_ok_iff {c : Component} {m : Member} :
    (u.choose path o on (.type c)).outcome = .ok m ↔
      o.strategy.select (u.membersOfType on c o.ignoreToString) = some m := by
  have hs := u.chooses path o on (.type c)
  generalize u.choose path o on (.type c) = w at hs
  cases hs with
  | unmatched hf => simp [hf]
  | ambiguous hf _ hm => simp [hf, hm]
  | selected hf hm => simp [hf, hm]

theorem choose_type_eq_error_iff {c : Component} :
    (u.choose path o on (.type c)).outcome = .error err ↔
      (u.membersOfType on c o.ignoreToString = [] ∧ err = .noTypeMatch c.typeName on) ∨
      (u.membersOfType on c o.ignoreToString ≠ [] ∧
        o.strategy.select (u.membersOfType on c o.ignoreToString) = none ∧
        err = .ambiguousType c.typeName on (u.membersOfType on c o.ignoreToString).length) := by
  have hs := u.chooses path o on (.type c)
  generalize u.choose path o on (.type c) = w at hs
  cases hs with
  | unmatched hf => simp [hf, eq_comm]
  | ambiguous hf hne hm => simp [hf, hne, hm, eq_comm]
  | selected hf hm =>
    have hne := List.ne_nil_of_mem (Strategy.mem_of_select hm)
    simp [hf, hne, hm]

/-- A selected member has been found by its name, or is one of the candidates for its type. -/
theorem found_of_choose {s : Segment} {m : Member}
    (h : (u.choose path o on s).outcome = .ok m) :
    (∃ name, s = .name name ∧ u.memberNamed? on name = some m) ∨
      ∃ c, s = .type c ∧ m ∈ u.membersOfType on c o.ignoreToString := by
  cases s with
  | name name => exact .inl ⟨name, rfl, choose_name_eq_ok_iff.1 h⟩
  | type c => exact .inr ⟨c, rfl, Strategy.mem_of_select (choose_type_eq_ok_iff.1 h)⟩

/-! ### One segment after the other -/

theorem walk_cons_eq_ok_iff {s : Segment} : (u.walk path o on (s :: ss)).outcome = .ok ms ↔
    ∃ m ms', (u.choose path o on s).outcome = .ok m ∧
      (u.walk path o m.target ss).outcome = .ok ms' ∧ ms = m :: ms' := by
  rw [walk]
  cases hm : (u.choose path o on s).outcome with
  | error e => simp
  | ok m =>
    cases hw : (u.walk path o m.target ss).outcome with
    | error e => simp [hw, Except.map]
    | ok ms' => simp [hw, Except.map, eq_comm]

theorem walk_cons_eq_error_iff {s : Segment} : (u.walk path o on (s :: ss)).outcome = .error err ↔
    (u.choose path o on s).outcome = .error err ∨
      ∃ m, (u.choose path o on s).outcome = .ok m ∧
        (u.walk path o m.target ss).outcome = .error err := by
  rw [walk]
  cases hm : (u.choose path o on s).outcome with
  | error e => simp
  | ok m =>
    cases hw : (u.walk path o m.target ss).outcome with
    | error e => simp [hw, Except.map]
    | ok ms' => simp [hw, Except.map]

theorem length_of_walk (h : (u.walk path o on ss).outcome = .ok ms) : ms.length = ss.length := by
  induction ss generalizing on ms with
  | nil => cases h; rfl
  | cons s ss ih =>
    obtain ⟨m, ms', -, hw, rfl⟩ := walk_cons_eq_ok_iff.1 h
    rw [List.length_cons, List.length_cons, ih hw]

theorem chainOf_eq_ok_iff {e : Expression} {c : Chain} : (u.chainOf e o on).outcome = .ok c ↔
    (u.walk e.text o on e.segments.toList).outcome = .ok c.members := by
  rw [chainOf]
  cases hw : (u.walk e.text o on e.segments.toList).outcome with
  | error e => simp [Except.bind]
  | ok ms =>
    simp only [Except.bind, Except.ok.injEq]
    constructor
    · intro h
      split at h
      · rename_i hc
        cases h
        exact (Chain.members_of_ofMembers? hc).symm
      · cases h
    · rintro rfl
      rw [Chain.ofMembers?_members]

theorem chainOf_eq_error_iff {e : Expression} (h : e.segments.toList ≠ []) :
    (u.chainOf e o on).outcome = .error err ↔
      (u.walk e.text o on e.segments.toList).outcome = .error err := by
  cases hw : (u.walk e.text o on e.segments.toList).outcome with
  | error err' => simp [chainOf, hw, Except.bind]
  | ok ms =>
    have hne : ms ≠ [] := by
      rintro rfl
      exact h (List.length_eq_zero_iff.1 (length_of_walk hw).symm)
    obtain ⟨c, hc⟩ := Option.ne_none_iff_exists'.1 (mt Chain.ofMembers?_eq_none_iff.1 hne)
    simp [chainOf, hw, Except.bind, hc]

/-! ### The members of a walk -/

theorem offers_of_choose {s : Segment} {m : Member}
    (h : (u.choose path o on s).outcome = .ok m) : u.Offers on m := by
  rcases found_of_choose h with ⟨name, -, hm⟩ | ⟨c, -, hm⟩
  · exact offers_of_memberNamed? hm
  · exact offers_of_mem_membersOfType hm

/-- Each of the members is declared in the hierarchy of the type that the member in front of it
gives, the first in the hierarchy of `t`. -/
inductive Linked (u : Universe) : Ty → List Member → Prop
  | nil (t : Ty) : Linked u t []
  | cons {t : Ty} {m : Member} {ms : List Member} :
      u.Offers t m → Linked u m.target ms → Linked u t (m :: ms)

/-- The type on which a walk from `t` looks for the member behind `ms`. -/
def typeAfter (t : Ty) (ms : List Member) : Ty :=
  ms.foldl (fun _ m => m.target) t

theorem typeAfter_members (t : Ty) (c : Chain) : typeAfter t c.members = c.target := by
  simp [typeAfter, Chain.members, Chain.target]

theorem linked_append {t : Ty} {before after : List Member} :
    u.Linked t (before ++ after) ↔ u.Linked t before ∧ u.Linked (typeAfter t before) after := by
  induction before generalizing t with
  | nil => exact ⟨fun h => ⟨.nil t, h⟩, And.right⟩
  | cons m before ih =>
    constructor
    · rintro (_ | ⟨hm, h⟩)
      obtain ⟨hb, ha⟩ := ih.1 h
      exact ⟨.cons hm hb, ha⟩
    · rintro ⟨_ | ⟨hm, hb⟩, ha⟩
      exact .cons hm (ih.2 ⟨hb, ha⟩)

theorem linked_walk (h : (u.walk path o on ss).outcome = .ok ms) : u.Linked on ms := by
  induction ss generalizing on ms with
  | nil => cases h; exact .nil on
  | cons s ss ih =>
    obtain ⟨m, ms', hm, hw, rfl⟩ := walk_cons_eq_ok_iff.1 h
    exact .cons (offers_of_choose hm) (ih hw)

theorem linked_chainOf {e : Expression} {t : Ty} {c : Chain}
    (h : (u.chainOf e o t).outcome = .ok c) : u.Linked t c.members :=
  linked_walk (chainOf_eq_ok_iff.1 h)

/-! ### The records of a walk -/

theorem isStep_of_mem_choose {s : Segment} {r : Record}
    (h : r ∈ (u.choose path o on s).records) : r.IsStep path := by
  have hs := u.chooses path o on s
  generalize u.choose path o on s = w at hs h
  cases hs with
  | missing => cases h
  | named =>
    rw [List.mem_singleton.1 h]
    exact .inr ⟨_, _, _, rfl⟩
  | unmatched | ambiguous =>
    rw [List.mem_singleton.1 h]
    exact .inl ⟨_, _, _, rfl⟩
  | selected =>
    simp only [List.mem_cons, List.not_mem_nil, or_false] at h
    rcases h with rfl | rfl
    · exact .inl ⟨_, _, _, rfl⟩
    · exact .inr ⟨_, _, _, rfl⟩

theorem isStep_of_mem_walk {on : Ty} {ss : List Segment} {r : Record}
    (h : r ∈ (u.walk path o on ss).records) : r.IsStep path := by
  induction ss generalizing on with
  | nil => simp [walk] at h
  | cons s ss ih =>
    simp only [walk] at h
    split at h
    · exact isStep_of_mem_choose h
    · rcases List.mem_append.1 h with h | h
      · exact isStep_of_mem_choose h
      · exact ih h

theorem overtaken_notMem_chainOf (u : Universe) (e : Expression) (o : Options) (t : Ty)
    (p : String) (t' : Ty) : .overtaken p t' ∉ (u.chainOf e o t).records := by
  intro h
  rcases isStep_of_mem_walk h with ⟨_, _, _, h⟩ | ⟨_, _, _, h⟩ <;> cases h

end Universe

end MemberPath
