import MemberPath.Proofs.TypeLookup

/-!
# Leaving `to_string` out

Lookup by type can be told to pass over the methods called `to_string`. That takes just these off
every list of candidates (`membersOfType_ignoring`), so a chain that does without them is found with
and without the option, under every strategy, and one that is found with the option has none of
them (`excludes_toString`).
-/

namespace MemberPath

/-- The member is a method called `to_string`. -/
def Member.isToString (m : Member) : Bool :=
  m.isMethod && m.name == "to_string"

theorem Member.isToString_method {n : Method} :
    (Member.method n).isToString = true ↔ n.name = "to_string" := by
  simp [isToString, isMethod, name]

namespace Universe
variable {u : Universe} {path : String} {strategy : Strategy} {on t : Ty} {c : Component}
  {ss : List Segment} {cs : List Component} {m : Member} {ms : List Member}

/-- What it means for lookup by type to leave methods called `to_string` out. -/
structure ExcludesToString (u : Universe) : Prop where
  /-- The other candidates stay, in their order. -/
  candidates : ∀ t c, u.membersOfType t c true =
    (u.membersOfType t c false).filter (!·.isToString)
  /-- Those that go are the methods of the hierarchy that have the name and would be found. -/
  excluded : ∀ t c m, m ∈ u.membersOfType t c false ∧ m.isToString = true ↔
    ∃ n, m = .method n ∧ n.name = "to_string" ∧ n.params = [] ∧ u.Matches n.result c ∧
      ∃ k ∈ u.hierarchy t, n ∈ u.methods k
  fields : ∀ t c f, .field f ∈ u.membersOfType t c true ↔ .field f ∈ u.membersOfType t c false
  absent : ∀ e cs strategy t chain, e.segments = .types cs →
    (u.chainOf e ⟨strategy, true⟩ t).outcome = .ok chain →
    ∀ m ∈ chain.members, m.isToString = false
  kept : ∀ e strategy t chain, (u.chainOf e ⟨strategy, false⟩ t).outcome = .ok chain →
    (∀ m ∈ chain.members, m.isToString = false) →
    (u.chainOf e ⟨strategy, true⟩ t).outcome = .ok chain

/-! ### Candidates -/

theorem gives_ignoring (u : Universe) (c : Component) (m : Member) :
    u.gives c true m = (!m.isToString && u.gives c false m) := by
  cases m with
  | field f => simp [gives, Member.isToString, Member.isMethod]
  | method m =>
    simp only [gives, yields, hiddenName, Member.isToString, Member.isMethod, Member.name,
      Bool.true_and, Bool.false_and, Bool.not_false, Bool.and_true]
    cases m.params.isEmpty <;> simp

theorem membersOfType_ignoring (u : Universe) (t : Ty) (c : Component) :
    u.membersOfType t c true = (u.membersOfType t c false).filter (!·.isToString) := by
  rw [membersOfType_eq_filter, membersOfType_eq_filter, List.filter_map, List.filter_filter]
  congr 2
  funext x
  exact gives_ignoring u c x.2

theorem mem_membersOfType_ignoring_iff : m ∈ u.membersOfType t c true ↔
    m ∈ u.membersOfType t c false ∧ m.isToString = false := by
  rw [membersOfType_ignoring, List.mem_filter, Bool.not_eq_true']

theorem mem_membersOfType_method_iff {n : Method} :
    .method n ∈ u.membersOfType t c false ↔
      n.params = [] ∧ u.Matches n.result c ∧ ∃ k ∈ u.hierarchy t, n ∈ u.methods k := by
  simp [membersOfType, yields, answers_iff, and_comm, and_assoc]

/-! ### Walks -/

theorem choose_ignoring {s : Segment}
    (h : (u.choose path ⟨strategy, false⟩ on s).outcome = .ok m) (hm : m.isToString = false) :
    (u.choose path ⟨strategy, true⟩ on s).outcome = .ok m := by
  cases s with
  | name n => exact h
  | type c =>
    rw [choose_type_eq_ok_iff] at h ⊢
    rw [membersOfType_ignoring]
    exact Strategy.select_filter h (by rw [hm]; rfl)

theorem walk_ignoring (h : (u.walk path ⟨strategy, false⟩ on ss).outcome = .ok ms)
    (hms : ∀ m ∈ ms, m.isToString = false) :
    (u.walk path ⟨strategy, true⟩ on ss).outcome = .ok ms := by
  induction ss generalizing on ms with
  | nil => exact h
  | cons s ss ih =>
    obtain ⟨m, ms', hm, hw, rfl⟩ := walk_cons_eq_ok_iff.1 h
    obtain ⟨hfirst, hrest⟩ := List.forall_mem_cons.1 hms
    exact walk_cons_eq_ok_iff.2 ⟨m, ms', choose_ignoring hm hfirst, ih hw hrest, rfl⟩

theorem isToString_of_walk
    (h : (u.walk path ⟨strategy, true⟩ on (cs.map .type)).outcome = .ok ms) :
    ∀ m ∈ ms, m.isToString = false := by
  induction cs generalizing on ms with
  | nil =>
    cases h
    exact fun m hm => absurd hm List.not_mem_nil
  | cons c cs ih =>
    obtain ⟨m, ms', hm, hw, rfl⟩ := walk_cons_eq_ok_iff.1 h
    have hmem := Strategy.mem_of_select (choose_type_eq_ok_iff.1 hm)
    exact List.forall_mem_cons.2 ⟨(mem_membersOfType_ignoring_iff.1 hmem).2, ih hw⟩

theorem excludes_toString (u : Universe) : u.ExcludesToString where
  candidates := membersOfType_ignoring u
  excluded t c m := by
    constructor
    · rintro ⟨hm, hs⟩
      cases m with
      | field f => cases hs
      | method n =>
        obtain ⟨hp, hr, hk⟩ := mem_membersOfType_method_iff.1 hm
        exact ⟨n, rfl, Member.isToString_method.1 hs, hp, hr, hk⟩
    · rintro ⟨n, rfl, hn, h⟩
      exact ⟨mem_membersOfType_method_iff.2 h, Member.isToString_method.2 hn⟩
  fields t c f := mem_membersOfType_ignoring_iff.trans (and_iff_left rfl)
  absent e cs strategy t chain hcs h := by
    have hw := chainOf_eq_ok_iff.1 h
    rw [hcs] at hw
    exact isToString_of_walk hw
  kept e strategy t chain h hms :=
    chainOf_eq_ok_iff.2 (walk_ignoring (chainOf_eq_ok_iff.1 h) hms)

end Universe

namespace Sample

/-- Tags have a text, and show it as a string. -/
def tags : Universe where
  definition
    | 0 => classOf 0 "fixtures" "Tag" [("text", .text, false)]
        [getter 0 "to_string" .text (slotOf 0)] none
    | _ => .vacant
  rank _ := 0
  rank_lt t p h := by
    match t with
    | .defined 0 | .defined (_ + 1) => cases h

def tagText : Expression := ⟨"[String]", .types [⟨"String", false⟩]⟩

def textChain : Chain := ⟨[], .field (.ofSlot (.defined 0) 0 "text" .text false)⟩

/-- The first string of a tag is its text, with and without the option. The last is `to_string`
unless that is left out, and then it is the text as well. -/
theorem excludes_toString_tag :
    (tags.chainOf tagText ⟨.first, false⟩ (.defined 0)).outcome = .ok textChain ∧
      (tags.chainOf tagText ⟨.first, true⟩ (.defined 0)).outcome = .ok textChain ∧
      ((tags.membersOfType (.defined 0) ⟨"String", false⟩ false).map Member.name =
        ["text", "to_string"]) ∧
      (tags.chainOf tagText ⟨.last, true⟩ (.defined 0)).outcome = .ok textChain ∧
      ∀ m ∈ textChain.members, m.isToString = false := by
  have hfirst : (tags.chainOf tagText ⟨.first, false⟩ (.defined 0)).outcome = .ok textChain := rfl
  have hlast : (tags.chainOf tagText ⟨.last, true⟩ (.defined 0)).outcome = .ok textChain := rfl
  have hms := tags.excludes_toString.absent tagText _ .last (.defined 0) textChain rfl hlast
  exact ⟨hfirst, tags.excludes_toString.kept tagText .first (.defined 0) textChain hfirst hms,
    by decide, hlast, hms⟩

end Sample

end MemberPath
