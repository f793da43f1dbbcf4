import Mathlib.Data.List.Forall2
import MemberPath.Proofs.Hierarchy
import MemberPath.Proofs.SharedCalls

/-!
# The shape of resolved chains

Every chain that a resolver gives has one member per segment. A member is declared in the hierarchy
of the type that the member in front of it gives, and is what its segment asks for
(`shaped_of_reached`).
-/

namespace MemberPath

/-- The component asks for an array iff the type is one, and its name is one of the three names of
the type or, for an array, of its elements. -/
def Universe.Matches (u : Universe) (t : Ty) (c : Component) : Prop :=
  match u.shape t with
  | .array e => c.isArray = true ∧ c.typeName ∈ [u.naming.short e, u.naming.path e, u.naming.name e]
  | _ => c.isArray = false ∧ c.typeName ∈ [u.naming.short t, u.naming.path t, u.naming.name t]

/-- The member is one that the segment asks for. -/
def Segment.Fits (u : Universe) (m : Member) : Segment → Prop
  | .name n => m.name = n
  | .type c => u.Matches m.target c ∧ ∀ n, m = .method n → n.params = []

/-- What a chain for the segments `ss` on the type `t` looks like. -/
structure Chain.Follows (u : Universe) (ss : Segments) (t : Ty) (c : Chain) : Prop where
  /-- There is one member per segment, and at least one. -/
  length : c.length = c.members.length ∧ c.length = ss.toList.length ∧ 1 ≤ c.length
  /-- The members are those of the parent and then the last. -/
  parent : c.members = (c.parent?.elim [] Chain.members) ++ [c.last]
  /-- A member is looked up on a class, and declared by it or one of its superclasses. -/
  declared : ∀ before m after, c.members = before ++ m :: after →
    m.owner ∈ u.hierarchy (Universe.typeAfter t before) ∧
      ∃ k, u.class? (Universe.typeAfter t before) = some k
  target : c.target = Universe.typeAfter t c.members
  /-- In a path of names the members have the names. -/
  names : ∀ ns, ss = .names ns → c.members.map Member.name = ns
  /-- In a path of types the members give what the components ask for, without parameters. -/
  types : ∀ cs, ss = .types cs → List.Forall₂ (fun m comp =>
    u.Matches m.target comp ∧ ∀ n, m = .method n → n.params = []) c.members cs

namespace Universe
variable {u : Universe} {path : String} {o : Options} {on t : Ty} {ss : List Segment}
  {ms : List Member} {m : Member}

theorem isNamed_iff (n : Naming) (t : Ty) (name : String) :
    n.isNamed t name = true ↔ name ∈ [n.short t, n.path t, n.name t] := by
  simp only [Naming.isNamed, TypeNames.isNamed, Naming.short, Naming.path, Naming.name,
    Bool.or_eq_true, beq_iff_eq, List.mem_cons, List.not_mem_nil, or_false, or_assoc,
    @eq_comm _ name]

theorem answers_iff {c : Component} :
    u.answers t c.typeName c.isArray = true ↔ u.Matches t c := by
  rw [answers, Matches]
  cases u.shape t <;> simp only [Bool.and_eq_true, Bool.not_eq_true', isNamed_iff]

theorem name_of_memberNamed? {name : String} (h : u.memberNamed? t name = some m) :
    m.name = name := by
  unfold memberNamed? at h
  split at h
  · rename_i f hf
    cases h
    obtain ⟨t', -, c, -, hf⟩ := class?_of_findSome? hf
    exact Class.name_of_field? hf
  · obtain ⟨n, hn, rfl⟩ := Option.map_eq_some_iff.1 h
    obtain ⟨t', -, c, -, hn⟩ := class?_of_findSome? hn
    exact Class.name_of_method? hn

theorem matches_of_mem_membersOfType {c : Component} {ignore : Bool}
    (h : m ∈ u.membersOfType t c ignore) :
    u.Matches m.target c ∧ ∀ n, m = .method n → n.params = [] := by
  rcases List.mem_append.1 h with h | h
  · obtain ⟨f, hf, rfl⟩ := List.mem_map.1 h
    exact ⟨answers_iff.1 (List.mem_filter.1 hf).2, fun n hn => nomatch hn⟩
  · obtain ⟨n, hn, rfl⟩ := List.mem_map.1 h
    have hy := (List.mem_filter.1 hn).2
    simp only [yields, Bool.and_eq_true, List.isEmpty_iff] at hy
    refine ⟨answers_iff.1 hy.2, fun n' hn' => ?_⟩
    cases hn'
    exact hy.1.1

theorem fits_of_choose {s : Segment} (h : (u.choose path o on s).outcome = .ok m) : s.Fits u m := by
  rcases found_of_choose h with ⟨name, rfl, hm⟩ | ⟨c, rfl, hm⟩
  · exact name_of_memberNamed? hm
  · exact matches_of_mem_membersOfType hm

theorem fits_of_walk (h : (u.walk path o on ss).outcome = .ok ms) :
    List.Forall₂ (fun m s => Segment.Fits u m s) ms ss := by
  induction ss generalizing on ms with
  | nil => cases h; exact .nil
  | cons s ss ih =>
    obtain ⟨m, ms', hm, hw, rfl⟩ := walk_cons_eq_ok_iff.1 h
    exact .cons (fits_of_choose hm) (ih hw)

/-! ### What offers a member -/

theorem Offers.owner_mem (hu : u.MembersOwned) (h : u.Offers t m) : m.owner ∈ u.hierarchy t := by
  cases m with
  | field f =>
    obtain ⟨c, hc, hf⟩ := h
    rwa [Member.owner, hu.owner_of_mem_fields hf]
  | method n =>
    obtain ⟨c, hc, hn⟩ := h
    rwa [Member.owner, hu.owner_of_mem_methods hn]

/-- Only classes declare members and have superclasses. -/
theorem class?_of_mem_hierarchy {k : Ty} (hk : k ∈ u.hierarchy t) (h : (u.class? k).isSome = true) :
    ∃ c, u.class? t = some c := by
  rcases mem_hierarchy_iff.1 hk with rfl | ⟨p, hp, -⟩
  · exact Option.isSome_iff_exists.1 h
  · rw [parent?_eq] at hp
    obtain ⟨c, hc, -⟩ := Option.bind_eq_some_iff.1 hp
    exact ⟨c, hc⟩

theorem Offers.class? (h : u.Offers t m) : ∃ c, u.class? t = some c := by
  cases m with
  | field f =>
    obtain ⟨k, hk, hf⟩ := h
    refine class?_of_mem_hierarchy hk ?_
    cases hc : u.class? k with
    | none => simp [fields, hc] at hf
    | some c => rfl
  | method n =>
    obtain ⟨k, hk, hn⟩ := h
    refine class?_of_mem_hierarchy hk ?_
    cases hc : u.class? k with
    | none => simp [methods, hc] at hn
    | some c => rfl

end Universe

/-! ### Chains -/

namespace Chain
variable {u : Universe} {t : Ty} {c : Chain}

theorem members_eq_parent (c : Chain) :
    c.members = (c.parent?.elim [] members) ++ [c.last] := by
  cases hp : c.parent? with
  | none =>
    rw [members, ofMembers?_eq_none_iff.1 hp]; rfl
  | some p =>
    rw [members, ← members_of_ofMembers? hp]; rfl

theorem length_eq (c : Chain) : c.length = c.members.length := by
  simp [length, members]

theorem follows_of_chainOf (hu : u.MembersOwned) {e : Expression} {o : Options}
    (h : (u.chainOf e o t).outcome = .ok c) : c.Follows u e.segments t := by
  have hw := Universe.chainOf_eq_ok_iff.1 h
  have hfits := Universe.fits_of_walk hw
  have hlen := Universe.length_of_walk hw
  refine ⟨⟨c.length_eq, c.length_eq.trans hlen, Nat.le_add_left ..⟩, c.members_eq_parent, ?_,
    (Universe.typeAfter_members t c).symm, ?_, ?_⟩
  · intro before m after hm
    have hlinked := Universe.linked_chainOf h
    rw [hm] at hlinked
    cases (Universe.linked_append.1 hlinked).2 with
    | cons hoffers _ => exact ⟨hoffers.owner_mem hu, hoffers.class?⟩
  · intro ns hns
    rw [hns] at hfits
    have hnames := List.forall₂_map_right_iff.1 hfits
    exact List.forall₂_eq_eq_eq ▸ List.forall₂_map_left_iff.2 hnames
  · intro cs hcs
    rw [hcs] at hfits
    exact List.forall₂_map_right_iff.1 hfits

end Chain

/-- Everything that a resolver gives has the shape that its text asks for: the answers to requests,
and those of calls that share the resolver. -/
structure Resolver.Shaped (u : Universe) (r : Resolver) : Prop where
  parsed : Segments.ofString r.expression.text = .ok r.expression.segments
  resolved : ∀ (v : Value) x, (r.resolve u v).outcome = .ok x →
    x.chain.Follows u r.expression.segments v.ty
  shared : ∀ ts schedule (i : Nat) (c : Call) x, (r.share u ts schedule).calls[i]? = some c →
    c.outcome? = some (.ok x) → x.chain.Follows u r.expression.segments c.target

/-- Every resolver that a program can come by gives chains of the right shape only. -/
theorem Resolver.shaped_of_reached {u : Universe} {r : Resolver} (h : r.Reached u)
    (hu : u.MembersOwned) : r.Shaped u where
  parsed := h.parsed
  resolved v x hx := by
    obtain ⟨ignore, hc⟩ := h.sound.walked_of_resolve hx
    exact Chain.follows_of_chainOf hu hc
  shared ts schedule i c x hc hx := by
    -- the answer of the call is stored, and sharing a resolver keeps its store sound
    have hst := Calls.settled_after hc
    simp only [Call.Settled, phase_of_outcome? hx] at hst
    obtain ⟨ignore, hw⟩ := (Reached.shared ts schedule h).sound.walked c.target x hst
    exact Chain.follows_of_chainOf hu hw

namespace Sample

theorem membersOwned_world : world.MembersOwned := by
  refine Universe.membersOwned_of_owns fun id => ?_
  have hall : (definitions.zipIdx.all fun (d, id) => d.owns id) = true := by decide
  show (definitions.toArray.getD id .vacant).owns id = true
  rw [Array.getD_eq_getD_getElem?, List.getElem?_toArray]
  cases hd : definitions[id]? with
  | none => rfl
  | some d => exact List.all_eq_true.1 hall (d, id) (List.mem_zipIdx_iff_getElem?.2 hd)

/-- The pet of a boss is found in its own class, the number of the pet in that of all creatures. -/
theorem shaped_of_reached_boss :
    let start : Resolver :=
      ⟨⟨"[Mob].[u32]", .types [⟨"Mob", false⟩, ⟨"u32", false⟩]⟩, ⟨.last, true⟩, .empty⟩
    let target : Value := .object boss [none, none] none ""
    let r := (start.serve world (.setIgnoreToString false)).resolver
    r.Reached world ∧ world.MembersOwned ∧
      ∃ x, (r.resolve world target).outcome = .ok x ∧
        x.chain.members.map (fun m => (m.owner, m.name)) =
          [(.defined boss, "pet"), (.defined entity, "id")] ∧
        x.chain.Follows world start.expression.segments (.defined boss) := by
  intro start target r
  have hmade : Resolver.ofString "[Mob].[u32]" ⟨.last, true⟩ = .ok start := rfl
  have h : r.Reached world := .served (.setIgnoreToString false) (.made hmade)
  have hr : (r.resolve world target).outcome.toOption.map
      (fun x => x.chain.members.map fun m => (m.owner, m.name)) =
        some [(.defined boss, "pet"), (.defined entity, "id")] := by decide +kernel
  obtain ⟨x, hx, hm⟩ := Option.map_eq_some_iff.1 hr
  have hx : (r.resolve world target).outcome = .ok x := by
    cases ho : (r.resolve world target).outcome with
    | error err => rw [ho] at hx; cases hx
    | ok y => rw [ho] at hx; cases hx; rfl
  exact ⟨h, membersOwned_world, x, hx, hm,
    (Resolver.shaped_of_reached h membersOwned_world).resolved target x hx⟩

end Sample

end MemberPath
