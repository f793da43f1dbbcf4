import Mathlib.Data.Prod.Lex
import Mathlib.Order.Bounds.Basic
import MemberPath.Proofs.ChainShape
import MemberPath.Sample

/-!
# Looking members up by type

The declarations of a hierarchy stand at places, which are ordered: fields before methods, then by
the distance of the class, then in the order of declaration. The candidates for a component are
listed in that order, each place once and none left out, so the first is the least of them and the
last the greatest (`finds_by_type`).
-/

namespace MemberPath

/-- Where a member is declared in a hierarchy: whether it is a method, how far up its class is, and
its position there. -/
structure Place where
  isMethod : Bool
  distance : Nat
  position : Nat

namespace Place

def key (p : Place) : Bool ×ₗ Nat ×ₗ Nat := toLex (p.isMethod, toLex (p.distance, p.position))

theorem key_injective : Function.Injective key := by
  rintro ⟨b, d, i⟩ ⟨b', d', i'⟩ h
  simpa [key] using h

instance : LinearOrder Place := LinearOrder.lift' key key_injective

/-- Fields stand before methods, nearer classes before those further up. -/
theorem lt_iff {p q : Place} : p < q ↔ p.isMethod < q.isMethod ∨ p.isMethod = q.isMethod ∧
    (p.distance < q.distance ∨ p.distance = q.distance ∧ p.position < q.position) := by
  show key p < key q ↔ _
  simp [key, Prod.Lex.toLex_lt_toLex]

end Place

namespace Universe
variable {u : Universe} {t : Ty} {c : Component} {ignore isMethod : Bool} {m : Member}

/-- The fields or the methods that a type declares itself. -/
def declared (u : Universe) (isMethod : Bool) (t : Ty) : List Member :=
  if isMethod then (u.methods t).map .method else (u.fields t).map .field

def memberAt? (u : Universe) (t : Ty) (p : Place) : Option Member := do
  (u.declared p.isMethod (← u.above? p.distance t))[p.position]?

/-- The member gives what the component asks for, and may be found by it. -/
def Gives (u : Universe) (c : Component) (ignore : Bool) : Member → Prop
  | .field f => u.Matches f.ty c
  | .method m =>
    m.params = [] ∧ ¬ (ignore = true ∧ m.name = "to_string") ∧ u.Matches m.result c

/-- The places above `t` of the members that the component asks for. -/
def candidates (u : Universe) (t : Ty) (c : Component) (ignore : Bool) : Set Place :=
  {p | ∃ m, u.memberAt? t p = some m ∧ u.Gives c ignore m}

/-- The list of candidates has the members at these places, which are all there are, in order. -/
structure Listing (u : Universe) (t : Ty) (c : Component) (ignore : Bool) (places : List Place) :
    Prop where
  ordered : places.Pairwise (· < ·)
  complete : ∀ p, p ∈ places ↔ p ∈ u.candidates t c ignore
  members : places.map (u.memberAt? t) = (u.membersOfType t c ignore).map some

/-- What a component finds on `t`, under each of the strategies. -/
structure FindsByType (u : Universe) (t : Ty) (c : Component) (ignore : Bool) : Prop where
  listed : ∃ places, u.Listing t c ignore places
  first : ∀ path m, (u.choose path ⟨.first, ignore⟩ t (.type c)).outcome = .ok m ↔
    ∃ p, IsLeast (u.candidates t c ignore) p ∧ u.memberAt? t p = some m
  last : ∀ path m, (u.choose path ⟨.last, ignore⟩ t (.type c)).outcome = .ok m ↔
    ∃ p, IsGreatest (u.candidates t c ignore) p ∧ u.memberAt? t p = some m
  only : ∀ path m, (u.choose path ⟨.exact, ignore⟩ t (.type c)).outcome = .ok m ↔
    ∃ p, u.candidates t c ignore = {p} ∧ u.memberAt? t p = some m
  unmatched : ∀ path strategy name on,
    (u.choose path ⟨strategy, ignore⟩ t (.type c)).outcome = .error (.noTypeMatch name on) ↔
      name = c.typeName ∧ on = t ∧ u.candidates t c ignore = ∅

/-! ### The members of a hierarchy with their places -/

/-- The fields or the methods of a hierarchy, each with its place. -/
def placed (u : Universe) (isMethod : Bool) (t : Ty) : List (Place × Member) :=
  (u.hierarchy t).zipIdx.flatMap fun k =>
    (u.declared isMethod k.1).zipIdx.map fun m => (⟨isMethod, k.2, m.2⟩, m.1)

theorem mem_placed_iff {x : Place × Member} :
    x ∈ u.placed isMethod t ↔ x.1.isMethod = isMethod ∧ u.memberAt? t x.1 = some x.2 := by
  obtain ⟨⟨b, d, i⟩, m⟩ := x
  simp only [placed, List.mem_flatMap, List.mem_map, List.mem_zipIdx_iff_getElem?, Prod.exists,
    Prod.mk.injEq, Place.mk.injEq, memberAt?, getElem?_hierarchy, Option.bind_eq_bind,
    Option.bind_eq_some_iff]
  constructor
  · rintro ⟨k, d', hk, m', i', hm, ⟨rfl, rfl, rfl⟩, rfl⟩
    exact ⟨rfl, k, hk, hm⟩
  · rintro ⟨rfl, k, hk, hm⟩
    exact ⟨k, d, hk, m, i, hm, ⟨rfl, rfl, rfl⟩, rfl⟩

theorem pairwise_zipIdx {α : Type} (l : List α) : l.zipIdx.Pairwise (·.2 < ·.2) := by
  rw [← List.pairwise_map, List.zipIdx_map_snd]
  exact List.pairwise_lt_range'

theorem pairwise_placed (u : Universe) (isMethod : Bool) (t : Ty) :
    (u.placed isMethod t).Pairwise (·.1 < ·.1) := by
  refine List.pairwise_flatMap.2 ⟨fun k _ => List.pairwise_map.2 ?_, ?_⟩
  · refine (pairwise_zipIdx (u.declared isMethod k.1)).imp ?_
    intro m m' hlt
    exact Place.lt_iff.2 (.inr ⟨rfl, .inr ⟨rfl, hlt⟩⟩)
  · refine (pairwise_zipIdx (u.hierarchy t)).imp ?_
    intro k k' hlt x hx y hy
    obtain ⟨m, -, rfl⟩ := List.mem_map.1 hx
    obtain ⟨m', -, rfl⟩ := List.mem_map.1 hy
    exact Place.lt_iff.2 (.inr ⟨rfl, .inl hlt⟩)

theorem map_snd_placed (u : Universe) (isMethod : Bool) (t : Ty) :
    (u.placed isMethod t).map (·.2) = (u.hierarchy t).flatMap (u.declared isMethod) := by
  conv_rhs => rw [← List.zipIdx_map_fst 0 (u.hierarchy t), List.flatMap_map]
  rw [placed, List.map_flatMap]
  congr
  funext k
  rw [List.map_map]
  exact List.zipIdx_map_fst 0 (u.declared isMethod k.1)

/-- All declarations of a hierarchy in their order. -/
def allPlaced (u : Universe) (t : Ty) : List (Place × Member) :=
  u.placed false t ++ u.placed true t

theorem mem_allPlaced_iff {x : Place × Member} :
    x ∈ u.allPlaced t ↔ u.memberAt? t x.1 = some x.2 := by
  rw [allPlaced, List.mem_append, mem_placed_iff, mem_placed_iff]
  cases x.1.isMethod <;> simp

theorem pairwise_allPlaced (u : Universe) (t : Ty) : (u.allPlaced t).Pairwise (·.1 < ·.1) := by
  refine List.pairwise_append.2 ⟨pairwise_placed u false t, pairwise_placed u true t, ?_⟩
  intro x hx y hy
  refine Place.lt_iff.2 (.inl ?_)
  rw [(mem_placed_iff.1 hx).1, (mem_placed_iff.1 hy).1]
  exact Bool.false_lt_true

/-! ### The candidates among them -/

/-- The decision that lookup makes about a member. -/
def gives (u : Universe) (c : Component) (ignore : Bool) : Member → Bool
  | .field f => u.answers f.ty c.typeName c.isArray
  | .method m => u.yields c ignore m

theorem gives_iff : u.gives c ignore m = true ↔ u.Gives c ignore m := by
  cases m with
  | field f => exact answers_iff
  | method m =>
    simp only [gives, yields, Gives, Bool.and_eq_true, answers_iff, List.isEmpty_iff,
      Bool.not_eq_true', Bool.and_eq_false_iff, beq_eq_false_iff_ne, hiddenName, and_assoc,
      not_and_or, Bool.not_eq_true, ne_eq]

theorem mem_membersOfType_iff :
    m ∈ u.membersOfType t c ignore ↔ u.Offers t m ∧ u.Gives c ignore m := by
  rw [← gives_iff]
  cases m <;> simp [membersOfType, Offers, gives]

theorem membersOfType_eq_filter (u : Universe) (t : Ty) (c : Component) (ignore : Bool) :
    u.membersOfType t c ignore =
      ((u.allPlaced t).filter (u.gives c ignore ·.2)).map (·.2) := by
  have hfilter := List.filter_map (f := Prod.snd) (p := u.gives c ignore) (l := u.allPlaced t)
  have hfields : (u.hierarchy t).flatMap (u.declared false) =
      ((u.hierarchy t).flatMap u.fields).map .field := List.map_flatMap.symm
  have hmethods : (u.hierarchy t).flatMap (u.declared true) =
      ((u.hierarchy t).flatMap u.methods).map .method := List.map_flatMap.symm
  rw [allPlaced, List.map_append, map_snd_placed, map_snd_placed, List.filter_append, hfields,
    hmethods, List.filter_map, List.filter_map] at hfilter
  exact hfilter

theorem listing_allPlaced (u : Universe) (t : Ty) (c : Component) (ignore : Bool) :
    u.Listing t c ignore (((u.allPlaced t).filter (u.gives c ignore ·.2)).map (·.1)) where
  ordered := List.pairwise_map.2 ((pairwise_allPlaced u t).filter _)
  complete p := by
    simp only [List.mem_map, List.mem_filter, mem_allPlaced_iff, gives_iff]
    constructor
    · rintro ⟨⟨p', m⟩, ⟨hm, hg⟩, rfl⟩
      exact ⟨m, hm, hg⟩
    · rintro ⟨m, hm, hg⟩
      exact ⟨(p, m), ⟨hm, hg⟩, rfl⟩
  members := by
    rw [membersOfType_eq_filter, List.map_map, List.map_map]
    exact List.map_congr_left fun x hx => mem_allPlaced_iff.1 (List.mem_filter.1 hx).1

/-! ### The ends of a list in order -/

section Ordered
variable {places : List Place} {p : Place}

theorem head?_eq_some_iff_isLeast (h : places.Pairwise (· < ·)) :
    places.head? = some p ↔ IsLeast {q | q ∈ places} p := by
  cases places with
  | nil => simp [IsLeast]
  | cons a rest =>
    have hleast : IsLeast {q | q ∈ a :: rest} a := by
      refine ⟨List.mem_cons_self, fun q hq => ?_⟩
      rcases List.mem_cons.1 hq with rfl | hq
      · exact le_refl _
      · exact le_of_lt ((List.pairwise_cons.1 h).1 q hq)
    rw [List.head?_cons, Option.some_inj]
    exact ⟨fun ha => ha ▸ hleast, hleast.unique⟩

theorem getLast?_eq_some_iff_isGreatest (h : places.Pairwise (· < ·)) :
    places.getLast? = some p ↔ IsGreatest {q | q ∈ places} p := by
  rcases places.eq_nil_or_concat' with rfl | ⟨front, b, rfl⟩
  · simp [IsGreatest]
  · have hgreatest : IsGreatest {q | q ∈ front ++ [b]} b := by
      refine ⟨List.mem_append_right _ List.mem_cons_self, fun q hq => ?_⟩
      rcases List.mem_append.1 hq with hq | hq
      · exact le_of_lt ((List.pairwise_append.1 h).2.2 q hq b List.mem_cons_self)
      · exact le_of_eq (List.mem_singleton.1 hq)
    rw [List.getLast?_append, List.getLast?_singleton, Option.some_or, Option.some_inj]
    exact ⟨fun hb => hb ▸ hgreatest, hgreatest.unique⟩

theorem eq_singleton_iff_of_pairwise (h : places.Pairwise (· < ·)) :
    places = [p] ↔ {q | q ∈ places} = {p} := by
  constructor
  · rintro rfl
    simp
  · intro hset
    have hmem : ∀ q, q ∈ places ↔ q = p := fun q => Set.ext_iff.1 hset q
    match places, h with
    | [], _ => exact absurd ((hmem p).2 rfl) List.not_mem_nil
    | [a], _ => rw [(hmem a).1 List.mem_cons_self]
    | a :: b :: rest, h =>
      have hab := (List.pairwise_cons.1 h).1 b List.mem_cons_self
      rw [(hmem a).1 (by simp), (hmem b).1 (by simp)] at hab
      exact absurd hab (lt_irrefl p)

end Ordered

namespace Listing
variable {places : List Place} (h : u.Listing t c ignore places)
include h

theorem setOf_mem : {p | p ∈ places} = u.candidates t c ignore := Set.ext h.complete

omit h in
theorem eq_some_iff_of_map_eq {place : Option Place} {found : Option Member}
    (h : place.map (u.memberAt? t) = found.map some) :
    found = some m ↔ ∃ p, place = some p ∧ u.memberAt? t p = some m := by
  cases place with
  | none =>
    have hnone : found = none := Option.map_eq_none_iff.1 h.symm
    simp [hnone]
  | some p =>
    obtain ⟨m', hm', hp⟩ := Option.map_eq_some_iff.1 h.symm
    simp [hm', ← hp]

theorem head?_eq_some_iff : (u.membersOfType t c ignore).head? = some m ↔
    ∃ p, IsLeast (u.candidates t c ignore) p ∧ u.memberAt? t p = some m := by
  have hhead := congrArg List.head? h.members
  rw [List.head?_map, List.head?_map] at hhead
  simp only [← h.setOf_mem, ← head?_eq_some_iff_isLeast h.ordered]
  exact eq_some_iff_of_map_eq hhead

theorem getLast?_eq_some_iff : (u.membersOfType t c ignore).getLast? = some m ↔
    ∃ p, IsGreatest (u.candidates t c ignore) p ∧ u.memberAt? t p = some m := by
  have hlast := congrArg List.getLast? h.members
  rw [List.getLast?_map, List.getLast?_map] at hlast
  simp only [← h.setOf_mem, ← getLast?_eq_some_iff_isGreatest h.ordered]
  exact eq_some_iff_of_map_eq hlast

theorem eq_singleton_iff : u.membersOfType t c ignore = [m] ↔
    ∃ p, u.candidates t c ignore = {p} ∧ u.memberAt? t p = some m := by
  simp only [← h.setOf_mem, ← eq_singleton_iff_of_pairwise h.ordered]
  constructor
  · intro hm
    have hmap := h.members
    rw [hm, List.map_singleton, List.map_eq_singleton_iff] at hmap
    exact hmap
  · rintro ⟨p, rfl, hp⟩
    have hmap := h.members
    rw [List.map_singleton, hp, eq_comm, List.map_eq_singleton_iff] at hmap
    obtain ⟨m', hm, hm'⟩ := hmap
    rw [hm, Option.some_inj.1 hm']

theorem eq_nil_iff : u.membersOfType t c ignore = [] ↔ u.candidates t c ignore = ∅ := by
  rw [← List.map_eq_nil_iff (f := some), ← h.members, List.map_eq_nil_iff, ← h.setOf_mem,
    Set.eq_empty_iff_forall_notMem, List.eq_nil_iff_forall_not_mem]
  rfl

end Listing

theorem finds_by_type (u : Universe) (t : Ty) (c : Component) (ignore : Bool) :
    u.FindsByType t c ignore where
  listed := ⟨_, listing_allPlaced u t c ignore⟩
  first _ _ := choose_type_eq_ok_iff.trans (listing_allPlaced u t c ignore).head?_eq_some_iff
  last _ _ := choose_type_eq_ok_iff.trans (listing_allPlaced u t c ignore).getLast?_eq_some_iff
  only _ _ := choose_type_eq_ok_iff.trans
    (Strategy.select_exact_eq_some_iff.trans (listing_allPlaced u t c ignore).eq_singleton_iff)
  unmatched path strategy name on := by
    rw [choose_type_eq_error_iff, ← (listing_allPlaced u t c ignore).eq_nil_iff]
    simp only [PathError.noTypeMatch.injEq, reduceCtorEq, and_false, or_false]
    exact and_comm.trans and_assoc

/-- A field that hides another does not take it off the list. -/
example : (Sample.world.membersOfType (.defined Sample.boss) ⟨"u32", false⟩ true).map
    (fun m => (m.owner, m.name)) =
      [(.defined Sample.mob, "id"), (.defined Sample.entity, "id")] := by
  decide

end Universe

end MemberPath
