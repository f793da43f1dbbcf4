import Mathlib.Data.List.Nodup
import MemberPath.Class.Invoke
import MemberPath.Proofs.Substitution

/-!
# The search for the part of a class

`upcast` goes from a value to its base, to the base of that, and so on. `part?` are the values on
this way and `Seeks` the steps of the search. It ends on every value, since a base is smaller than
what it is a base of, and finds the first value of the asked type. Where the bases are those that
the types declare, the values on the way have the types of the hierarchy (`upcast_finds`).
-/

namespace MemberPath

namespace Value
variable {parent : Ty → Option Ty} {u : Universe} {c : Ty} {v b w : Value}
  {r : Option Value} {n : Nat}

/-- The value `n` superclass links away from `v`, each followed from the type of the value at
hand. -/
def part? (parent : Ty → Option Ty) : Nat → Value → Option Value
  | 0, v => some v
  | n + 1, v => (v.superPart? parent v.ty).bind (part? parent n)

/-- How the search for a value of type `c` goes on from `v`, and what it ends with. -/
inductive Seeks (parent : Ty → Option Ty) (c : Ty) : Value → Option Value → Prop
  | found {v : Value} : v.ty = c → Seeks parent c v (some v)
  | stuck {v : Value} : v.ty ≠ c → v.superPart? parent v.ty = none → Seeks parent c v none
  | onward {v b : Value} {r : Option Value} : v.ty ≠ c → v.superPart? parent v.ty = some b →
      Seeks parent c b r → Seeks parent c v r

/-- The first value of type `c` on the way from `v` is `w`, after `n` links. -/
structure FirstPart (parent : Ty → Option Ty) (c : Ty) (v : Value) (n : Nat) (w : Value) :
    Prop where
  reached : v.part? parent n = some w
  ty : w.ty = c
  first : ∀ m < n, ∀ x, v.part? parent m = some x → x.ty ≠ c

/-- What the search for parts of `v` comes to, along any superclass links. -/
structure UpcastFinds (v : Value) (parent : Ty → Option Ty) : Prop where
  finite : ∃ n, v.part? parent n = none
  /-- The search ends for every type, and in one way only. -/
  ends : ∀ c r, Seeks parent c v r ↔ r = v.upcast parent c
  found : ∀ c w, v.upcast parent c = some w ↔ ∃ n, FirstPart parent c v n w
  missing : ∀ c, v.upcast parent c = none ↔ ∀ n w, v.part? parent n = some w → w.ty ≠ c
  /-- What a getter does with values of other types than its owner does not matter. -/
  read : ∀ (f : Field) (get : Value → Option Value), (∀ w, w.ty = f.owner → get w = f.get w) →
    Field.readAlong parent { f with get } v = f.readAlong parent v
  /-- What a method does with receivers of other types than its owner does not matter. -/
  call : ∀ (m : Method) (run : Value → Args → Except CallError Value),
    (∀ w args, w.ty = m.owner → run w args = m.run w args) →
    ∀ args, Method.callAlong parent { m with run } v args = m.callAlong parent v args

/-- The search for parts of `v` finds the classes of its hierarchy, each at its distance. -/
structure UpcastFollows (v : Value) (u : Universe) : Prop where
  types : ∀ n, (v.part? u.parent? n).map ty = (u.hierarchy v.ty)[n]?
  succeeds : ∀ c, (u.upcast c v).isSome ↔ c ∈ u.hierarchy v.ty
  depth : ∀ n c, (u.hierarchy v.ty)[n]? = some c →
    ∃ w, u.upcast c v = some w ∧ FirstPart u.parent? c v n w

/-! ### Following the bases -/

/-- Induction along bases; it is the values that get smaller, whatever their types are. -/
theorem base_induction {P : Value → Prop} (parent : Ty → Option Ty)
    (h : ∀ v, (∀ b, v.superPart? parent v.ty = some b → P b) → P v) (v : Value) : P v := by
  induction hn : sizeOf v using Nat.strongRecOn generalizing v with
  | ind n ih =>
    subst hn
    exact h v fun b hb => ih (sizeOf b) (sizeOf_superPart?_lt hb) b rfl

theorem part?_succ (h : v.superPart? parent v.ty = some b) (n : Nat) :
    v.part? parent (n + 1) = b.part? parent n := by
  rw [part?, h, Option.bind_some]

theorem part?_succ_of_none (h : v.superPart? parent v.ty = none) (n : Nat) :
    v.part? parent (n + 1) = none := by
  rw [part?, h, Option.bind_none]

theorem exists_part?_eq_none (v : Value) (parent : Ty → Option Ty) :
    ∃ n, v.part? parent n = none := by
  induction v using base_induction parent with
  | h v ih =>
    cases hb : v.superPart? parent v.ty with
    | none => exact ⟨1, part?_succ_of_none hb 0⟩
    | some b =>
      obtain ⟨n, hn⟩ := ih b hb
      exact ⟨n + 1, (part?_succ hb n).trans hn⟩

/-! ### The search -/

theorem seeks_upcast (parent : Ty → Option Ty) (c : Ty) (v : Value) :
    Seeks parent c v (v.upcast parent c) := by
  induction v using base_induction parent with
  | h v ih =>
    by_cases hc : v.ty = c
    · rw [upcast_self hc]
      exact .found hc
    · cases hb : v.superPart? parent v.ty with
      | none =>
        rw [upcast_of_superPart?_eq_none hc hb]
        exact .stuck hc hb
      | some b =>
        rw [upcast_superPart? hc hb]
        exact .onward hc hb (ih b hb)

theorem Seeks.eq_upcast (h : Seeks parent c v r) : r = v.upcast parent c := by
  induction h with
  | found hc => exact (upcast_self hc).symm
  | stuck hc hb => exact (upcast_of_superPart?_eq_none hc hb).symm
  | onward hc hb _ ih => exact ih.trans (upcast_superPart? hc hb).symm

theorem FirstPart.onward (h : FirstPart parent c b n w) (hc : v.ty ≠ c)
    (hb : v.superPart? parent v.ty = some b) : FirstPart parent c v (n + 1) w where
  reached := (part?_succ hb n).trans h.reached
  ty := h.ty
  first
    | 0, _, x, hx => by
      cases hx
      exact hc
    | m + 1, hm, x, hx => h.first m (Nat.lt_of_succ_lt_succ hm) x ((part?_succ hb m).symm.trans hx)

theorem exists_firstPart (h : v.upcast parent c = some w) : ∃ n, FirstPart parent c v n w := by
  -- the number of links is the number of steps that the search takes
  have hs := seeks_upcast parent c v
  rw [h] at hs
  generalize hr : some w = r at hs
  induction hs with
  | found hc =>
    cases hr
    exact ⟨0, rfl, hc, fun m hm => absurd hm (Nat.not_lt_zero m)⟩
  | stuck => cases hr
  | onward hc hb hs ih =>
    obtain ⟨n, hn⟩ := ih (hs.eq_upcast.symm.trans hr.symm) hr
    exact ⟨n + 1, hn.onward hc hb⟩

theorem FirstPart.upcast_eq (h : FirstPart parent c v n w) : v.upcast parent c = some w := by
  induction n generalizing v with
  | zero =>
    cases h.reached
    exact upcast_self h.ty
  | succ n ih =>
    have hc : v.ty ≠ c := h.first 0 (Nat.succ_pos n) v rfl
    cases hb : v.superPart? parent v.ty with
    | none =>
      have hw := h.reached
      rw [part?_succ_of_none hb] at hw
      cases hw
    | some b =>
      rw [upcast_superPart? hc hb]
      refine ih ⟨(part?_succ hb n).symm.trans h.reached, h.ty, fun m hm x hx => ?_⟩
      exact h.first (m + 1) (Nat.succ_lt_succ hm) x ((part?_succ hb m).trans hx)

theorem upcast_eq_some_iff : v.upcast parent c = some w ↔ ∃ n, FirstPart parent c v n w :=
  ⟨exists_firstPart, fun ⟨_, h⟩ => h.upcast_eq⟩

theorem upcast_eq_none_iff :
    v.upcast parent c = none ↔ ∀ n w, v.part? parent n = some w → w.ty ≠ c := by
  constructor
  · intro h
    induction v using base_induction parent with
    | h v ih =>
      have hc : v.ty ≠ c := by
        intro hc
        rw [upcast_self hc] at h
        cases h
      rintro (_ | n) w hw
      · cases hw
        exact hc
      · cases hb : v.superPart? parent v.ty with
        | none =>
          rw [part?_succ_of_none hb] at hw
          cases hw
        | some b =>
          rw [part?_succ hb] at hw
          exact ih b hb ((upcast_superPart? hc hb).symm.trans h) n w hw
  · intro h
    rw [Option.eq_none_iff_forall_ne_some]
    intro w hw
    obtain ⟨n, hn⟩ := exists_firstPart hw
    exact h n w hn.reached hn.ty

theorem finds_parts (v : Value) (parent : Ty → Option Ty) : v.UpcastFinds parent where
  finite := exists_part?_eq_none v parent
  ends c r := ⟨Seeks.eq_upcast, fun h => h ▸ seeks_upcast parent c v⟩
  found _ _ := upcast_eq_some_iff
  missing _ := upcast_eq_none_iff
  read f get hget := Option.bind_congr fun w hw => hget w (ty_of_upcast hw)
  call m run hrun args := by
    simp only [Method.callAlong]
    cases hw : v.upcast parent m.owner with
    | none => rfl
    | some w => simp only [hrun w _ (ty_of_upcast hw)]

/-! ### Values with the declared bases -/

theorem map_ty_part? (hv : v.Based u) (n : Nat) :
    (v.part? u.parent? n).map ty = (u.hierarchy v.ty)[n]? := by
  induction hv generalizing n with
  | @root v hp =>
    rw [Universe.hierarchy_of_parent?_eq_none hp]
    cases n with
    | zero => rfl
    | succ n => rw [part?_succ_of_none (superPart?_eq_none_iff.2 (.inl hp))]; rfl
  | @extend v b hb hp _ ih =>
    rw [Universe.hierarchy_of_parent?_eq_some hp]
    cases n with
    | zero => rfl
    | succ n =>
      have hs : (u.parent? v.ty).isSome := by rw [hp]; rfl
      rw [part?_succ (superPart?_eq_some_iff.2 ⟨hs, hb⟩), List.getElem?_cons_succ, ih]

theorem firstPart_of_getElem?_hierarchy (hv : v.Based u) (h : (u.hierarchy v.ty)[n]? = some c) :
    ∃ w, FirstPart u.parent? c v n w := by
  obtain ⟨w, hw, hty⟩ := Option.map_eq_some_iff.1 ((map_ty_part? hv n).trans h)
  refine ⟨w, hw, hty, fun m hm x hx hxc => ?_⟩
  -- no class is twice in a hierarchy
  have hm' : (u.hierarchy v.ty)[m]? = some c := by
    rw [← map_ty_part? hv, hx, Option.map_some, hxc]
  have hlt : n < (u.hierarchy v.ty).length := (List.getElem?_eq_some_iff.1 h).1
  exact List.nodup_iff_getElem?_ne_getElem?.1 (u.nodup_hierarchy v.ty) m n hm hlt
    (hm'.trans h.symm)

theorem isSome_upcast_iff (hv : v.Based u) : (u.upcast c v).isSome ↔ c ∈ u.hierarchy v.ty := by
  constructor
  · intro h
    obtain ⟨w, hw⟩ := Option.isSome_iff_exists.1 h
    obtain ⟨n, hn⟩ := exists_firstPart hw
    have hty := map_ty_part? hv n
    rw [hn.reached, Option.map_some, hn.ty] at hty
    exact List.mem_of_getElem? hty.symm
  · intro h
    obtain ⟨w, hw⟩ := Universe.exists_upcast hv h
    exact Option.isSome_iff_exists.2 ⟨w, hw⟩

theorem follows_hierarchy (hv : v.Based u) : v.UpcastFollows u where
  types := map_ty_part? hv
  succeeds _ := isSome_upcast_iff hv
  depth n c h := by
    obtain ⟨w, hw⟩ := firstPart_of_getElem?_hierarchy hv h
    exact ⟨w, hw.upcast_eq, hw⟩

/-- The search works along all superclass links. Where these end and the value has the bases that
they ask for, it goes through the hierarchy. -/
theorem upcast_finds (v : Value) :
    (∀ parent, v.UpcastFinds parent) ∧ ∀ u : Universe, v.Based u → v.UpcastFollows u :=
  ⟨v.finds_parts, fun _ => follows_hierarchy⟩

end Value

namespace Sample

/-- A boss whose base is a label, though bosses are declared to extend creatures. -/
def strayBoss : Value :=
  .object boss [some (.list (.defined entity) []), none]
    (some (.object label [some (.int .u32 3)] none "")) ""

/-- The entity of a boss is two links away. The base of a stray boss is on its way all the same, and
there is no creature on it, not even if every type extends itself. -/
theorem upcast_finds_someBoss :
    someBoss.Based world ∧
      (∃ w, world.upcast (.defined entity) someBoss = some w ∧
        someBoss.part? world.parent? 2 = some w) ∧
      (∃ n, Value.FirstPart world.parent? (.defined label) strayBoss n
        (.object label [some (.int .u32 3)] none "")) ∧
      ∀ n w, strayBoss.part? some n = some w → w.ty ≠ .defined mob := by
  obtain ⟨-, hboss⟩ := someBoss.upcast_finds
  obtain ⟨hstray, -⟩ := strayBoss.upcast_finds
  obtain ⟨w, hw, hfirst⟩ :=
    (hboss world based_someBoss).depth 2 (.defined entity) (by decide)
  refine ⟨based_someBoss, ⟨w, hw, hfirst.reached⟩, ?_, ?_⟩
  · exact ((hstray world.parent?).found _ _).1 rfl
  · exact ((hstray some).missing (.defined mob)).1 rfl

end Sample

end MemberPath
