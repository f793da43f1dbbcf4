import MemberPath.Class.Universe

/-!
# The part of a value that belongs to a superclass

An object of a class holds an object of its superclass. `upcast` follows these embedded objects
until one has the asked type. All that it asks of the types is whether they have a superclass, so
it is defined over any superclass links `parent`, also those that run in a circle.
-/

namespace MemberPath

namespace Value
variable {parent : Ty → Option Ty} {target : Ty} {v w b : Value}

/-- The first value of type `target` among `v`, its base, the base of that, and so on, as long as
the type of the value at hand has a superclass. -/
def upcast (parent : Ty → Option Ty) (target : Ty) : Value → Option Value
  | .object id slots (some base) tag =>
    if Ty.defined id = target then some (.object id slots (some base) tag)
    else if (parent (.defined id)).isSome then upcast parent target base
    else none
  | v => if v.ty = target then some v else none

/-- The superclass part of a value of exactly the type `t`. -/
def superPart? (parent : Ty → Option Ty) (t : Ty) (v : Value) : Option Value :=
  if (parent t).isSome ∧ v.ty = t then v.base? else none

theorem superPart?_eq_some_iff :
    v.superPart? parent v.ty = some b ↔ (parent v.ty).isSome ∧ v.base? = some b := by
  simp [superPart?]

theorem superPart?_eq_none_iff :
    v.superPart? parent v.ty = none ↔ parent v.ty = none ∨ v.base? = none := by
  cases hp : parent v.ty <;> simp [superPart?, hp]

theorem sizeOf_superPart?_lt (h : v.superPart? parent v.ty = some b) : sizeOf b < sizeOf v :=
  sizeOf_base?_lt (superPart?_eq_some_iff.1 h).2

theorem ty_of_upcast (h : v.upcast parent target = some w) : w.ty = target := by
  fun_induction upcast parent target v with
  | case1 id slots base tag ht =>
    cases h
    exact ht
  | case2 id slots base tag _ _ ih => exact ih h
  | case3 => cases h
  | case4 v _ ht =>
    cases h
    exact ht
  | case5 => cases h

/-! ### The steps of the search -/

theorem upcast_self (h : v.ty = target) : v.upcast parent target = some v := by
  unfold upcast
  split
  · rw [if_pos (show Ty.defined _ = target from h)]
  · rw [if_pos h]

theorem upcast_superPart? (hne : v.ty ≠ target) (h : v.superPart? parent v.ty = some b) :
    v.upcast parent target = b.upcast parent target := by
  obtain ⟨hp, hb⟩ := superPart?_eq_some_iff.1 h
  cases v with
  | object id slots base tag =>
    cases hb
    rw [upcast, if_neg (show ¬ Ty.defined id = target from hne),
      if_pos (show (parent (.defined id)).isSome = true from hp)]
  | _ => cases hb

theorem upcast_of_superPart?_eq_none (hne : v.ty ≠ target)
    (h : v.superPart? parent v.ty = none) : v.upcast parent target = none := by
  rw [superPart?_eq_none_iff] at h
  unfold upcast
  split
  · rename_i id slots base tag
    have hp : ¬ (parent (.defined id)).isSome = true := by
      rw [Option.not_isSome_iff_eq_none]
      exact h.resolve_right nofun
    rw [if_neg (show ¬ Ty.defined id = target from hne), if_neg hp]
  · rw [if_neg hne]

end Value

namespace Universe

def upcast (u : Universe) (target : Ty) (v : Value) : Option Value :=
  v.upcast u.parent? target

def superPart? (u : Universe) (t : Ty) (v : Value) : Option Value :=
  v.superPart? u.parent? t

theorem ty_of_upcast {u : Universe} {target : Ty} {v w : Value} (h : u.upcast target v = some w) :
    w.ty = target :=
  Value.ty_of_upcast h

end Universe

end MemberPath
