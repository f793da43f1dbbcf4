import Mathlib.Data.List.Forall2
import MemberPath.Value.Copy

/-!
# Copying lists of lists

A list is copied as a whole or not at all: the first item without a copy of the element type decides
(`copyItems_eq_ok_iff`, `copyItems_eq_error_iff`). Lists have copies of their own type whenever they
have any, so in lists of lists it is the first such leaf that decides, however deep it is
(`refuses_iff_of_uniform`). `copies_list` puts this together. The error is the one that this leaf
gives, and which type that names is up to the leaf (`names_neither`).
-/

namespace MemberPath

namespace Value

/-- Every list inside the value holds values of its element type only. -/
inductive Uniform : Value → Prop
  | list {e : Ty} {items : List Value} (typed : ∀ v ∈ items, v.ty = e)
    (inner : ∀ v ∈ items, Uniform v) : Uniform (.list e items)
  | leaf {v : Value} (h : ∀ e items, v ≠ .list e items) : Uniform v

mutual

/-- The leaves of an item of a list with the element type `e`, from left to right. A leaf is no list
itself, and comes with the element type of the list that holds it. -/
def leaves (e : Ty) : Value → List (Ty × Value)
  | .list e' items => leavesIn e' items
  | v => [(e, v)]

def leavesIn (e : Ty) : List Value → List (Ty × Value)
  | [] => []
  | v :: vs => v.leaves e ++ leavesIn e vs

end

theorem leaves_of_leaf {v : Value} (h : ∀ e items, v ≠ .list e items) (e : Ty) :
    v.leaves e = [(e, v)] := by
  cases v with
  | list e' items => exact absurd rfl (h e' items)
  | _ => rfl

theorem leavesIn_eq_nil_iff {e : Ty} {items : List Value} :
    leavesIn e items = [] ↔ ∀ v ∈ items, v.leaves e = [] := by
  induction items with
  | nil => simp [leavesIn]
  | cons v vs ih => rw [leavesIn, List.append_eq_nil_iff, List.forall_mem_cons, ih]

end Value

namespace Universe
open Value
variable {u : Universe} {e : Ty} {v c : Value} {vs items copies : List Value} {err : CopyError}
  {p : Ty × Value} {l l' : List (Ty × Value)}

/-- `c` is the copy of `v` in a list with the element type `e`. -/
def Accepts (u : Universe) (e : Ty) (v c : Value) : Prop :=
  u.copy v = .ok c ∧ c.ty = e

/-- `v` has no copy, or one of another type than `e`. -/
def Refuses (u : Universe) (e : Ty) (v : Value) (err : CopyError) : Prop :=
  u.copy v = .error err ∨ ∃ c, u.copy v = .ok c ∧ c.ty ≠ e ∧ err = .notCopyable (.list e)

/-- The first that is refused, of values with the element types of the lists that hold them. -/
def FirstRefusal (u : Universe) (l : List (Ty × Value)) (err : CopyError) : Prop :=
  ∃ before p after, l = before ++ p :: after ∧ (∀ q ∈ before, ∃ c, u.Accepts q.1 q.2 c) ∧
    u.Refuses p.1 p.2 err

/-- If the value has no copy, the error names its own type. -/
def BlamesItself (u : Universe) (v : Value) : Prop :=
  ∀ err, u.copy v = .error err → err = .notCopyable v.ty

/-- What comes of copying a list. -/
structure CopiesList (u : Universe) (e : Ty) (items : List Value) : Prop where
  copied_iff : ∀ w, u.copy (.list e items) = .ok w ↔
    ∃ copies, w = .list e copies ∧ List.Forall₂ (u.Accepts e) items copies
  equal : (∀ v ∈ items, ∀ c, u.copy v = .ok c → c = v) →
    ∀ w, u.copy (.list e items) = .ok w → w = .list e items
  refused_iff : ∀ err, u.copy (.list e items) = .error err ↔
    u.FirstRefusal (items.map (e, ·)) err
  refusal_text : (CopyError.notCopyable (.list e)).message u.naming =
    "`reflect_clone` is not supported for `alloc::vec::Vec<" ++ u.naming.path e ++ ">`"
  first_leaf : (Value.list e items).Uniform → ∀ err, u.copy (.list e items) = .error err ↔
    u.FirstRefusal (leavesIn e items) err
  /-- Where the leaf that decides blames itself, the error names the type of the leaf or the type of
  the innermost list. -/
  named : (Value.list e items).Uniform → ∀ err, u.copy (.list e items) = .error err →
    ∃ before p after, leavesIn e items = before ++ p :: after ∧
      (∀ q ∈ before, ∃ c, u.Accepts q.1 q.2 c) ∧ u.Refuses p.1 p.2 err ∧
      (u.BlamesItself p.2 → err = .notCopyable p.2.ty ∨ err = .notCopyable (.list p.1))
  leafless : (Value.list e items).Uniform → leavesIn e items = [] →
    u.copy (.list e items) = .ok (.list e items)

/-! ### The first refusal -/

theorem Accepts.not_refuses (h : u.Accepts e v c) : ¬ u.Refuses e v err := by
  rintro (he | ⟨c', hc, hne, -⟩)
  · rw [h.1] at he
    cases he
  · rw [h.1] at hc
    cases hc
    exact hne h.2

theorem accepts_or_refuses (u : Universe) (e : Ty) (v : Value) :
    (∃ c, u.Accepts e v c) ∨ ∃ err, u.Refuses e v err := by
  cases hv : u.copy v with
  | error err => exact .inr ⟨err, .inl hv⟩
  | ok c =>
    by_cases hc : c.ty = e
    · exact .inl ⟨c, hv, hc⟩
    · exact .inr ⟨_, .inr ⟨c, hv, hc, rfl⟩⟩

theorem Accepts.unique {c' : Value} (h : u.Accepts e v c) (h' : u.Accepts e v c') : c = c' :=
  Except.ok.inj (h.1.symm.trans h'.1)

theorem Refuses.unique {err' : CopyError} (h : u.Refuses e v err) (h' : u.Refuses e v err') :
    err = err' := by
  rcases h with h | ⟨c, hc, hne, rfl⟩ <;> rcases h' with h' | ⟨c', hc', hne', rfl⟩
  · exact Except.error.inj (h.symm.trans h')
  · cases h.symm.trans hc'
  · cases h'.symm.trans hc
  · rfl

theorem exists_accepts_iff : (∃ c, u.Accepts e v c) ↔ ∀ err, ¬ u.Refuses e v err := by
  constructor
  · rintro ⟨c, hc⟩ err
    exact hc.not_refuses
  · intro h
    rcases u.accepts_or_refuses e v with hc | ⟨err, he⟩
    · exact hc
    · exact absurd he (h err)

theorem not_firstRefusal_nil : ¬ u.FirstRefusal [] err := by
  rintro ⟨before, p, after, h, -⟩
  simp at h

theorem firstRefusal_cons_iff : u.FirstRefusal (p :: l) err ↔
    u.Refuses p.1 p.2 err ∨ (∃ c, u.Accepts p.1 p.2 c) ∧ u.FirstRefusal l err := by
  constructor
  · rintro ⟨before, q, after, h, hb, hq⟩
    cases before with
    | nil =>
      cases h
      exact .inl hq
    | cons b before =>
      cases h
      obtain ⟨hp, hb⟩ := List.forall_mem_cons.1 hb
      exact .inr ⟨hp, before, q, after, rfl, hb, hq⟩
  · rintro (hp | ⟨hp, before, q, after, rfl, hb, hq⟩)
    · exact ⟨[], p, l, rfl, fun _ h => absurd h List.not_mem_nil, hp⟩
    · exact ⟨p :: before, q, after, rfl, List.forall_mem_cons.2 ⟨hp, hb⟩, hq⟩

theorem firstRefusal_append_iff : u.FirstRefusal (l ++ l') err ↔
    u.FirstRefusal l err ∨ (∀ q ∈ l, ∃ c, u.Accepts q.1 q.2 c) ∧ u.FirstRefusal l' err := by
  induction l with
  | nil => simp [not_firstRefusal_nil]
  | cons p l ih =>
    rw [List.cons_append, firstRefusal_cons_iff, firstRefusal_cons_iff, ih, List.forall_mem_cons]
    tauto

theorem forall_accepts_iff :
    (∀ q ∈ l, ∃ c, u.Accepts q.1 q.2 c) ↔ ∀ err, ¬ u.FirstRefusal l err := by
  constructor
  · rintro h err ⟨before, p, after, rfl, -, hp⟩
    obtain ⟨c, hc⟩ := h p (by simp)
    exact hc.not_refuses hp
  · intro h
    induction l with
    | nil => exact fun _ hq => absurd hq List.not_mem_nil
    | cons p l ih =>
      simp only [firstRefusal_cons_iff, not_or] at h
      rcases u.accepts_or_refuses p.1 p.2 with hp | ⟨err, hp⟩
      · exact List.forall_mem_cons.2 ⟨hp, ih fun err hl => (h err).2 ⟨hp, hl⟩⟩
      · exact absurd hp (h err).1

/-! ### The items of a list -/

theorem map_eq_ok_iff {ε α β : Type} {f : α → β} {x : Except ε α} {y : β} :
    x.map f = .ok y ↔ ∃ a, x = .ok a ∧ f a = y := by
  cases x <;> simp [Except.map]

theorem map_eq_error_iff {ε α β : Type} {f : α → β} {x : Except ε α} {e : ε} :
    x.map f = .error e ↔ x = .error e := by
  cases x <;> simp [Except.map]

theorem copyItems_of_accepts (h : u.Accepts e v c) :
    u.copyItems e (v :: vs) = (u.copyItems e vs).map (c :: ·) := by
  simp only [copyItems, h.1, h.2, if_true]

theorem copyItems_of_refuses (h : u.Refuses e v err) : u.copyItems e (v :: vs) = .error err := by
  rcases h with hv | ⟨c, hv, hc, rfl⟩
  · simp only [copyItems, hv]
  · simp only [copyItems, hv, hc, if_false]

/-- A list is copied if every item has a copy of the element type. -/
theorem copyItems_eq_ok_iff :
    u.copyItems e items = .ok copies ↔ List.Forall₂ (u.Accepts e) items copies := by
  induction items generalizing copies with
  | nil => simp [copyItems, eq_comm]
  | cons v vs ih =>
    rw [List.forall₂_cons_left_iff]
    rcases u.accepts_or_refuses e v with ⟨c, hc⟩ | ⟨err, he⟩
    · rw [copyItems_of_accepts hc, map_eq_ok_iff]
      constructor
      · rintro ⟨cs, hcs, rfl⟩
        exact ⟨c, cs, hc, ih.1 hcs, rfl⟩
      · rintro ⟨c', cs, hc', hcs, rfl⟩
        obtain rfl := hc.unique hc'
        exact ⟨cs, ih.2 hcs, rfl⟩
    · rw [copyItems_of_refuses he]
      refine ⟨nofun, ?_⟩
      rintro ⟨c, -, hc, -⟩
      exact absurd he hc.not_refuses

/-- The first item without a copy of the element type says why there is no copy of the list. -/
theorem copyItems_eq_error_iff :
    u.copyItems e items = .error err ↔ u.FirstRefusal (items.map (e, ·)) err := by
  induction items with
  | nil => simp [copyItems, not_firstRefusal_nil]
  | cons v vs ih =>
    rw [List.map_cons, firstRefusal_cons_iff]
    rcases u.accepts_or_refuses e v with ⟨c, hc⟩ | ⟨err', he⟩
    · rw [copyItems_of_accepts hc, map_eq_error_iff, ih]
      refine ⟨fun h => .inr ⟨⟨c, hc⟩, h⟩, ?_⟩
      rintro (he | ⟨-, h⟩)
      · exact absurd he hc.not_refuses
      · exact h
    · rw [copyItems_of_refuses he]
      constructor
      · rintro ⟨⟩
        exact .inl he
      · rintro (he' | ⟨⟨c, hc⟩, -⟩)
        · rw [he.unique he']
        · exact absurd he hc.not_refuses

theorem copy_list_eq_ok_iff {w : Value} : u.copy (.list e items) = .ok w ↔
    ∃ copies, w = .list e copies ∧ List.Forall₂ (u.Accepts e) items copies := by
  rw [copy, map_eq_ok_iff]
  constructor
  · rintro ⟨copies, h, rfl⟩
    exact ⟨copies, rfl, copyItems_eq_ok_iff.1 h⟩
  · rintro ⟨copies, rfl, h⟩
    exact ⟨copies, copyItems_eq_ok_iff.2 h, rfl⟩

theorem copy_list_eq_error_iff :
    u.copy (.list e items) = .error err ↔ u.FirstRefusal (items.map (e, ·)) err := by
  rw [copy, map_eq_error_iff, copyItems_eq_error_iff]

/-! ### Leaves -/

theorem refuses_list_iff : u.Refuses (.list e) (.list e items) err ↔
    u.FirstRefusal (items.map (e, ·)) err := by
  rw [← copy_list_eq_error_iff]
  constructor
  · rintro (h | ⟨c, hc, hne, -⟩)
    · exact h
    · -- A copy of a list is of the type of the list.
      obtain ⟨copies, rfl, -⟩ := copy_list_eq_ok_iff.1 hc
      exact absurd rfl hne
  · exact .inl

theorem refuses_leaf_iff (h : v.leaves e = [(e, v)]) :
    u.Refuses e v err ↔ u.FirstRefusal (v.leaves e) err := by
  rw [h, firstRefusal_cons_iff]
  simp [not_firstRefusal_nil]

theorem firstRefusal_leavesIn_iff
    (h : ∀ v ∈ items, ∀ err, u.Refuses e v err ↔ u.FirstRefusal (v.leaves e) err) :
    u.FirstRefusal (items.map (e, ·)) err ↔ u.FirstRefusal (leavesIn e items) err := by
  induction items with
  | nil => rfl
  | cons v vs ih =>
    obtain ⟨hv, hvs⟩ := List.forall_mem_cons.1 h
    have haccepts : (∃ c, u.Accepts e v c) ↔ ∀ q ∈ v.leaves e, ∃ c, u.Accepts q.1 q.2 c := by
      rw [forall_accepts_iff, exists_accepts_iff]
      exact forall_congr' fun err => not_congr (hv err)
    rw [List.map_cons, firstRefusal_cons_iff, leavesIn, firstRefusal_append_iff, ih hvs, hv,
      haccepts]

/-- Of a value of the element type, the leaves decide whether it is refused, and why. -/
theorem refuses_iff_of_uniform (h : v.Uniform) (hv : v.ty = e) :
    u.Refuses e v err ↔ u.FirstRefusal (v.leaves e) err := by
  induction h generalizing e err with
  | leaf h => exact refuses_leaf_iff (leaves_of_leaf h e)
  | list typed inner ih =>
    subst hv
    rw [Value.ty, refuses_list_iff, leaves]
    exact firstRefusal_leavesIn_iff fun v hv err => ih v hv (typed v hv)

/-- Lists without leaves are copied, whatever can be copied of their type. -/
theorem copy_of_leafless (h : v.Uniform) (hl : v.leaves e = []) : u.copy v = .ok v := by
  induction h generalizing e with
  | leaf h =>
    rw [leaves_of_leaf h] at hl
    cases hl
  | list typed inner ih =>
    rw [leaves, leavesIn_eq_nil_iff] at hl
    refine copy_list_eq_ok_iff.2 ⟨_, rfl, List.forall₂_same.2 fun v hv => ?_⟩
    exact ⟨ih v hv (hl v hv), typed v hv⟩

theorem message_of_list (n : Naming) (e : Ty) :
    (CopyError.notCopyable (.list e)).message n =
      "`reflect_clone` is not supported for `alloc::vec::Vec<" ++ n.path e ++ ">`" := by
  show "`reflect_clone` is not supported for `" ++ ("alloc::vec::Vec<" ++ n.path e ++ ">") ++ "`" =
    "`reflect_clone` is not supported for `" ++ "alloc::vec::Vec<" ++ n.path e ++ (">" ++ "`")
  simp only [String.append_assoc]

theorem Refuses.eq_or (h : u.Refuses e v err) :
    u.copy v = .error err ∨ err = .notCopyable (.list e) := by
  rcases h with h | ⟨c, -, -, rfl⟩
  · exact .inl h
  · exact .inr rfl

theorem copy_list_eq_error_iff_of_uniform (h : (Value.list e items).Uniform) :
    u.copy (.list e items) = .error err ↔ u.FirstRefusal (leavesIn e items) err := by
  rw [copy_list_eq_error_iff, ← refuses_list_iff]
  exact refuses_iff_of_uniform h rfl

theorem copies_list (u : Universe) (e : Ty) (items : List Value) : u.CopiesList e items where
  copied_iff _ := copy_list_eq_ok_iff
  equal hsame w hw := by
    obtain ⟨copies, rfl, hcopies⟩ := copy_list_eq_ok_iff.1 hw
    have heq : List.Forall₂ (· = ·) items copies :=
      ((List.forall₂_and_left items copies).2 ⟨hsame, hcopies⟩).imp fun v c h =>
        (h.1 c h.2.1).symm
    rw [List.forall₂_eq_eq_eq] at heq
    rw [heq]
  refused_iff _ := copy_list_eq_error_iff
  refusal_text := message_of_list u.naming e
  first_leaf hu _ := copy_list_eq_error_iff_of_uniform hu
  named hu err h := by
    obtain ⟨before, p, after, hl, hb, hp⟩ := (copy_list_eq_error_iff_of_uniform hu).1 h
    exact ⟨before, p, after, hl, hb, hp, fun hblame => hp.eq_or.imp_left (hblame err)⟩
  leafless hu hl := copy_of_leafless hu (e := e) hl

end Universe

namespace Sample
open Value

/-- A lock has no copy. -/
def copyLock (_ : Value) : Except CopyError Value :=
  .error (.notCopyable (.defined 1))

/-- A chest is copied together with the lock in it. -/
def copyChest (v : Value) : Except CopyError Value := do
  let lock ← copyLock ((v.slot? 0).getD .unit)
  return .object 2 [some lock] none ""

/-- A world of masks, whose copies are of another type, of locks, and of chests. -/
def masquerade : Universe :=
  (Universe.ofDefinitions? #[
    ⟨.simple (some "fixtures") "Mask", .leaf, fun _ => .ok .unit⟩,
    ⟨.simple (some "fixtures") "Lock", .leaf, copyLock⟩,
    ⟨.simple (some "fixtures") "Chest", .leaf, copyChest⟩]).get (by decide)

def mask : Value := .object 0 [] none ""
def lock : Value := .object 1 [] none ""
def chest : Value := .object 2 [some lock] none ""

/-- An empty list, and one that holds a leaf twice. -/
def behindEmpty (v : Value) : List Value := [.list v.ty [], .list v.ty [v, v]]

theorem uniform_behindEmpty {v : Value} (h : ∀ e items, v ≠ .list e items) :
    (Value.list (.list v.ty) (behindEmpty v)).Uniform := by
  have hinner : ∀ vs, (∀ w ∈ vs, w = v) → (Value.list v.ty vs).Uniform := by
    refine fun vs hvs => .list (fun w hw => ?_) fun w hw => ?_
    · rw [hvs w hw]
    · rw [hvs w hw]
      exact .leaf h
  refine .list (by simp [behindEmpty, Value.ty]) fun w hw => ?_
  obtain rfl | rfl : w = .list v.ty [] ∨ w = .list v.ty [v, v] := by
    simpa [behindEmpty] using hw
  · exact hinner [] (by simp)
  · exact hinner [v, v] (by simp)

theorem eq_of_mem_leavesIn_behindEmpty {v : Value} {p : Ty × Value}
    (h : ∀ e items, v ≠ .list e items) (hp : p ∈ leavesIn (.list v.ty) (behindEmpty v)) :
    p = (v.ty, v) := by
  simpa [behindEmpty, leavesIn, leaves, leaves_of_leaf h] using hp

/-- A chest refuses in the name of its lock: the error names neither the type of the leaf that decides
nor the type of a list. -/
theorem names_neither :
    (Value.list (.list chest.ty) (behindEmpty chest)).Uniform ∧
    masquerade.copy (.list (.list chest.ty) (behindEmpty chest)) = .error (.notCopyable lock.ty) ∧
    ¬ ∀ err, masquerade.copy (.list (.list chest.ty) (behindEmpty chest)) = .error err →
      ∃ before p after,
        leavesIn (.list chest.ty) (behindEmpty chest) = before ++ p :: after ∧
        (∀ q ∈ before, ∃ c, masquerade.Accepts q.1 q.2 c) ∧ masquerade.Refuses p.1 p.2 err ∧
        (err = .notCopyable p.2.ty ∨ err = .notCopyable (.list p.1)) := by
  have hleaf : ∀ e items, chest ≠ .list e items := nofun
  refine ⟨uniform_behindEmpty hleaf, rfl, fun h => ?_⟩
  obtain ⟨before, p, after, hl, -, -, hp⟩ := h _ rfl
  have hmem : p ∈ leavesIn (.list chest.ty) (behindEmpty chest) := by simp [hl]
  rw [eq_of_mem_leavesIn_behindEmpty hleaf hmem] at hp
  revert hp
  decide

/-- Behind an empty list, a mask has the error name the list that holds it, and a lock has it name the
lock; empty lists alone are copied. -/
theorem copies_list_masquerade :
    masquerade.copy (.list (.list mask.ty) (behindEmpty mask)) =
      .error (.notCopyable (.list mask.ty)) ∧
    masquerade.copy (.list (.list lock.ty) (behindEmpty lock)) = .error (.notCopyable lock.ty) ∧
    (∀ v ∈ [mask, lock], (Value.list (.list v.ty) (behindEmpty v)).Uniform ∧
      masquerade.BlamesItself v ∧ ∀ err,
        masquerade.copy (.list (.list v.ty) (behindEmpty v)) = .error err →
          err = .notCopyable v.ty ∨ err = .notCopyable (.list v.ty)) ∧
    masquerade.copy (.list (.list lock.ty) [.list lock.ty []]) =
      .ok (.list (.list lock.ty) [.list lock.ty []]) := by
  refine ⟨rfl, rfl, fun v hv => ?_, ?_⟩
  · obtain ⟨hleaf, hblame⟩ : (∀ e items, v ≠ .list e items) ∧ masquerade.BlamesItself v := by
      obtain rfl | rfl : v = mask ∨ v = lock := by simpa using hv
      · exact ⟨nofun, nofun⟩
      · refine ⟨nofun, fun err h => ?_⟩
        cases h
        rfl
    have hu := uniform_behindEmpty hleaf
    refine ⟨hu, hblame, fun err h => ?_⟩
    obtain ⟨before, p, after, hl, -, -, hp⟩ := (masquerade.copies_list _ _).named hu err h
    have hmem : p ∈ leavesIn (.list v.ty) (behindEmpty v) := by simp [hl]
    rw [eq_of_mem_leavesIn_behindEmpty hleaf hmem] at hp
    exact hp hblame
  · have hempty : (Value.list (.list lock.ty) [.list lock.ty []]).Uniform := by
      refine .list (by simp [Value.ty]) fun w hw => ?_
      rw [List.mem_singleton.1 hw]
      exact .list nofun nofun
    exact (masquerade.copies_list _ _).leafless hempty rfl

end Sample

end MemberPath
