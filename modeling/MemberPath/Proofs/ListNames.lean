import MemberPath.Proofs.ChainShape

/-!
# Names of nested lists

The path and the name of a list are those of its elements between an opening and a closing text, so
what they say of nested lists is told by the innermost elements (`label_nested`). As long as these
have names of their own, and none of them begins like that of a list, two types have the same name
only if they are the same type, and a path finds the lists of its type (`listNames`).
-/

namespace MemberPath

/-- Lists, nested `n` deep, of elements of type `t`. -/
def Ty.nested : Nat → Ty → Ty
  | 0, t => t
  | n + 1, t => .list (nested n t)

/-- Lists, nested to any depth, of one of the types `leaves`, or such a type itself. -/
def Ty.Over (leaves : Set Ty) (t : Ty) : Prop :=
  ∃ n, ∃ leaf ∈ leaves, t = .nested n leaf

/-- A label tells the types apart, and on none of them it begins like that of a list. -/
structure Apart (label : Ty → String) (opening : String) (leaves : Set Ty) : Prop where
  injOn : ∀ a ∈ leaves, ∀ b ∈ leaves, label a = label b → a = b
  not_opening : ∀ a ∈ leaves, ¬ opening.toList <+: (label a).toList

/-- What the names of lists over the types `leaves` are, and what they tell. -/
structure ListNames (u : Universe) (leaves : Set Ty) : Prop where
  path_eq_iff : Apart u.naming.path "alloc::vec::Vec<" leaves → ∀ a b : Ty, a.Over leaves →
    b.Over leaves → (u.naming.path a = u.naming.path b ↔ a = b)
  name_eq_iff : Apart u.naming.name "Vec<" leaves → ∀ a b : Ty, a.Over leaves → b.Over leaves →
    (u.naming.name a = u.naming.name b ↔ a = b)
  path_nested : ∀ n t, u.naming.path (.nested n t) =
    String.join (List.replicate n "alloc::vec::Vec<") ++ u.naming.path t ++
      String.join (List.replicate n ">")
  /-- Asked for an array by the path of `e`, a type answers iff its elements are of type `e`, or one
  of their other names is that path. -/
  answers_iff : Apart u.naming.path "alloc::vec::Vec<" leaves → ∀ t x e : Ty,
    u.shape t = .array x → x.Over leaves → e.Over leaves →
      (u.answers t (u.naming.path e) true = true ↔
        x = e ∨ u.naming.short x = u.naming.path e ∨ u.naming.name x = u.naming.path e)

/-! ### Labels -/

section Label
variable {label : Ty → String} {opening : String} {leaves : Set Ty} {a b : Ty}
  (hlist : ∀ e, label (.list e) = opening ++ label e ++ ">")
include hlist

theorem label_nested (n : Nat) (t : Ty) : label (.nested n t) =
    String.join (List.replicate n opening) ++ label t ++ String.join (List.replicate n ">") := by
  induction n with
  | zero => simp [Ty.nested]
  | succ n ih =>
    rw [Ty.nested, hlist, ih, List.replicate_succ, List.replicate_succ', String.join_cons,
      String.join_append]
    simp [String.append_assoc]

theorem opening_prefix_label (e : Ty) : opening.toList <+: (label (.list e)).toList := by
  rw [hlist, String.toList_append, String.toList_append, List.append_assoc]
  exact List.prefix_append ..

theorem label_list_inj (h : label (.list a) = label (.list b)) : label a = label b := by
  rw [hlist, hlist, String.append_left_inj, String.append_right_inj] at h
  exact h

/-- Both labels are opened one by one until the innermost elements are reached, on both sides at
once. -/
theorem Apart.eq_of_nested (h : Apart label opening leaves) (ha : a ∈ leaves) (hb : b ∈ leaves)
    {m n : Nat} (heq : label (.nested m a) = label (.nested n b)) :
    Ty.nested m a = .nested n b := by
  induction m generalizing n with
  | zero =>
    cases n with
    | zero => exact h.injOn a ha b hb heq
    | succ n =>
      have hp := opening_prefix_label hlist (.nested n b)
      exact absurd (heq ▸ hp) (h.not_opening a ha)
  | succ m ih =>
    cases n with
    | zero =>
      have hp := opening_prefix_label hlist (.nested m a)
      exact absurd (heq ▸ hp) (h.not_opening b hb)
    | succ n => exact congrArg Ty.list (ih (label_list_inj hlist heq))

theorem Apart.label_eq_iff (h : Apart label opening leaves) (ha : a.Over leaves)
    (hb : b.Over leaves) : label a = label b ↔ a = b := by
  obtain ⟨m, a, ha, rfl⟩ := ha
  obtain ⟨n, b, hb, rfl⟩ := hb
  exact ⟨h.eq_of_nested hlist ha hb, congrArg label⟩

end Label

theorem Universe.answers_array_iff {u : Universe} {t x : Ty} (h : u.shape t = .array x)
    (name : String) : u.answers t name true = true ↔
      u.naming.path x = name ∨ u.naming.short x = name ∨ u.naming.name x = name := by
  rw [answers, h]
  show (true && u.naming.isNamed x name) = true ↔ _
  rw [Bool.true_and, isNamed_iff]
  simp only [List.mem_cons, List.not_mem_nil, or_false, @eq_comm _ name]
  exact or_left_comm

theorem listNames (u : Universe) (leaves : Set Ty) : ListNames u leaves where
  path_eq_iff h _ _ ha hb := h.label_eq_iff (fun _ => rfl) ha hb
  name_eq_iff h _ _ ha hb := h.label_eq_iff (fun _ => rfl) ha hb
  path_nested := label_nested fun _ => rfl
  answers_iff h t x e ht hx he := by
    rw [Universe.answers_array_iff ht, h.label_eq_iff (fun _ => rfl) hx he]

namespace Sample

/-- The native types and the sample classes. -/
def leafTypes : List Ty := Ty.natives ++ (List.range classNames.length).map .defined

theorem apart_path_leafTypes :
    Apart world.naming.path "alloc::vec::Vec<" {t | t ∈ leafTypes} := by
  constructor
  · show ∀ a ∈ leafTypes, ∀ b ∈ leafTypes, world.naming.path a = world.naming.path b → a = b
    decide +kernel
  · show ∀ a ∈ leafTypes, ¬ "alloc::vec::Vec<".toList <+: (world.naming.path a).toList
    decide +kernel

theorem apart_name_leafTypes : Apart world.naming.name "Vec<" {t | t ∈ leafTypes} := by
  constructor
  · show ∀ a ∈ leafTypes, ∀ b ∈ leafTypes, world.naming.name a = world.naming.name b → a = b
    decide +kernel
  · show ∀ a ∈ leafTypes, ¬ "Vec<".toList <+: (world.naming.name a).toList
    decide +kernel

/-- Lists of creatures are told from lists of such lists, and found by the path of a creature. -/
theorem listNames_creatures :
    let mobs : Ty := .list (.defined mob)
    (world.naming.path mobs = world.naming.path (.list mobs) ↔ mobs = .list mobs) ∧
      (world.naming.name mobs = world.naming.name (.list .u8) ↔ mobs = .list .u8) ∧
      world.answers (.list mobs) (world.naming.path mobs) true = true ∧
      world.answers (.list (.defined boss)) (world.naming.path (.defined mob)) true = false := by
  intro mobs
  have h := listNames world {t | t ∈ leafTypes}
  have over_leaf (n : Nat) {leaf : Ty} (hleaf : leaf ∈ leafTypes) :
      (Ty.nested n leaf).Over {t | t ∈ leafTypes} := ⟨n, leaf, hleaf, rfl⟩
  have hmob : Ty.defined mob ∈ leafTypes := by decide
  have hboss : Ty.defined boss ∈ leafTypes := by decide
  have hpath := h.path_eq_iff apart_path_leafTypes _ _ (over_leaf 1 hmob) (over_leaf 2 hmob)
  have hname := h.name_eq_iff apart_name_leafTypes _ _ (over_leaf 1 hmob)
    (over_leaf 1 (show .u8 ∈ leafTypes by decide))
  have hfound := (h.answers_iff apart_path_leafTypes (.list mobs) mobs mobs rfl (over_leaf 1 hmob)
    (over_leaf 1 hmob)).2 (.inl rfl)
  have hother : ¬ world.answers (.list (.defined boss)) (world.naming.path (.defined mob)) true =
      true := by
    rw [h.answers_iff apart_path_leafTypes _ (.defined boss) (.defined mob) rfl (over_leaf 0 hboss)
      (over_leaf 0 hmob)]
    decide
  exact ⟨hpath, hname, hfound, Bool.eq_false_iff.2 hother⟩

end Sample

end MemberPath
