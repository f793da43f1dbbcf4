import Mathlib.Data.List.Induction
import MemberPath.Class.Args

/-!
# Calls on one cursor

A cursor answers calls of `next` one after the other, at any types, and right and wrong calls may
come in any order. What it has handed out are always the arguments in front of it: `Passed` says so,
and a call keeps it. A call that fails leaves the cursor where it was (`takes_in_order`).
-/

namespace MemberPath.Args

/-- The arguments that some answers hand out, in the order of the calls. -/
def given (answers : List (Except CallError Value)) : List Value :=
  answers.filterMap Except.toOption

/-- The answers to calls of `next` at the types `ts` on a new cursor over `values`. -/
def answersTo (values : List Value) (ts : List Ty) : List (Except CallError Value) :=
  ((ofList values).nexts ts).1

def cursorAfter (values : List Value) (ts : List Ty) : Args :=
  ((ofList values).nexts ts).2

/-- The number of calls in front of call `i` that succeed. -/
def successes (values : List Value) (ts : List Ty) (i : Nat) : Nat :=
  (given ((answersTo values ts).take i)).length

/-- How the calls of `next` at the types `ts` go on a new cursor over `values`. -/
structure TakesInOrder (values : List Value) (ts : List Ty) : Prop where
  length : (answersTo values ts).length = ts.length
  /-- None of the arguments is left out and none is given twice. -/
  in_order : given (answersTo values ts) = values.take (given (answersTo values ts)).length
  cursor : ∀ i, cursorAfter values (ts.take i) = ⟨values, successes values ts i⟩
  bounded : ∀ i, (cursorAfter values (ts.take i)).taken ≤ values.length
  ok_iff : ∀ i t v, ts[i]? = some t → ((answersTo values ts)[i]? = some (.ok v) ↔
    values[successes values ts i]? = some v ∧ v.ty = t)
  argType_iff : ∀ i t index expected received, ts[i]? = some t →
    ((answersTo values ts)[i]? = some (.error (.argType index expected received)) ↔
      ∃ v, values[successes values ts i]? = some v ∧ v.ty ≠ t ∧
        index = successes values ts i ∧ expected = t ∧ received = v.ty)
  argCount_iff : ∀ i t expected received, ts[i]? = some t →
    ((answersTo values ts)[i]? = some (.error (.argCount expected received)) ↔
      successes values ts i = values.length ∧
        expected = values.length + 1 ∧ received = values.length)
  failed : ∀ i e, (answersTo values ts)[i]? = some (.error e) →
    cursorAfter values (ts.take (i + 1)) = cursorAfter values (ts.take i)
  /-- However many calls fail on an argument, the next one at its type gets it. -/
  retried : ∀ i j v, i ≤ j → values[successes values ts i]? = some v →
    (∀ k, i ≤ k → k < j → ∃ e, (answersTo values ts)[k]? = some (.error e)) →
    ts[j]? = some v.ty → (answersTo values ts)[j]? = some (.ok v)

variable {a : Args} {t : Ty} {ts : List Ty} {v : Value} {values : List Value} {i : Nat}
  {e : CallError}

/-! ### One call -/

theorem next_cases (a : Args) (t : Ty) :
    (∃ v, a.values[a.taken]? = some v ∧ v.ty = t ∧ a.next t = (.ok v, ⟨a.values, a.taken + 1⟩)) ∨
      (∃ v, a.values[a.taken]? = some v ∧ v.ty ≠ t ∧
        a.next t = (.error (.argType a.taken t v.ty), a)) ∨
      a.values[a.taken]? = none ∧
        a.next t = (.error (.argCount (a.taken + 1) a.values.length), a) := by
  unfold next
  cases hv : a.values[a.taken]? with
  | none => exact .inr (.inr ⟨rfl, rfl⟩)
  | some v =>
    by_cases ht : v.ty = t
    · exact .inl ⟨v, rfl, ht, if_pos ht⟩
    · exact .inr (.inl ⟨v, rfl, ht, if_neg ht⟩)

theorem next_eq_ok_iff :
    (a.next t).1 = .ok v ↔ a.values[a.taken]? = some v ∧ v.ty = t := by
  rcases next_cases a t with ⟨w, hw, ht, h⟩ | ⟨w, hw, ht, h⟩ | ⟨hw, h⟩ <;> rw [h, hw]
  · simp only [Except.ok.injEq, Option.some.injEq]
    constructor
    · rintro rfl
      exact ⟨rfl, ht⟩
    · exact fun hv => hv.1
  · simp only [reduceCtorEq, Option.some.injEq, false_iff, not_and]
    rintro rfl
    exact ht
  · simp

theorem next_eq_argType_iff {index : Nat} {expected received : Ty} :
    (a.next t).1 = .error (.argType index expected received) ↔
      ∃ v, a.values[a.taken]? = some v ∧ v.ty ≠ t ∧
        index = a.taken ∧ expected = t ∧ received = v.ty := by
  rcases next_cases a t with ⟨w, hw, ht, h⟩ | ⟨w, hw, ht, h⟩ | ⟨hw, h⟩ <;> rw [h, hw]
  · simp only [reduceCtorEq, Option.some.injEq, false_iff, not_exists, not_and]
    rintro _ rfl hne
    exact absurd ht hne
  · constructor
    · rintro ⟨⟩
      exact ⟨w, rfl, ht, rfl, rfl, rfl⟩
    · rintro ⟨_, ⟨⟩, -, rfl, rfl, rfl⟩
      rfl
  · simp

theorem next_eq_argCount_iff {expected received : Nat} :
    (a.next t).1 = .error (.argCount expected received) ↔
      a.values[a.taken]? = none ∧ expected = a.taken + 1 ∧ received = a.values.length := by
  rcases next_cases a t with ⟨w, hw, ht, h⟩ | ⟨w, hw, ht, h⟩ | ⟨hw, h⟩ <;> rw [h, hw]
  · simp
  · simp
  · constructor
    · rintro ⟨⟩
      exact ⟨rfl, rfl, rfl⟩
    · rintro ⟨-, rfl, rfl⟩
      rfl

theorem next_of_ok (h : (a.next t).1 = .ok v) : (a.next t).2 = ⟨a.values, a.taken + 1⟩ := by
  rcases next_cases a t with ⟨w, -, -, hn⟩ | ⟨w, -, -, hn⟩ | ⟨-, hn⟩
  · rw [hn]
  · rw [hn] at h
    cases h
  · rw [hn] at h
    cases h

theorem next_of_error (h : (a.next t).1 = .error e) : (a.next t).2 = a := by
  rcases next_cases a t with ⟨w, -, -, hn⟩ | ⟨w, -, -, hn⟩ | ⟨-, hn⟩
  · rw [hn] at h
    cases h
  · rw [hn]
  · rw [hn]

/-- The answers have handed out exactly the arguments in front of the cursor. -/
structure Passed (values : List Value) (answers : List (Except CallError Value)) (a : Args) :
    Prop where
  kept : a.values = values
  bounded : a.taken ≤ values.length
  in_order : given answers = values.take a.taken

theorem Passed.next {answers : List (Except CallError Value)} (h : Passed values answers a)
    (t : Ty) : Passed values (answers ++ [(a.next t).1]) (a.next t).2 := by
  obtain ⟨rfl, hb, hg⟩ := h
  cases hr : (a.next t).1 with
  | ok v =>
    have hv := (next_eq_ok_iff.1 hr).1
    have hlt : a.taken < a.values.length := (List.getElem?_eq_some_iff.1 hv).1
    rw [next_of_ok hr]
    refine ⟨rfl, hlt, ?_⟩
    rw [given, List.filterMap_append, ← given, hg, List.take_add_one, hv]
    rfl
  | error e =>
    rw [next_of_error hr]
    refine ⟨rfl, hb, ?_⟩
    rw [given, List.filterMap_append, ← given, hg]
    exact List.append_nil _

theorem Passed.length_given {answers : List (Except CallError Value)}
    (h : Passed values answers a) : (given answers).length = a.taken := by
  rw [h.in_order, List.length_take_of_le h.bounded]

/-! ### Runs of calls -/

theorem nexts_concat (a : Args) (ts : List Ty) (t : Ty) :
    a.nexts (ts ++ [t]) =
      ((a.nexts ts).1 ++ [((a.nexts ts).2.next t).1], ((a.nexts ts).2.next t).2) := by
  induction ts generalizing a with
  | nil => rfl
  | cons t' ts ih =>
    simp only [List.cons_append, nexts, ih]

theorem passed_nexts (values : List Value) (ts : List Ty) :
    Passed values (answersTo values ts) (cursorAfter values ts) := by
  induction ts using List.reverseRecOn with
  | nil => exact ⟨rfl, Nat.zero_le _, rfl⟩
  | append_singleton ts t ih =>
    rw [answersTo, cursorAfter, nexts_concat]
    exact ih.next t

theorem length_nexts (a : Args) (ts : List Ty) : (a.nexts ts).1.length = ts.length := by
  induction ts generalizing a with
  | nil => rfl
  | cons t ts ih => exact congrArg (· + 1) (ih _)

theorem take_nexts (a : Args) (ts : List Ty) (i : Nat) :
    (a.nexts ts).1.take i = (a.nexts (ts.take i)).1 := by
  induction ts generalizing a i with
  | nil => simp [nexts]
  | cons t ts ih =>
    cases i with
    | zero => rfl
    | succ i => exact congrArg (_ :: ·) (ih _ i)

theorem getElem?_nexts (h : ts[i]? = some t) :
    (a.nexts ts).1[i]? = some ((a.nexts (ts.take i)).2.next t).1 := by
  induction ts generalizing a i with
  | nil => cases h
  | cons t' ts ih =>
    cases i with
    | zero =>
      cases h
      rfl
    | succ i => exact ih h

theorem cursorAfter_take (values : List Value) (ts : List Ty) (i : Nat) :
    cursorAfter values (ts.take i) = ⟨values, successes values ts i⟩ := by
  have h := passed_nexts values (ts.take i)
  have hs : successes values ts i = (cursorAfter values (ts.take i)).taken := by
    rw [successes, answersTo, take_nexts]
    exact h.length_given
  rw [hs]
  exact congrArg (Args.mk · _) h.kept

theorem answer_eq (h : ts[i]? = some t) : (answersTo values ts)[i]? =
    some (next ⟨values, successes values ts i⟩ t).1 := by
  rw [answersTo, getElem?_nexts h, ← cursorAfter, cursorAfter_take]

theorem successes_succ_of_error (h : (answersTo values ts)[i]? = some (.error e)) :
    successes values ts (i + 1) = successes values ts i := by
  rw [successes, List.take_add_one, h, given, List.filterMap_append]
  simp [successes, given, Except.toOption]

theorem successes_of_errors {j : Nat} (hij : i ≤ j)
    (h : ∀ k, i ≤ k → k < j → ∃ e, (answersTo values ts)[k]? = some (.error e)) :
    successes values ts j = successes values ts i := by
  induction hij with
  | refl => rfl
  | @step j hij ih =>
    obtain ⟨e, he⟩ := h j hij (Nat.lt_succ_self j)
    rw [successes_succ_of_error he]
    exact ih fun k hik hkj => h k hik (Nat.lt_succ_of_lt hkj)

theorem takes_in_order (values : List Value) (ts : List Ty) : TakesInOrder values ts where
  length := length_nexts _ ts
  in_order := by
    have h := passed_nexts values ts
    rw [h.length_given]
    exact h.in_order
  cursor := cursorAfter_take values ts
  bounded i := (passed_nexts values (ts.take i)).bounded
  ok_iff i t v h := by rw [answer_eq h, Option.some_inj, next_eq_ok_iff]
  argType_iff i t index expected received h := by
    rw [answer_eq h, Option.some_inj, next_eq_argType_iff]
  argCount_iff i t expected received h := by
    have hb := (passed_nexts values (ts.take i)).bounded
    rw [cursorAfter_take] at hb
    rw [answer_eq h, Option.some_inj, next_eq_argCount_iff, List.getElem?_eq_none_iff]
    constructor
    · rintro ⟨hle, rfl, rfl⟩
      have heq := Nat.le_antisymm hb hle
      exact ⟨heq, congrArg (· + 1) heq, rfl⟩
    · rintro ⟨heq, rfl, rfl⟩
      exact ⟨Nat.le_of_eq heq.symm, congrArg (· + 1) heq.symm, rfl⟩
  failed i e h := by
    rw [cursorAfter_take, cursorAfter_take, successes_succ_of_error h]
  retried i j v hij hv hfail ht := by
    rw [answer_eq ht, successes_of_errors hij hfail]
    exact congrArg some (next_eq_ok_iff.2 ⟨hv, rfl⟩)

/-- Calls at wrong and at right types by turns, and one call too many. -/
theorem takes_in_order_mixed :
    let values : List Value := [.text "n", .int .u8 3]
    let ts : List Ty := [.u8, .text, .unit, .bool, .u8, .u8]
    (answersTo values ts)[2]? = some (.error (.argType 1 .unit .u8)) ∧
      (answersTo values ts)[4]? = some (.ok (.int .u8 3)) ∧
      (answersTo values ts)[5]? = some (.error (.argCount 3 2)) := by
  intro values ts
  have h := takes_in_order values ts
  have hunit : (answersTo values ts)[2]? = some (.error (.argType 1 .unit .u8)) :=
    (h.argType_iff 2 .unit 1 .unit .u8 rfl).2 ⟨.int .u8 3, rfl, nofun, rfl, rfl, rfl⟩
  have hbool : (answersTo values ts)[3]? = some (.error (.argType 1 .bool .u8)) :=
    (h.argType_iff 3 .bool 1 .bool .u8 rfl).2 ⟨.int .u8 3, rfl, nofun, rfl, rfl, rfl⟩
  have hu8 : (answersTo values ts)[4]? = some (.ok (.int .u8 3)) := by
    refine h.retried 2 4 (.int .u8 3) (by decide) rfl (fun k hk hk' => ?_) rfl
    obtain rfl | rfl : k = 2 ∨ k = 3 := by omega
    · exact ⟨_, hunit⟩
    · exact ⟨_, hbool⟩
  exact ⟨hunit, hu8, (h.argCount_iff 5 .u8 3 2 rfl).2 ⟨rfl, rfl, rfl⟩⟩

end MemberPath.Args
