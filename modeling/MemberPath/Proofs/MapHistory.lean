import Mathlib.Data.List.Induction
import MemberPath.Assoc
import MemberPath.Type.Basic

/-!
# What a map holds after a run

A map is used by operations, one after the other. `historyLaw_run` reads what it holds off their
history: a key is there iff something was stored for it since the last `clear`, and its value goes
back to one operation that started it, behind which it was only changed in place. The step is
`get?_serve`, and `get?_run` is the induction.
-/

namespace MemberPath

/-- A place in a history that is one longer is the new one, or an old one with one thing more
behind it. -/
theorem concat_eq_append_cons_iff {α : Type w} {l before after : List α} {a x : α} :
    l ++ [a] = before ++ x :: after ↔ before = l ∧ x = a ∧ after = [] ∨
      ∃ rest, after = rest ++ [a] ∧ l = before ++ x :: rest := by
  constructor
  · intro h
    rcases List.eq_nil_or_concat after with rfl | ⟨rest, b, rfl⟩
    · obtain ⟨rfl, hx⟩ := List.append_inj' h rfl
      cases hx
      exact .inl ⟨rfl, rfl, rfl⟩
    · rw [List.concat_eq_append, ← List.cons_append, ← List.append_assoc] at h
      obtain ⟨rfl, hb⟩ := List.append_inj' h rfl
      cases hb
      exact .inr ⟨rest, List.concat_eq_append, rfl⟩
  · rintro (⟨rfl, rfl, rfl⟩ | ⟨rest, rfl, rfl⟩)
    · rfl
    · rw [List.append_assoc, List.cons_append]

namespace Assoc

variable {κ : Type u} {ν : Type v}

inductive Op (κ : Type u) (ν : Type v)
  /-- Asks for the value of a key, to be made if there is none, and then changes it in place. -/
  | getOrInsert (key : κ) (make : Unit → ν) (update : ν → ν)
  | insert (key : κ) (value : ν)
  | get (key : κ)
  /-- Looks up a type, which is its own key. -/
  | getType (t : κ)
  | contains (key : κ)
  | clear

inductive Reply (ν : Type v)
  /-- The value before it is changed, and whether it had to be made. -/
  | entry (value : ν) (made : Bool)
  | previous (value : Option ν)
  | found (value : Option ν)
  | stored (isStored : Bool)
  | done

/-- The key that an operation stores a value for. -/
def Op.stores? : Op κ ν → Option κ
  | .getOrInsert k .. | .insert k _ => some k
  | _ => none

variable [DecidableEq κ]

/-- The change that an operation makes in place to the value of `k`. -/
def Op.update? (k : κ) : Op κ ν → Option (ν → ν)
  | .getOrInsert j _ update => if j = k then some update else none
  | _ => none

/-- The value that `v` becomes when the operations change it in place, one after the other. -/
def changed (k : κ) (v : ν) (ops : List (Op κ ν)) : ν :=
  (ops.filterMap (Op.update? k)).foldl (fun v update => update v) v

def serve (m : Assoc κ ν) : Op κ ν → Reply ν × Assoc κ ν
  | .getOrInsert k make update =>
    let e := m.getOrInsert k make
    (.entry e.value e.fresh, e.map.modify k update)
  | .insert k v => (.previous (m.get? k), m.insert k v)
  | .get k | .getType k => (.found (m.get? k), m)
  | .contains k => (.stored (m.contains k), m)
  | .clear => (.done, empty)

/-- A new map after some operations. -/
def run (ops : List (Op κ ν)) : Assoc κ ν :=
  ops.foldl (fun m op => (m.serve op).2) empty

/-- On the map `m` the operation gives `k` the value `v` to start from: it inserts it, or it has to
make it. -/
def Op.Starts (m : Assoc κ ν) (k : κ) (v : ν) (op : Op κ ν) : Prop :=
  op = .insert k v ∨ ∃ make update, op = .getOrInsert k make update ∧ m.get? k = none ∧ make () = v

/-- The run `ops` ends with `tail`: its first operation starts the value of `k` from `v`, and those
behind it do not replace or drop it. -/
def StartedAt (ops : List (Op κ ν)) (k : κ) (v : ν) (tail : List (Op κ ν)) : Prop :=
  ∃ before op after, ops = before ++ op :: after ∧ tail = op :: after ∧
    op.Starts (run before) k v ∧ .clear ∉ after ∧ ∀ w, .insert k w ∉ after

/-- In the run `ops` something was stored for `k` since the last `clear`. -/
def StoredSince (ops : List (Op κ ν)) (k : κ) : Prop :=
  ∃ before op after, ops = before ++ op :: after ∧ .clear ∉ after ∧ op.stores? = some k

/-- What a map holds after the run `ops`, and what it replies to the next operation. -/
structure HistoryLaw (ops : List (Op κ ν)) : Prop where
  contains_iff : ∀ k, (run ops).contains k = true ↔ StoredSince ops k
  value : ∀ k v, (run ops).get? k = some v ↔ ∃ w tail,
    StartedAt ops k w tail ∧ v = changed k w tail
  /-- A value is made iff there is none, and what would be made does not matter otherwise. -/
  made : ∀ k make update,
    ((run ops).serve (.getOrInsert k make update)).1 =
      .entry (((run ops).get? k).getD (make ())) (!(run ops).contains k)
  unmade : ∀ k make make' update, (run ops).contains k = true →
    (run ops).serve (.getOrInsert k make update) = (run ops).serve (.getOrInsert k make' update)
  previous : ∀ k v, ((run ops).serve (.insert k v)).1 = .previous ((run ops).get? k)
  found : ∀ k, ((run ops).serve (.get k)).1 = .found ((run ops).get? k) ∧
    ((run ops).serve (.getType k)).1 = .found ((run ops).get? k)
  stored : ∀ k, ((run ops).serve (.contains k)).1 = .stored ((run ops).contains k)
  /-- Other keys keep what they have, unless everything is dropped. -/
  others : ∀ op k, op ≠ .clear → op.stores? ≠ some k →
    ((run ops).serve op).2.get? k = (run ops).get? k
  size : ∃ ks : List κ, ks.Nodup ∧ (∀ k, k ∈ ks ↔ (run ops).contains k = true) ∧
    (run ops).size = ks.length
  isEmpty_iff : (run ops).isEmpty = true ↔ (run ops).size = 0

variable {m : Assoc κ ν} {k : κ} {v : ν} {op : Op κ ν} {ops : List (Op κ ν)}

/-! ### One operation -/

theorem get?_serve_getOrInsert (m : Assoc κ ν) (j k : κ) (make : Unit → ν) (update : ν → ν) :
    (m.serve (.getOrInsert j make update)).2.get? k =
      if k = j then some (update ((m.get? j).getD (make ()))) else m.get? k := by
  show ((m.getOrInsert j make).map.modify j update).get? k = _
  rw [get?_modify]
  simp only [get?_getOrInsert]
  split <;> simp

theorem get?_serve_insert (m : Assoc κ ν) (j k : κ) (w : ν) :
    (m.serve (.insert j w)).2.get? k = if k = j then some w else m.get? k :=
  get?_insert m j k w

theorem changed_append (k : κ) (v : ν) (front back : List (Op κ ν)) :
    changed k v (front ++ back) = changed k (changed k v front) back := by
  rw [changed, List.filterMap_append, List.foldl_append]
  rfl

theorem changed_singleton (k : κ) (v : ν) (op : Op κ ν) :
    changed k v [op] = (op.update? k).elim v (· v) := by
  rw [changed, List.filterMap_cons]
  cases op.update? k <;> rfl

/-- Behind an operation other than `clear` a key has the value that the operation started for it,
or the one that it had, changed in place if the operation does that. -/
theorem get?_serve (hop : op ≠ .clear) :
    (m.serve op).2.get? k = some v ↔ ∃ w, v = changed k w [op] ∧
      (op.Starts m k w ∨ (∀ x, op ≠ .insert k x) ∧ m.get? k = some w) := by
  simp only [changed_singleton]
  cases op with
  | getOrInsert j make update =>
    rw [get?_serve_getOrInsert]
    by_cases hj : k = j
    · subst j
      cases hm : m.get? k <;> simp [Op.Starts, Op.update?, hm, eq_comm]
    · simp [Op.Starts, Op.update?, hj, Ne.symm hj]
  | insert j x =>
    rw [get?_serve_insert]
    by_cases hj : k = j
    · subst j
      simp [Op.Starts, Op.update?, eq_comm]
    · simp [Op.Starts, Op.update?, hj, Ne.symm hj]
  | get j | getType j | contains j => simp [serve, Op.Starts, Op.update?]
  | clear => exact absurd rfl hop

theorem contains_serve (hop : op ≠ .clear) :
    (m.serve op).2.contains k = true ↔ op.stores? = some k ∨ m.contains k = true := by
  simp only [contains]
  cases op with
  | getOrInsert j make update =>
    rw [get?_serve_getOrInsert]
    by_cases hj : k = j
    · simp [Op.stores?, hj]
    · simp [Op.stores?, hj, Ne.symm hj]
  | insert j x =>
    rw [get?_serve_insert]
    by_cases hj : k = j
    · simp [Op.stores?, hj]
    · simp [Op.stores?, hj, Ne.symm hj]
  | get j | getType j | contains j => simp [serve, Op.stores?]
  | clear => exact absurd rfl hop

theorem get?_serve_of_ne (hop : op ≠ .clear) (hk : op.stores? ≠ some k) :
    (m.serve op).2.get? k = m.get? k := by
  cases op with
  | getOrInsert j make update =>
    rw [get?_serve_getOrInsert, if_neg]
    rintro rfl
    exact hk rfl
  | insert j x =>
    rw [get?_serve_insert, if_neg]
    rintro rfl
    exact hk rfl
  | get j | getType j | contains j => rfl
  | clear => exact absurd rfl hop

/-! ### Runs -/

theorem run_concat (ops : List (Op κ ν)) (op : Op κ ν) :
    run (ops ++ [op]) = ((run ops).serve op).2 := by
  rw [run, List.foldl_append]
  rfl

omit [DecidableEq κ] in
theorem storedSince_concat : StoredSince (ops ++ [op]) k ↔
    op.stores? = some k ∨ op ≠ .clear ∧ StoredSince ops k := by
  simp only [StoredSince, concat_eq_append_cons_iff]
  constructor
  · rintro ⟨before, x, after, ⟨rfl, rfl, rfl⟩ | ⟨after, rfl, rfl⟩, hc, hx⟩
    · exact .inl hx
    · rw [List.mem_append, not_or, List.mem_singleton] at hc
      exact .inr ⟨fun e => hc.2 e.symm, before, x, after, rfl, hc.1, hx⟩
  · rintro (hx | ⟨hop, before, x, after, rfl, hc, hx⟩)
    · exact ⟨ops, op, [], .inl ⟨rfl, rfl, rfl⟩, List.not_mem_nil, hx⟩
    · refine ⟨before, x, after ++ [op], .inr ⟨after, rfl, rfl⟩, ?_, hx⟩
      rw [List.mem_append, not_or, List.mem_singleton]
      exact ⟨hc, fun e => hop e.symm⟩

theorem contains_run : (run ops).contains k = true ↔ StoredSince ops k := by
  induction ops using List.reverseRecOn with
  | nil => simp [run, contains, get?_empty, StoredSince]
  | append_singleton ops op ih =>
    rw [storedSince_concat, run_concat]
    by_cases hop : op = .clear
    · subst op
      simp [serve, contains, get?_empty, Op.stores?]
    · rw [contains_serve hop, ih]
      simp [hop]

theorem startedAt_concat {tail : List (Op κ ν)} : StartedAt (ops ++ [op]) k v tail ↔
    tail = [op] ∧ op.Starts (run ops) k v ∨
      op ≠ .clear ∧ (∀ x, op ≠ .insert k x) ∧
        ∃ front, tail = front ++ [op] ∧ StartedAt ops k v front := by
  simp only [StartedAt, concat_eq_append_cons_iff]
  constructor
  · rintro ⟨before, x, after, ⟨rfl, rfl, rfl⟩ | ⟨after, rfl, rfl⟩, rfl, hs, hc, hi⟩
    · exact .inl ⟨rfl, hs⟩
    · simp only [List.mem_append, List.mem_singleton, not_or] at hc hi
      exact .inr ⟨fun e => hc.2 e.symm, fun y e => (hi y).2 e.symm, x :: after, rfl, before, x,
        after, rfl, rfl, hs, hc.1, fun y => (hi y).1⟩
  · rintro (⟨rfl, hs⟩ | ⟨hop, hins, _, rfl, before, x, after, rfl, rfl, hs, hc, hi⟩)
    · exact ⟨ops, op, [], .inl ⟨rfl, rfl, rfl⟩, rfl, hs, List.not_mem_nil, fun _ =>
        List.not_mem_nil⟩
    · refine ⟨before, x, after ++ [op], .inr ⟨after, rfl, rfl⟩, rfl, hs, ?_, fun y => ?_⟩ <;>
        rw [List.mem_append, not_or, List.mem_singleton]
      · exact ⟨hc, fun e => hop e.symm⟩
      · exact ⟨hi y, fun e => hins y e.symm⟩

theorem get?_run : (run ops).get? k = some v ↔
    ∃ w tail, StartedAt ops k w tail ∧ v = changed k w tail := by
  induction ops using List.reverseRecOn generalizing v with
  | nil => simp [run, get?_empty, StartedAt]
  | append_singleton ops op ih =>
    rw [run_concat]
    simp only [startedAt_concat]
    by_cases hop : op = .clear
    · subst op
      simp [serve, get?_empty, Op.Starts]
    · rw [get?_serve hop]
      constructor
      · rintro ⟨w, rfl, hs | ⟨hins, hw⟩⟩
        · exact ⟨w, [op], .inl ⟨rfl, hs⟩, rfl⟩
        · -- the value goes back to where the one before it goes back to
          obtain ⟨w₀, tail, ht, rfl⟩ := ih.1 hw
          exact ⟨w₀, tail ++ [op], .inr ⟨hop, hins, tail, rfl, ht⟩, (changed_append ..).symm⟩
      · rintro ⟨w, _, ⟨rfl, hs⟩ | ⟨-, hins, tail, rfl, ht⟩, rfl⟩
        · exact ⟨w, rfl, .inl hs⟩
        · exact ⟨changed k w tail, changed_append .., .inr ⟨hins, ih.2 ⟨w, tail, ht, rfl⟩⟩⟩

theorem historyLaw_run (ops : List (Op κ ν)) : HistoryLaw ops where
  contains_iff _ := contains_run
  value _ _ := get?_run
  made k make update := by
    cases h : (run ops).get? k with
    | none => simp [serve, contains, getOrInsert_of_none h, h]
    | some v => simp [serve, contains, getOrInsert_of_some h, h]
  unmade k make make' update h := by
    obtain ⟨v, hv⟩ := Option.isSome_iff_exists.1 h
    simp only [serve, getOrInsert_of_some hv]
  previous _ _ := rfl
  found _ := ⟨rfl, rfl⟩
  stored _ := rfl
  others _ _ := get?_serve_of_ne
  size := ⟨(run ops).keys, (run ops).nodup, fun _ => (contains_iff_mem_keys ..).symm,
    size_eq_length_keys _⟩
  isEmpty_iff := List.isEmpty_iff.trans List.length_eq_zero_iff.symm

/-- The value of a key goes back to the closure that ran behind `clear`, changed twice since. -/
theorem historyLaw_run_restarted :
    let ops : List (Op Ty Nat) := [.insert .u8 7, .clear, .getOrInsert .u8 (fun _ => 1) (· + 10),
      .insert .bool 4, .getOrInsert .u8 (fun _ => 5) (· * 2), .getType .u8]
    (run ops).get? .u8 = some 22 ∧ (run ops).contains .u16 = false ∧
      ((run ops).serve (.getOrInsert .u8 (fun _ => 3) id)).1 = .entry 22 false ∧
      ((run ops).serve (.insert .bool 9)).2.get? .u8 = some 22 := by
  intro ops
  have h := historyLaw_run ops
  have hvalue : (run ops).get? .u8 = some 22 :=
    (h.value .u8 22).2 ⟨1, _, ⟨[.insert .u8 7, .clear], _, _, rfl, rfl, .inr ⟨_, _, rfl, rfl, rfl⟩,
      nofun, nofun⟩, rfl⟩
  have hmade := h.made .u8 (fun _ => 3) id
  have hothers := h.others (.insert .bool 9) .u8 nofun nofun
  rw [hvalue] at hmade hothers
  exact ⟨hvalue, rfl, hmade, hothers⟩

end Assoc

end MemberPath
