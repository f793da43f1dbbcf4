/-!
# Association lists with distinct keys

A finite map that keeps its keys in the order of their first insertion. `get?` is the view: each
operation has a lemma that says what it does to it (`get?_insert`, `get?_getOrInsert`, `get?_modify`).
-/

namespace MemberPath

/-- A finite map; no key occurs twice. -/
structure Assoc (κ : Type u) (ν : Type v) where
  entries : List (κ × ν)
  nodup : (entries.map Prod.fst).Nodup

namespace Assoc

variable {κ : Type u} {ν : Type v}

def empty : Assoc κ ν := ⟨[], List.nodup_nil⟩

def keys (m : Assoc κ ν) : List κ := m.entries.map Prod.fst

def size (m : Assoc κ ν) : Nat := m.entries.length

def isEmpty (m : Assoc κ ν) : Bool := m.entries.isEmpty

theorem size_eq_length_keys (m : Assoc κ ν) : m.size = m.keys.length := by
  simp [size, keys]

variable [DecidableEq κ]

def get? (m : Assoc κ ν) (k : κ) : Option ν :=
  (m.entries.find? (·.1 = k)).map Prod.snd

def contains (m : Assoc κ ν) (k : κ) : Bool := (m.get? k).isSome

/-- Changes the value stored for a key, if there is one. -/
def modify (m : Assoc κ ν) (k : κ) (f : ν → ν) : Assoc κ ν where
  entries := m.entries.map fun e => if e.1 = k then (e.1, f e.2) else e
  nodup := by
    have h : ((fun e : κ × ν => if e.1 = k then (e.1, f e.2) else e) : κ × ν → κ × ν) =
        fun e => (e.1, if e.1 = k then f e.2 else e.2) := by
      funext e
      split <;> rfl
    rw [h, List.map_map]
    exact m.nodup

theorem get?_eq_none_iff (m : Assoc κ ν) (k : κ) : m.get? k = none ↔ k ∉ m.keys := by
  simp only [get?, keys, Option.map_eq_none_iff, List.find?_eq_none, List.mem_map, Prod.exists,
    exists_and_right, exists_eq_right, decide_eq_true_eq, Prod.forall, not_exists]
  constructor
  · intro h v hv
    exact h k v hv rfl
  · rintro h a v hv rfl
    exact h v hv

/-- Adds an entry for a key that has none. -/
def append (m : Assoc κ ν) (k : κ) (v : ν) (h : m.get? k = none) : Assoc κ ν where
  entries := m.entries ++ [(k, v)]
  nodup := by
    rw [List.map_append, List.nodup_append]
    refine ⟨m.nodup, by simp, ?_⟩
    intro a ha b hb
    simp only [List.map_cons, List.map_nil, List.mem_singleton] at hb
    rintro rfl
    exact (get?_eq_none_iff m k).1 h (hb ▸ ha)

/-- What `getOrInsert` gives: the value now stored, whether it is new, and the map. -/
structure Entry (κ : Type u) (ν : Type v) where
  value : ν
  fresh : Bool
  map : Assoc κ ν

/-- The value stored for a key; `f` is asked for one only if there was none. -/
def getOrInsert (m : Assoc κ ν) (k : κ) (f : Unit → ν) : Entry κ ν :=
  match h : m.get? k with
  | some v => ⟨v, false, m⟩
  | none => let v := f (); ⟨v, true, m.append k v h⟩

/-- Stores a value for a key, in place of the one stored before. -/
def insert (m : Assoc κ ν) (k : κ) (v : ν) : Assoc κ ν :=
  match h : m.get? k with
  | some _ => m.modify k fun _ => v
  | none => m.append k v h

theorem get?_empty (k : κ) : (empty : Assoc κ ν).get? k = none := rfl

theorem contains_iff_mem_keys (m : Assoc κ ν) (k : κ) : m.contains k = true ↔ k ∈ m.keys := by
  rw [contains, Option.isSome_iff_ne_none, Ne, get?_eq_none_iff, Decidable.not_not]

theorem get?_modify (m : Assoc κ ν) (k j : κ) (f : ν → ν) :
    (m.modify k f).get? j = if j = k then (m.get? k).map f else m.get? j := by
  simp only [get?, modify, List.find?_map, Option.map_map]
  have h : (fun e : κ × ν => decide (e.1 = j)) ∘ (fun e => if e.1 = k then (e.1, f e.2) else e) =
      fun e => decide (e.1 = j) := by
    funext e
    by_cases hk : e.1 = k <;> simp [hk]
  rw [h]
  split
  · subst j
    cases hf : m.entries.find? fun e => decide (e.1 = k) with
    | none => rfl
    | some e =>
      have he : e.1 = k := by simpa using List.find?_some hf
      simp [he]
  · rename_i hjk
    cases hf : m.entries.find? fun e => decide (e.1 = j) with
    | none => rfl
    | some e =>
      have he : e.1 = j := by simpa using List.find?_some hf
      simp [he, hjk]

theorem get?_append (m : Assoc κ ν) (k j : κ) (v : ν) (h : m.get? k = none) :
    (m.append k v h).get? j = if j = k then some v else m.get? j := by
  simp only [get?, append, List.find?_append]
  by_cases hjk : j = k
  · subst j
    simp only [get?, Option.map_eq_none_iff] at h
    simp [h]
  · have : ¬ k = j := fun e => hjk e.symm
    simp [hjk, this]

theorem getOrInsert_of_some {m : Assoc κ ν} {k : κ} {v : ν} (h : m.get? k = some v)
    (f : Unit → ν) : m.getOrInsert k f = ⟨v, false, m⟩ := by
  unfold getOrInsert
  split <;> simp_all

theorem getOrInsert_of_none {m : Assoc κ ν} {k : κ} (h : m.get? k = none) (f : Unit → ν) :
    m.getOrInsert k f = ⟨f (), true, m.append k (f ()) h⟩ := by
  unfold getOrInsert
  split <;> simp_all

/-- What is stored for other keys stays, and the key itself has what it had, or what `f` gave. -/
theorem get?_getOrInsert (m : Assoc κ ν) (k j : κ) (f : Unit → ν) :
    (m.getOrInsert k f).map.get? j =
      if j = k then some ((m.get? k).getD (f ())) else m.get? j := by
  cases h : m.get? k with
  | some v =>
    rw [getOrInsert_of_some h]
    split <;> simp_all
  | none => simp [getOrInsert_of_none h, get?_append]

theorem get?_insert (m : Assoc κ ν) (k j : κ) (v : ν) :
    (m.insert k v).get? j = if j = k then some v else m.get? j := by
  unfold insert
  split
  · rename_i w hw
    simp [get?_modify, hw]
  · rw [get?_append]

end Assoc

end MemberPath
