import MemberPath.Proofs.CacheHistory
import MemberPath.Proofs.CallSteps
import MemberPath.Proofs.WalkSteps

/-!
# Calls that share a resolver agree

Any number of calls resolve the expression of one resolver, and their steps come in any order.
`agreement_share` says what holds in every state on the way: what is stored stays, every answer is
the stored object, and a call that comes too late says so in the log. `Reached` are the resolvers
that the calls can begin on; what they have stored goes back to an event of their history
(`HasHistory.exists_storedAt`).
-/

namespace MemberPath

namespace Calls
variable {u : Universe} {e : Expression} {o : Options} {cs : Calls} {s : Store} {ts : List Ty}
  {schedule : List Nat} {i : Nat}

/-- Numbers tell all resolutions apart that are stored or about to be stored. -/
structure Fresh (cs : Calls) : Prop where
  stored_lt : ∀ t x, cs.store.cached.get? t = some x → x.number < cs.store.built
  held_lt : ∀ i own, cs.Holds i own → own.number < cs.store.built
  held_ne_stored : ∀ i own t x, cs.Holds i own → cs.store.cached.get? t = some x →
    x.number ≠ own.number
  held_ne_held : ∀ i j own own', i ≠ j → cs.Holds i own → cs.Holds j own' →
    own.number ≠ own'.number

theorem holds_set {c c' : Call} {s' : Store} {j : Nat} {own : Shared} (hi : cs.calls[i]? = some c) :
    Holds ⟨s', cs.calls.set i c'⟩ j own ↔
      j = i ∧ c'.phase = .built own ∨ j ≠ i ∧ cs.Holds j own := by
  simp only [Holds, getElem?_set_of_some hi]
  by_cases hj : j = i <;> simp [hj]

theorem Fresh.step (h : cs.Fresh) (i : Nat) : (cs.step u e o i).Fresh := by
  rcases cs.step_cases u e o i with ⟨-, heq⟩ | ⟨c, s', c', hi, hm, heq⟩ <;> rw [heq]
  · exact h
  have hle := hm.built_le
  refine ⟨fun t x hx => ?_, fun j own hj => ?_, fun j own t x hj hx => ?_,
    fun j k own own' hjk hj hk => ?_⟩
  · rcases hm.get?.1 hx with hx | ⟨-, hp, -⟩
    · exact Nat.lt_of_lt_of_le (h.stored_lt t x hx) hle
    · exact Nat.lt_of_lt_of_le (h.held_lt i x ⟨c, hi, hp⟩) hle
  · rcases (holds_set hi).1 hj with ⟨-, hp⟩ | ⟨-, hj⟩
    · obtain ⟨hn, hb, -⟩ := hm.built hp
      show own.number < s'.built
      omega
    · exact Nat.lt_of_lt_of_le (h.held_lt j own hj) hle
  · rcases (holds_set hi).1 hj with ⟨-, hp⟩ | ⟨hne, hj⟩
    · obtain ⟨hn, -, hs⟩ := hm.built hp
      have hx' : cs.store.cached.get? t = some x := hs ▸ hx
      have := h.stored_lt t x hx'
      omega
    · rcases hm.get?.1 hx with hx | ⟨-, hp, -⟩
      · exact h.held_ne_stored j own t x hj hx
      · exact h.held_ne_held i j x own (Ne.symm hne) ⟨c, hi, hp⟩ hj
  · rcases (holds_set hi).1 hj with ⟨hji, hp⟩ | ⟨-, hj₁⟩ <;>
      rcases (holds_set hi).1 hk with ⟨hki, hp'⟩ | ⟨-, hk₁⟩
    · exact absurd (hji.trans hki.symm) hjk
    · have hn := (hm.built hp).1
      have hlt := h.held_lt k own' hk₁
      omega
    · have hn := (hm.built hp').1
      have hlt := h.held_lt j own hj₁
      omega
    · exact h.held_ne_held j k own own' hjk hj₁ hk₁

theorem holds_start {own : Shared} : ¬ Holds ⟨s, ts.map Call.start⟩ i own := by
  rintro ⟨c, hc, hp⟩
  rw [List.getElem?_map, Option.map_eq_some_iff] at hc
  obtain ⟨t, -, rfl⟩ := hc
  cases hp

theorem fresh_after (h : ∀ t x, s.cached.get? t = some x → x.number < s.built)
    (schedule : List Nat) : (after u e o s ts schedule).Fresh := by
  induction schedule using List.reverseRecOn with
  | nil =>
    exact ⟨h, fun _ _ hj => (holds_start hj).elim, fun _ _ _ _ hj => (holds_start hj).elim,
      fun _ _ _ _ _ hj => (holds_start hj).elim⟩
  | append_singleton schedule i ih => rw [after_concat]; exact ih.step i

/-! ### What holds in every state -/

theorem target_after (u : Universe) (e : Expression) (o : Options) (s : Store) (ts : List Ty)
    (schedule : List Nat) : (after u e o s ts schedule).calls.map (·.target) = ts := by
  induction schedule using List.reverseRecOn with
  | nil =>
    show (ts.map Call.start).map (·.target) = ts
    rw [List.map_map]; exact List.map_id ts
  | append_singleton schedule i ih =>
    rcases after_cases u e o s ts schedule i with ⟨-, heq⟩ | ⟨c, s', c', hi, hm, heq⟩ <;>
      rw [heq]
    · exact ih
    · refine Eq.trans (List.ext_getElem? fun j => ?_) ih
      rw [List.getElem?_map, List.getElem?_map, getElem?_set_of_some hi]
      split
      · subst j; rw [hi]; exact congrArg some hm.target
      · rfl

theorem getElem?_target {c : Call} (hi : (after u e o s ts schedule).calls[i]? = some c) :
    ts[i]? = some c.target := by
  rw [← target_after u e o s ts schedule, List.getElem?_map, hi]; rfl

/-- In every state each call has what the walk gives for its type, or what is stored for it. -/
theorem settled_after {c : Call} (hc : (after u e o s ts schedule).calls[i]? = some c) :
    c.Settled u e o (after u e o s ts schedule).store := by
  induction schedule using List.reverseRecOn generalizing i c with
  | nil =>
    have hm : c ∈ ts.map Call.start := List.mem_of_getElem? hc
    obtain ⟨t, -, rfl⟩ := List.mem_map.1 hm
    trivial
  | append_singleton schedule j ih =>
    rcases after_cases u e o s ts schedule j with ⟨-, heq⟩ | ⟨d, s', d', hj, hm, heq⟩ <;>
      rw [heq] at hc ⊢
    · exact ih hc
    · rw [getElem?_set_of_some hj] at hc
      split at hc
      · cases hc; exact hm.settled (ih hj)
      · exact (ih hc).mono fun _ _ => hm.grows

theorem get?_after_append {t : Ty} {x : Shared} (more : List Nat)
    (h : (after u e o s ts schedule).store.cached.get? t = some x) :
    (after u e o s ts (schedule ++ more)).store.cached.get? t = some x := by
  induction more using List.reverseRecOn with
  | nil => rwa [List.append_nil]
  | append_singleton more i ih =>
    rw [← List.append_assoc]
    rcases after_cases u e o s ts (schedule ++ more) i with
      ⟨-, heq⟩ | ⟨c, s', c', hi, hm, heq⟩ <;> rw [heq]
    · exact ih
    · exact hm.grows ih

/-- A type has what was stored for it at the beginning, or else what the walk gives. -/
theorem get?_after {t : Ty} {x : Shared}
    (h : (after u e o s ts schedule).store.cached.get? t = some x) :
    s.cached.get? t = some x ∨
      s.cached.get? t = none ∧ (u.chainOf e o t).outcome = .ok x.chain := by
  induction schedule using List.reverseRecOn with
  | nil => exact .inl h
  | append_singleton schedule j ih =>
    rcases after_cases u e o s ts schedule j with ⟨-, heq⟩ | ⟨d, s', d', hj, hm, heq⟩ <;>
      rw [heq] at h
    · exact ih h
    rcases hm.get?.1 h with h | ⟨hn, hp, rfl⟩
    · exact ih h
    · refine .inr ⟨?_, ?_⟩
      · cases hs : s.cached.get? d.target with
        | none => rfl
        | some y =>
          have hy : (after u e o s ts ([] ++ schedule)).store.cached.get? d.target = some y :=
            get?_after_append schedule hs
          rw [List.nil_append, hn] at hy
          cases hy
      · have hset := settled_after hj
        simpa only [Call.Settled, hp] using hset

/-! ### Writing -/

/-- Call `i` has taken its last step with `own` in hand: it has stored it, or found another one. -/
def Wrote (u : Universe) (e : Expression) (o : Options) (s : Store) (ts : List Ty)
    (schedule : List Nat) (i : Nat) (own : Shared) : Prop :=
  ∃ before rest, schedule = before ++ i :: rest ∧ (after u e o s ts before).Holds i own

theorem wrote_concat {j : Nat} {own : Shared} :
    Wrote u e o s ts (schedule ++ [j]) i own ↔
      Wrote u e o s ts schedule i own ∨ j = i ∧ (after u e o s ts schedule).Holds i own := by
  simp only [Wrote, concat_eq_append_cons_iff]
  constructor
  · rintro ⟨before, _, ⟨rfl, rfl, -⟩ | ⟨rest, -, rfl⟩, hh⟩
    · exact .inr ⟨rfl, hh⟩
    · exact .inl ⟨before, rest, rfl, hh⟩
  · rintro (⟨before, rest, rfl, hh⟩ | ⟨rfl, hh⟩)
    · exact ⟨before, rest ++ [j], .inr ⟨rest, rfl, rfl⟩, hh⟩
    · exact ⟨schedule, [], .inl ⟨rfl, rfl, rfl⟩, hh⟩

theorem Wrote.done {own : Shared} (h : Wrote u e o s ts schedule i own) :
    ∃ c x, (after u e o s ts schedule).calls[i]? = some c ∧ c.phase = .done (.ok x) := by
  induction schedule using List.reverseRecOn with
  | nil => obtain ⟨before, rest, h, -⟩ := h; simp at h
  | append_singleton schedule j ih =>
    rcases after_cases u e o s ts schedule j with ⟨hj, heq⟩ | ⟨d, s', d', hj, hm, heq⟩ <;>
      rw [heq]
    · rcases wrote_concat.1 h with h | ⟨rfl, c, hc, -⟩
      · exact ih h
      · rw [hj] at hc; cases hc
    · simp only [getElem?_set_of_some hj]
      rcases wrote_concat.1 h with h | ⟨rfl, c, hc, hp⟩
      · obtain ⟨c, x, hc, hx⟩ := ih h
        split
        · subst i
          rw [hj] at hc; cases hc
          cases hm with
          | rest r hr => exact ⟨d, x, rfl, hx⟩
          | hit _ h | miss h | fail _ h | build _ h | store _ _ h | yield _ _ h =>
            rw [h] at hx; cases hx
        · exact ⟨c, x, hc, hx⟩
      · rw [hj] at hc; cases hc
        rw [if_pos rfl]
        cases hm with
        | store own' | yield _ own' => exact ⟨_, own', rfl, rfl⟩
        | hit _ h | miss h | fail _ h | build _ h | rest _ h => rw [h] at hp; cases hp

theorem wrote_concat_of_move {c : Call} {own : Shared}
    (hi : (after u e o s ts schedule).calls[i]? = some c) :
    Wrote u e o s ts (schedule ++ [i]) i own ↔
      Wrote u e o s ts schedule i own ∨ c.phase = .built own := by
  rw [wrote_concat]
  simp [Holds, hi]

theorem stored_after_iff {t : Ty} :
    (∃ x, (after u e o s ts schedule).store.cached.get? t = some x) ↔
      (∃ x, s.cached.get? t = some x) ∨
        ∃ i own, Wrote u e o s ts schedule i own ∧ ts[i]? = some t := by
  induction schedule using List.reverseRecOn with
  | nil =>
    refine ⟨.inl, ?_⟩
    rintro (h | ⟨i, own, ⟨before, rest, h, -⟩, -⟩)
    · exact h
    · simp at h
  | append_singleton schedule j ih =>
    rcases after_cases u e o s ts schedule j with ⟨hj, heq⟩ | ⟨d, s', d', hj, hm, heq⟩ <;>
      rw [heq]
    · rw [ih]
      refine or_congr_right (exists_congr fun i => exists_congr fun own => ?_)
      have hn : ¬ (j = i ∧ (after u e o s ts schedule).Holds i own) := by
        rintro ⟨rfl, c, hc, -⟩
        rw [hj] at hc; cases hc
      rw [wrote_concat, or_iff_left hn]
    · constructor
      · rintro ⟨x, hx⟩
        rcases hm.get?.1 hx with hx | ⟨-, hp, rfl⟩
        · rcases ih.1 ⟨x, hx⟩ with h | ⟨i, own, hw, ht⟩
          · exact .inl h
          · exact .inr ⟨i, own, wrote_concat.2 (.inl hw), ht⟩
        · exact .inr ⟨j, x, (wrote_concat_of_move hj).2 (.inr hp), getElem?_target hj⟩
      · intro h
        have hold : (∃ x, (after u e o s ts schedule).store.cached.get? t = some x) →
            ∃ x, s'.cached.get? t = some x := fun ⟨x, hx⟩ => ⟨x, hm.grows hx⟩
        rcases h with h | ⟨i, own, hw, ht⟩
        · exact hold (ih.2 (.inl h))
        rcases wrote_concat.1 hw with hw | ⟨rfl, c, hc, hp⟩
        · exact hold (ih.2 (.inr ⟨i, own, hw, ht⟩))
        · rw [hj] at hc; cases hc
          rw [getElem?_target hj] at ht; cases ht
          cases hx : (after u e o s ts schedule).store.cached.get? d.target with
          | some x => exact hold ⟨x, hx⟩
          | none => exact ⟨own, hm.get?.2 (.inr ⟨hx, hp, rfl⟩)⟩

theorem not_wrote {c : Call} {own : Shared} (hc : (after u e o s ts schedule).calls[i]? = some c)
    (hp : ∀ x, c.phase ≠ .done (.ok x)) : ¬ Wrote u e o s ts schedule i own := by
  intro hw
  obtain ⟨c', x, hc', hx⟩ := hw.done
  rw [hc] at hc'
  cases hc'
  exact hp x hx

/-- What a call says about coming too late, one step further. -/
theorem overtaken_mem_of_moves (hs : ∀ t x, s.cached.get? t = some x → x.number < s.built)
    {c c' : Call} {s' : Store} (hc : (after u e o s ts schedule).calls[i]? = some c)
    (hm : c.Moves u e o (after u e o s ts schedule).store s' c')
    (hold : .overtaken e.text c.target ∈ c.records ↔ ∃ own, Wrote u e o s ts schedule i own ∧
      (after u e o s ts schedule).store.cached.get? c.target ≠ some own) :
    .overtaken e.text c.target ∈ c'.records ↔
      ∃ own, (Wrote u e o s ts schedule i own ∨ c.phase = .built own) ∧
        s'.cached.get? c.target ≠ some own := by
  have hwalk := u.overtaken_notMem_chainOf e o c.target e.text c.target
  -- as long as the call has no answer it has not written and said nothing
  have hquiet : (∀ x, c.phase ≠ .done (.ok x)) →
      (∀ own, ¬ Wrote u e o s ts schedule i own) ∧ .overtaken e.text c.target ∉ c.records :=
    fun hp => ⟨fun _ => not_wrote hc hp,
      fun hr => (hold.1 hr).elim fun _ h => not_wrote hc hp h.1⟩
  cases hm with
  | hit x hp hx =>
    obtain ⟨hw, hr⟩ := hquiet (by simp [hp])
    simp [hw, hr, hp]
  | miss hp hn =>
    obtain ⟨hw, hr⟩ := hquiet (by simp [hp])
    simp [hw, hr, hp]
  | fail err hp he =>
    obtain ⟨hw, hr⟩ := hquiet (by simp [hp])
    simp [hw, hr, hp, hwalk]
  | build chain hp hc =>
    obtain ⟨hw, hr⟩ := hquiet (by simp [hp])
    simp [hw, hr, hp, hwalk]
  | store own hn hp =>
    obtain ⟨hw, hr⟩ := hquiet (by simp [hp])
    simp [hw, hr, hp, Assoc.get?_append]
  | yield own x hp hx =>
    obtain ⟨hw, hr⟩ := hquiet (by simp [hp])
    have hnum : x.number ≠ own.number :=
      (fresh_after hs schedule).held_ne_stored i own _ x ⟨c, hc, hp⟩ hx
    have hne : x ≠ own := fun h => hnum (congrArg Shared.number h)
    simp [hw, hr, hp, hx, Store.overtaken, hnum, hne]
  | rest r hp => simpa [hp] using hold

/-- A call says that it came too late iff it has written and the stored object is not its own. -/
theorem overtaken_mem_iff (hs : ∀ t x, s.cached.get? t = some x → x.number < s.built) {c : Call}
    (hc : (after u e o s ts schedule).calls[i]? = some c) :
    .overtaken e.text c.target ∈ c.records ↔ ∃ own, Wrote u e o s ts schedule i own ∧
      (after u e o s ts schedule).store.cached.get? c.target ≠ some own := by
  induction schedule using List.reverseRecOn generalizing c with
  | nil =>
    have hm : c ∈ ts.map Call.start := List.mem_of_getElem? hc
    obtain ⟨t, -, rfl⟩ := List.mem_map.1 hm
    simp [Call.start, Wrote]
  | append_singleton schedule j ih =>
    rcases after_cases u e o s ts schedule j with ⟨hj, heq⟩ | ⟨d, s', d', hj, hm, heq⟩ <;>
      rw [heq] at hc ⊢
    · have hne : j ≠ i := by rintro rfl; rw [hj] at hc; cases hc
      simp only [wrote_concat, hne, false_and, or_false]
      exact ih hc
    rw [getElem?_set_of_some hj] at hc
    split at hc
    · subst i
      cases hc
      simp only [wrote_concat_of_move hj, hm.target]
      exact overtaken_mem_of_moves hs hj hm (ih hj)
    · rename_i hij
      simp only [wrote_concat, Ne.symm hij, false_and, or_false]
      rw [ih hc]
      -- a call that has written has an answer already, and that is stored for good
      refine exists_congr fun own => and_congr_right fun hw => ?_
      obtain ⟨c', x, hc', hx⟩ := hw.done
      rw [hc] at hc'; cases hc'
      have hst := settled_after hc
      simp only [Call.Settled, hx] at hst
      rw [hst, hm.grows hst]

/-- No step of a call that fails in the end changes the store. -/
theorem store_after_of_failed {c : Call} {err : PathError} {before rest : List Nat}
    (hc : (after u e o s ts (before ++ i :: rest)).calls[i]? = some c)
    (hp : c.phase = .done (.error err)) :
    (after u e o s ts (before ++ [i])).store = (after u e o s ts before).store := by
  have hw : (u.chainOf e o c.target).outcome = .error err := by
    have hst := settled_after hc
    simpa only [Call.Settled, hp] using hst
  rcases after_cases u e o s ts before i with
    ⟨-, heq⟩ | ⟨d, s', d', hi, hm, heq⟩ <;> rw [heq]
  have ht : d.target = c.target := by
    have hd := getElem?_target hi
    rw [getElem?_target hc] at hd
    exact (Option.some.inj hd).symm
  refine hm.store_eq (ht ▸ hw) fun own hd => ?_
  have hst := settled_after hi
  simp only [Call.Settled, hd, ht, hw] at hst
  cases hst

end Calls

namespace Resolver
variable {u : Universe} {r : Resolver}

/-- The state after some steps of calls for the types `ts` that share a resolver. -/
def share (u : Universe) (r : Resolver) (ts : List Ty) (schedule : List Nat) : Calls :=
  Calls.after u r.expression r.options r.store ts schedule

/-- Call `i` of those that share a resolver has taken the step that stores a resolution, with `own`
in hand. -/
def Wrote (u : Universe) (r : Resolver) (ts : List Ty) (schedule : List Nat) (i : Nat)
    (own : Shared) : Prop :=
  Calls.Wrote u r.expression r.options r.store ts schedule i own

/-- The resolvers that a program can come by: new ones, and what requests and shared calls make of
them. -/
inductive Reached (u : Universe) : Resolver → Prop
  | made {text : String} {o : Options} {r : Resolver} : ofString text o = .ok r → Reached u r
  | served {r : Resolver} (q : Request) : Reached u r → Reached u (r.serve u q).resolver
  | shared {r : Resolver} (ts : List Ty) (schedule : List Nat) : Reached u r →
      Reached u { r with store := (r.share u ts schedule).store }

/-- What can happen to a resolver: it serves a request, or calls share it. -/
inductive Event
  | served (q : Request)
  | shared (ts : List Ty) (schedule : List Nat)

def handle (u : Universe) (r : Resolver) : Event → Resolver
  | .served q => (r.serve u q).resolver
  | .shared ts schedule => { r with store := (r.share u ts schedule).store }

/-- The resolver after some events. -/
def handleAll (u : Universe) (r : Resolver) (events : List Event) : Resolver :=
  events.foldl (handle u) r

/-- The resolver was made as `start`, and the events have happened to it since then. -/
def HasHistory (u : Universe) (r start : Resolver) (events : List Event) : Prop :=
  (∃ text o, ofString text o = .ok start) ∧ start.handleAll u events = r

/-- The event behind `before` stores `x` for `t`, for which nothing was stored, and no later event
is `clear`. -/
def StoredAt (u : Universe) (start : Resolver) (events before : List Event) (t : Ty) (x : Shared) :
    Prop :=
  ∃ event rest, events = before ++ event :: rest ∧ .served .clear ∉ rest ∧
    (start.handleAll u before).store.cached.get? t = none ∧
    ((start.handleAll u before).handle u event).store.cached.get? t = some x

/-- What calls for the types `ts` that share a resolver agree on after the steps of `schedule`. -/
structure Agreement (u : Universe) (r : Resolver) (ts : List Ty) (schedule : List Nat) : Prop where
  targets : (r.share u ts schedule).calls.map (·.target) = ts
  kept : ∀ more t x, (r.share u ts schedule).store.cached.get? t = some x →
    (r.share u ts (schedule ++ more)).store.cached.get? t = some x
  history : ∃ start events, r.HasHistory u start events
  /-- Every success is the stored object, which is what the walk gives: under the option as it is
  now, or as it was at the event that stored the object before the calls began. -/
  returned : ∀ (i : Nat) (c : Call) x, (r.share u ts schedule).calls[i]? = some c →
    c.outcome? = some (.ok x) →
    (r.share u ts schedule).store.cached.get? c.target = some x ∧
    match r.store.cached.get? c.target with
    | none => (u.chainOf r.expression r.options c.target).outcome = .ok x.chain
    | some first => x = first ∧ ∀ start events, r.HasHistory u start events →
      ∃ before, StoredAt u start events before c.target first ∧
        (u.chainOf r.expression
          ⟨r.options.strategy, (start.handleAll u before).options.ignoreToString⟩
          c.target).outcome = .ok x.chain
  /-- A failure is the failure of the walk, and none of the steps of the call changes the store. -/
  failed : ∀ (i : Nat) (c : Call) err, (r.share u ts schedule).calls[i]? = some c →
    c.outcome? = some (.error err) →
    (u.chainOf r.expression r.options c.target).outcome = .error err ∧
    ∀ before rest, schedule = before ++ i :: rest →
      (r.share u ts (before ++ [i])).store = (r.share u ts before).store
  stored : ∀ t, t ∈ (r.share u ts schedule).store.cached.keys ↔
    t ∈ r.store.cached.keys ∨ ∃ i own, r.Wrote u ts schedule i own ∧ ts[i]? = some t
  /-- A call says that it was overtaken iff it has written and the stored object is not its own. -/
  overtaken : ∀ (i : Nat) (c : Call), (r.share u ts schedule).calls[i]? = some c →
    (.overtaken r.expression.text c.target ∈ c.records ↔ ∃ own, r.Wrote u ts schedule i own ∧
      (r.share u ts schedule).store.cached.get? c.target ≠ some own)

theorem Reached.sound (h : r.Reached u) : r.Sound u := by
  induction h with
  | made h => exact sound_of_ofString h
  | served q _ ih => exact ih.serve q
  | @shared r ts schedule _ ih =>
    refine ⟨(Calls.fresh_after ih.numbered schedule).stored_lt, fun t x hx => ?_⟩
    rcases Calls.get?_after hx with h | ⟨-, h⟩
    · exact ih.walked t x h
    · exact ⟨r.options.ignoreToString, h⟩

/-- The expression of a resolver is what its text says. -/
theorem Reached.parsed (h : r.Reached u) :
    Segments.ofString r.expression.text = .ok r.expression.segments := by
  induction h with
  | made h =>
    obtain ⟨e, he, rfl⟩ := ofString_eq_ok_iff.1 h
    obtain ⟨rfl, hs⟩ := Expression.ofString_eq_ok_iff.1 he
    exact hs
  | served q _ ih => rw [expression_serve]; exact ih
  | shared _ _ _ ih => exact ih

/-! ### Histories -/

section History
variable {start : Resolver} {events before : List Event} {t : Ty} {x : Shared}

theorem handleAll_nil (u : Universe) (r : Resolver) : r.handleAll u [] = r := rfl

theorem handleAll_concat (u : Universe) (r : Resolver) (events : List Event) (event : Event) :
    r.handleAll u (events ++ [event]) = (r.handleAll u events).handle u event := by
  simp [handleAll]

theorem Reached.exists_history (h : r.Reached u) : ∃ start events, r.HasHistory u start events := by
  induction h with
  | made h => exact ⟨_, [], ⟨_, _, h⟩, rfl⟩
  | served q _ ih =>
    obtain ⟨start, events, hs, rfl⟩ := ih
    exact ⟨start, events ++ [.served q], hs, handleAll_concat ..⟩
  | shared ts schedule _ ih =>
    obtain ⟨start, events, hs, rfl⟩ := ih
    exact ⟨start, events ++ [.shared ts schedule], hs, handleAll_concat ..⟩

/-- Behind an event a type has what was stored for it before, or else what the walk gives. -/
theorem get?_handle {event : Event} (h : (r.handle u event).store.cached.get? t = some x) :
    r.store.cached.get? t = some x ∧ event ≠ .served .clear ∨
      r.store.cached.get? t = none ∧ (u.chainOf r.expression r.options t).outcome = .ok x.chain := by
  cases event with
  | shared ts schedule => exact (Calls.get?_after h).imp_left fun h => ⟨h, nofun⟩
  | served q =>
    have hq : q ≠ .clear := by
      rintro rfl
      rw [handle, get?_serve_clear] at h
      cases h
    have hne : Event.served q ≠ .served .clear := fun e => hq (Event.served.inj e)
    rcases (get?_serve hq).1 h with hr | hx
    · cases hy : r.store.cached.get? t with
      | none => exact .inr ⟨rfl, hr.chain hy⟩
      | some y => exact .inl ⟨by rw [hr.eq_of_cached hy], hne⟩
    · exact .inl ⟨hx, hne⟩

theorem handle_same (u : Universe) (r : Resolver) (event : Event) :
    (r.handle u event).expression = r.expression ∧
      (r.handle u event).options.strategy = r.options.strategy := by
  cases event with
  | served q => exact ⟨expression_serve .., by rw [handle, options_serve]⟩
  | shared => exact ⟨rfl, rfl⟩

theorem handleAll_same (u : Universe) (r : Resolver) (events : List Event) :
    (r.handleAll u events).expression = r.expression ∧
      (r.handleAll u events).options.strategy = r.options.strategy := by
  induction events using List.reverseRecOn with
  | nil => exact ⟨rfl, rfl⟩
  | append_singleton events event ih =>
    rw [handleAll_concat, (handle_same u _ event).1, (handle_same u _ event).2]
    exact ih

/-- What is stored was stored by an event, and not dropped since then. -/
theorem storedAt_of_get? (h₀ : start.store.cached = .empty)
    (hx : (start.handleAll u events).store.cached.get? t = some x) :
    ∃ before, StoredAt u start events before t x := by
  induction events using List.reverseRecOn with
  | nil =>
    rw [handleAll_nil, h₀, Assoc.get?_empty] at hx
    cases hx
  | append_singleton events event ih =>
    rw [handleAll_concat] at hx
    rcases get?_handle hx with ⟨hold, hne⟩ | ⟨hn, -⟩
    · obtain ⟨before, event', rest, rfl, hc, hs⟩ := ih hold
      refine ⟨before, event', rest ++ [event], by simp, ?_, hs⟩
      simp only [List.mem_append, List.mem_singleton, not_or]
      exact ⟨hc, hne.symm⟩
    · exact ⟨events, event, [], rfl, List.not_mem_nil, hn, hx⟩

/-- The event that stored an object found it by the walk, under the option as it was then. -/
theorem StoredAt.chain (h : StoredAt u start events before t x) :
    (u.chainOf start.expression
      ⟨start.options.strategy, (start.handleAll u before).options.ignoreToString⟩ t).outcome =
        .ok x.chain := by
  obtain ⟨event, rest, -, -, hn, hx⟩ := h
  obtain ⟨he, hs⟩ := handleAll_same u start before
  rcases get?_handle hx with ⟨hold, -⟩ | ⟨-, hw⟩
  · rw [hn] at hold
    cases hold
  · rw [← he, ← hs]
    exact hw

/-- Whatever the history of a resolver is, what it has stored goes back to an event of it. -/
theorem HasHistory.exists_storedAt (h : r.HasHistory u start events)
    (hx : r.store.cached.get? t = some x) :
    ∃ before, StoredAt u start events before t x ∧
      (u.chainOf r.expression
        ⟨r.options.strategy, (start.handleAll u before).options.ignoreToString⟩ t).outcome =
          .ok x.chain := by
  obtain ⟨⟨text, o, hstart⟩, rfl⟩ := h
  have hempty : start.store.cached = .empty := by rw [store_of_ofString hstart]; rfl
  obtain ⟨he, hs⟩ := handleAll_same u start events
  obtain ⟨before, hb⟩ := storedAt_of_get? hempty hx
  rw [he, hs]
  exact ⟨before, hb, hb.chain⟩

end History

/-! ### Agreement -/

theorem phase_of_outcome? {c : Call} {a : Except PathError Shared} (h : c.outcome? = some a) :
    c.phase = .done a := by
  rcases c with ⟨t, phase, records⟩
  cases phase <;> cases h
  rfl

theorem mem_keys_iff {m : Assoc Ty Shared} {t : Ty} : t ∈ m.keys ↔ ∃ x, m.get? t = some x := by
  rw [← Assoc.contains_iff_mem_keys, Assoc.contains, Option.isSome_iff_exists]

/-- Calls that share a resolver agree in every state, whatever the order of their steps. -/
theorem agreement_share (h : r.Reached u) (ts : List Ty) (schedule : List Nat) :
    Agreement u r ts schedule := by
  have hs := h.sound
  refine ⟨Calls.target_after .., fun more t x => Calls.get?_after_append more, h.exists_history, ?_,
    ?_, ?_, ?_⟩
  · intro i c x hc hx
    have hst := Calls.settled_after hc
    simp only [Call.Settled, phase_of_outcome? hx] at hst
    refine ⟨hst, ?_⟩
    rcases Calls.get?_after hst with h₀ | ⟨h₀, hw⟩
    · rw [h₀]; exact ⟨rfl, fun _ _ hh => hh.exists_storedAt h₀⟩
    · rw [h₀]; exact hw
  · intro i c err hc he
    have hp := phase_of_outcome? he
    have hst := Calls.settled_after hc
    simp only [Call.Settled, hp] at hst
    refine ⟨hst, ?_⟩
    rintro before rest rfl
    exact Calls.store_after_of_failed hc hp
  · intro t
    rw [mem_keys_iff, mem_keys_iff]
    exact Calls.stored_after_iff
  · intro i c hc
    exact Calls.overtaken_mem_iff hs.numbered hc

/-- The first call finds what was stored under an option that leaves nothing to find now. The others
take their steps in turn, and the last one finds the object of the one before it. -/
theorem agreement_share_label :
    let start : Resolver := ⟨⟨"[String]", .types [⟨"String", false⟩]⟩, .standard, .empty⟩
    let label : Value := .object Sample.label [some (.int .u32 7)] none ""
    let events : List Event := [.served (.setIgnoreToString false), .served (.resolve label),
      .served (.setIgnoreToString true)]
    let r := start.handleAll Sample.world events
    let ts : List Ty := [label.ty, .defined Sample.player, .defined Sample.player]
    let schedule := [0, 1, 2, 1, 2, 1, 2]
    r.Reached Sample.world ∧ r.HasHistory Sample.world start events ∧
      Agreement Sample.world r ts schedule ∧
      (Sample.world.chainOf r.expression r.options label.ty).outcome.isOk = false ∧
      (r.share Sample.world ts schedule).calls.map
        (fun c => (c.outcome?.any Except.isOk, c.records.contains (.overtaken "[String]" c.target))) =
          [(true, false), (true, false), (true, true)] := by
  intro start label events r ts schedule
  have hmade : ofString "[String]" .standard = .ok start := rfl
  have h : r.Reached Sample.world := .served _ (.served _ (.served _ (.made hmade)))
  exact ⟨h, ⟨⟨_, _, hmade⟩, rfl⟩, agreement_share h ts schedule, by decide, by decide⟩

end Resolver

end MemberPath
