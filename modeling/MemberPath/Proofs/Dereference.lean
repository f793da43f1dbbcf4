import MemberPath.Path.Walk
import MemberPath.Proofs.Reading
import MemberPath.Sample

/-!
# Reading and plain dereference

`dereferenceAll` applies members one after the other and copies nothing. Where copies are equal to
what they are copies of, reading a chain gives what dereferencing its members gives, unless a copy
is refused on the way (`readsPlainly`).
-/

namespace MemberPath

/-- Applies a member to a value as it stands. -/
def Member.dereference (u : Universe) (v : Value) : Member → Except PathError Value
  | .field f =>
    match f.read u v with
    | some w => .ok w
    | none => .error (.nullValue f.name)
  | .method m => (m.call u v []).mapError (.failedCall m.name)

/-- Applies members one after the other to values as they stand. -/
def dereferenceAll (u : Universe) (v : Value) (ms : List Member) : Except PathError Value :=
  ms.foldlM (Member.dereference u) v

/-- Every copy that reading `ms` makes is refused or equal to what it is a copy of. -/
def CopiesEqual (u : Universe) (r : Reading) (ms : List Member) : Prop :=
  ∀ before f after r' v w, ms = before ++ .field f :: after → advanceAll u r before = .ok r' →
    r'.borrowed = false → f.read u r'.value = some v → u.copy v = .ok w → w = v

/-- Behind `before`, which leaves what was borrowed, the field `f` can be dereferenced but its value
cannot be copied. -/
structure Refused (u : Universe) (r : Reading) (ms before : List Member) (f : Field)
    (e : CopyError) : Prop where
  split : before ++ [.field f] <+: ms
  owned : r.borrowed = true → ∃ m ∈ before, m.isMethod = true
  refused : ∃ v, dereferenceAll u r.value (before ++ [.field f]) = .ok v ∧ u.copy v = .error e

/-- The first refusal of a copy along `ms`. -/
structure FirstRefused (u : Universe) (r : Reading) (ms before : List Member) (f : Field)
    (e : CopyError) : Prop extends Refused u r ms before f e where
  first : ∀ before' f' e', Refused u r ms before' f' e' → before.length ≤ before'.length

/-- Reading the chain from `root` is dereferencing its members, up to refused copies. -/
structure Chain.ReadsPlainly (u : Universe) (c : Chain) (root : Value) : Prop where
  /-- The error is a refused copy exactly where the first copy is refused. -/
  detached : ∀ name e, c.read u root = .error (.detach name e) ↔
    ∃ before f, f.name = name ∧ FirstRefused u ⟨root, true⟩ c.members before f e
  /-- Otherwise the values and the errors are the same. -/
  plain : (∀ before f e, ¬ FirstRefused u ⟨root, true⟩ c.members before f e) →
    (c.read u root).map (·.value) = dereferenceAll u root c.members
  /-- The value is a part of the root as long as no method is called. -/
  borrowed : ∀ r, c.read u root = .ok r →
    (r.borrowed = true ↔ ∀ m ∈ c.members, m.isMethod = false)

variable {u : Universe} {r : Reading} {ms before before' : List Member} {m : Member}
  {f f' : Field} {e e' : CopyError}

theorem dereferenceAll_cons (u : Universe) (v : Value) (m : Member) (ms : List Member) :
    dereferenceAll u v (m :: ms) = (m.dereference u v).bind fun w => dereferenceAll u w ms := rfl

theorem dereferenceAll_singleton (u : Universe) (v : Value) (m : Member) :
    dereferenceAll u v [m] = m.dereference u v := by
  rw [dereferenceAll_cons]
  cases m.dereference u v <;> rfl

/-! ### One member -/

theorem Member.dereference_of_none {v : Value} (h : f.read u v = none) :
    Member.dereference u v (.field f) = .error (.nullValue f.name) := by
  simp only [Member.dereference, h]

theorem Member.dereference_of_some {v w : Value} (h : f.read u v = some w) :
    Member.dereference u v (.field f) = .ok w := by
  simp only [Member.dereference, h]

theorem Member.dereference_of_error {v : Value} {n : Method} {e : CallError}
    (h : n.call u v [] = .error e) :
    Member.dereference u v (.method n) = .error (.failedCall n.name e) := by
  rw [Member.dereference, h]; rfl

theorem Member.dereference_of_ok {v w : Value} {n : Method} (h : n.call u v [] = .ok w) :
    Member.dereference u v (.method n) = .ok w := by
  rw [Member.dereference, h]; rfl

theorem Member.dereference_ne_detach {v : Value} {name : String} :
    m.dereference u v ≠ .error (.detach name e) := by
  intro h
  cases m with
  | field f =>
    cases hf : f.read u v with
    | none => rw [Member.dereference_of_none hf] at h; cases h
    | some w => rw [Member.dereference_of_some hf] at h; cases h
  | method n =>
    cases hn : n.call u v [] with
    | error e => rw [Member.dereference_of_error hn] at h; cases h
    | ok w => rw [Member.dereference_of_ok hn] at h; cases h

/-- A member advances as it dereferences, or its value cannot be copied. -/
theorem advance_cases (h : CopiesEqual u r (m :: ms)) :
    (∃ err, m.dereference u r.value = .error err ∧ m.advance u r = .error err) ∨
    (∃ v, m.dereference u r.value = .ok v ∧ m.advance u r = .ok ⟨v, r.borrowed && !m.isMethod⟩ ∧
      ∀ f e, m = .field f → r.borrowed = false → u.copy v ≠ .error e) ∨
    ∃ f v e, m = .field f ∧ r.borrowed = false ∧ m.dereference u r.value = .ok v ∧
      u.copy v = .error e ∧ m.advance u r = .error (.detach f.name e) := by
  have ha := m.advances u r
  generalize m.advance u r = a at ha ⊢
  cases ha with
  | empty hn => exact .inl ⟨_, Member.dereference_of_none hn, rfl⟩
  | @borrow f v hv hb =>
    refine .inr (.inl ⟨v, Member.dereference_of_some hv, by rw [hb]; rfl, ?_⟩)
    intro f e _ hb'
    rw [hb] at hb'; cases hb'
  | @detach f v w hv hb hc =>
    obtain rfl : w = v := h [] f ms r v w rfl rfl hb hv hc
    refine .inr (.inl ⟨w, Member.dereference_of_some hv, by rw [hb]; rfl, ?_⟩)
    intro f e _ _ he
    rw [hc] at he; cases he
  | @stuck f v e hv hb hc =>
    exact .inr (.inr ⟨f, v, e, rfl, hb, Member.dereference_of_some hv, hc, rfl⟩)
  | @call n v hv =>
    refine .inr (.inl ⟨v, Member.dereference_of_ok hv, by simp [Member.isMethod], ?_⟩)
    intro f e hf
    cases hf
  | fail he => exact .inl ⟨_, Member.dereference_of_error he, rfl⟩

theorem CopiesEqual.tail {r' : Reading} (h : CopiesEqual u r (m :: ms))
    (hr : m.advance u r = .ok r') : CopiesEqual u r' ms := by
  intro before f after r₁ v w hms hb
  refine h (m :: before) f after r₁ v w (by rw [hms]; rfl) ?_
  rw [advanceAll_cons, hr]
  exact hb

theorem owned_cons_iff : (r.borrowed = true → ∃ x ∈ m :: before, x.isMethod = true) ↔
    ((r.borrowed && !m.isMethod) = true → ∃ x ∈ before, x.isMethod = true) := by
  cases r.borrowed <;> cases hm : m.isMethod <;> simp [hm]

/-- A copy is refused at the first member, or behind it. -/
theorem refused_cons_iff : Refused u r (m :: ms) before f e ↔
    (before = [] ∧ m = .field f ∧ r.borrowed = false ∧
      ∃ v, m.dereference u r.value = .ok v ∧ u.copy v = .error e) ∨
    ∃ before' v, before = m :: before' ∧ m.dereference u r.value = .ok v ∧
      Refused u ⟨v, r.borrowed && !m.isMethod⟩ ms before' f e := by
  constructor
  · rintro ⟨hs, ho, v, hd, hc⟩
    cases before with
    | nil =>
      obtain ⟨rfl, -⟩ := List.cons_prefix_cons.1 hs
      rw [List.nil_append, dereferenceAll_singleton] at hd
      refine .inl ⟨rfl, rfl, Bool.eq_false_iff.2 fun hb => ?_, v, hd, hc⟩
      obtain ⟨_, hx, -⟩ := ho hb
      exact absurd hx List.not_mem_nil
    | cons m' before =>
      obtain ⟨rfl, hs'⟩ := List.cons_prefix_cons.1 hs
      rw [List.cons_append, dereferenceAll_cons] at hd
      cases hm : m'.dereference u r.value with
      | error err => rw [hm] at hd; cases hd
      | ok w =>
        rw [hm] at hd
        exact .inr ⟨before, w, rfl, rfl, hs', owned_cons_iff.1 ho, v, hd, hc⟩
  · rintro (⟨rfl, rfl, hb, v, hd, hc⟩ | ⟨before, v, rfl, hd, hs, ho, w, hd', hc⟩)
    · refine ⟨List.cons_prefix_cons.2 ⟨rfl, List.nil_prefix⟩, fun h => ?_, v, ?_, hc⟩
      · rw [hb] at h; cases h
      · rw [List.nil_append, dereferenceAll_singleton, hd]
    · refine ⟨List.cons_prefix_cons.2 ⟨rfl, hs⟩, owned_cons_iff.2 ho, w, ?_, hc⟩
      rw [List.cons_append, dereferenceAll_cons, hd]
      exact hd'

theorem FirstRefused.cons {v : Value} (hd : m.dereference u r.value = .ok v)
    (hm : ∀ f e, m = .field f → r.borrowed = false → u.copy v ≠ .error e)
    (h : FirstRefused u ⟨v, r.borrowed && !m.isMethod⟩ ms before f e) :
    FirstRefused u r (m :: ms) (m :: before) f e := by
  refine ⟨refused_cons_iff.2 (.inr ⟨before, v, rfl, hd, h.toRefused⟩), ?_⟩
  intro before' f' e' h'
  rcases refused_cons_iff.1 h' with ⟨-, hf, hb, w, hw, hc⟩ | ⟨before₁, w, rfl, hw, h'⟩
  · rw [hd] at hw
    cases hw
    exact absurd hc (hm f' e' hf hb)
  · rw [hd] at hw
    cases hw
    exact Nat.succ_le_succ (h.first before₁ f' e' h')

theorem FirstRefused.unique (h : FirstRefused u r ms before f e)
    (h' : FirstRefused u r ms before' f' e') : f = f' ∧ e = e' := by
  have hlen : before.length = before'.length :=
    Nat.le_antisymm (h.first before' f' e' h'.toRefused) (h'.first before f e h.toRefused)
  have heq : before ++ [.field f] = before' ++ [.field f'] :=
    (List.prefix_of_prefix_length_le h.split h'.split (by simp [hlen])).eq_of_length
      (by simp [hlen])
  obtain ⟨rfl, hf⟩ := List.append_inj heq hlen
  cases hf
  obtain ⟨v, hv, he⟩ := h.refused
  obtain ⟨v', hv', he'⟩ := h'.refused
  rw [hv] at hv'
  cases hv'
  rw [he] at he'
  cases he'
  exact ⟨rfl, rfl⟩

/-! ### A chain of members -/

theorem dereferenceAll_ne_detach {v : Value} {name : String} :
    dereferenceAll u v ms ≠ .error (.detach name e) := by
  induction ms generalizing v with
  | nil =>
    intro h
    cases h
  | cons m ms ih =>
    rw [dereferenceAll_cons]
    cases hm : m.dereference u v with
    | error err =>
      intro h
      cases h
      exact Member.dereference_ne_detach hm
    | ok w => exact ih

/-- Either a copy is refused, and the first refusal is the error, or the value and the error are
those of dereferencing. -/
theorem advanceAll_cases (h : CopiesEqual u r ms) :
    (∃ before f e, FirstRefused u r ms before f e ∧
      advanceAll u r ms = .error (.detach f.name e)) ∨
    (∀ before f e, ¬ Refused u r ms before f e) ∧
      (advanceAll u r ms).map (·.value) = dereferenceAll u r.value ms := by
  induction ms generalizing r with
  | nil =>
    refine .inr ⟨fun before f e hr => ?_, rfl⟩
    have := List.prefix_nil.1 hr.split
    simp at this
  | cons m ms ih =>
    rcases advance_cases h with ⟨err, hd, ha⟩ | ⟨v, hd, ha, hm⟩ | ⟨f, v, e, rfl, hb, hd, hc, ha⟩
    · refine .inr ⟨fun before f e hr => ?_, ?_⟩
      · rcases refused_cons_iff.1 hr with ⟨-, -, -, v, hv, -⟩ | ⟨_, v, -, hv, -⟩ <;>
          rw [hd] at hv <;> cases hv
      · rw [advanceAll_cons, dereferenceAll_cons, ha, hd]; rfl
    · rcases ih (h.tail ha) with ⟨before, f, e, hfirst, he⟩ | ⟨hnone, heq⟩
      · refine .inl ⟨m :: before, f, e, hfirst.cons hd hm, ?_⟩
        rw [advanceAll_cons, ha]
        exact he
      · refine .inr ⟨fun before f e hr => ?_, ?_⟩
        · rcases refused_cons_iff.1 hr with ⟨-, hf, hb, w, hw, hc⟩ | ⟨before, w, -, hw, hr⟩
          · rw [hd] at hw
            cases hw
            exact hm f e hf hb hc
          · rw [hd] at hw
            cases hw
            exact hnone before f e hr
        · rw [advanceAll_cons, dereferenceAll_cons, ha, hd]
          exact heq
    · refine .inl ⟨[], f, e, ⟨refused_cons_iff.2 (.inl ⟨rfl, rfl, hb, v, hd, hc⟩), ?_⟩, ?_⟩
      · exact fun _ _ _ _ => Nat.zero_le _
      · rw [advanceAll_cons, ha]; rfl

/-- Reading a chain is dereferencing its members, up to refused copies. -/
theorem Chain.readsPlainly {c : Chain} {root : Value}
    (h : CopiesEqual u ⟨root, true⟩ c.members) : c.ReadsPlainly u root where
  detached name e := by
    rcases advanceAll_cases h with ⟨before, f, e', hf, he⟩ | ⟨hnone, heq⟩
    · constructor
      · intro hr
        rw [Chain.read, he] at hr
        cases hr
        exact ⟨before, f, rfl, hf⟩
      · rintro ⟨before₁, f₁, rfl, hf₁⟩
        obtain ⟨rfl, rfl⟩ := hf₁.unique hf
        exact he
    · constructor
      · intro hr
        rw [← Chain.read, hr] at heq
        exact absurd heq.symm dereferenceAll_ne_detach
      · rintro ⟨before, f, -, hf⟩
        exact absurd hf.toRefused (hnone before f e)
  plain hnone := by
    rcases advanceAll_cases h with ⟨before, f, e, hf, -⟩ | ⟨-, heq⟩
    · exact absurd hf (hnone before f e)
    · exact heq
  borrowed r hr := by
    rw [borrowed_of_advanceAll hr]
    simp

/-! ### Copies that are equal -/

namespace Universe

mutual

/-- If every definition copies its values as they are, so do lists of them. -/
theorem eq_of_copy (hu : ∀ id v w, (u.definition id).copy v = .ok w → w = v) :
    ∀ v w : Value, u.copy v = .ok w → w = v
  | .list e items, w, h => by
    rw [copy] at h
    cases hi : u.copyItems e items with
    | error err => rw [hi] at h; cases h
    | ok ws =>
      rw [hi] at h
      cases h
      rw [eq_of_copyItems hu e items ws hi]
  | .object id slots base tag, w, h => by
    rw [copy] at h
    exact hu id _ w h
  | .bool _, w, h | .char _, w, h | .int _ _, w, h | .float _ _, w, h | .text _, w, h
  | .unit, w, h => by
    cases h
    rfl

theorem eq_of_copyItems (hu : ∀ id v w, (u.definition id).copy v = .ok w → w = v) :
    ∀ (e : Ty) (vs ws : List Value), u.copyItems e vs = .ok ws → ws = vs
  | e, [], ws, h => by
    cases h
    rfl
  | e, v :: vs, ws, h => by
    rw [copyItems] at h
    cases hv : u.copy v with
    | error err => rw [hv] at h; cases h
    | ok w =>
      rw [hv] at h
      simp only at h
      split at h
      · cases hvs : u.copyItems e vs with
        | error err => rw [hvs] at h; cases h
        | ok ws' =>
          rw [hvs] at h
          cases h
          rw [eq_of_copy hu v w hv, eq_of_copyItems hu e vs ws' hvs]
      · cases h

end

end Universe

namespace Sample

theorem eq_of_copy_world (id : Nat) (v w : Value) (h : (world.definition id).copy v = .ok w) :
    w = v := by
  change (definitions.toArray.getD id .vacant).copy v = .ok w at h
  rw [Array.getD_eq_getD_getElem?, List.getElem?_toArray] at h
  match id with
  | 10 => cases h
  | 0 | 1 | 2 | 3 | 4 | 5 | 6 | 7 | 8 | 9 | 11 | 12 | 13 | _ + 14 =>
    cases h
    rfl

def lockerContent : Chain :=
  (world.chainOf ⟨"open.locker.content", .names ["open", "locker", "content"]⟩ .standard
    (.defined vault)).outcome.toOption.get (by decide)

def someVault : Value := .object vault [some (.int .u32 7)] none ""

theorem readsPlainly_lockerContent :
    CopiesEqual world ⟨someVault, true⟩ lockerContent.members ∧
      lockerContent.ReadsPlainly world someVault ∧
      lockerContent.read world someVault =
        .error (.detach "content" (.notCopyable (.defined sealedBox))) := by
  have hc : CopiesEqual world ⟨someVault, true⟩ lockerContent.members :=
    fun _ _ _ _ v w _ _ _ _ h => world.eq_of_copy eq_of_copy_world v w h
  exact ⟨hc, Chain.readsPlainly hc, rfl⟩

end Sample

end MemberPath
