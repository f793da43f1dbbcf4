import MemberPath.Path.Walk
import MemberPath.Proofs.Reading
import MemberPath.Sample

/-!
# Errors on the way along a chain

The prefixes of a chain are its parents. Reading fails at the first prefix that fails, with an error
that names the last member of this prefix (`Member.FailsWith`), and every longer prefix fails with
the same error, be it read or called (`propagates`).
-/

namespace MemberPath

/-- The errors that applying a member can give: they name the member. -/
inductive Member.FailsWith : Member → PathError → Prop
  | empty (f : Field) : FailsWith (.field f) (.nullValue f.name)
  | stuck (f : Field) (e : CopyError) : FailsWith (.field f) (.detach f.name e)
  | failed (m : Method) (e : CallError) : FailsWith (.method m) (.failedCall m.name e)

/-- The chain of the first `i` members; there is none of no members. -/
def Chain.front? (c : Chain) (i : Nat) : Option Chain :=
  ofMembers? (c.members.take i)

/-- What the prefixes of a chain have to do with each other when they are applied to `root`. -/
structure Chain.Propagates (u : Universe) (c : Chain) (root : Value) : Prop where
  whole : c.front? c.length = some c
  /-- Each prefix but the whole chain is the parent of the next. -/
  parent : ∀ i, 1 ≤ i → i < c.length →
    ∃ a b, c.front? i = some a ∧ c.front? (i + 1) = some b ∧ b.parent? = some a
  errors : ∀ i j a b err, i ≤ j → c.front? i = some a → c.front? j = some b →
    a.read u root = .error err → b.read u root = .error err
  calls : ∀ i a m err, i < c.length → c.front? i = some a → c.last = .method m →
    a.read u root = .error err → ∀ args, c.call u root args = .error err
  values : ∀ r, c.read u root = .ok r → ∀ i a, c.front? i = some a → ∃ r', a.read u root = .ok r'
  /-- The first prefix that fails does so at its last member. -/
  located : ∀ i a err, c.front? i = some a → a.read u root = .error err →
    (∀ j < i, ∀ b, c.front? j = some b → ∃ r, b.read u root = .ok r) → a.last.FailsWith err

variable {u : Universe} {r : Reading} {ms : List Member} {m : Member} {err : PathError} {i j : Nat}

theorem Member.failsWith_of_advance (h : m.advance u r = .error err) : m.FailsWith err := by
  have hm := m.advances u r
  rw [h] at hm
  cases hm with
  | empty => exact .empty _
  | stuck => exact .stuck _ _
  | fail => exact .failed _ _

theorem advanceAll_take_error (h : advanceAll u r (ms.take i) = .error err) (hij : i ≤ j) :
    advanceAll u r (ms.take j) = .error err := by
  rw [← List.take_append_drop i (ms.take j), List.take_take, Nat.min_eq_left hij,
    advanceAll_append, h]
  rfl

namespace Chain
variable {c a b : Chain} {root : Value}

/-! ### Prefixes -/

theorem members_of_front? (h : c.front? i = some a) : a.members = c.members.take i :=
  members_of_ofMembers? h

theorem front?_length (c : Chain) : c.front? c.length = some c := by
  have h : c.members.take c.length = c.members := List.take_of_length_le (by simp [members, length])
  rw [front?, h, ofMembers?_members]

theorem exists_front? (c : Chain) (hi : 1 ≤ i) : ∃ a, c.front? i = some a := by
  refine Option.ne_none_iff_exists'.1 (mt ofMembers?_eq_none_iff.1 ?_)
  simp only [members, List.take_eq_nil_iff, List.append_eq_nil_iff, List.cons_ne_self,
    and_false, or_false]
  omega

theorem length_of_front? (h : c.front? i = some a) (hi : i ≤ c.length) : a.init.length + 1 = i := by
  have hlen := congrArg List.length (members_of_front? h)
  rw [List.length_take_of_le (by simpa [members, length] using hi)] at hlen
  simpa [members] using hlen

/-- The members in front of the last of a prefix are a prefix, or none. -/
theorem take_of_front? (h : c.front? i = some a) :
    c.members.take a.init.length = a.init ∧ a.init.length < i := by
  have hm := members_of_front? h
  have hlt : a.init.length < i := by
    have hlen := congrArg List.length hm
    simp only [members, List.length_append, List.length_singleton, List.length_take] at hlen
    omega
  refine ⟨?_, hlt⟩
  rw [← Nat.min_eq_left (Nat.le_of_lt hlt), ← List.take_take, ← hm, members, List.take_left]

theorem parent?_of_front? (h : c.front? i = some a) : a.parent? = c.front? a.init.length := by
  rw [front?, (take_of_front? h).1, parent?]

/-! ### Reading a prefix -/

theorem read_of_front? (h : c.front? i = some a) :
    a.read u root = advanceAll u ⟨root, true⟩ (c.members.take i) := by
  rw [read, members_of_front? h]

theorem read_eq_bind (u : Universe) (c : Chain) (root : Value) :
    c.read u root = (advanceAll u ⟨root, true⟩ c.init).bind fun r => c.last.advance u r := by
  rw [read, members, advanceAll_append]
  simp only [advanceAll_singleton]

theorem error_of_front? (hij : i ≤ j) (ha : c.front? i = some a) (hb : c.front? j = some b)
    (h : a.read u root = .error err) : b.read u root = .error err := by
  rw [read_of_front? ha] at h
  rw [read_of_front? hb]
  exact advanceAll_take_error h hij

theorem read_error_of_front? (ha : c.front? i = some a) (h : a.read u root = .error err) :
    c.read u root = .error err := by
  rw [read_of_front? ha] at h
  have herr := advanceAll_take_error h (Nat.le_max_left i c.members.length)
  rwa [List.take_of_length_le (Nat.le_max_right i c.members.length)] at herr

theorem call_error_of_front? {n : Method} (hi : i < c.length) (ha : c.front? i = some a)
    (hlast : c.last = .method n) (h : a.read u root = .error err) (args : List Value) :
    c.call u root args = .error err := by
  -- a call reads the members in front of the method and copies nothing at the end
  have hinit : c.members.take c.init.length = c.init := by rw [members, List.take_left]
  rw [read_of_front? ha] at h
  have herr := advanceAll_take_error h (Nat.le_of_lt_succ hi)
  rw [hinit] at herr
  rw [call, hlast]
  simp only [herr]
  rfl

theorem failsWith_of_front? (ha : c.front? i = some a) (h : a.read u root = .error err)
    (hok : ∀ j < i, ∀ b, c.front? j = some b → ∃ r, b.read u root = .ok r) :
    a.last.FailsWith err := by
  have hinit : ∃ r, advanceAll u ⟨root, true⟩ a.init = .ok r := by
    cases hp : a.parent? with
    | none => exact ⟨⟨root, true⟩, by rw [ofMembers?_eq_none_iff.1 hp]; rfl⟩
    | some b =>
      obtain ⟨r, hr⟩ := hok _ (take_of_front? ha).2 b (parent?_of_front? ha ▸ hp)
      exact ⟨r, by rw [← members_of_ofMembers? hp]; exact hr⟩
  obtain ⟨r, hr⟩ := hinit
  rw [read_eq_bind, hr] at h
  exact Member.failsWith_of_advance h

theorem propagates (u : Universe) (c : Chain) (root : Value) : c.Propagates u root where
  whole := c.front?_length
  parent i hi hlt := by
    obtain ⟨a, ha⟩ := c.exists_front? hi
    obtain ⟨b, hb⟩ := c.exists_front? (Nat.le_add_left 1 i)
    refine ⟨a, b, ha, hb, ?_⟩
    have hlen : b.init.length = i := Nat.succ.inj (length_of_front? hb hlt)
    rw [parent?_of_front? hb, hlen, ha]
  errors _ _ _ _ _ hij ha hb := error_of_front? hij ha hb
  calls _ _ _ _ hi ha hlast h args := call_error_of_front? hi ha hlast h args
  values r hr i a ha := by
    cases h : a.read u root with
    | ok r' => exact ⟨r', rfl⟩
    | error err =>
      rw [read_error_of_front? ha h] at hr
      cases hr
  located _ _ _ ha h hok := failsWith_of_front? ha h hok

end Chain

namespace Sample

/-- A player with a local connection. -/
def localPlayer : Value :=
  .object player [some (.text "Ann"),
    some (.object connection [some (.object connectionType [] none "Local")] none ""),
    some (.list .text [])] none ""

def reconnectType : Chain :=
  (world.chainOf ⟨"reconnect.get_type", .names ["reconnect", "get_type"]⟩ .standard
    (.defined player)).outcome.toOption.get (by decide)

/-- The player is kicked when reconnecting; so nobody gets to see the type of the connection. -/
theorem propagates_reconnect :
    let kick : PathError := .failedCall "reconnect" (.raised kicked)
    ∃ a, reconnectType.front? 1 = some a ∧ a.read world localPlayer = .error kick ∧
      a.last.FailsWith kick ∧ reconnectType.read world localPlayer = .error kick ∧
      ∀ args, reconnectType.call world localPlayer args = .error kick := by
  intro kick
  have h := Chain.propagates world reconnectType localPlayer
  obtain ⟨a, b, ha, hb, -⟩ := h.parent 1 (by decide) (by decide)
  have hread : a.read world localPlayer = .error kick := by
    cases ha
    rfl
  refine ⟨a, ha, hread, h.located 1 a kick ha hread ?_, ?_, ?_⟩
  · intro j hj b hb
    obtain rfl : j = 0 := Nat.lt_one_iff.1 hj
    cases hb
  · exact h.errors 1 2 a reconnectType kick (by decide) ha h.whole hread
  · exact h.calls 1 a _ kick (by decide) ha rfl hread

end Sample

end MemberPath
