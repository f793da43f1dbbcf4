import MemberPath.Proofs.WalkSteps
import MemberPath.Sample

/-!
# Resolving segments in two parts

Resolving some segments and then others on the type that the first give is resolving them all
(`composes`). So the parent of a chain is the chain of the segments without the last, and a failure
is the failure of the first segment that selects no member.
-/

namespace MemberPath

/-- What a segment looks for: a name, or the name of a type without an array marker. -/
def Segment.token : Segment → String
  | .name n => n
  | .type c => c.typeName

/-- The token that an error of resolving names, and the short name of the type that has no member
for it. -/
def PathError.place? (n : Naming) : PathError → Option (String × String)
  | .missingMember segment on => some (segment, n.short on)
  | .noTypeMatch typeName on => some (typeName, n.short on)
  | .ambiguousType typeName on _ => some (typeName, n.short on)
  | _ => none

/-- The segments of `e` are those of `front` and then those of `back`, and both have some. -/
structure Expression.Splits (e front back : Expression) : Prop where
  segments : e.segments.toList = front.segments.toList ++ back.segments.toList
  front_ne_nil : front.segments.toList ≠ []
  back_ne_nil : back.segments.toList ≠ []

namespace Universe

/-- The laws of resolving segments in parts, from the type `on` on. -/
structure Composes (u : Universe) (o : Options) (on : Ty) : Prop where
  front_fails : ∀ e front back err, e.Splits front back →
    (u.chainOf front o on).outcome = .error err → (u.chainOf e o on).outcome = .error err
  back_fails : ∀ e front back c err, e.Splits front back →
    (u.chainOf front o on).outcome = .ok c → (u.chainOf back o c.target).outcome = .error err →
      (u.chainOf e o on).outcome = .error err
  joins : ∀ e front back c d, e.Splits front back →
    (u.chainOf front o on).outcome = .ok c → (u.chainOf back o c.target).outcome = .ok d →
      ∃ w, (u.chainOf e o on).outcome = .ok w ∧ w.members = c.members ++ d.members
  /-- The parent of a chain is the chain of the segments without the last. -/
  parent : ∀ e front w, (u.chainOf e o on).outcome = .ok w → 2 ≤ e.segments.toList.length →
    front.segments.toList = e.segments.toList.dropLast →
      ∃ p, w.parent? = some p ∧ (u.chainOf front o on).outcome = .ok p
  /-- A failure is that of the first segment that selects no member, and names it together with the
  type reached. -/
  first_failure : ∀ e err, e.segments.toList ≠ [] → (u.chainOf e o on).outcome = .error err →
    ∃ before s after ms, e.segments.toList = before ++ s :: after ∧
      (u.walk e.text o on before).outcome = .ok ms ∧
      (u.choose e.text o (typeAfter on ms) s).outcome = .error err ∧
      err.place? u.naming = some (s.token, u.naming.short (typeAfter on ms))

variable {u : Universe} {path : String} {o : Options} {on : Ty} {ss front back : List Segment}
  {ms : List Member} {err : PathError}

/-- The path is only written into the records. -/
theorem outcome_choose_path (u : Universe) (path path' : String) (o : Options) (on : Ty)
    (s : Segment) : (u.choose path o on s).outcome = (u.choose path' o on s).outcome := by
  cases s with
  | name name =>
    cases h : u.memberNamed? on name <;> simp only [choose, h]
  | type c =>
    simp only [choose]
    split
    · rfl
    · cases o.strategy.select (u.membersOfType on c o.ignoreToString) <;> rfl

theorem outcome_walk_path (u : Universe) (path path' : String) (o : Options) (on : Ty)
    (ss : List Segment) : (u.walk path o on ss).outcome = (u.walk path' o on ss).outcome := by
  induction ss generalizing on with
  | nil => rfl
  | cons s ss ih =>
    simp only [walk, outcome_choose_path u path path' o on s]
    split
    · rfl
    · rename_i m _
      rw [ih m.target]

theorem walk_append_eq_ok_iff : (u.walk path o on (front ++ back)).outcome = .ok ms ↔
    ∃ ms₁ ms₂, (u.walk path o on front).outcome = .ok ms₁ ∧
      (u.walk path o (typeAfter on ms₁) back).outcome = .ok ms₂ ∧ ms = ms₁ ++ ms₂ := by
  induction front generalizing on ms with
  | nil => simp [walk, typeAfter]
  | cons s front ih =>
    rw [List.cons_append, walk_cons_eq_ok_iff]
    constructor
    · rintro ⟨m, ms', hm, hw, rfl⟩
      obtain ⟨ms₁, ms₂, h₁, h₂, rfl⟩ := ih.1 hw
      exact ⟨m :: ms₁, ms₂, walk_cons_eq_ok_iff.2 ⟨m, ms₁, hm, h₁, rfl⟩, h₂, rfl⟩
    · rintro ⟨ms₁, ms₂, h₁, h₂, rfl⟩
      obtain ⟨m, ms', hm, hw, rfl⟩ := walk_cons_eq_ok_iff.1 h₁
      exact ⟨m, ms' ++ ms₂, hm, ih.2 ⟨ms', ms₂, hw, h₂, rfl⟩, rfl⟩

theorem walk_append_eq_error_iff : (u.walk path o on (front ++ back)).outcome = .error err ↔
    (u.walk path o on front).outcome = .error err ∨
      ∃ ms, (u.walk path o on front).outcome = .ok ms ∧
        (u.walk path o (typeAfter on ms) back).outcome = .error err := by
  induction front generalizing on with
  | nil => simp [walk, typeAfter]
  | cons s front ih =>
    rw [List.cons_append, walk_cons_eq_error_iff, walk_cons_eq_error_iff]
    -- the failure is that of `s`, of a later segment of `front`, or of one of `back`
    constructor
    · rintro (he | ⟨m, hm, he⟩)
      · exact .inl (.inl he)
      · rcases ih.1 he with he | ⟨ms, hw, he⟩
        · exact .inl (.inr ⟨m, hm, he⟩)
        · exact .inr ⟨m :: ms, walk_cons_eq_ok_iff.2 ⟨m, ms, hm, hw, rfl⟩, he⟩
    · rintro ((he | ⟨m, hm, he⟩) | ⟨ms, hw, he⟩)
      · exact .inl he
      · exact .inr ⟨m, hm, ih.2 (.inl he)⟩
      · obtain ⟨m, ms', hm, hw', rfl⟩ := walk_cons_eq_ok_iff.1 hw
        exact .inr ⟨m, hm, ih.2 (.inr ⟨ms', hw', he⟩)⟩

/-- A walk fails at the first segment that selects no member. -/
theorem walk_eq_error_iff : (u.walk path o on ss).outcome = .error err ↔
    ∃ before s after ms, ss = before ++ s :: after ∧ (u.walk path o on before).outcome = .ok ms ∧
      (u.choose path o (typeAfter on ms) s).outcome = .error err := by
  constructor
  · intro h
    induction ss generalizing on with
    | nil => cases h
    | cons s ss ih =>
      rcases walk_cons_eq_error_iff.1 h with he | ⟨m, hm, he⟩
      · exact ⟨[], s, ss, [], rfl, rfl, he⟩
      · obtain ⟨before, s', after, ms, rfl, hw, he⟩ := ih he
        exact ⟨s :: before, s', after, m :: ms, rfl, walk_cons_eq_ok_iff.2 ⟨m, ms, hm, hw, rfl⟩, he⟩
  · rintro ⟨before, s, after, ms, rfl, hw, he⟩
    exact walk_append_eq_error_iff.2 (.inr ⟨ms, hw, walk_cons_eq_error_iff.2 (.inl he)⟩)

theorem place?_of_choose {s : Segment} (h : (u.choose path o on s).outcome = .error err) :
    err.place? u.naming = some (s.token, u.naming.short on) := by
  have hs := u.chooses path o on s
  generalize u.choose path o on s = w at hs h
  cases hs with
  | missing | unmatched | ambiguous => cases h; rfl
  | named | selected => cases h

/-! ### Chains -/

theorem chainOf_of_nil {e : Expression} (h : e.segments.toList = []) :
    u.chainOf e o on = ⟨[], .error (.unresolved e.text)⟩ := by
  rw [chainOf, h]
  rfl

/-- An expression is not resolved for want of segments, or because one of them selects no member. -/
theorem chainOf_error_cases {e : Expression} (h : (u.chainOf e o on).outcome = .error err) :
    (e.segments.toList = [] ∧ err = .unresolved e.text) ∨
      ∃ place, err.place? u.naming = some place := by
  by_cases hne : e.segments.toList = []
  · rw [chainOf_of_nil hne] at h
    cases h
    exact .inl ⟨hne, rfl⟩
  · obtain ⟨_, _, _, _, -, -, hc⟩ := walk_eq_error_iff.1 ((chainOf_eq_error_iff hne).1 h)
    exact .inr ⟨_, place?_of_choose hc⟩

theorem chainOf_eq_unresolved_iff {e : Expression} :
    (u.chainOf e o on).outcome = .error (.unresolved path) ↔
      path = e.text ∧ e.segments.toList = [] := by
  constructor
  · intro h
    rcases chainOf_error_cases h with ⟨hnil, he⟩ | ⟨place, hplace⟩
    · cases he
      exact ⟨rfl, hnil⟩
    · cases hplace
  · rintro ⟨rfl, hnil⟩
    rw [chainOf_of_nil hnil]

theorem walk_of_chainOf {e : Expression} {c : Chain} (h : (u.chainOf e o on).outcome = .ok c)
    (path : String) : (u.walk path o on e.segments.toList).outcome = .ok c.members := by
  rw [outcome_walk_path u path e.text]
  exact chainOf_eq_ok_iff.1 h

theorem walk_of_chainOf_error {e : Expression} (hne : e.segments.toList ≠ [])
    (h : (u.chainOf e o on).outcome = .error err) (path : String) :
    (u.walk path o on e.segments.toList).outcome = .error err := by
  rw [outcome_walk_path u path e.text]
  exact (chainOf_eq_error_iff hne).1 h

theorem chainOf_error_of_walk {e front back : Expression} (hs : e.Splits front back)
    (h : (u.walk e.text o on (front.segments.toList ++ back.segments.toList)).outcome =
      .error err) : (u.chainOf e o on).outcome = .error err := by
  have hne : e.segments.toList ≠ [] := by
    rw [hs.segments]
    exact List.append_ne_nil_of_left_ne_nil hs.front_ne_nil _
  rw [chainOf_eq_error_iff hne, hs.segments]
  exact h

/-- The members in front of the last are found by the segments in front of the last. -/
theorem walk_dropLast_of_chainOf {e : Expression} {w : Chain}
    (h : (u.chainOf e o on).outcome = .ok w) :
    (u.walk e.text o on e.segments.toList.dropLast).outcome = .ok w.init := by
  have hw := chainOf_eq_ok_iff.1 h
  have hne : e.segments.toList ≠ [] := by
    intro hnil
    have hl := length_of_walk hw
    simp [hnil, Chain.members] at hl
  rw [← List.dropLast_concat_getLast hne, walk_append_eq_ok_iff] at hw
  obtain ⟨ms₁, ms₂, h₁, h₂, hm⟩ := hw
  have hl : [w.last].length = ms₂.length := (length_of_walk h₂).symm
  obtain ⟨rfl, -⟩ := List.append_inj' hm hl
  exact h₁

theorem chainOf_of_parts {e front back : Expression} {c d : Chain} (hs : e.Splits front back)
    (hf : (u.chainOf front o on).outcome = .ok c)
    (hb : (u.chainOf back o c.target).outcome = .ok d) :
    ∃ w, (u.chainOf e o on).outcome = .ok w ∧ w.members = c.members ++ d.members := by
  have hb := walk_of_chainOf hb e.text
  rw [← typeAfter_members on c] at hb
  have hw : (u.walk e.text o on e.segments.toList).outcome = .ok (c.members ++ d.members) := by
    rw [hs.segments]
    exact walk_append_eq_ok_iff.2 ⟨c.members, d.members, walk_of_chainOf hf e.text, hb, rfl⟩
  have hm : (⟨c.members ++ d.init, d.last⟩ : Chain).members = c.members ++ d.members := by
    simp [Chain.members]
  exact ⟨⟨c.members ++ d.init, d.last⟩, chainOf_eq_ok_iff.2 (hm ▸ hw), hm⟩

theorem parent?_of_chainOf {e front : Expression} {w : Chain}
    (h : (u.chainOf e o on).outcome = .ok w)
    (hlen : 2 ≤ e.segments.toList.length)
    (hf : front.segments.toList = e.segments.toList.dropLast) :
    ∃ p, w.parent? = some p ∧ (u.chainOf front o on).outcome = .ok p := by
  have hinit := walk_dropLast_of_chainOf h
  have hne : w.init ≠ [] := by
    intro hnil
    have hl := length_of_walk hinit
    rw [hnil, List.length_dropLast, List.length_nil] at hl
    omega
  obtain ⟨p, hp⟩ := Option.ne_none_iff_exists'.1 (mt Chain.ofMembers?_eq_none_iff.1 hne)
  refine ⟨p, hp, ?_⟩
  rw [chainOf_eq_ok_iff, hf, outcome_walk_path u front.text e.text, hinit,
    Chain.members_of_ofMembers? hp]

/-- Resolving in parts is resolving as a whole. -/
theorem composes (u : Universe) (o : Options) (on : Ty) : u.Composes o on where
  front_fails e front back err hs hf :=
    chainOf_error_of_walk hs
      (walk_append_eq_error_iff.2 (.inl (walk_of_chainOf_error hs.front_ne_nil hf e.text)))
  back_fails e front back c err hs hf hb := by
    have hb := walk_of_chainOf_error hs.back_ne_nil hb e.text
    rw [← typeAfter_members on c] at hb
    exact chainOf_error_of_walk hs
      (walk_append_eq_error_iff.2 (.inr ⟨c.members, walk_of_chainOf hf e.text, hb⟩))
  joins _ _ _ _ _ hs hf hb := chainOf_of_parts hs hf hb
  parent _ _ _ hw hlen hf := parent?_of_chainOf hw hlen hf
  first_failure e err hne he := by
    have hwalk := (chainOf_eq_error_iff hne).1 he
    obtain ⟨before, s, after, ms, hs, hw, hc⟩ := walk_eq_error_iff.1 hwalk
    exact ⟨before, s, after, ms, hs, hw, hc, place?_of_choose hc⟩

/-- The kind of a player's connection is resolved behind the connection, which is its parent. A
connection has no member of type `Lobby[]`, and what comes behind that segment does not matter. -/
theorem composes_player :
    let u := Sample.world
    let player := Ty.defined Sample.player
    let kind : Expression := ⟨"connection.kind", .names ["connection", "kind"]⟩
    let connection : Expression := ⟨"connection", .names ["connection"]⟩
    let lost : Expression := ⟨"[Connection].[Lobby[]].[u8]",
      .types [⟨"Connection", false⟩, ⟨"Lobby", true⟩, ⟨"u8", false⟩]⟩
    (∃ w p, (u.chainOf kind .standard player).outcome = .ok w ∧ w.parent? = some p ∧
      (u.chainOf connection .standard player).outcome = .ok p) ∧
    ∃ err, (u.chainOf lost .standard player).outcome = .error err ∧
      err.place? u.naming = some ("Lobby", "Connection") := by
  intro u player kind connection lost
  constructor
  · have hw : ∃ w, (u.chainOf kind .standard player).outcome = .ok w := ⟨_, rfl⟩
    obtain ⟨w, hw⟩ := hw
    obtain ⟨p, hp, hc⟩ := (composes u .standard player).parent kind connection w hw (by decide) rfl
    exact ⟨w, p, hw, hp, hc⟩
  · let front : Expression :=
      ⟨"[Connection].[Lobby[]]", .types [⟨"Connection", false⟩, ⟨"Lobby", true⟩]⟩
    let back : Expression := ⟨"[u8]", .types [⟨"u8", false⟩]⟩
    have hs : lost.Splits front back := ⟨rfl, by decide, by decide⟩
    exact ⟨_, (composes u .standard player).front_fails lost front back _ hs rfl, rfl⟩

end Universe

end MemberPath
