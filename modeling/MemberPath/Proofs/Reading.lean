import MemberPath.Path.Chain

/-!
# Reading along a chain

A chain is read member by member, and `Member.Advances` are the ways in which one member can be
applied. `advanceAll_append` splits a reading, `advanceAll_eq_error_iff`
finds the member at which one fails, and `borrowed_of_advanceAll` says that a value is borrowed as
long as no method has been called.
-/

namespace MemberPath
variable {u : Universe} {r r' : Reading} {ms before after : List Member} {m : Member}

/-- The ways in which a member is applied to the value found so far, with what comes of it. -/
inductive Member.Advances (u : Universe) (r : Reading) :
    Member → Except PathError Reading → Prop
  | empty {f : Field} : f.read u r.value = none →
      Advances u r (.field f) (.error (.nullValue f.name))
  | borrow {f : Field} {v : Value} : f.read u r.value = some v → r.borrowed = true →
      Advances u r (.field f) (.ok ⟨v, true⟩)
  | detach {f : Field} {v w : Value} : f.read u r.value = some v → r.borrowed = false →
      u.copy v = .ok w → Advances u r (.field f) (.ok ⟨w, false⟩)
  | stuck {f : Field} {v : Value} {e : CopyError} : f.read u r.value = some v →
      r.borrowed = false → u.copy v = .error e →
      Advances u r (.field f) (.error (.detach f.name e))
  | call {m : Method} {v : Value} : m.call u r.value [] = .ok v →
      Advances u r (.method m) (.ok ⟨v, false⟩)
  | fail {m : Method} {e : CallError} : m.call u r.value [] = .error e →
      Advances u r (.method m) (.error (.failedCall m.name e))

theorem Member.advances (u : Universe) (r : Reading) (m : Member) :
    m.Advances u r (m.advance u r) := by
  cases m with
  | field f =>
    rw [Member.advance]
    split
    · rename_i hn
      exact .empty hn
    · rename_i v hv
      split
      · rename_i hb
        exact .borrow hv hb
      · rename_i hb
        have hb : r.borrowed = false := Bool.eq_false_iff.2 hb
        split
        · rename_i hc
          exact .detach hv hb hc
        · rename_i hc
          exact .stuck hv hb hc
  | method m =>
    rw [Member.advance]
    split
    · rename_i hc
      exact .call hc
    · rename_i hc
      exact .fail hc

theorem advanceAll_cons (u : Universe) (r : Reading) (m : Member) (ms : List Member) :
    advanceAll u r (m :: ms) = (m.advance u r).bind fun r' => advanceAll u r' ms := rfl

theorem advanceAll_singleton (u : Universe) (r : Reading) (m : Member) :
    advanceAll u r [m] = m.advance u r := by
  rw [advanceAll_cons]
  cases m.advance u r <;> rfl

theorem advanceAll_append (u : Universe) (r : Reading) (before after : List Member) :
    advanceAll u r (before ++ after) =
      (advanceAll u r before).bind fun r' => advanceAll u r' after := by
  simp only [advanceAll, List.foldlM_append]; rfl

/-- A reading fails at the first member that cannot be applied to what the members in front of it
gave. -/
theorem advanceAll_eq_error_iff {err : PathError} :
    advanceAll u r ms = .error err ↔ ∃ before m after r', ms = before ++ m :: after ∧
      advanceAll u r before = .ok r' ∧ m.advance u r' = .error err := by
  constructor
  · intro h
    induction ms generalizing r with
    | nil => cases h
    | cons m ms ih =>
      rw [advanceAll_cons] at h
      cases hm : m.advance u r with
      | error e =>
        rw [hm] at h
        cases h
        exact ⟨[], m, ms, r, rfl, rfl, hm⟩
      | ok r₁ =>
        rw [hm] at h
        obtain ⟨before, m', after, r', rfl, hb, he⟩ := ih h
        exact ⟨m :: before, m', after, r', rfl, by rw [advanceAll_cons, hm]; exact hb, he⟩
  · rintro ⟨before, m, after, r', rfl, hb, he⟩
    rw [advanceAll_append, hb]
    show advanceAll u r' (m :: after) = _
    rw [advanceAll_cons, he]; rfl

theorem Member.borrowed_of_advance (h : m.advance u r = .ok r') :
    r'.borrowed = (r.borrowed && !m.isMethod) := by
  have hm := m.advances u r
  rw [h] at hm
  cases hm with
  | borrow _ hb => simp [hb, Member.isMethod]
  | detach _ hb => simp [hb]
  | call => simp [Member.isMethod]

/-- What has been read is a part of the root as long as no method was called on the way. -/
theorem borrowed_of_advanceAll (h : advanceAll u r ms = .ok r') :
    r'.borrowed = (r.borrowed && ms.all (!·.isMethod)) := by
  induction ms generalizing r with
  | nil => cases h; simp
  | cons m ms ih =>
    rw [advanceAll_cons] at h
    cases hm : m.advance u r with
    | error e => rw [hm] at h; cases h
    | ok r₁ =>
      rw [hm] at h
      rw [ih h, Member.borrowed_of_advance hm, List.all_cons, Bool.and_assoc]

end MemberPath
