import MemberPath.Proofs.ComponentRoundTrip
import MemberPath.Proofs.NameTokens
import MemberPath.Proofs.SharedCalls
import MemberPath.Proofs.WalkComposition

/-!
# What the text of an expression decides

The text alone decides whether an expression is type-based and whether it has segments at all:
`classified` for a text and for everything that can be made of it. Only a run of dots has no
segments, and that is the only reason for `unresolved`. Dots at the end mean nothing.
-/

namespace MemberPath
open MemberPath.Bracket

variable {text : String} {ss : Segments}

def OnlyDots (text : String) : Prop :=
  text ≠ "" ∧ ∀ c ∈ text.toList, c = '.'

theorem mem_of_bracketed {s : List Char} (h : Bracketed s) : '[' ∈ s := by
  obtain ⟨p, _, -, hp, -⟩ := h
  exact List.mem_of_getElem? hp

namespace Segments

theorem ofString_eq_error_iff {err : ParseError} :
    ofString text = .error err ↔ err = .empty ∧ text = "" := by
  rw [ofString, ofChars]
  by_cases hempty : text = ""
  · simp [hempty]
  · rw [if_neg (by simpa using hempty)]
    split <;> simp [hempty]

/-- A text with a segment is type-based, and every other one is name-based. -/
theorem kind_eq_typeBased_iff (h : ofString text = .ok ss) :
    ss.kind = .typeBased ↔ Bracketed text.toList := by
  cases ss with
  | names names =>
    obtain ⟨-, hb, -⟩ := ofString_eq_names_iff.1 h
    exact iff_of_false nofun hb
  | types cs =>
    obtain ⟨hb, -⟩ := ofString_eq_types_iff.1 h
    exact iff_of_true rfl (Classical.not_not.1 (mt bodies_eq_nil_iff.2 hb))

theorem componentList_ne_nil (h : ofString text = .ok ss) (hk : ss.kind = .typeBased) :
    ss.componentList ≠ [] := by
  cases ss with
  | names names => cases hk
  | types cs =>
    obtain ⟨hb, rfl⟩ := ofString_eq_types_iff.1 h
    simpa [componentList] using hb

theorem toList_eq_nil_iff (h : ofString text = .ok ss) : ss.toList = [] ↔ OnlyDots text := by
  cases ss with
  | names names =>
    obtain ⟨hne, -, hs⟩ := ofString_eq_names_iff.1 h
    have hnames : names = [] ↔ dottedNames text.toList = [] := by
      rw [← spells_iff.1 hs, List.map_eq_nil_iff]
    simp [toList, OnlyDots, hne, hnames, dottedNames_eq_nil_iff]
  | types cs =>
    obtain ⟨hb, rfl⟩ := ofString_eq_types_iff.1 h
    have hopen := mem_of_bracketed (Classical.not_not.1 (mt bodies_eq_nil_iff.2 hb))
    refine iff_of_false (by simpa [toList] using hb) ?_
    rintro ⟨-, hdots⟩
    exact absurd (hdots '[' hopen) (by decide)

theorem ofString_append_dots (hne : text ≠ "") (n : Nat) :
    ofString (text ++ dots n) = ofString text := by
  have hb : bodies (text ++ dots n).toList = bodies text.toList := by
    rw [String.toList_append, dots, String.toList_ofList]
    exact bodies_append (by simp) (by simp) _
  have hnames : dottedNames (text ++ dots n).toList = dottedNames text.toList := by
    rw [String.toList_append, dots, String.toList_ofList, dottedNames_append_dots]
  rw [ofString, ofString, ofChars, ofChars, hb, hnames, if_neg (by simp [hne]),
    if_neg (by simpa using hne)]

end Segments

namespace Resolver
variable {u : Universe} {r : Resolver} {path : String}

/-- What a text decides about the paths that are made of it. -/
structure Classified (text : String) : Prop where
  refused : ∀ o err, ofString text o = .error err ↔ err = .empty ∧ text = ""
  accepted : ∀ o, text ≠ "" → ∃ r, ofString text o = .ok r
  typeBased : ∀ o r, ofString text o = .ok r →
    (r.expression.segments.kind = .typeBased ↔ Bracketed text.toList)
  components : ∀ o r, ofString text o = .ok r → r.expression.segments.kind = .typeBased →
    r.expression.segments.componentList ≠ []
  /-- In whatever state a path is, and whatever it is resolved for, it is unresolved iff it is a run
  of dots. -/
  unresolved : ∀ (u : Universe) (r : Resolver), r.Reached u → r.expression.text = text →
    ∀ v path, (r.resolve u v).outcome = .error (.unresolved path) ↔ path = text ∧ OnlyDots text
  /-- The same for calls that share a path. -/
  shared : ∀ (u : Universe) (r : Resolver), r.Reached u → r.expression.text = text →
    ∀ ts schedule (i : Nat) (c : Call) a path, (r.share u ts schedule).calls[i]? = some c →
      c.outcome? = some a → (a = .error (.unresolved path) ↔ path = text ∧ OnlyDots text)
  dotted : ∀ o r n, ofString text o = .ok r →
    ∃ r', ofString (text ++ dots n) o = .ok r' ∧ r'.expression.segments = r.expression.segments

theorem ofString_eq_error_iff {o : Options} {err : ParseError} :
    ofString text o = .error err ↔ Segments.ofString text = .error err := by
  rw [ofString, Expression.ofString]
  cases Segments.ofString text <;> simp [Except.map]

theorem exists_ofString {o : Options} (h : Segments.ofString text = .ok ss) :
    ∃ r, ofString text o = .ok r ∧ r.expression.segments = ss :=
  ⟨_, ofString_eq_ok_iff.2 ⟨⟨text, ss⟩, Expression.ofString_eq_ok_iff.2 ⟨rfl, h⟩, rfl⟩, rfl⟩

theorem parsed_of_ofString {o : Options} (h : ofString text o = .ok r) :
    Segments.ofString text = .ok r.expression.segments := by
  obtain ⟨e, he, rfl⟩ := ofString_eq_ok_iff.1 h
  exact (Expression.ofString_eq_ok_iff.1 he).2

/-- What is stored has been found along some segments. -/
theorem Sound.toList_ne_nil {t : Ty} {x : Shared} (h : r.Sound u)
    (hx : r.store.cached.get? t = some x) : r.expression.segments.toList ≠ [] := by
  intro hnil
  obtain ⟨ignore, hw⟩ := h.walked t x hx
  rw [Universe.chainOf_of_nil hnil] at hw
  cases hw

theorem Sound.resolve_eq_unresolved_iff {v : Value} (h : r.Sound u) :
    (r.resolve u v).outcome = .error (.unresolved path) ↔
      path = r.expression.text ∧ r.expression.segments.toList = [] := by
  have ho : (r.resolve u v).outcome = _ := Store.outcome_resolve ..
  rw [ho]
  cases hc : r.store.cached.get? v.ty with
  | some x => exact iff_of_false nofun fun hnil => h.toList_ne_nil hc hnil.2
  | none =>
    have hwalk : (u.chainOf r.expression r.options v.ty).outcome = .error (.unresolved path) ↔
        path = r.expression.text ∧ r.expression.segments.toList = [] :=
      Universe.chainOf_eq_unresolved_iff
    rw [← hwalk]
    cases (u.chainOf r.expression r.options v.ty).outcome <;> simp [Except.map]

theorem Reached.shared_eq_unresolved_iff (h : r.Reached u) {ts : List Ty} {schedule : List Nat}
    {i : Nat} {c : Call} {a : Except PathError Shared}
    (hc : (r.share u ts schedule).calls[i]? = some c) (ha : c.outcome? = some a) :
    a = .error (.unresolved path) ↔
      path = r.expression.text ∧ r.expression.segments.toList = [] := by
  have hst := Calls.settled_after hc
  simp only [Call.Settled, phase_of_outcome? ha] at hst
  cases a with
  | ok x =>
    have hne := (Reached.shared ts schedule h).sound.toList_ne_nil hst
    constructor
    · intro herr
      cases herr
    · rintro ⟨-, hnil⟩
      exact absurd hnil hne
  | error err =>
    have hwalk : (u.chainOf r.expression r.options c.target).outcome = .error (.unresolved path) ↔
        path = r.expression.text ∧ r.expression.segments.toList = [] :=
      Universe.chainOf_eq_unresolved_iff
    rw [← hwalk, hst]
    simp

theorem classified (text : String) : Classified text where
  refused _ _ := ofString_eq_error_iff.trans Segments.ofString_eq_error_iff
  accepted o hne := by
    cases hs : Segments.ofString text with
    | error err => exact absurd (Segments.ofString_eq_error_iff.1 hs).2 hne
    | ok ss =>
      obtain ⟨r, hr, -⟩ := exists_ofString (o := o) hs
      exact ⟨r, hr⟩
  typeBased _ _ h := Segments.kind_eq_typeBased_iff (parsed_of_ofString h)
  components _ _ h := Segments.componentList_ne_nil (parsed_of_ofString h)
  unresolved u r h htext v path := by
    subst htext
    rw [h.sound.resolve_eq_unresolved_iff, Segments.toList_eq_nil_iff h.parsed]
  shared u r h htext ts schedule i c a path hc ha := by
    subst htext
    rw [h.shared_eq_unresolved_iff hc ha, Segments.toList_eq_nil_iff h.parsed]
  dotted o r n h := by
    have hs := parsed_of_ofString h
    have hne : text ≠ "" := by
      intro hempty
      rw [Segments.ofString_eq_error_iff.2 ⟨rfl, hempty⟩] at hs
      cases hs
    exact exists_ofString ((Segments.ofString_append_dots hne n).trans hs)

/-- An opening bracket that stays open on its line does not hide the next one. Two dots are not
resolved for anything. -/
theorem classified_dots :
    let line : Resolver := ⟨⟨"[new\n[line]", .types [⟨"line", false⟩]⟩, .standard, .empty⟩
    let blank : Resolver := ⟨⟨"..", .names []⟩, .standard, .empty⟩
    let r := (blank.serve Sample.world (.setIgnoreToString false)).resolver
    ofString "[new\n[line]" .standard = .ok line ∧ Bracketed "[new\n[line]".toList ∧
      r.Reached Sample.world ∧ OnlyDots ".." ∧
      ∀ v, (r.resolve Sample.world v).outcome = .error (.unresolved "..") := by
  intro line blank r
  have hline : ofString "[new\n[line]" .standard = .ok line := rfl
  have hblank : ofString ".." .standard = .ok blank := rfl
  have hr : r.Reached Sample.world := .served (.setIgnoreToString false) (.made hblank)
  have hdots : OnlyDots ".." := (Segments.toList_eq_nil_iff (parsed_of_ofString hblank)).1 rfl
  have hkind : line.expression.segments.kind = .typeBased := rfl
  have hbracket : Bracketed "[new\n[line]".toList :=
    ((classified "[new\n[line]").typeBased .standard line hline).1 hkind
  refine ⟨hline, hbracket, hr, hdots, fun v => ?_⟩
  exact ((classified "..").unresolved _ r hr rfl v "..").2 ⟨rfl, hdots⟩

end Resolver

end MemberPath
