import MemberPath.Proofs.Hierarchy
import MemberPath.Proofs.Reading
import MemberPath.Proofs.WalkSteps
import MemberPath.Sample

/-!
# Type soundness of resolved paths

A resolved path is checked against declared types only, but it is read from values whose concrete
types may be subclasses. In a universe whose members keep to their declarations (`WellTyped`) a
path read from a well-formed value gives a well-formed value of the declared type of its last
member, or fails at a member for one of the reasons of `Member.FailsOn` (`read_sound`).
-/

namespace MemberPath

/-- The fields of a value hold values of their declared types, only optional ones are empty, and
the superclass part is there; all of these are well-formed themselves. -/
inductive Value.WellFormed (u : Universe) : Value → Prop
  | intro {v : Value}
    (present : ∀ f ∈ u.fields v.ty, f.optional = false → ∃ w, f.get v = some w)
    (typed : ∀ f ∈ u.fields v.ty, ∀ w, f.get v = some w → f.ty ∈ u.hierarchy w.ty)
    (parts : ∀ f ∈ u.fields v.ty, ∀ w, f.get v = some w → WellFormed u w)
    (based : ∀ p, u.parent? v.ty = some p → ∃ b, v.base? = some b ∧ b.ty = p)
    (base : ∀ p b, u.parent? v.ty = some p → v.base? = some b → WellFormed u b) :
    WellFormed u v

/-- The value is well-formed, and of the type `t` or a subclass. -/
def Value.Fits (u : Universe) (t : Ty) (v : Value) : Prop :=
  v.WellFormed u ∧ t ∈ u.hierarchy v.ty

namespace Universe

/-- Whenever the body succeeds on a well-formed receiver and well-formed arguments of the declared
types, the result fits its declared type. -/
def Keeps (u : Universe) (owner : Ty) (params : List Ty) (result : Ty)
    (body : Value → List Value → Except Raised Value) : Prop :=
  ∀ this args w, this.WellFormed u → this.ty = owner → (∀ a ∈ args, a.WellFormed u) →
    args.map Value.ty = params → body this args = .ok w → w.Fits u result

/-- Members are declared by the class that lists them, methods take their declared parameters and
give what they declare, and copies are as good as what they are copies of. -/
structure WellTyped (u : Universe) : Prop where
  owned : u.MembersOwned
  methods : ∀ t, ∀ m ∈ u.methods t, ∃ body,
    m.run = Method.runTaking t m.params body ∧ u.Keeps t m.params m.result body
  copies : ∀ id v w, v.ty = .defined id → v.WellFormed u → (u.definition id).copy v = .ok w →
    w.WellFormed u ∧ w.ty = v.ty

end Universe

/-- Why a member may fail on what was read in front of it. -/
inductive Member.FailsOn (u : Universe) (r : Reading) : Member → PathError → Prop
  /-- An optional field is empty. -/
  | empty {f : Field} : f.optional = true → f.read u r.value = none →
      FailsOn u r (.field f) (.nullValue f.name)
  /-- What a field of a method's result holds has no copy. -/
  | stuck {f : Field} {v : Value} {e : CopyError} : r.borrowed = false →
      f.read u r.value = some v → u.copy v = .error e →
      FailsOn u r (.field f) (.detach f.name e)
  /-- The body of a method raises an error on the part of its class. -/
  | raised {m : Method} {this : Value} {e : Raised} : m.params = [] →
      u.upcast m.owner r.value = some this → m.run this (.ofList []) = .error (.raised e) →
      FailsOn u r (.method m) (.failedCall m.name (.raised e))
  /-- A method wants arguments. -/
  | arguments {m : Method} : m.params ≠ [] →
      FailsOn u r (.method m) (.failedCall m.name (.argCount m.params.length 0))

namespace Universe
variable {u : Universe} {t c : Ty} {v w : Value}

/-! ### Well-formed values -/

theorem wellFormed_of_plain (hf : u.fields v.ty = []) (hp : u.parent? v.ty = none) :
    v.WellFormed u := by
  refine .intro ?_ ?_ ?_ ?_ ?_ <;> intro x hx
  · exact absurd (hf ▸ hx) List.not_mem_nil
  · exact absurd (hf ▸ hx) List.not_mem_nil
  · exact absurd (hf ▸ hx) List.not_mem_nil
  · exact absurd (hp ▸ hx) nofun
  · exact fun h => absurd (hp ▸ h) nofun

/-- A well-formed value has a well-formed part of every class in the hierarchy of its type. -/
theorem upcast_of_wellFormed (h : v.WellFormed u) (hc : c ∈ u.hierarchy v.ty) :
    ∃ w, u.upcast c v = some w ∧ w.WellFormed u := by
  induction h with
  | @intro v present typed parts based base _ ih =>
    by_cases hv : v.ty = c
    · exact ⟨v, upcast_self hv, .intro present typed parts based base⟩
    · rcases mem_hierarchy_iff.1 hc with rfl | ⟨p, hp, hc⟩
      · exact absurd rfl hv
      · obtain ⟨b, hb, rfl⟩ := based p hp
        rw [upcast_base hv hp hb]
        exact ih b.ty b hp hb hc

namespace WellTyped
variable (hu : u.WellTyped)
include hu

theorem copy_sound (hv : v.WellFormed u) (h : u.copy v = .ok w) :
    w.WellFormed u ∧ w.ty = v.ty := by
  cases v with
  | object id slots base tag =>
    rw [copy] at h
    exact hu.copies id _ w rfl hv h
  | list e items =>
    rw [copy] at h
    cases hi : u.copyItems e items with
    | error err => rw [hi] at h; cases h
    | ok ws =>
      rw [hi] at h
      cases h
      exact ⟨wellFormed_of_plain rfl rfl, rfl⟩
  | _ =>
    cases h
    exact ⟨hv, rfl⟩

/-- Reading a field that a class of the hierarchy declares gives a value of the declared type. -/
theorem fits_of_read {f : Field} (hv : v.WellFormed u) (hc : c ∈ u.hierarchy v.ty)
    (hf : f ∈ u.fields c) (h : f.read u v = some w) : w.Fits u f.ty := by
  obtain ⟨part, hp, hwf⟩ := upcast_of_wellFormed hv hc
  rw [Field.read_eq, hu.owned.owner_of_mem_fields hf, hp] at h
  rw [← ty_of_upcast hp] at hf
  cases hwf with
  | intro _ typed parts _ _ => exact ⟨parts f hf w h, typed f hf w h⟩

theorem optional_of_read {f : Field} (hv : v.WellFormed u) (hc : c ∈ u.hierarchy v.ty)
    (hf : f ∈ u.fields c) (h : f.read u v = none) : f.optional = true := by
  obtain ⟨part, hp, hwf⟩ := upcast_of_wellFormed hv hc
  rw [Field.read_eq, hu.owned.owner_of_mem_fields hf, hp] at h
  rw [← ty_of_upcast hp] at hf
  cases ho : f.optional with
  | true => rfl
  | false =>
    cases hwf with
    | intro present _ _ _ _ =>
      obtain ⟨w, hw⟩ := present f hf ho
      exact absurd (hw.symm.trans h) (Option.some_ne_none w)

/-- A call without arguments runs the body on a well-formed part of the declaring class, or fails
for want of arguments. -/
theorem call_cases {m : Method} (hv : v.WellFormed u) (hc : c ∈ u.hierarchy v.ty)
    (hm : m ∈ u.methods c) :
    (m.params ≠ [] ∧ m.call u v [] = .error (.argCount m.params.length 0)) ∨
    ∃ part body, m.params = [] ∧ u.upcast m.owner v = some part ∧ part.WellFormed u ∧
      part.ty = c ∧ u.Keeps c [] m.result body ∧ m.call u v [] = m.run part (.ofList []) ∧
      m.run part (.ofList []) = (body part []).mapError .raised := by
  by_cases hn : m.params = []
  · obtain ⟨part, hp, hwf⟩ := upcast_of_wellFormed hv hc
    obtain ⟨body, hrun, hk⟩ := hu.methods c m hm
    have hty : part.ty = c := ty_of_upcast hp
    rw [← hu.owned.owner_of_mem_methods hm] at hp
    rw [hn] at hrun hk
    refine .inr ⟨part, body, hn, hp, hwf, hty, hk, ?_, ?_⟩
    · exact Method.call_of_upcast (by rw [hn]; rfl) hp
    · rw [hrun, Method.runTaking, if_pos hty]; rfl
  · refine .inl ⟨hn, ?_⟩
    exact Method.call_of_ne fun h => hn (List.eq_nil_of_length_eq_zero h.symm)

/-! ### One member -/

variable {r r' : Reading} {m : Member} {err : PathError}

theorem fits_of_advance (hm : u.Offers t m) (hr : r.value.Fits u t)
    (h : m.advance u r = .ok r') : r'.value.Fits u m.target := by
  obtain ⟨hwf, ht⟩ := hr
  have ha := m.advances u r
  rw [h] at ha
  cases ha with
  | borrow hv =>
    obtain ⟨c, hc, hf⟩ := hm
    exact hu.fits_of_read hwf (mem_hierarchy_trans hc ht) hf hv
  | detach hv _ hw =>
    obtain ⟨c, hc, hf⟩ := hm
    obtain ⟨hv, hty⟩ := hu.fits_of_read hwf (mem_hierarchy_trans hc ht) hf hv
    obtain ⟨hw, hty'⟩ := hu.copy_sound hv hw
    exact ⟨hw, hty' ▸ hty⟩
  | call hv =>
    obtain ⟨c, hc, hm⟩ := hm
    rcases hu.call_cases hwf (mem_hierarchy_trans hc ht) hm with
      ⟨-, he⟩ | ⟨part, body, -, -, hp, hty, hk, hcall, hrun⟩
    · rw [he] at hv; cases hv
    · rw [hcall, hrun] at hv
      cases hb : body part [] with
      | error e => rw [hb] at hv; cases hv
      | ok w =>
        rw [hb] at hv
        cases hv
        exact hk part [] _ hp hty (fun _ ha => absurd ha List.not_mem_nil) rfl hb

theorem failsOn_of_advance (hm : u.Offers t m) (hr : r.value.Fits u t)
    (h : m.advance u r = .error err) : m.FailsOn u r err := by
  obtain ⟨hwf, ht⟩ := hr
  have ha := m.advances u r
  rw [h] at ha
  cases ha with
  | empty hn =>
    obtain ⟨c, hc, hf⟩ := hm
    exact .empty (hu.optional_of_read hwf (mem_hierarchy_trans hc ht) hf hn) hn
  | stuck hv hb he => exact .stuck hb hv he
  | fail he =>
    obtain ⟨c, hc, hm⟩ := hm
    rcases hu.call_cases hwf (mem_hierarchy_trans hc ht) hm with
      ⟨hn, hcall⟩ | ⟨part, body, hn, hup, -, -, -, hcall, hrun⟩
    · rw [hcall] at he
      cases he
      exact .arguments hn
    · rw [hcall, hrun] at he
      cases hb : body part [] with
      | error raised =>
        rw [hb] at he hrun
        cases he
        exact .raised hn hup hrun
      | ok w => rw [hb] at he; cases he

/-! ### A chain of members -/

variable {ms : List Member}

theorem fits_of_advanceAll (hm : u.Linked t ms) (hr : r.value.Fits u t)
    (h : advanceAll u r ms = .ok r') : r'.value.Fits u (typeAfter t ms) := by
  induction hm generalizing r with
  | nil t =>
    cases h
    exact hr
  | cons hm _ ih =>
    rename_i m ms _
    rw [advanceAll_cons] at h
    cases hr₁ : m.advance u r with
    | error e => rw [hr₁] at h; cases h
    | ok r₁ =>
      rw [hr₁] at h
      exact ih (hu.fits_of_advance hm hr hr₁) h

/-- Reading what a well-formed value's type resolves an expression to gives a well-formed value of
the declared type, or fails at one of the members. -/
theorem read_sound {e : Expression} {o : Options} {chain : Chain} {root : Value}
    (hc : (u.chainOf e o root.ty).outcome = .ok chain) (hroot : root.WellFormed u) :
    (∃ r, chain.read u root = .ok r ∧ r.value.Fits u chain.target) ∨
    ∃ err before m after r, chain.read u root = .error err ∧
      chain.members = before ++ m :: after ∧ advanceAll u ⟨root, true⟩ before = .ok r ∧
      m.FailsOn u r err := by
  have hl := linked_chainOf hc
  have hfit : root.Fits u root.ty := ⟨hroot, mem_hierarchy_self u _⟩
  cases hr : chain.read u root with
  | ok r =>
    rw [← typeAfter_members root.ty chain]
    exact .inl ⟨r, rfl, hu.fits_of_advanceAll hl hfit hr⟩
  | error err =>
    obtain ⟨before, m, after, r, hms, hb, hm⟩ := advanceAll_eq_error_iff.1 hr
    rw [hms] at hl
    obtain ⟨hlb, hlm⟩ := linked_append.1 hl
    cases hlm with
    | cons ho _ =>
      exact .inr ⟨err, before, m, after, r, rfl, hms, hb,
        hu.failsOn_of_advance ho (hu.fits_of_advanceAll hlb hfit hb) hm⟩

end WellTyped

end Universe

/-! ### Dogs and puppies -/

namespace Sample

/-- Dogs have a name; puppies are dogs that may know their mother. -/
def kennel : Universe where
  definition
    | 0 => classOf 0 "fixtures" "Dog" [("name", .text, false)]
        [getter 0 "itself" (.defined 0) id] none
    | 1 => classOf 1 "fixtures" "Puppy" [("mother", .defined 0, true)] [] (some (.defined 0))
    | _ => .vacant
  rank t := if t = .defined 1 then 1 else 0
  rank_lt t p h := by
    match t with
    | .defined 0 | .defined (_ + 2) => cases h
    | .defined 1 => cases h; decide

def puppy (name : String) (mother : Option Value) : Value :=
  .object 1 [mother] (some (.object 0 [some (.text name)] none "")) ""

theorem kennel_wellTyped : kennel.WellTyped where
  owned t c h := by
    match t with
    | .defined 0 => cases h; decide
    | .defined 1 => cases h; decide
    | .defined (_ + 2) => cases h
  methods t m hm := by
    match t with
    | .defined 0 =>
      obtain rfl := List.mem_singleton.1 hm
      refine ⟨fun this _ => .ok this, rfl, ?_⟩
      intro this args w hwf hty _ _ h
      cases h
      exact ⟨hwf, hty ▸ Universe.mem_hierarchy_self kennel _⟩
    | .defined 1 | .defined (_ + 2) => cases hm
  copies id v w hty hwf h := by
    match id with
    | 0 | 1 | _ + 2 =>
      cases h
      exact ⟨hwf, rfl⟩

theorem wellFormed_dog (name : String) :
    (Value.object 0 [some (.text name)] none "").WellFormed kennel := by
  refine .intro ?_ ?_ ?_ nofun nofun <;> intro f hf <;> obtain rfl := List.mem_singleton.1 hf
  · exact fun _ => ⟨.text name, rfl⟩
  · intro w hw
    cases hw
    exact Universe.mem_hierarchy_self kennel .text
  · intro w hw
    cases hw
    exact Universe.wellFormed_of_plain rfl rfl

theorem wellFormed_puppy {name : String} {mother : Option Value}
    (h : ∀ v, mother = some v → v.Fits kennel (.defined 0)) :
    (puppy name mother).WellFormed kennel := by
  refine .intro ?_ ?_ ?_ ?_ ?_ <;> intro f hf
  · obtain rfl := List.mem_singleton.1 hf
    nofun
  · obtain rfl := List.mem_singleton.1 hf
    exact fun w hw => (h w hw).2
  · obtain rfl := List.mem_singleton.1 hf
    exact fun w hw => (h w hw).1
  · cases hf
    exact ⟨_, rfl, rfl⟩
  · rintro b hb
    cases hb
    exact wellFormed_dog name

/-- A puppy whose mother is a puppy. -/
def nala : Value := puppy "Nala" (some (puppy "Sarabi" none))

theorem wellFormed_nala : nala.WellFormed kennel :=
  wellFormed_puppy fun _ h => by
    cases h
    exact ⟨wellFormed_puppy nofun, by decide⟩

/-- The name of a puppy's mother, asked of the mother herself. -/
def motherName : Expression := ⟨"mother.itself.name", .names ["mother", "itself", "name"]⟩

def motherChain : Chain :=
  (kennel.chainOf motherName .standard nala.ty).outcome.toOption.get (by decide)

theorem read_sound_mother :
    kennel.WellTyped ∧ (kennel.chainOf motherName .standard nala.ty).outcome = .ok motherChain ∧
      nala.WellFormed kennel ∧
      ∃ r, motherChain.read kennel nala = .ok r ∧ r.value.Fits kennel motherChain.target := by
  refine ⟨kennel_wellTyped, rfl, wellFormed_nala, ?_⟩
  rcases kennel_wellTyped.read_sound (o := .standard) (e := motherName) rfl wellFormed_nala with
    h | ⟨_, _, _, _, _, h, -⟩
  · exact h
  · cases h

end Sample

end MemberPath
