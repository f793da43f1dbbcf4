import MemberPath.Proofs.UpcastSearch

/-!
# What comes of a call

A call is refused for the number of its arguments, then for its receiver, then for the first
argument of another type than its parameter; otherwise its answer is that of the body. `Gives` says
this once, and `answers` what it means for every error. Number and receiver are checked again further
inside, by the cursor over the arguments and by the run of the method; these checks always pass.
-/

namespace MemberPath

/-- Argument `i` is the first that is not of exactly the type of its parameter. -/
structure FirstMismatch (params : List Ty) (args : List Value) (i : Nat) (expected received : Ty) :
    Prop where
  param : params[i]? = some expected
  arg : args[i]?.map Value.ty = some received
  ne : received ≠ expected
  before : ∀ j < i, args[j]?.map Value.ty = params[j]?

namespace FirstMismatch
variable {params : List Ty} {args : List Value} {t expected received : Ty} {v : Value} {i : Nat}

theorem head (h : v.ty ≠ t) : FirstMismatch (t :: params) (v :: args) 0 t v.ty :=
  ⟨rfl, rfl, h, nofun⟩

theorem cons (ht : v.ty = t) (h : FirstMismatch params args i expected received) :
    FirstMismatch (t :: params) (v :: args) (i + 1) expected received where
  param := h.param
  arg := h.arg
  ne := h.ne
  before
    | 0, _ => congrArg some ht
    | j + 1, hj => h.before j (Nat.lt_of_succ_lt_succ hj)

theorem of_cons (ht : v.ty = t) (h : FirstMismatch (t :: params) (v :: args) i expected received) :
    ∃ j, i = j + 1 ∧ FirstMismatch params args j expected received := by
  cases i with
  | zero =>
    cases h.param
    cases h.arg
    exact absurd ht h.ne
  | succ j =>
    exact ⟨j, rfl, h.param, h.arg, h.ne, fun k hk => h.before (k + 1) (Nat.succ_lt_succ hk)⟩

theorem eq_of_cons (ht : v.ty ≠ t) (h : FirstMismatch (t :: params) (v :: args) i expected received) :
    i = 0 ∧ expected = t ∧ received = v.ty := by
  cases i with
  | zero =>
    cases h.param
    cases h.arg
    exact ⟨rfl, rfl, rfl⟩
  | succ j => exact absurd (Option.some.inj (h.before 0 (Nat.succ_pos j))) ht

/-- If any argument is of another type than its parameter, one is the first. -/
theorem exists_of_map_ty_ne (hn : args.length = params.length) (h : args.map Value.ty ≠ params) :
    ∃ i expected received, FirstMismatch params args i expected received := by
  induction params generalizing args with
  | nil => exact absurd (by simpa using hn) h
  | cons t params ih =>
    obtain ⟨v, args, rfl⟩ := List.exists_cons_of_length_eq_add_one hn
    by_cases ht : v.ty = t
    · have hne : args.map Value.ty ≠ params := fun heq => h (by rw [List.map_cons, ht, heq])
      obtain ⟨i, x, y, hi⟩ := ih (Nat.succ.inj hn) hne
      exact ⟨i + 1, x, y, hi.cons ht⟩
    · exact ⟨0, t, v.ty, head ht⟩

theorem exists_iff (hn : args.length = params.length) :
    (∃ i expected received, FirstMismatch params args i expected received) ↔
      ∃ (i : Nat) (t : Ty) (v : Value), params[i]? = some t ∧ args[i]? = some v ∧ v.ty ≠ t := by
  constructor
  · rintro ⟨i, x, y, h⟩
    obtain ⟨v, hv, rfl⟩ := Option.map_eq_some_iff.1 h.arg
    exact ⟨i, x, v, h.param, hv, h.ne⟩
  · rintro ⟨i, t, v, ht, hv, hne⟩
    refine exists_of_map_ty_ne hn ?_
    rintro rfl
    rw [List.getElem?_map, hv] at ht
    exact hne (Option.some.inj ht)

end FirstMismatch

/-! ### The cursor -/

namespace Args
variable {a : Args} {t : Ty} {ts : List Ty} {v : Value} {vs : List Value}

/-- The arguments that have not been taken. -/
def rest (a : Args) : List Value :=
  a.values.drop a.taken

theorem getElem?_taken (a : Args) : a.values[a.taken]? = a.rest.head? := by
  rw [rest, List.head?_drop]

theorem rest_succ (h : a.rest = v :: vs) : rest ⟨a.values, a.taken + 1⟩ = vs := by
  have ht : a.rest.tail = vs := by rw [h, List.tail_cons]
  rwa [rest, List.tail_drop] at ht

theorem next_of_cons (h : a.rest = v :: vs) :
    a.next t = if v.ty = t then (.ok v, ⟨a.values, a.taken + 1⟩)
      else (.error (.argType a.taken t v.ty), a) := by
  rw [next, getElem?_taken, h]
  rfl

theorem takeAll_of_ne (h : a.rest = v :: vs) (ht : v.ty ≠ t) :
    a.takeAll (t :: ts) = .error (.argType a.taken t v.ty) := by
  rw [takeAll, next_of_cons h, if_neg ht]

theorem takeAll_of_eq (h : a.rest = v :: vs) (ht : v.ty = t) :
    a.takeAll (t :: ts) = (takeAll ⟨a.values, a.taken + 1⟩ ts).map (v :: ·) := by
  rw [takeAll, next_of_cons h, if_pos ht]

theorem takeAll_of_map_ty_eq (h : a.rest.map Value.ty = ts) : a.takeAll ts = .ok a.rest := by
  induction ts generalizing a with
  | nil => rw [List.map_eq_nil_iff.1 h]; rfl
  | cons t ts ih =>
    obtain ⟨v, vs, hrest, ht, hvs⟩ := List.map_eq_cons_iff.1 h
    rw [takeAll_of_eq hrest ht, ih (by rw [rest_succ hrest, hvs]), rest_succ hrest, hrest]
    rfl

theorem takeAll_of_firstMismatch {i : Nat} {expected received : Ty}
    (h : FirstMismatch ts a.rest i expected received) :
    a.takeAll ts = .error (.argType (a.taken + i) expected received) := by
  induction ts generalizing a i with
  | nil => cases h.param
  | cons t ts ih =>
    cases hrest : a.rest with
    | nil =>
      have harg := h.arg
      rw [hrest] at harg
      cases harg
    | cons v vs =>
      rw [hrest] at h
      by_cases ht : v.ty = t
      · obtain ⟨j, rfl, hj⟩ := h.of_cons ht
        rw [takeAll_of_eq hrest ht, ih (by rwa [rest_succ hrest]), Nat.add_right_comm]
        rfl
      · obtain ⟨rfl, rfl, rfl⟩ := h.eq_of_cons ht
        exact takeAll_of_ne hrest ht

end Args

/-! ### Calls -/

namespace Value
variable {parent : Ty → Option Ty} {c : Ty} {v : Value}

/-- On the way along superclass links from `v` there is a value of type `c`. -/
def HasPart (parent : Ty → Option Ty) (c : Ty) (v : Value) : Prop :=
  ∃ n w, v.part? parent n = some w ∧ w.ty = c

theorem not_hasPart_iff : ¬ v.HasPart parent c ↔ v.upcast parent c = none := by
  rw [upcast_eq_none_iff, HasPart]
  push Not
  rfl

theorem hasPart_iff : v.HasPart parent c ↔ ∃ this, v.upcast parent c = some this := by
  rw [← Option.ne_none_iff_exists', ne_eq, ← not_hasPart_iff, not_not]

end Value

namespace Method
variable {parent : Ty → Option Ty} {m : Method} {expected received : Ty}
  {body : Value → List Value → Except Raised Value} {v this : Value} {args : List Value}
  {a : Except CallError Value}

/-- What a call of `m` on `v` can come to, if `body` is what `m` does. -/
inductive Gives (parent : Ty → Option Ty) (m : Method)
    (body : Value → List Value → Except Raised Value) (v : Value) (args : List Value) :
    Except CallError Value → Prop
  | argCount : args.length ≠ m.params.length →
      Gives parent m body v args (.error (.argCount m.params.length args.length))
  | receiver : args.length = m.params.length → v.upcast parent m.owner = none →
      Gives parent m body v args (.error (.receiver m.owner v.ty))
  | argType {this : Value} {i : Nat} {expected received : Ty} :
      args.length = m.params.length → v.upcast parent m.owner = some this →
      FirstMismatch m.params args i expected received →
      Gives parent m body v args (.error (.argType i expected received))
  | raised {this : Value} {e : Raised} :
      v.upcast parent m.owner = some this → args.map Value.ty = m.params →
      body this args = .error e → Gives parent m body v args (.error (.raised e))
  | returned {this w : Value} :
      v.upcast parent m.owner = some this → args.map Value.ty = m.params →
      body this args = .ok w → Gives parent m body v args (.ok w)

/-- When a call of `m` on `v` gives which answer, if `body` is what `m` does. -/
structure Answers (parent : Ty → Option Ty) (m : Method)
    (body : Value → List Value → Except Raised Value) (v : Value) (args : List Value) : Prop where
  argCount : ∀ expected received,
    m.callAlong parent v args = .error (.argCount expected received) ↔
      args.length ≠ m.params.length ∧ expected = m.params.length ∧ received = args.length
  receiver : ∀ expected received,
    m.callAlong parent v args = .error (.receiver expected received) ↔
      args.length = m.params.length ∧ ¬ v.HasPart parent m.owner ∧
        expected = m.owner ∧ received = v.ty
  argType : ∀ i expected received,
    m.callAlong parent v args = .error (.argType i expected received) ↔
      args.length = m.params.length ∧ v.HasPart parent m.owner ∧
        FirstMismatch m.params args i expected received
  mistyped : (∃ i expected received,
      m.callAlong parent v args = .error (.argType i expected received)) ↔
    args.length = m.params.length ∧ v.HasPart parent m.owner ∧
      ∃ (i : Nat) (t : Ty) (w : Value), m.params[i]? = some t ∧ args[i]? = some w ∧ w.ty ≠ t
  raised : ∀ e, m.callAlong parent v args = .error (.raised e) ↔
    ∃ n this, v.FirstPart parent m.owner n this ∧ args.map Value.ty = m.params ∧
      body this args = .error e
  returned : ∀ w, m.callAlong parent v args = .ok w ↔
    ∃ n this, v.FirstPart parent m.owner n this ∧ args.map Value.ty = m.params ∧
      body this args = .ok w
  /-- Once a call has got to the run of the method, number and receiver are right. -/
  guarded : ∀ this, args.length = m.params.length → v.upcast parent m.owner = some this →
    ∀ n k expected received, m.run this (.ofList args) ≠ .error (.argCount n k) ∧
      m.run this (.ofList args) ≠ .error (.receiver expected received)

/-! ### Methods that take what they declare -/

theorem callAlong_eq_run (hn : args.length = m.params.length)
    (hp : v.upcast parent m.owner = some this) :
    m.callAlong parent v args = m.run this (.ofList args) := by
  rw [callAlong, if_pos hn, hp]

theorem callAlong_of_map_ty_eq (hm : m.run = runTaking m.owner m.params body)
    (hp : v.upcast parent m.owner = some this) (hargs : args.map Value.ty = m.params) :
    m.callAlong parent v args = (body this args).mapError .raised := by
  have hn : args.length = m.params.length := by rw [← hargs, List.length_map]
  have htake : (Args.ofList args).takeAll m.params = .ok args := Args.takeAll_of_map_ty_eq hargs
  rw [callAlong_eq_run hn hp, hm, runTaking, if_pos (Value.ty_of_upcast hp), htake]

theorem callAlong_of_firstMismatch (hm : m.run = runTaking m.owner m.params body)
    (hn : args.length = m.params.length) (hp : v.upcast parent m.owner = some this) {i : Nat}
    {expected received : Ty} (h : FirstMismatch m.params args i expected received) :
    m.callAlong parent v args = .error (.argType i expected received) := by
  have htake : (Args.ofList args).takeAll m.params = .error (.argType (0 + i) expected received) :=
    Args.takeAll_of_firstMismatch h
  rw [callAlong_eq_run hn hp, hm, runTaking, if_pos (Value.ty_of_upcast hp), htake, Nat.zero_add]

theorem Gives.callAlong_eq (hm : m.run = runTaking m.owner m.params body)
    (h : Gives parent m body v args a) : m.callAlong parent v args = a := by
  cases h with
  | argCount hn => exact if_neg hn
  | receiver hn hp => rw [callAlong, if_pos hn, hp]
  | argType hn hp hargs => exact callAlong_of_firstMismatch hm hn hp hargs
  | raised hp hargs hb =>
    rw [callAlong_of_map_ty_eq hm hp hargs, hb]
    rfl
  | returned hp hargs hb =>
    rw [callAlong_of_map_ty_eq hm hp hargs, hb]
    rfl

theorem exists_gives (parent : Ty → Option Ty) (m : Method)
    (body : Value → List Value → Except Raised Value) (v : Value) (args : List Value) :
    ∃ a, Gives parent m body v args a := by
  by_cases hn : args.length = m.params.length
  · cases hp : v.upcast parent m.owner with
    | none => exact ⟨_, .receiver hn hp⟩
    | some this =>
      by_cases hargs : args.map Value.ty = m.params
      · cases hb : body this args with
        | error e => exact ⟨_, .raised hp hargs hb⟩
        | ok w => exact ⟨_, .returned hp hargs hb⟩
      · obtain ⟨_, _, _, hi⟩ := FirstMismatch.exists_of_map_ty_ne hn hargs
        exact ⟨_, .argType hn hp hi⟩
  · exact ⟨_, .argCount hn⟩

theorem callAlong_eq_iff (hm : m.run = runTaking m.owner m.params body) :
    m.callAlong parent v args = a ↔ Gives parent m body v args a := by
  refine ⟨?_, Gives.callAlong_eq hm⟩
  -- one of the cases holds, and a call gives nothing but what the cases say
  rintro rfl
  obtain ⟨a, ha⟩ := exists_gives parent m body v args
  rwa [ha.callAlong_eq hm]

theorem callAlong_eq_argCount_iff (hm : m.run = runTaking m.owner m.params body) {n k : Nat} :
    m.callAlong parent v args = .error (.argCount n k) ↔
      args.length ≠ m.params.length ∧ n = m.params.length ∧ k = args.length := by
  rw [callAlong_eq_iff hm]
  constructor
  · rintro (hn | _)
    exact ⟨hn, rfl, rfl⟩
  · rintro ⟨hn, rfl, rfl⟩
    exact .argCount hn

theorem callAlong_eq_receiver_iff (hm : m.run = runTaking m.owner m.params body) :
    m.callAlong parent v args = .error (.receiver expected received) ↔
      args.length = m.params.length ∧ ¬ v.HasPart parent m.owner ∧
        expected = m.owner ∧ received = v.ty := by
  rw [callAlong_eq_iff hm, Value.not_hasPart_iff]
  constructor
  · rintro (_ | ⟨hn, hp⟩)
    exact ⟨hn, hp, rfl, rfl⟩
  · rintro ⟨hn, hp, rfl, rfl⟩
    exact .receiver hn hp

theorem callAlong_eq_argType_iff (hm : m.run = runTaking m.owner m.params body) {i : Nat} :
    m.callAlong parent v args = .error (.argType i expected received) ↔
      args.length = m.params.length ∧ v.HasPart parent m.owner ∧
        FirstMismatch m.params args i expected received := by
  rw [callAlong_eq_iff hm, Value.hasPart_iff]
  constructor
  · rintro (_ | _ | ⟨hn, hp, hi⟩)
    exact ⟨hn, ⟨_, hp⟩, hi⟩
  · rintro ⟨hn, ⟨_, hp⟩, hi⟩
    exact .argType hn hp hi

theorem callAlong_eq_raised_iff (hm : m.run = runTaking m.owner m.params body) {e : Raised} :
    m.callAlong parent v args = .error (.raised e) ↔
      ∃ n this, v.FirstPart parent m.owner n this ∧ args.map Value.ty = m.params ∧
        body this args = .error e := by
  rw [callAlong_eq_iff hm]
  constructor
  · rintro (_ | _ | _ | ⟨hp, hargs, hb⟩)
    obtain ⟨n, hn⟩ := Value.exists_firstPart hp
    exact ⟨n, _, hn, hargs, hb⟩
  · rintro ⟨n, this, hn, hargs, hb⟩
    exact .raised hn.upcast_eq hargs hb

theorem callAlong_eq_ok_iff (hm : m.run = runTaking m.owner m.params body) {w : Value} :
    m.callAlong parent v args = .ok w ↔
      ∃ n this, v.FirstPart parent m.owner n this ∧ args.map Value.ty = m.params ∧
        body this args = .ok w := by
  rw [callAlong_eq_iff hm]
  constructor
  · rintro (_ | _ | _ | _ | ⟨hp, hargs, hb⟩)
    obtain ⟨n, hn⟩ := Value.exists_firstPart hp
    exact ⟨n, _, hn, hargs, hb⟩
  · rintro ⟨n, this, hn, hargs, hb⟩
    exact .returned hn.upcast_eq hargs hb

theorem answers (parent : Ty → Option Ty) (owner : Ty) (name : String) (params : List Ty)
    (result : Ty) (body : Value → List Value → Except Raised Value) (v : Value)
    (args : List Value) : Answers parent (ofBody owner name params result body) body v args where
  argCount _ _ := callAlong_eq_argCount_iff rfl
  receiver _ _ := callAlong_eq_receiver_iff rfl
  argType _ _ _ := callAlong_eq_argType_iff rfl
  mistyped := by
    constructor
    · rintro ⟨i, x, y, h⟩
      obtain ⟨hn, hp, hi⟩ := (callAlong_eq_argType_iff rfl).1 h
      exact ⟨hn, hp, (FirstMismatch.exists_iff hn).1 ⟨i, x, y, hi⟩⟩
    · rintro ⟨hn, hp, hne⟩
      obtain ⟨i, x, y, hi⟩ := (FirstMismatch.exists_iff hn).2 hne
      exact ⟨i, x, y, (callAlong_eq_argType_iff rfl).2 ⟨hn, hp, hi⟩⟩
  raised _ := callAlong_eq_raised_iff rfl
  returned _ := callAlong_eq_ok_iff rfl
  guarded this hn hp n k expected received := by
    rw [← callAlong_eq_run hn hp]
    constructor
    · intro h
      exact ((callAlong_eq_argCount_iff rfl).1 h).1 hn
    · intro h
      obtain ⟨-, hnone, -⟩ := (callAlong_eq_receiver_iff rfl).1 h
      exact hnone (Value.hasPart_iff.2 ⟨this, hp⟩)

/-- Receiver and number are both wrong. -/
example : (ofBody .u8 "twice" [.text, .u8] .unit fun _ _ => .ok .unit).callAlong some (.text "") [] =
    .error (.argCount 2 0) :=
  rfl

end Method

end MemberPath
