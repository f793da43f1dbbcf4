import MemberPath.Proofs.MapHistory
import MemberPath.Proofs.Requests
import MemberPath.Sample

/-!
# What is stored after a run

`cacheLaw_run` reads the stored resolutions off the history of a run. A type has a stored resolution
iff a request has resolved the expression for it since the last `clear`, and the stored object is
the answer to the first such request, found under the option as it was then. The invariant is
`get?_run`, and `get?_serve` is its step.
-/

namespace MemberPath.Resolver
variable {u : Universe} {start r : Resolver} {t : Ty} {x : Shared}

/-- The request resolves the expression for type `t` to `x`; what it does then may still fail. -/
def Resolves (u : Universe) (r : Resolver) (q : Request) (t : Ty) (x : Shared) : Prop :=
  ∃ v, q.target? = some v ∧ v.ty = t ∧ (r.resolve u v).outcome = .ok x

/-- In the run `qs` the request behind `before` resolves the expression for `t` to `x`, and no later
request is `clear`. -/
def ResolvedAt (u : Universe) (start : Resolver) (qs before : List Request) (t : Ty) (x : Shared) :
    Prop :=
  ∃ q after, qs = before ++ q :: after ∧ .clear ∉ after ∧ Resolves u (start.run u before) q t x

/-- Some request since the last `clear` of the run `qs` resolves the expression for `t`. -/
def ResolvedSince (u : Universe) (start : Resolver) (qs : List Request) (t : Ty) : Prop :=
  ∃ before x, ResolvedAt u start qs before t x

/-- The request behind `before` is the first one since the last `clear` that resolves the expression
for `t`, and `x` is what it finds. -/
def FirstResolvedAt (u : Universe) (start : Resolver) (qs before : List Request) (t : Ty)
    (x : Shared) : Prop :=
  ResolvedAt u start qs before t x ∧ ¬ ResolvedSince u start before t

/-- The law of the stored resolutions after the run `qs`. -/
structure CacheLaw (u : Universe) (start : Resolver) (qs : List Request) : Prop where
  /-- What is stored are the types resolved since the last `clear`. -/
  cached_iff : ∀ t, (start.run u qs).isCached t = true ↔ ResolvedSince u start qs t
  size : ∃ ts : List Ty, ts.Nodup ∧ (∀ t, t ∈ ts ↔ ResolvedSince u start qs t) ∧
    (start.run u qs).cacheSize = ts.length
  /-- While a type is cached, resolving for it gives the object of the first success, which the walk
  found under the option as it was then, and leaves the resolver as it is. -/
  hit : ∀ t, (start.run u qs).isCached t = true → ∃ before x,
    FirstResolvedAt u start qs before t x ∧
    (u.chainOf start.expression
      ⟨start.options.strategy, ignoreAfter start.options.ignoreToString before⟩ t).outcome =
        .ok x.chain ∧
    ∀ v, v.ty = t → (start.run u qs).resolve u v = ⟨.ok x, start.run u qs, []⟩
  /-- While a type is not cached, resolving for it gives what the walk finds under the option as it
  is now. -/
  miss : ∀ v, (start.run u qs).isCached v.ty = false →
    ((start.run u qs).resolve u v).outcome.map (·.chain) =
      (u.chainOf start.expression
        ⟨start.options.strategy, ignoreAfter start.options.ignoreToString qs⟩ v.ty).outcome
  /-- The object that such a resolution gives is a new one. -/
  fresh : ∀ v x, (start.run u qs).isCached v.ty = false →
    ((start.run u qs).resolve u v).outcome = .ok x →
      ∀ t y, (start.run u qs).store.cached.get? t = some y → y.number ≠ x.number
  /-- A request that cannot resolve the expression changes nothing. -/
  failed : ∀ q v err, q.target? = some v → ((start.run u qs).resolve u v).outcome = .error err →
    ((start.run u qs).serve u q).resolver = start.run u qs

/-! ### One request -/

theorem isCached_iff : r.isCached t = true ↔ ∃ x, r.store.cached.get? t = some x := by
  rw [isCached, Assoc.contains, Option.isSome_iff_exists]

theorem isCached_eq_false_iff : r.isCached t = false ↔ r.store.cached.get? t = none := by
  rw [isCached, Assoc.contains, Option.isSome_eq_false_iff, Option.isNone_iff_eq_none]

theorem get?_resolve (u : Universe) (r : Resolver) (v : Value) (t : Ty) :
    (r.resolve u v).resolver.store.cached.get? t =
      if t = v.ty then (r.resolve u v).outcome.toOption else r.store.cached.get? t :=
  Store.get?_resolve ..

theorem resolve_of_cached {v : Value} (h : r.store.cached.get? v.ty = some x) :
    r.resolve u v = ⟨.ok x, r, []⟩ := by
  simp only [resolve, Store.resolve_of_cached h]

theorem chain_of_resolve {v : Value} (h : r.store.cached.get? v.ty = none) :
    (r.resolve u v).outcome.map (·.chain) = (u.chainOf r.expression r.options v.ty).outcome := by
  have ho : (r.resolve u v).outcome = _ := Store.outcome_resolve ..
  rw [ho, h]
  cases (u.chainOf r.expression r.options v.ty).outcome <;> rfl

theorem number_of_resolve {v : Value} (h : r.store.cached.get? v.ty = none)
    (hx : (r.resolve u v).outcome = .ok x) : x.number = r.store.built := by
  have ho : (r.resolve u v).outcome = _ := Store.outcome_resolve ..
  rw [ho, h] at hx
  cases hw : (u.chainOf r.expression r.options v.ty).outcome with
  | error err => rw [hw] at hx; cases hx
  | ok c => rw [hw] at hx; cases hx; rfl

theorem Resolves.ne_clear {q : Request} (h : Resolves u r q t x) : q ≠ .clear := by
  obtain ⟨v, hq, -⟩ := h
  exact Request.ne_clear_of_target? hq

theorem Resolves.eq_of_cached {q : Request} {y : Shared} (h : Resolves u r q t x)
    (hy : r.store.cached.get? t = some y) : x = y := by
  obtain ⟨v, -, rfl, hx⟩ := h
  rw [resolve_of_cached hy] at hx
  cases hx; rfl

theorem Resolves.chain {q : Request} (h : Resolves u r q t x)
    (hn : r.store.cached.get? t = none) :
    (u.chainOf r.expression r.options t).outcome = .ok x.chain := by
  obtain ⟨v, -, rfl, hx⟩ := h
  rw [← chain_of_resolve hn, hx]; rfl

/-- Behind a request other than `clear` a type has what the request resolved it to, or what was
stored for it before. -/
theorem get?_serve {q : Request} (hq : q ≠ .clear) :
    (r.serve u q).resolver.store.cached.get? t = some x ↔
      Resolves u r q t x ∨ r.store.cached.get? t = some x := by
  rcases q.cases_role with ⟨v, hv⟩ | ⟨b, hb⟩ | rfl
  · have hr : Resolves u r q t x ↔ v.ty = t ∧ (r.resolve u v).outcome = .ok x := by
      simp [Resolves, hv]
    rw [serve_of_target hv, get?_resolve, hr]
    split
    · subst t
      constructor
      · intro h
        cases ho : (r.resolve u v).outcome with
        | error err => rw [ho] at h; cases h
        | ok y => rw [ho] at h; cases h; exact .inl ⟨rfl, rfl⟩
      · rintro (⟨-, h⟩ | h)
        · rw [h]; rfl
        · rw [resolve_of_cached h]; rfl
    · rename_i hne
      simp [Ne.symm hne]
  · have hr : ¬ Resolves u r q t x := by
      simp [Resolves, Request.target?_of_flag? hb]
    rw [serve_of_flag hb]
    simp only [hr, false_or]; rfl
  · exact absurd rfl hq

theorem get?_serve_clear : (r.serve u .clear).resolver.store.cached.get? t = none := rfl

/-! ### Histories -/

theorem resolvedAt_concat {qs before : List Request} {q : Request} :
    ResolvedAt u start (qs ++ [q]) before t x ↔
      q ≠ .clear ∧ ResolvedAt u start qs before t x ∨
        before = qs ∧ Resolves u (start.run u qs) q t x := by
  simp only [ResolvedAt, concat_eq_append_cons_iff]
  constructor
  · rintro ⟨q', after, ⟨rfl, rfl, rfl⟩ | ⟨after, rfl, rfl⟩, hc, hr⟩
    · exact .inr ⟨rfl, hr⟩
    · simp only [List.mem_append, List.mem_singleton, not_or] at hc
      exact .inl ⟨fun e => hc.2 e.symm, q', after, rfl, hc.1, hr⟩
  · rintro (⟨hq, q', after, rfl, hc, hr⟩ | ⟨rfl, hr⟩)
    · refine ⟨q', after ++ [q], .inr ⟨after, rfl, rfl⟩, ?_, hr⟩
      simp only [List.mem_append, List.mem_singleton, not_or]
      exact ⟨hc, fun e => hq e.symm⟩
    · exact ⟨q, [], .inl ⟨rfl, rfl, rfl⟩, List.not_mem_nil, hr⟩

theorem not_resolvedAt_nil {before : List Request} : ¬ ResolvedAt u start [] before t x := by
  rintro ⟨q, after, h, -⟩
  simp at h

theorem resolvedSince_concat {qs : List Request} {q : Request} :
    ResolvedSince u start (qs ++ [q]) t ↔
      q ≠ .clear ∧ ResolvedSince u start qs t ∨ ∃ x, Resolves u (start.run u qs) q t x := by
  simp only [ResolvedSince, resolvedAt_concat]
  constructor
  · rintro ⟨before, x, ⟨hq, h⟩ | ⟨rfl, h⟩⟩
    · exact .inl ⟨hq, before, x, h⟩
    · exact .inr ⟨x, h⟩
  · rintro (⟨hq, before, x, h⟩ | ⟨x, h⟩)
    · exact ⟨before, x, .inl ⟨hq, h⟩⟩
    · exact ⟨qs, x, .inr ⟨rfl, h⟩⟩

theorem firstResolvedAt_concat {qs before : List Request} {q : Request} :
    FirstResolvedAt u start (qs ++ [q]) before t x ↔
      q ≠ .clear ∧ FirstResolvedAt u start qs before t x ∨
        before = qs ∧ Resolves u (start.run u qs) q t x ∧ ¬ ResolvedSince u start qs t := by
  simp only [FirstResolvedAt, resolvedAt_concat]
  constructor
  · rintro ⟨⟨hq, h⟩ | ⟨rfl, h⟩, hn⟩
    · exact .inl ⟨hq, h, hn⟩
    · exact .inr ⟨rfl, h, hn⟩
  · rintro (⟨hq, h, hn⟩ | ⟨rfl, h, hn⟩)
    · exact ⟨.inl ⟨hq, h⟩, hn⟩
    · exact ⟨.inr ⟨rfl, h⟩, hn⟩

/-! ### Runs -/

/-- A type has a stored resolution iff the expression was resolved for it since the last `clear`. -/
theorem resolvedSince_iff (h₀ : start.store.cached = .empty) {qs : List Request} :
    ResolvedSince u start qs t ↔ ∃ x, (start.run u qs).store.cached.get? t = some x := by
  induction qs using List.reverseRecOn with
  | nil => simp [ResolvedSince, not_resolvedAt_nil, h₀, Assoc.get?_empty]
  | append_singleton qs q ih =>
    rw [resolvedSince_concat, run_concat, ih]
    by_cases hq : q = .clear
    · subst q
      have hr : ∀ x, ¬ Resolves u (start.run u qs) .clear t x := fun x h => h.ne_clear rfl
      simp [hr, get?_serve_clear]
    · simp only [get?_serve hq, exists_or, ne_eq, hq, not_false_eq_true, true_and]
      exact or_comm

/-- What is stored for a type is what the first request since the last `clear` found for it. -/
theorem get?_run (h₀ : start.store.cached = .empty) {qs : List Request} :
    (start.run u qs).store.cached.get? t = some x ↔
      ∃ before, FirstResolvedAt u start qs before t x := by
  induction qs using List.reverseRecOn generalizing x with
  | nil => simp [FirstResolvedAt, not_resolvedAt_nil, h₀, Assoc.get?_empty]
  | append_singleton qs q ih =>
    rw [run_concat]
    simp only [firstResolvedAt_concat]
    by_cases hq : q = .clear
    · subst q
      have hr : ¬ Resolves u (start.run u qs) .clear t x := fun h => h.ne_clear rfl
      simp [hr, get?_serve_clear]
    rw [get?_serve hq]
    constructor
    · rintro (hr | hx)
      · by_cases hs : ResolvedSince u start qs t
        · -- resolved before: the request has found what was stored
          obtain ⟨y, hy⟩ := (resolvedSince_iff h₀).1 hs
          obtain ⟨before, hb⟩ := ih.1 (hr.eq_of_cached hy ▸ hy)
          exact ⟨before, .inl ⟨hq, hb⟩⟩
        · exact ⟨qs, .inr ⟨rfl, hr, hs⟩⟩
      · obtain ⟨before, hb⟩ := ih.1 hx
        exact ⟨before, .inl ⟨hq, hb⟩⟩
    · rintro ⟨before, ⟨-, hb⟩ | ⟨rfl, hr, -⟩⟩
      · exact .inr (ih.2 ⟨before, hb⟩)
      · exact .inl hr

/-- The first resolution was made by the walk, under the option as it was then. -/
theorem FirstResolvedAt.chain (h₀ : start.store.cached = .empty) {qs before : List Request}
    (h : FirstResolvedAt u start qs before t x) :
    (u.chainOf start.expression
      ⟨start.options.strategy, ignoreAfter start.options.ignoreToString before⟩ t).outcome =
        .ok x.chain := by
  obtain ⟨⟨q, after, -, -, hr⟩, hn⟩ := h
  have hnone : (start.run u before).store.cached.get? t = none := by
    rw [resolvedSince_iff h₀, not_exists] at hn
    exact Option.eq_none_iff_forall_ne_some.2 hn
  have hc := hr.chain hnone
  rwa [expression_run, options_run] at hc

theorem store_of_ofString {text : String} {o : Options} (h : ofString text o = .ok start) :
    start.store = .empty := by
  obtain ⟨e, -, rfl⟩ := ofString_eq_ok_iff.1 h
  rfl

/-- After every run from its construction on, a resolver obeys the law of stored resolutions. -/
theorem cacheLaw_run {text : String} {o : Options} (h : ofString text o = .ok start) (u : Universe)
    (qs : List Request) : CacheLaw u start qs := by
  have h₀ : start.store.cached = .empty := by rw [store_of_ofString h]; rfl
  have hcached : ∀ t, (start.run u qs).isCached t = true ↔ ResolvedSince u start qs t :=
    fun t => isCached_iff.trans (resolvedSince_iff h₀).symm
  refine ⟨hcached, ?_, ?_, ?_, ?_, ?_⟩
  · refine ⟨(start.run u qs).store.cached.keys, (start.run u qs).store.cached.nodup, fun t => ?_,
      Assoc.size_eq_length_keys _⟩
    rw [← hcached, isCached, Assoc.contains_iff_mem_keys]
  · intro t ht
    obtain ⟨x, hx⟩ := isCached_iff.1 ht
    obtain ⟨before, hb⟩ := (get?_run h₀).1 hx
    refine ⟨before, x, hb, hb.chain h₀, fun v hv => ?_⟩
    subst t
    exact resolve_of_cached hx
  · intro v hv
    rw [chain_of_resolve (isCached_eq_false_iff.1 hv), expression_run, options_run]
  · intro v x hv hx t y hy
    have hlt := ((sound_of_ofString h).run qs).numbered t y hy
    rw [← number_of_resolve (isCached_eq_false_iff.1 hv) hx] at hlt
    exact Nat.ne_of_lt hlt
  · intro q v err hq he
    rw [serve_of_target hq, resolve, Store.store_resolve_of_error he]

/-- The only candidate of the type is left out until the option is changed. Once it is stored it
stays, although the option is changed back. -/
theorem cacheLaw_run_label :
    let start : Resolver := ⟨⟨"[String]", .types [⟨"String", false⟩]⟩, .standard, .empty⟩
    let label : Value := .object Sample.label [some (.int .u32 7)] none ""
    let qs : List Request := [.resolve label, .setIgnoreToString false, .get label,
      .ignoreToString true]
    ofString "[String]" .standard = .ok start ∧
      (start.run Sample.world qs).isCached (.defined Sample.label) = true ∧
      CacheLaw Sample.world start qs := by
  intro start label qs
  have h : ofString "[String]" .standard = .ok start := rfl
  exact ⟨h, by decide, cacheLaw_run h Sample.world qs⟩

end MemberPath.Resolver
