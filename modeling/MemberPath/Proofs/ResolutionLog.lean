import MemberPath.Proofs.CacheHistory
import MemberPath.Proofs.WalkComposition

/-!
# What the log says about a resolution

Resolving for a type that is not cached writes down the way of the walk: the members of the chain, or
those of the longest part of the expression that can be resolved, each with the type it was looked
up on (`records_walk_of_ok`, `records_walk_of_stop`). `log_reconstructs` says so for every request of
a run. The declaring class of a member is not in the log.
-/

namespace MemberPath

/-- The line for a member that was found on `on`. -/
def memberLine (n : Naming) (path : String) (on : Ty) (m : Member) : String :=
  "TRACE `" ++ path ++ "`: " ++ (if m.isMethod then "method" else "field") ++ " `" ++ m.name ++
    "` on `" ++ n.short on ++ "`"

def Record.isSelected : Record → Bool
  | .selected .. => true
  | _ => false

theorem Record.IsStep.level {path : String} {r : Record} (h : r.IsStep path) :
    r.level = .trace := by
  rcases h with ⟨_, _, _, rfl⟩ | ⟨_, _, _, rfl⟩ <;> rfl

namespace Universe
variable {u : Universe} {path : String} {o : Options} {on : Ty} {ss before after : List Segment}
  {s : Segment} {m : Member} {ms : List Member} {err : PathError}

/-- What is written before a segment selects a member: a component counts its candidates. -/
def counts (u : Universe) (path : String) (ignore : Bool) (on : Ty) : Segment → List Record
  | .name _ => []
  | .type c => [.counted path (u.membersOfType on c ignore).length c on]

/-- What is written while the segments select the members. -/
def trace (u : Universe) (path : String) (ignore : Bool) : Ty → List Segment → List Member →
    List Record
  | on, s :: ss, m :: ms =>
    u.counts path ignore on s ++ .selected path m.isMethod m.name on ::
      u.trace path ignore m.target ss ms
  | _, _, _ => []

/-- What is written where the first of the segments selects none. -/
def stop (u : Universe) (path : String) (ignore : Bool) (on : Ty) : List Segment → List Record
  | [] => []
  | s :: _ => u.counts path ignore on s

/-- The records tell how `e` was resolved for the type `t`, where nothing was stored for it: the
segments `before` have found the members `ms`, and if there are more, the first of them found none. -/
structure Reconstructs (u : Universe) (e : Expression) (o : Options) (t : Ty)
    (outcome : Except PathError Shared) (records : List Record) (before after : List Segment)
    (ms : List Member) : Prop where
  split : e.segments.toList = before ++ after
  found : (u.walk e.text o t before).outcome = .ok ms
  longest : ∀ more ms', more <+: e.segments.toList →
    (u.walk e.text o t more).outcome = .ok ms' → more <+: before
  resolved : ∀ x, outcome = .ok x → after = [] ∧ x.chain.members = ms
  written : records = .resolving e.text t ::
    (u.trace e.text o.ignoreToString t before ms ++
      u.stop e.text o.ignoreToString (typeAfter t ms) after)
  first_line : records.head?.map (·.line u.naming) =
    some ("DEBUG resolving `" ++ e.text ++ "` for `" ++ u.naming.path t ++ "`")
  traced : ∀ r ∈ records.tail, r.level = .trace
  member_lines : ∀ i, ((records.filter (·.isSelected)).map (·.line u.naming))[i]? =
    ms[i]?.map (memberLine u.naming e.text (typeAfter t (ms.take i)))
  unmatched : ∀ typeName on, outcome = .error (.noTypeMatch typeName on) →
    ∃ c : Component, c.typeName = typeName ∧ records.getLast? = some (.counted e.text 0 c on)
  ambiguous : ∀ typeName on n, outcome = .error (.ambiguousType typeName on n) →
    ∃ c : Component, c.typeName = typeName ∧ records.getLast? = some (.counted e.text n c on)

/-! ### The records of a walk -/

theorem records_choose_of_ok (h : (u.choose path o on s).outcome = .ok m) :
    (u.choose path o on s).records =
      u.counts path o.ignoreToString on s ++ [.selected path m.isMethod m.name on] := by
  have hs := u.chooses path o on s
  generalize u.choose path o on s = w at hs h
  cases hs with
  | missing | unmatched | ambiguous => cases h
  | named => cases h; rfl
  | selected hf => cases h; rw [counts, hf, List.singleton_append]

theorem records_choose_of_error (h : (u.choose path o on s).outcome = .error err) :
    (u.choose path o on s).records = u.counts path o.ignoreToString on s := by
  have hs := u.chooses path o on s
  generalize u.choose path o on s = w at hs h
  cases hs with
  | missing => rfl
  | unmatched hf => rw [counts, hf, List.length_nil]
  | ambiguous hf => rw [counts, hf]
  | named | selected => cases h

theorem records_walk_of_ok (h : (u.walk path o on ss).outcome = .ok ms) :
    (u.walk path o on ss).records = u.trace path o.ignoreToString on ss ms := by
  induction ss generalizing on ms with
  | nil => cases h; rfl
  | cons s ss ih =>
    obtain ⟨m, ms', hm, hw, rfl⟩ := walk_cons_eq_ok_iff.1 h
    simp only [walk, hm, records_choose_of_ok hm, ih hw, trace, List.append_assoc,
      List.singleton_append]

/-- A walk that stops has written what led it there, and the count of the segment it stopped at. -/
theorem records_walk_of_stop (hw : (u.walk path o on before).outcome = .ok ms)
    (he : (u.choose path o (typeAfter on ms) s).outcome = .error err) :
    (u.walk path o on (before ++ s :: after)).records =
      u.trace path o.ignoreToString on before ms ++
        u.counts path o.ignoreToString (typeAfter on ms) s := by
  induction before generalizing on ms with
  | nil =>
    cases hw
    have he : (u.choose path o on s).outcome = .error err := he
    simp only [List.nil_append, walk, he, records_choose_of_error he, trace]
    rfl
  | cons s' before ih =>
    obtain ⟨m, ms', hm, hw', rfl⟩ := walk_cons_eq_ok_iff.1 hw
    have hrest := ih hw' he
    simp only [List.cons_append, walk, hm, records_choose_of_ok hm, hrest, trace, List.append_assoc]
    rfl

theorem count_of_noTypeMatch {typeName : String} {on' : Ty}
    (h : (u.choose path o on s).outcome = .error (.noTypeMatch typeName on')) :
    ∃ c : Component, c.typeName = typeName ∧
      u.counts path o.ignoreToString on s = [.counted path 0 c on'] := by
  have hs := u.chooses path o on s
  generalize u.choose path o on s = w at hs h
  cases hs with
  | unmatched hf => cases h; exact ⟨_, rfl, by rw [counts, hf, List.length_nil]⟩
  | missing | named | ambiguous | selected => cases h

theorem count_of_ambiguousType {typeName : String} {on' : Ty} {n : Nat}
    (h : (u.choose path o on s).outcome = .error (.ambiguousType typeName on' n)) :
    ∃ c : Component, c.typeName = typeName ∧
      u.counts path o.ignoreToString on s = [.counted path n c on'] := by
  have hs := u.chooses path o on s
  generalize u.choose path o on s = w at hs h
  cases hs with
  | ambiguous hf => cases h; exact ⟨_, rfl, by rw [counts, hf]⟩
  | missing | named | unmatched | selected => cases h

/-- The segments in front of the one that a walk stops at are all that can be resolved. -/
theorem prefix_of_walk_eq_ok {more : List Segment} {ms' : List Member}
    (hw : (u.walk path o on before).outcome = .ok ms)
    (he : (u.choose path o (typeAfter on ms) s).outcome = .error err)
    (hp : more <+: before ++ s :: after) (hm : (u.walk path o on more).outcome = .ok ms') :
    more <+: before := by
  rcases List.prefix_or_prefix_of_prefix hp (List.prefix_append before (s :: after)) with h | h
  · exact h
  · obtain ⟨rest, rfl⟩ := h
    cases rest with
    | nil => exact (List.append_nil before).symm ▸ List.prefix_refl before
    | cons s' rest =>
      -- A longer part has the segment in it that finds nothing.
      obtain ⟨rfl, -⟩ := List.cons_prefix_cons.1 ((List.prefix_append_right_inj before).1 hp)
      have hstop : (u.walk path o on (before ++ s' :: rest)).outcome = .error err :=
        walk_eq_error_iff.2 ⟨before, s', rest, ms, rfl, hw, he⟩
      rw [hstop] at hm
      cases hm

/-! ### The lines of the log -/

theorem line_resolving (n : Naming) (path : String) (t : Ty) :
    (Record.resolving path t).line n =
      "DEBUG resolving `" ++ path ++ "` for `" ++ n.path t ++ "`" := by
  show "DEBUG " ++ ("resolving `" ++ path ++ "` for `" ++ n.path t ++ "`") =
    "DEBUG " ++ "resolving `" ++ path ++ "` for `" ++ n.path t ++ "`"
  simp only [String.append_assoc]

theorem line_selected (n : Naming) (path : String) (on : Ty) (m : Member) :
    (Record.selected path m.isMethod m.name on).line n = memberLine n path on m := by
  show "TRACE " ++ ("`" ++ path ++ "`: " ++ (if m.isMethod then "method" else "field") ++ " `" ++
      m.name ++ "` on `" ++ n.short on ++ "`") =
    "TRACE " ++ "`" ++ path ++ "`: " ++ (if m.isMethod then "method" else "field") ++ " `" ++
      m.name ++ "` on `" ++ n.short on ++ "`"
  simp only [String.append_assoc]

theorem filter_counts (u : Universe) (path : String) (ignore : Bool) (on : Ty) (s : Segment) :
    (u.counts path ignore on s).filter (·.isSelected) = [] := by
  cases s <;> rfl

theorem filter_stop (u : Universe) (path : String) (ignore : Bool) (on : Ty) (ss : List Segment) :
    (u.stop path ignore on ss).filter (·.isSelected) = [] := by
  cases ss with
  | nil => rfl
  | cons s ss => exact filter_counts u path ignore on s

theorem getElem?_filter_trace {ignore : Bool} (hlen : ms.length = ss.length) (i : Nat) :
    ((u.trace path ignore on ss ms).filter (·.isSelected))[i]? =
      ms[i]?.map fun m => .selected path m.isMethod m.name (typeAfter on (ms.take i)) := by
  induction ss generalizing on ms i with
  | nil =>
    rw [List.length_eq_zero_iff.1 hlen]
    rfl
  | cons s ss ih =>
    obtain ⟨m, ms, rfl⟩ := List.exists_cons_of_length_eq_add_one hlen
    rw [trace, List.filter_append, filter_counts, List.nil_append, List.filter_cons_of_pos rfl]
    cases i with
    | zero => rfl
    | succ i => exact ih (Nat.succ_inj.1 hlen) i

theorem member_lines_of_trace (after : List Segment) {ignore : Bool} {t : Ty}
    (hlen : ms.length = before.length) (i : Nat) :
    (((.resolving path t :: (u.trace path ignore on before ms ++
        u.stop path ignore (typeAfter on ms) after)).filter (·.isSelected)).map
          (·.line u.naming))[i]? =
      ms[i]?.map (memberLine u.naming path (typeAfter on (ms.take i))) := by
  rw [List.filter_cons_of_neg (by simp [Record.isSelected]), List.filter_append, filter_stop,
    List.append_nil, List.getElem?_map, getElem?_filter_trace hlen, Option.map_map]
  exact Option.map_congr fun m _ => line_selected u.naming path _ m

/-! ### One resolution -/

section Resolution
variable {e : Expression} {t : Ty} {outcome : Except PathError Shared}

theorem records_chainOf (u : Universe) (e : Expression) (o : Options) (t : Ty) :
    (u.chainOf e o t).records = (u.walk e.text o t e.segments.toList).records :=
  rfl

theorem eq_unresolved_of_walk_eq_ok (hw : (u.walk e.text o t e.segments.toList).outcome = .ok ms)
    (h : (u.chainOf e o t).outcome = .error err) : err = .unresolved e.text := by
  by_cases hne : e.segments.toList = []
  · rw [chainOf_of_nil hne] at h
    cases h
    rfl
  · rw [chainOf_eq_error_iff hne, hw] at h
    cases h

theorem reconstructs_of_walk_eq_ok (h : outcome.map (·.chain) = (u.chainOf e o t).outcome)
    (hw : (u.walk e.text o t e.segments.toList).outcome = .ok ms) :
    u.Reconstructs e o t outcome (.resolving e.text t :: (u.chainOf e o t).records)
      e.segments.toList [] ms where
  split := (List.append_nil _).symm
  found := hw
  longest more ms' hp _ := hp
  resolved x hx := by
    subst hx
    have hc := chainOf_eq_ok_iff.1 h.symm
    rw [hw] at hc
    cases hc
    exact ⟨rfl, rfl⟩
  written := by rw [records_chainOf, records_walk_of_ok hw, stop, List.append_nil]
  first_line := congrArg some (line_resolving ..)
  traced r hr := (isStep_of_mem_walk hr).level
  member_lines i := by
    rw [records_chainOf, records_walk_of_ok hw,
      ← List.append_nil (u.trace e.text o.ignoreToString t e.segments.toList ms)]
    exact member_lines_of_trace [] (length_of_walk hw) i
  unmatched typeName on' hx := by
    subst hx
    cases eq_unresolved_of_walk_eq_ok hw h.symm
  ambiguous typeName on' n hx := by
    subst hx
    cases eq_unresolved_of_walk_eq_ok hw h.symm

theorem reconstructs_of_stop (h : outcome.map (·.chain) = (u.chainOf e o t).outcome)
    (hsplit : e.segments.toList = before ++ s :: after)
    (hw : (u.walk e.text o t before).outcome = .ok ms)
    (he : (u.choose e.text o (typeAfter t ms) s).outcome = .error err) :
    u.Reconstructs e o t outcome (.resolving e.text t :: (u.chainOf e o t).records)
      before (s :: after) ms := by
  have hrecords : (u.chainOf e o t).records = u.trace e.text o.ignoreToString t before ms ++
      u.counts e.text o.ignoreToString (typeAfter t ms) s := by
    rw [records_chainOf, hsplit]
    exact records_walk_of_stop hw he
  have hout : (u.chainOf e o t).outcome = .error err := by
    have hne : e.segments.toList ≠ [] := by
      rw [hsplit]
      simp
    exact (chainOf_eq_error_iff hne).2 (walk_eq_error_iff.2 ⟨before, s, after, ms, hsplit, hw, he⟩)
  have hlast : ∀ r, u.counts e.text o.ignoreToString (typeAfter t ms) s = [r] →
      (Record.resolving e.text t :: (u.chainOf e o t).records).getLast? = some r := by
    intro r hr
    rw [hrecords, hr, ← List.cons_append]
    exact List.getLast?_concat
  rw [hout] at h
  refine ⟨hsplit, hw, ?_, ?_, ?_, congrArg some (line_resolving ..),
    fun r hr => (isStep_of_mem_walk hr).level, ?_, ?_, ?_⟩
  · intro more ms' hp hm
    rw [hsplit] at hp
    exact prefix_of_walk_eq_ok hw he hp hm
  · rintro x rfl
    cases h
  · rw [hrecords]
    rfl
  · intro i
    rw [hrecords]
    exact member_lines_of_trace (s :: after) (length_of_walk hw) i
  · rintro typeName on rfl
    cases h
    obtain ⟨c, hc, hcount⟩ := count_of_noTypeMatch he
    exact ⟨c, hc, hlast _ hcount⟩
  · rintro typeName on n rfl
    cases h
    obtain ⟨c, hc, hcount⟩ := count_of_ambiguousType he
    exact ⟨c, hc, hlast _ hcount⟩

theorem exists_reconstructs (h : outcome.map (·.chain) = (u.chainOf e o t).outcome) :
    ∃ before after ms, u.Reconstructs e o t outcome
      (.resolving e.text t :: (u.chainOf e o t).records) before after ms := by
  cases hw : (u.walk e.text o t e.segments.toList).outcome with
  | ok ms => exact ⟨_, _, ms, reconstructs_of_walk_eq_ok h hw⟩
  | error err =>
    obtain ⟨before, s, after, ms, hsplit, hb, he⟩ := walk_eq_error_iff.1 hw
    exact ⟨before, s :: after, ms, reconstructs_of_stop h hsplit hb he⟩

end Resolution

end Universe

/-! ### Runs -/

namespace Resolver
variable {u : Universe} {r : Resolver}

/-- The records that some requests write, one request after the other. -/
def log (u : Universe) (r : Resolver) : List Request → List Record
  | [] => []
  | q :: qs => (r.serve u q).records ++ (r.serve u q).resolver.log u qs

/-- What a request behind the run `qs` writes, and what the run never writes. -/
structure LogLaw (u : Universe) (start : Resolver) (qs : List Request) : Prop where
  hit : ∀ q v, q.target? = some v → (start.run u qs).isCached v.ty = true →
    ((start.run u qs).serve u q).records = []
  miss : ∀ q v, q.target? = some v → (start.run u qs).isCached v.ty = false →
    ∃ before after ms, u.Reconstructs start.expression (start.run u qs).options v.ty
      ((start.run u qs).resolve u v).outcome ((start.run u qs).serve u q).records before after ms
  /-- Requests that resolve nothing write nothing. -/
  idle : ∀ q, q.target? = none → ((start.run u qs).serve u q).records = []
  never_overtaken : ∀ path t, .overtaken path t ∉ start.log u qs

theorem records_resolve_of_miss {v : Value} (h : r.store.cached.get? v.ty = none) :
    (r.resolve u v).records =
      .resolving r.expression.text v.ty :: (u.chainOf r.expression r.options v.ty).records := by
  cases hw : (u.chainOf r.expression r.options v.ty).outcome with
  | error err => rw [resolve, Store.resolve_of_error h hw]
  | ok c => rw [resolve, Store.resolve_of_ok h hw]

theorem overtaken_notMem_serve (u : Universe) (r : Resolver) (q : Request) (path : String)
    (t : Ty) : .overtaken path t ∉ (r.serve u q).records := by
  cases hq : q.target? with
  | none =>
    rw [records_serve_of_none hq]
    exact List.not_mem_nil
  | some v =>
    rw [records_serve_of_target hq]
    cases hc : r.store.cached.get? v.ty with
    | some x =>
      rw [resolve_of_cached hc]
      exact List.not_mem_nil
    | none =>
      rw [records_resolve_of_miss hc, List.mem_cons]
      rintro (h | h)
      · cases h
      · exact Universe.overtaken_notMem_chainOf u _ _ _ path t h

theorem overtaken_notMem_log (u : Universe) (r : Resolver) (qs : List Request) (path : String)
    (t : Ty) : .overtaken path t ∉ r.log u qs := by
  induction qs generalizing r with
  | nil => exact List.not_mem_nil
  | cons q qs ih =>
    rw [log, List.mem_append]
    rintro (h | h)
    · exact overtaken_notMem_serve u r q path t h
    · exact ih _ h

theorem log_reconstructs (u : Universe) (start : Resolver) (qs : List Request) :
    LogLaw u start qs where
  hit q v hq hc := by
    obtain ⟨x, hx⟩ := isCached_iff.1 hc
    rw [records_serve_of_target hq, resolve_of_cached hx]
  miss q v hq hc := by
    have hnone := isCached_eq_false_iff.1 hc
    have hchain := chain_of_resolve (u := u) hnone
    rw [records_serve_of_target hq, records_resolve_of_miss hnone, expression_run]
    rw [expression_run] at hchain
    exact Universe.exists_reconstructs hchain
  idle _ hq := records_serve_of_none hq
  never_overtaken path t := overtaken_notMem_log u start qs path t

/-- The pet of a boss is found, and then two numbers on it where exactly one is wanted. -/
theorem log_reconstructs_pet :
    let e : Expression := ⟨"[Mob].[u32]", .types [⟨"Mob", false⟩, ⟨"u32", false⟩]⟩
    let start : Resolver := ⟨e, ⟨.exact, true⟩, .empty⟩
    let target : Value := .object Sample.boss [none, none] none ""
    let r := start.run Sample.world [.setIgnoreToString false]
    let records := (r.serve Sample.world (.get target)).records
    r.isCached target.ty = false ∧
      records.map (·.line Sample.world.naming) =
        ["DEBUG resolving `[Mob].[u32]` for `fixtures::Boss`",
          "TRACE `[Mob].[u32]`: 1 candidate(s) of `Mob` on `Boss`",
          "TRACE `[Mob].[u32]`: field `pet` on `Boss`",
          "TRACE `[Mob].[u32]`: 2 candidate(s) of `u32` on `Mob`"] ∧
      ∃ before after ms, Sample.world.Reconstructs e r.options target.ty
        (r.resolve Sample.world target).outcome records before after ms := by
  intro e start target r records
  have hmiss : r.isCached target.ty = false := rfl
  have hlaw := log_reconstructs Sample.world start [.setIgnoreToString false]
  exact ⟨hmiss, by decide +kernel, hlaw.miss (.get target) target rfl hmiss⟩

end Resolver

end MemberPath
