import SdtTr369.ResolverFuel
import SdtTr369.ResolvedPaths

/-!
# Chains of references

Only two things make the resolution of an expression go back to where it began:
the value of a reference that contains operators is itself resolved, and the
value of a reference in a search key is put in its place and looked at again. A
resolution ends exactly when no chain of these goes on for ever
(`terminates_iff`).
-/

namespace ReferenceChains

open UspTypes Schema SchemaInvariant PathCodec PathRoundTrip EffectProgram List
open Agent InstVector DataModel DataModelRead ExprVector HeldInstances
open PathResolver ResolverFrames ResolverFuel ResolvedPaths

/-- What a resolution has before it: to expand the rest of an expression, or to
follow the references in the paths of search keys. -/
inductive Task where
  | expansion (rq : Request) (resolved unresolved : Str) (s : RState)
  | keys (rq : Request) (params : List KeyParam) (s : RState)

section Tasks

variable {N : Type} (S : DmTree) (P : PermissionTable) (W : World) (V : ValueRules N)

/-- The expansion goes on with a shorter rest. Loops come to an instance when
the rounds for the instances before it have ended without an error. -/
inductive Shortens : Task → Task → Prop where
  | literal {rq : Request} {t u : Str} {s : RState} {c : Char} :
      c ≠ '*' → c ≠ '+' → c ≠ '[' → t.length < maxDmPath - 1 →
      Shortens (.expansion rq t (c :: u) s) (.expansion rq (t ++ [c]) u s)
  | wildcard {rq : Request} {t u : Str} {s s₁ s₂ : RState} {before after : List Int} {n : Int}
      {k : Nat} :
      onAgent (getInstances S W t) s = some (.ok (before ++ n :: after), s₁) →
      t.length + 2 ≤ maxDmPath →
      Prog.forEach before (fun m => goOn S P W V k rq u (numbered t m)) s₁ = some (.ok (), s₂) →
      (numbered t n).length < maxDmPath - 1 →
      Shortens (.expansion rq t ('*' :: u) s) (.expansion rq (numbered t n) u s₂)
  | reference {rq : Request} {t u object : Str} {s s₁ s₂ : RState} {value : Option Str} {k : Nat} :
      referenceValue S P W rq t s = some (.ok value, s₁) →
      objectOfValue S P W (followed S P W V k rq) rq value s₁ = some (.ok (some object), s₂) →
      object.length < maxDmPath - 1 →
      Shortens (.expansion rq t ('+' :: u) s) (.expansion rq object u s₂)
  | search {rq : Request} {t u rest : Str} {c : Char} {s s₁ s₂ s₃ s₄ s₅ : RState} {iv : List Int}
      {sps : SearchParam × SearchParam} {before after : List (Int × Nat)} {entry : Int × Nat}
      {k k' : Nat} :
      u.dropWhile (· ≠ ']') = c :: rest →
      onAgent (getInstances S W t) s = some (.ok iv, s₁) → iv ≠ [] →
      prepareSearch S P W rq k t iv (u.takeWhile (· ≠ ']')) s₁ = some (.ok sps, s₂) →
      iv.zipIdx = before ++ entry :: after →
      Prog.forEach before (tryInstance S P W V k' rq t rest sps) s₂ = some (.ok (), s₃) →
      doUniqueKeysMatch V entry.2 sps.1 s₃ = some (.ok true, s₄) →
      doUniqueKeysMatch V entry.2 sps.2 s₄ = some (.ok true, s₅) →
      (numbered t entry.1).length < maxDmPath - 1 →
      Shortens (.expansion rq t ('[' :: u) s) (.expansion rq (numbered t entry.1) rest s₅)

/-- The resolution begins again with the value of a reference. -/
inductive Restarts : Task → Task → Prop where
  | reference {rq : Request} {t u value : Str} {s s₁ : RState} :
      referenceValue S P W rq t s = some (.ok (some value), s₁) → value.any isOperator = true →
      ¬ ['.', '.'] <:+: value →
      Restarts (.expansion rq t ('+' :: u) s)
        (.expansion (referenceRequest rq) [] (value.take (maxDmPath - 1))
          { s₁ with sv := [], gv := [] })
  | search {rq : Request} {t u rest : Str} {c : Char} {s s₁ s₂ : RState} {iv : List Int}
      {ec ref : ExprComp} {comps keys refs : List ExprComp} {sp : SearchParam} :
      u.dropWhile (· ≠ ']') = c :: rest →
      onAgent (getInstances S W t) s = some (.ok iv, s₁) → iv ≠ [] →
      (u.takeWhile (· ≠ ']')).length ≤ maxDmPath - 1 →
      splitExpressions (u.takeWhile (· ≠ ']')) = .ok (ec :: comps) →
      splitReferenceKeys (ec :: comps) = .ok (keys, ref :: refs) →
      expandNonReferencedKeys S P W rq t iv keys s₁ = some (.ok sp, s₂) →
      Restarts (.expansion rq t ('[' :: u) s) (.keys rq (referencedKeys t iv (ref :: refs)) s₂)
  | keys {rq : Request} {params params' : List KeyParam} {s s₁ s₂ s₃ : RState}
      {grouped : List KeyParam × List GroupGetEntry} {ggv : List GroupGetEntry} :
      groupReferencedParameters S P W rq params s = some (.ok grouped, s₁) →
      grouped.2.isEmpty = false →
      onAgent (groupGetValues S W grouped.2) s₁ = some (.ok ggv, s₂) →
      dereferenceParams grouped.1 ggv s₂ = some (.ok params', s₃) →
      Restarts (.keys rq params s) (.keys rq params' s₃)

/-- From one reference to the next. -/
def LeadsTo (task next : Task) : Prop :=
  ∃ mid, Relation.ReflTransGen (Shortens S P W V) task mid ∧ Restarts S P W mid next

/-- No chain of references goes on for ever. -/
def ChainsEnd (task : Task) : Prop := Acc (fun next task => LeadsTo S P W V task next) task

/-- The task is done with this fuel. -/
def DoneWith (fuel : Nat) : Task → Prop
  | .expansion rq resolved unresolved s =>
    Finished .unfinished (expansion S P W V fuel rq resolved unresolved) s
  | .keys rq params s =>
    Finished .unfinished (resolveIntermediateReferences S P W rq fuel params) s

end Tasks

section Termination

variable {N : Type} {limit : Nat} {S : DmTree} {P : PermissionTable} {W : World}
  {V : ValueRules N} {rq : Request} {t u : Str} {s : RState}

/-! ## A finished task leaves no unfinished one -/

variable (hS : SchemaOk limit S)

include hS

variable {task next : Task} {fuel : Nat}

theorem Shortens.done (h : Shortens S P W V task next) (hdone : DoneWith S P W V fuel task) :
    DoneWith S P W V fuel next := by
  cases h with
  | literal hstar hplus hopen hlen => exact (finished_literal hstar hplus hopen).mp hdone hlen
  | wildcard hiv hroom hbefore hlen =>
    rw [DoneWith, expansion_wildcard, expandWildcard, finished_bind] at hdone
    have hloop := hdone.2 _ _ hiv
    rw [if_neg (by simp), if_neg (Nat.not_lt_of_le hroom)] at hloop
    exact finished_goOn.mp (Steady.finished_round (goOn_steady hS _ _ <| numbered _ ·) hloop hbefore) hlen
  | reference hvalue hobject hlen =>
    rw [DoneWith, expansion_reference, resolveReferenceFollow_eq, finished_bind] at hdone
    have hrest := (objectOfValue_steady hS _ _).finished_rest (hdone.2 _ _ hvalue) hobject
    exact finished_goOn.mp hrest hlen
  | search hclosed hiv hne hprepare hentries hbefore hmatch hrefMatch hlen =>
    rw [DoneWith, expansion_search _ hclosed, finished_bind] at hdone
    have hsearch := hdone.2 _ _ hiv
    rw [if_neg hne] at hsearch
    have hloop := (prepareSearch_steady hS _ _ _ _).finished_rest hsearch hprepare
    rw [hentries] at hloop
    have hround := Steady.finished_round (tryInstance_steady hS _ _ _ _) hloop hbefore
    have hgo := (finished_bind.mp ((finished_bind.mp hround).2 _ _ hmatch)).2 _ _ hrefMatch
    exact finished_goOn.mp hgo hlen

/-- An expansion comes before the keys that it looks for with the same fuel. -/
def rank (fuel : Nat) : Task → Nat
  | .expansion .. => 2 * fuel + 1
  | .keys .. => 2 * fuel

omit hS in
theorem Restarts.done (h : Restarts S P W task next) (hdone : DoneWith S P W V fuel task) :
    ∃ k, DoneWith S P W V k next ∧ rank k next < rank fuel task := by
  cases h with
  | reference hvalue hop hdots =>
    rw [DoneWith, expansion_reference, resolveReferenceFollow_eq, finished_bind] at hdone
    have hobject := (finished_bind.mp (hdone.2 _ _ hvalue)).1
    rw [objectOfValue, if_pos hop, finished_bind] at hobject
    obtain ⟨k, rfl, hexpand⟩ := finished_followed.mp hobject.1
    refine ⟨k, hexpand hdots, ?_⟩
    simp only [rank]
    omega
  | search hclosed hiv hne hlen hsplit hkeys hsp =>
    rw [DoneWith, expansion_search _ hclosed, finished_bind] at hdone
    have hsearch := hdone.2 _ _ hiv
    rw [if_neg hne, finished_bind] at hsearch
    refine ⟨fuel, finished_prepareSearch.mp hsearch.1 _ _ _ _ _ _ _ hlen hsplit hkeys hsp, ?_⟩
    simp only [rank]
    omega
  | keys hgroup hne hvalues hderef =>
    obtain ⟨k, rfl, hrest⟩ := finished_resolveIntermediateReferences.mp hdone
    refine ⟨k, hrest _ _ _ _ _ _ hgroup hne hvalues hderef, ?_⟩
    simp only [rank]
    omega

theorem shortens_done {mid : Task} (h : Relation.ReflTransGen (Shortens S P W V) task mid)
    (hdone : DoneWith S P W V fuel task) :
    DoneWith S P W V fuel mid ∧ rank fuel mid ≤ rank fuel task := by
  induction h with
  | refl => exact ⟨hdone, Nat.le_refl _⟩
  | tail _ hstep ih =>
    refine ⟨hstep.done hS ih.1, Nat.le_trans (Nat.le_of_eq ?_) ih.2⟩
    cases hstep <;> rfl

theorem chainsEnd_of_done (h : DoneWith S P W V fuel task) : ChainsEnd S P W V task := by
  induction hrank : rank fuel task using Nat.strongRecOn generalizing fuel task with
  | ind m ih =>
    subst hrank
    refine Acc.intro task fun next hnext => ?_
    obtain ⟨mid, hshort, hrestart⟩ := hnext
    obtain ⟨hmid, hle⟩ := shortens_done hS hshort h
    obtain ⟨k, hdone, hlt⟩ := hrestart.done hmid
    exact ih _ (Nat.lt_of_lt_of_le hlt hle) hdone rfl

/-! ## A task is done when all that follow it are -/

omit hS in
theorem ends_goOn {text : Str} (h : text.length < maxDmPath - 1 →
    Ends .unfinished (fun n => expansion S P W V n rq text u) s) :
    Ends .unfinished (fun n => goOn S P W V n rq u text) s := by
  by_cases hlen : text.length < maxDmPath - 1
  · obtain ⟨n, hn⟩ := h hlen
    exact ⟨n, finished_goOn.mpr fun _ => hn⟩
  · exact ⟨0, finished_goOn.mpr fun hlt => absurd hlt hlen⟩

theorem ends_wildcard (h : ∀ next, Shortens S P W V (.expansion rq t ('*' :: u) s) next →
    ∃ n, DoneWith S P W V n next) :
    Ends .unfinished (fun n => expansion S P W V n rq t ('*' :: u)) s := by
  have hsteady : ∀ iv : List Int, Steady Fault.unfinished fun n =>
      if iv = [] then pure ()
      else if maxDmPath < t.length + 2 then failWith .internalError
      else .forEach iv fun m => goOn S P W V n rq u (numbered t m) := by
    intro iv
    split
    · exact steady_const _
    · split
      · exact steady_const _
      · exact steady_forEach (fun m => goOn_steady hS rq u (numbered t m)) iv
  simp only [expansion_wildcard, expandWildcard]
  refine ends_bind (steady_const _) hsteady (ends_const (finishes_onAgent _ s)) ?_
  intro _ iv s₁ hiv
  split
  · exact ends_const (finishes_pure _ s₁)
  · split
    · exact ends_const (finishes_failWith _ s₁)
    · rename_i hroom
      refine ends_forEach (fun m => goOn_steady hS rq u (numbered t m)) ?_
      intro before m after hxs k s₂ hbefore
      subst hxs
      exact ends_goOn fun hlen =>
        h _ (.wildcard hiv (Nat.le_of_not_lt hroom) hbefore hlen)

theorem ends_reference
    (hshort : ∀ next, Shortens S P W V (.expansion rq t ('+' :: u) s) next →
      ∃ n, DoneWith S P W V n next)
    (hrestart : ∀ next, Restarts S P W (.expansion rq t ('+' :: u) s) next →
      ∃ n, DoneWith S P W V n next) :
    Ends .unfinished (fun n => expansion S P W V n rq t ('+' :: u)) s := by
  simp only [expansion_reference, resolveReferenceFollow_eq]
  refine ends_bind (steady_const _) (fun value => steady_bind (objectOfValue_steady hS rq value)
    (expandAt_steady hS rq u)) (ends_const (finishes_referenceValue t s)) ?_
  intro _ value s₁ hvalue
  refine ends_bind (objectOfValue_steady hS rq value) (expandAt_steady hS rq u) ?_ ?_
  · cases value with
    | none => exact ends_const (finishes_pure _ s₁)
    | some value =>
      by_cases hop : value.any isOperator = true
      · simp only [objectOfValue, if_pos hop]
        refine ends_bind (followed_steady hS rq value) (fun paths => ?_) ?_ ?_
        · cases paths with
          | nil => exact steady_const _
          | cons first paths => exact steady_const _
        · by_cases hdots : ['.', '.'] <:+: value
          · exact ⟨1, finished_followed.mpr ⟨0, rfl, fun h => absurd hdots h⟩⟩
          · obtain ⟨k, hk⟩ := hrestart _ (.reference hvalue hop hdots)
            exact ⟨k + 1, finished_followed.mpr ⟨k, rfl, fun _ => hk⟩⟩
        · intro _ paths s₂ _
          cases paths with
          | nil => exact ends_const (finishes_giveUp (finishes_pure _) _ s₂)
          | cons first paths => exact ends_const (finishes_objectAt _ s₂)
      · simp only [objectOfValue, if_neg hop]
        exact ends_const (finishes_objectAt _ s₁)
  · intro k object s₂ hobject
    cases object with
    | none => exact ends_const (finishes_pure _ s₂)
    | some text => exact ends_goOn fun hlen => hshort _ (.reference hvalue hobject hlen)

theorem ends_search
    (hshort : ∀ next, Shortens S P W V (.expansion rq t ('[' :: u) s) next →
      ∃ n, DoneWith S P W V n next)
    (hrestart : ∀ next, Restarts S P W (.expansion rq t ('[' :: u) s) next →
      ∃ n, DoneWith S P W V n next) :
    Ends .unfinished (fun n => expansion S P W V n rq t ('[' :: u)) s := by
  cases hclosed : u.dropWhile (· ≠ ']') with
  | nil =>
    simp only [expansion_unclosed _ hclosed]
    exact ends_const (finishes_failWith _ s)
  | cons c rest =>
    have hloop : ∀ (iv : List Int) (sps : SearchParam × SearchParam), Steady .unfinished fun n =>
        Prog.forEach iv.zipIdx (tryInstance S P W V n rq t rest sps) := fun iv sps =>
      steady_forEach (tryInstance_steady hS rq t rest sps) iv.zipIdx
    have hsteady : ∀ iv : List Int, Steady Fault.unfinished fun n =>
        if iv = [] then pure ()
        else prepareSearch S P W rq n t iv (u.takeWhile (· ≠ ']')) >>= fun sps =>
          .forEach iv.zipIdx (tryInstance S P W V n rq t rest sps) := by
      intro iv
      split
      · exact steady_const _
      · exact steady_bind (prepareSearch_steady hS rq t iv _) (hloop iv)
    simp only [expansion_search _ hclosed]
    refine ends_bind (steady_const _) hsteady (ends_const (finishes_onAgent _ s)) ?_
    intro _ iv s₁ hiv
    split
    · exact ends_const (finishes_pure _ s₁)
    · rename_i hne
      refine ends_bind (prepareSearch_steady hS rq t iv _) (hloop iv) ?_ ?_
      · by_cases hkeys : ∃ ec comps keys ref refs sp s₂,
            (u.takeWhile (· ≠ ']')).length ≤ maxDmPath - 1 ∧
            splitExpressions (u.takeWhile (· ≠ ']')) = .ok (ec :: comps) ∧
            splitReferenceKeys (ec :: comps) = .ok (keys, ref :: refs) ∧
            expandNonReferencedKeys S P W rq t iv keys s₁ = some (.ok sp, s₂)
        · obtain ⟨ec, comps, keys, ref, refs, sp, s₂, hlen, hsplit, hrefs, hsp⟩ := hkeys
          obtain ⟨k, hk⟩ := hrestart _ (.search hclosed hiv hne hlen hsplit hrefs hsp)
          refine ⟨k, finished_prepareSearch.mpr ?_⟩
          intro ec' comps' keys' ref' refs' sp' s₂' _ hsplit' hrefs' hsp'
          rw [hsplit] at hsplit'
          cases hsplit'
          rw [hrefs] at hrefs'
          cases hrefs'
          rw [hsp] at hsp'
          cases hsp'
          exact hk
        · refine ⟨0, finished_prepareSearch.mpr ?_⟩
          intro ec comps keys ref refs sp s₂ hlen hsplit hrefs hsp
          exact absurd ⟨ec, comps, keys, ref, refs, sp, s₂, hlen, hsplit, hrefs, hsp⟩ hkeys
      · intro k sps s₂ hprepare
        refine ends_forEach (tryInstance_steady hS rq t rest sps) ?_
        intro before entry after hentries k' s₃ hbefore
        refine ends_bind (steady_const _) (fun isMatch => steady_bind (steady_const _) fun isRef => ?_)
          (ends_const (finishes_doKeysMatch _ _ _ s₃)) ?_
        · cases isMatch && isRef with
          | true => exact goOn_steady hS rq rest _
          | false => exact steady_const _
        · intro _ isMatch s₄ hmatch
          refine ends_bind (steady_const _) (fun isRef => ?_)
            (ends_const (finishes_doKeysMatch _ _ _ s₄)) ?_
          · cases isMatch && isRef with
            | true => exact goOn_steady hS rq rest _
            | false => exact steady_const _
          · intro _ isRef s₅ hrefMatch
            cases isMatch with
            | false => exact ends_const (finishes_pure _ s₅)
            | true =>
              cases isRef with
              | false => exact ends_const (finishes_pure _ s₅)
              | true =>
                exact ends_goOn fun hlen => hshort _ (.search hclosed hiv hne hprepare hentries
                  hbefore hmatch hrefMatch hlen)

omit hS in
theorem ends_keys {params : List KeyParam}
    (h : ∀ next, Restarts S P W (.keys rq params s) next → ∃ n, DoneWith S P W V n next) :
    ∃ n, DoneWith S P W V n (.keys rq params s) := by
  by_cases hround : ∃ grouped s₁ ggv s₂ params' s₃,
      groupReferencedParameters S P W rq params s = some (.ok grouped, s₁) ∧
      grouped.2.isEmpty = false ∧
      onAgent (groupGetValues S W grouped.2) s₁ = some (.ok ggv, s₂) ∧
      dereferenceParams grouped.1 ggv s₂ = some (.ok params', s₃)
  · obtain ⟨grouped, s₁, ggv, s₂, params', s₃, hgroup, hne, hvalues, hderef⟩ := hround
    obtain ⟨k, hk⟩ := h _ (.keys hgroup hne hvalues hderef)
    refine ⟨k + 1, finished_resolveIntermediateReferences.mpr ⟨k, rfl, ?_⟩⟩
    intro grouped' s₁' ggv' s₂' params'' s₃' hgroup' _ hvalues' hderef'
    rw [hgroup] at hgroup'
    cases hgroup'
    rw [hvalues] at hvalues'
    cases hvalues'
    rw [hderef] at hderef'
    cases hderef'
    exact hk
  · refine ⟨1, finished_resolveIntermediateReferences.mpr ⟨0, rfl, ?_⟩⟩
    intro grouped s₁ ggv s₂ params' s₃ hgroup hne hvalues hderef
    exact absurd ⟨grouped, s₁, ggv, s₂, params', s₃, hgroup, hne, hvalues, hderef⟩ hround

theorem done_of_next (hshort : ∀ next, Shortens S P W V task next → ∃ n, DoneWith S P W V n next)
    (hrestart : ∀ next, Restarts S P W task next → ∃ n, DoneWith S P W V n next) :
    ∃ n, DoneWith S P W V n task := by
  cases task with
  | keys rq params s => exact ends_keys hrestart
  | expansion rq t u s =>
    cases u with
    | nil =>
      refine ⟨0, ?_⟩
      rw [DoneWith, expansion_nil]
      exact finishes_finishPath t s
    | cons c u =>
      by_cases hstar : c = '*'
      · subst hstar
        exact ends_wildcard hS hshort
      · by_cases hplus : c = '+'
        · subst hplus
          exact ends_reference hS hshort hrestart
        · by_cases hopen : c = '['
          · subst hopen
            exact ends_search hS hshort hrestart
          · by_cases hlen : t.length < maxDmPath - 1
            · obtain ⟨k, hk⟩ := hshort _ (.literal hstar hplus hopen hlen)
              exact ⟨k, (finished_literal hstar hplus hopen).mpr fun _ => hk⟩
            · exact ⟨0, (finished_literal hstar hplus hopen).mpr fun h => absurd h hlen⟩

/-- The rest of the expression of a task. -/
def restLength : Task → Nat
  | .expansion _ _ unresolved _ => unresolved.length
  | .keys .. => 0

omit hS in
theorem Shortens.restLength_lt (h : Shortens S P W V task next) :
    restLength next < restLength task := by
  cases h with
  | literal _ _ _ _ => exact Nat.lt_succ_self _
  | wildcard _ _ _ _ => exact Nat.lt_succ_self _
  | reference _ _ _ => exact Nat.lt_succ_self _
  | search hclosed _ _ _ _ _ _ _ _ => exact Nat.lt_succ_of_lt (rest_shorter hclosed)

theorem done_of_chainsEnd (h : ChainsEnd S P W V task) : ∃ n, DoneWith S P W V n task := by
  induction h with
  | intro task _ ih =>
    -- the tasks that `task` is shortened to, the shortest first
    have hall : ∀ mid, Relation.ReflTransGen (Shortens S P W V) task mid →
        ∃ n, DoneWith S P W V n mid := by
      intro mid hmid
      induction hlen : restLength mid using Nat.strongRecOn generalizing mid with
      | ind len ihlen =>
        subst hlen
        exact done_of_next hS
          (fun next hstep => ihlen _ hstep.restLength_lt next (hmid.tail hstep) rfl)
          fun next hrestart => ih next ⟨mid, hmid, hrestart⟩
    exact hall task .refl

end Termination

/-- A resolution returns, whatever its outcome, exactly when no chain of
references goes on for ever. -/
theorem terminates_iff {N : Type} (rs : List Registration) (hrs : ∀ r ∈ rs, WithinArrays r)
    (P : PermissionTable) (W : World) (V : ValueRules N) (rq : Request) (path : Str) (s : RState) :
    (∃ fuel, ∀ s', resolvePath (registerAll initialTree rs) P W V fuel rq path s ≠
      some (.error .unfinished, s')) ↔
    ((!rq.wantsGroups || allowsGroups rq.op) = true → ¬ ['.', '.'] <:+: path →
      ChainsEnd (registerAll initialTree rs) P W V
        (.expansion rq [] (path.take (maxDmPath - 1)) s)) := by
  have hS := registered_ok hrs
  constructor
  · rintro ⟨fuel, hfuel⟩ hgroups hdots
    obtain ⟨k, -, hk⟩ := finished_resolvePath.mp hfuel
    exact chainsEnd_of_done hS (hk hgroups hdots)
  · intro h
    by_cases hcan : (!rq.wantsGroups || allowsGroups rq.op) = true ∧ ¬ ['.', '.'] <:+: path
    · obtain ⟨k, hk⟩ := done_of_chainsEnd hS (h hcan.1 hcan.2)
      exact ⟨k + 1, finished_resolvePath.mpr ⟨k, rfl, fun _ _ => hk⟩⟩
    · exact ⟨1, finished_resolvePath.mpr ⟨0, rfl, fun hgroups hdots =>
        absurd ⟨hgroups, hdots⟩ hcan⟩⟩

theorem terminates_iff_nested :
    ChainsEnd (registerAll initialTree nestedTables) readers readyWorld wholeNumbers
      (.expansion getRequest [] ("Device.A.*.B.4.P".toList.take (maxDmPath - 1))
        ⟨nestedInstances, [], []⟩) := by
  refine (terminates_iff nestedTables nestedTables_within readers readyWorld wholeNumbers getRequest
    "Device.A.*.B.4.P".toList ⟨nestedInstances, [], []⟩).mp ⟨1, fun s' hrun => ?_⟩ rfl (by decide)
  have hresult := (Prog.result_after hrun).1
  revert hresult
  decide +kernel

/-! ## A reference to itself -/

/-- `ExpandPath` over characters without a meaning of their own. -/
theorem shortens_literals {N : Type} {S : DmTree} {P : PermissionTable} {W : World}
    {V : ValueRules N} {rq : Request} {s : RState} (t text u : Str)
    (hplain : ∀ c ∈ text, c ≠ '*' ∧ c ≠ '+' ∧ c ≠ '[')
    (hlen : t.length + text.length ≤ maxDmPath - 1) :
    Relation.ReflTransGen (Shortens S P W V) (.expansion rq t (text ++ u) s)
      (.expansion rq (t ++ text) u s) := by
  induction text generalizing t with
  | nil =>
    rw [append_nil]
    exact .refl
  | cons c text ih =>
    obtain ⟨hstar, hplus, hopen⟩ := hplain c mem_cons_self
    rw [length_cons] at hlen
    refine .head (.literal hstar hplus hopen (by omega)) ?_
    have hrest := ih (t ++ [c]) (fun d hd => hplain d (mem_cons_of_mem _ hd))
      (by rw [length_append, length_singleton]; omega)
    rw [append_assoc, singleton_append] at hrest
    exact hrest

def ownReference : Str := "Device.A.1.Ref+".toList

/-- Both instances refer to that reference; `calls` counts what has been read. -/
def ownReferenceState (calls : Nat) : State :=
  { referenceState ownReference with calls := calls }

theorem getParameterValue_ownReference (calls : Nat) :
    getParameterValue (registerAll initialTree referenceTable) readyWorld
      "Device.A.1.Ref".toList maxDmPath {} (ownReferenceState calls) =
      some (.ok ownReference, ownReferenceState (calls + 1)) := by
  have hget : getNodeFromPath (registerAll initialTree referenceTable) "Device.A.1.Ref".toList =
      some (3, [(2, 1)]) := by decide +kernel
  have htable : ((registerAll initialTree referenceTable).node 2).type = .objectMultiInstance := by
    decide
  have hrefresh : ((registerAll initialTree referenceTable).node 2).registered.refreshInstances
      = false := by decide
  have htype : ((registerAll initialTree referenceTable).node 3).type = .dbParamReadWrite := by
    decide
  have hexist : instVectorIsExist (registerAll initialTree referenceTable) readyWorld [(2, 1)]
      (ownReferenceState calls) = some (.ok true, ownReferenceState calls) := by
    rw [instVectorIsExist, if_neg (by simp), requireTop, topNode, htable, refreshInstVector,
      if_pos hrefresh]
    rfl
  have hrow : (ownReferenceState calls).db.get
      (rowKey (registerAll initialTree referenceTable) 3 [(2, 1)]) = some ownReference := by
    show (referenceState ownReference).db.get _ = _
    decide
  have hdb : databaseGetParameterValue readyWorld
      (rowKey (registerAll initialTree referenceTable) 3 [(2, 1)]) maxDmPath false
      (ownReferenceState calls) = some (.ok (some ownReference), ownReferenceState (calls + 1)) := by
    have hcall : call readyWorld.readFails (ownReferenceState calls) =
        some (.ok false, ownReferenceState (calls + 1)) := rfl
    refine (bind_run hcall).trans ?_
    show some (Except.ok (Option.map _ ((ownReferenceState calls).db.get _)), _) = _
    rw [hrow]
    rfl
  have hread : getValueOfType (registerAll initialTree referenceTable) readyWorld
      "Device.A.1.Ref".toList 3 [(2, 1)] maxDmPath {} (ownReferenceState calls) =
      some (.ok ownReference, ownReferenceState (calls + 1)) := by
    rw [getValueOfType, htype]
    exact (bind_run hdb).trans rfl
  rw [getParameterValue, hget]
  refine (bind_run hexist).trans ?_
  exact (bind_run hread).trans rfl

theorem referenceValue_ownReference {rq : Request} (hop : rq.op ≠ .getBulkData)
    (hrole : rq.role = getRequest.role) {s : RState} {calls : Nat}
    (hs : s.agent = ownReferenceState calls) :
    referenceValue (registerAll initialTree referenceTable) readers readyWorld rq
      "Device.A.1.Ref".toList s =
      some (.ok (some ownReference), { s with agent := ownReferenceState (calls + 1) }) := by
  have hget : getNodeFromPath (registerAll initialTree referenceTable) "Device.A.1.Ref".toList =
      some (3, [(2, 1)]) := by decide +kernel
  have hperm : getPermissions readers 3 getRequest.role .get ≠ false := by decide
  have hvalue : onAgent (getParameterValue (registerAll initialTree referenceTable) readyWorld
      "Device.A.1.Ref".toList maxDmPath {}) s =
      some (.ok ownReference, { s with agent := ownReferenceState (calls + 1) }) := by
    rw [onAgent, hs, getParameterValue_ownReference]
    rfl
  rw [referenceValue, if_neg hop, hget]
  dsimp only
  rw [hrole, if_neg hperm]
  exact (bind_run hvalue).trans rfl

/-- The value is resolved again and again. -/
theorem ownReference_goes_on {rq : Request} (hop : rq.op ≠ .getBulkData)
    (hrole : rq.role = getRequest.role) {s : RState} {calls : Nat}
    (hs : s.agent = ownReferenceState calls) :
    ¬ ChainsEnd (registerAll initialTree referenceTable) readers readyWorld wholeNumbers
      (.expansion rq [] ownReference s) := by
  intro h
  generalize htask : Task.expansion rq [] ownReference s = task at h
  induction h generalizing rq s calls with
  | intro task _ ih =>
    subst htask
    have hway : Relation.ReflTransGen (Shortens (registerAll initialTree referenceTable) readers
        readyWorld wholeNumbers) (.expansion rq [] ownReference s)
        (.expansion rq "Device.A.1.Ref".toList ['+'] s) :=
      shortens_literals [] "Device.A.1.Ref".toList ['+'] (by simp) (by decide)
    have hvalue := referenceValue_ownReference hop hrole hs
    have hop' : (referenceRequest rq).op ≠ .getBulkData := by
      unfold referenceRequest
      dsimp only
      split <;> exact nofun
    exact ih _ ⟨_, hway, .reference hvalue (by decide) (by decide)⟩ hop' hrole rfl rfl

/-- No fuel is enough for a reference whose value follows that reference. -/
theorem own_reference_never_returns :
    ¬ ∃ fuel, ∀ s', resolvePath (registerAll initialTree referenceTable) readers readyWorld
      wholeNumbers fuel getRequest ownReference ⟨referenceState ownReference, [], []⟩ ≠
      some (.error .unfinished, s') := by
  rintro ⟨fuel, hfuel⟩
  have hS := registered_ok referenceTable_within
  obtain ⟨k, -, hk⟩ := finished_resolvePath.mp hfuel
  have hdone : DoneWith (registerAll initialTree referenceTable) readers readyWorld wholeNumbers k
      (.expansion getRequest [] ownReference ⟨ownReferenceState 0, [], []⟩) := hk rfl (by decide)
  exact ownReference_goes_on (by decide) rfl rfl (chainsEnd_of_done hS hdone)

end ReferenceChains
