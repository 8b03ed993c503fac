import SdtTr369.ReferenceChains

/-!
# The ends of an expression

The ends that the expansion of an expression comes to, each with the state in which it is
reached, are given by the steps of `Shortens`. A resolution passes them one after the other,
without an error all of them, and does nothing in between but read the data model
(`expansion_visits`).
-/

namespace ResolvedEnds

open UspTypes Schema SchemaInvariant PathCodec EffectProgram Agent
open DataModelRead ExprVector HeldInstances QuietReads PathResolver ResolverFrames
open ResolverFuel ReferenceChains

/-- A path without an operator, and the state in which the resolution comes to it. -/
abbrev End := Str × RState

section Ends

variable {N : Type} (S : DmTree) (P : PermissionTable) (W : World) (V : ValueRules N)

/-- The task comes to the end. -/
def EndsAt (rq : Request) (task : Task) (y : End) : Prop :=
  Relation.ReflTransGen (Shortens S P W V) task (.expansion rq y.1 [] y.2)

/-- The resolution of the expression comes to the end. -/
def ComesTo (rq : Request) (path : Str) (s : RState) (y : End) : Prop :=
  ¬ ['.', '.'] <:+: path ∧
    EndsAt S P W V rq (.expansion rq [] (path.take (maxDmPath - 1)) s) y

/-- The ends that a run passes one after the other, `well` without an error at any of them. -/
inductive Passes (rq : Request) (well : Prop) : RState → List End → RState → Prop where
  | reads {s s' : RState} : ReadsOnly S s s' → Passes rq well s [] s'
  | step {s t t' s' : RState} {text : Str} {r : Except Fault Unit} {l : List End} :
      ReadsOnly S s t → finishPath S P W rq text t = some (r, t') → (well → r = .ok ()) →
      Passes rq well t' l s' → Passes rq well s ((text, t) :: l) s'

/-- A run with the outcome `r` passes none but these ends, and without an error all of them. -/
def Visits (rq : Request) (s : RState) (ends : End → Prop) (r : Except Fault Unit)
    (s' : RState) : Prop :=
  ∃ l, Passes S P W rq (r = .ok ()) s l s' ∧ (∀ y ∈ l, ends y) ∧
    (r = .ok () → ∀ y, ends y → y ∈ l)

end Ends

section Steps

variable {N : Type} {S : DmTree} {P : PermissionTable} {W : World} {V : ValueRules N}
  {rq : Request} {fuel : Nat} {t u : Str} {s s' s'' : RState} {y : End} {r : Except Fault Unit}

/-! ## One operator -/

theorem endsAt_nil : EndsAt S P W V rq (.expansion rq t [] s) y ↔ y = (t, s) := by
  constructor
  · intro h
    obtain heq | ⟨next, hstep, -⟩ := Relation.ReflTransGen.cases_head h
    · cases heq
      rfl
    · cases hstep
  · rintro rfl
    exact .refl

/-- An expansion with something left to expand takes a step first. -/
theorem endsAt_cons {c : Char} : EndsAt S P W V rq (.expansion rq t (c :: u) s) y ↔
    ∃ next, Shortens S P W V (.expansion rq t (c :: u) s) next ∧ EndsAt S P W V rq next y := by
  constructor
  · intro h
    obtain heq | hstep := Relation.ReflTransGen.cases_head h
    · cases heq
    · exact hstep
  · rintro ⟨next, hstep, hrest⟩
    exact .head hstep hrest

theorem endsAt_literal {c : Char} (hstar : c ≠ '*') (hplus : c ≠ '+') (hopen : c ≠ '[') :
    EndsAt S P W V rq (.expansion rq t (c :: u) s) y ↔
      t.length < maxDmPath - 1 ∧ EndsAt S P W V rq (.expansion rq (t ++ [c]) u s) y := by
  rw [endsAt_cons]
  constructor
  · rintro ⟨next, hstep, hrest⟩
    cases hstep with
    | literal _ _ _ hlen => exact ⟨hlen, hrest⟩
    | wildcard _ _ _ _ => exact absurd rfl hstar
    | reference _ _ _ => exact absurd rfl hplus
    | search _ _ _ _ _ _ _ _ _ => exact absurd rfl hopen
  · exact fun ⟨hlen, hrest⟩ => ⟨_, .literal hstar hplus hopen hlen, hrest⟩

/-! ## Putting runs together -/

variable {s₁ : RState} {ends : End → Prop} {β : Type}

theorem Passes.after_reads {well : Prop} {l : List End} (hread : ReadsOnly S s s₁)
    (h : Passes S P W rq well s₁ l s') : Passes S P W rq well s l s' := by
  have htrans : ∀ {t}, ReadsOnly S s₁ t → ReadsOnly S s t := (readsOnly_frame S).trans hread
  cases h with
  | reads hread' => exact .reads (htrans hread')
  | step hread' hfinish hwell hrest => exact .step (htrans hread') hfinish hwell hrest

theorem Passes.trans {well well' : Prop} {l l' : List End} (h : Passes S P W rq well s l s')
    (hwell : well' → well) (h' : Passes S P W rq well' s' l' s'') :
    Passes S P W rq well' s (l ++ l') s'' := by
  induction h with
  | reads hread => exact h'.after_reads hread
  | step hread hfinish hok _ ih => exact .step hread hfinish (hok ∘ hwell) (ih h')

theorem visits_none (hread : ReadsOnly S s s') (hnone : r = .ok () → ∀ y, ¬ ends y) :
    Visits S P W rq s ends r s' :=
  ⟨[], .reads hread, nofun, fun hr y hy => absurd hy (hnone hr y)⟩

theorem visits_error {e : Fault} (hread : ReadsOnly S s s') :
    Visits S P W rq s ends (.error e) s' :=
  visits_none hread fun hr => by cases hr

theorem Visits.after_reads (hread : ReadsOnly S s s₁) (h : Visits S P W rq s₁ ends r s') :
    Visits S P W rq s ends r s' := by
  obtain ⟨l, hpass, hl⟩ := h
  exact ⟨l, hpass.after_reads hread, hl⟩

theorem Visits.imp {ends' : End → Prop} (h : Visits S P W rq s ends r s')
    (himp : ∀ y, ends y → ends' y) (hback : r = .ok () → ∀ y, ends' y → ends y) :
    Visits S P W rq s ends' r s' := by
  obtain ⟨l, hpass, hl, hall⟩ := h
  exact ⟨l, hpass, fun y hy => himp y (hl y hy), fun hr y hy => hall hr y (hback hr y hy)⟩

variable {f : β → ROp Unit} {before after : List β}

/-- The rounds of a loop pass their ends one after the other. -/
theorem visits_forEach {ends : β → RState → End → Prop}
    (hbody : ∀ x s r s', f x s = some (r, s') → Visits S P W rq s (ends x s) r s') (xs : List β)
    (hrun : Prog.forEach xs f s = some (r, s')) :
    Visits S P W rq s (fun y => ∃ before x after s₁, xs = before ++ x :: after ∧
      Prog.forEach before f s = some (.ok (), s₁) ∧ ends x s₁ y) r s' := by
  induction xs generalizing s with
  | nil =>
    cases hrun
    exact visits_none ((readsOnly_frame S).refl _) fun _ y => by simp
  | cons x xs ih =>
    obtain ⟨e, hfirst, rfl⟩ | ⟨⟨⟩, s₁, hfirst, hrest⟩ := bind_cases hrun
    · exact (hbody x s _ s' hfirst).imp (fun y hy => ⟨[], x, xs, s, rfl, rfl, hy⟩) nofun
    · obtain ⟨l, hpass, hl, hall⟩ := hbody x s _ s₁ hfirst
      obtain ⟨l', hpass', hl', hall'⟩ := ih hrest
      refine ⟨l ++ l', hpass.trans (fun _ => rfl) hpass', fun y hy => ?_, fun hr y hy => ?_⟩
      · rcases List.mem_append.mp hy with hy | hy
        · exact ⟨[], x, xs, s, rfl, rfl, hl y hy⟩
        · obtain ⟨before, x', after, s₂, rfl, hbefore, hy⟩ := hl' y hy
          exact ⟨x :: before, x', after, s₂, rfl, (bind_run hfirst).trans hbefore, hy⟩
      · rw [List.mem_append]
        obtain ⟨before, x', after, s₂, hxs, hbefore, hy⟩ := hy
        cases before with
        | nil =>
          cases hxs
          cases hbefore
          exact .inl (hall rfl y hy)
        | cons z before =>
          cases hxs
          obtain ⟨⟨⟩, s₃, hfirst', hbefore⟩ := bind_ok hbefore
          rw [hfirst] at hfirst'
          cases hfirst'
          exact .inr (hall' hr y ⟨before, x', after, s₂, rfl, hbefore, hy⟩)

/-- What follows a check of the length passes its ends when the text is short enough. -/
theorem visits_checked {text : Str} {m : ROp Unit}
    (hm : m s = some (r, s') → Visits S P W rq s ends r s')
    (hrun : (expandPath.checkLength text >>= fun _ => m) s = some (r, s')) :
    Visits S P W rq s (fun y => text.length < maxDmPath - 1 ∧ ends y) r s' := by
  have hsame := (readsOnly_frame S).refl s
  by_cases hlen : maxDmPath - 1 ≤ text.length
  · have hcheck : expandPath.checkLength text s = some (.error (.code .internalError), s) := by
      rw [expandPath.checkLength, if_pos hlen]
      rfl
    rw [bind_error hcheck] at hrun
    cases hrun
    exact visits_error hsame
  · have hlen := Nat.lt_of_not_le hlen
    rw [bind_run (checkLength_ok hlen)] at hrun
    exact (hm hrun).imp (fun y hy => ⟨hlen, hy⟩) fun _ y hy => hy.2

/-- A loop without an error comes to each of its rounds. -/
theorem forEach_before (hrun : Prog.forEach (before ++ after) f s = some (.ok (), s')) :
    ∃ s₁, Prog.forEach before f s = some (.ok (), s₁) := by
  induction before generalizing s with
  | nil => exact ⟨s, rfl⟩
  | cons x before ih =>
    obtain ⟨⟨⟩, s₁, hfirst, hrest⟩ := bind_ok hrun
    obtain ⟨s₂, hbefore⟩ := ih hrest
    exact ⟨s₂, (bind_run hfirst).trans hbefore⟩

/-- Whatever fuel shows that a loop comes to a round, it comes there in one state. -/
theorem forEach_agree {f : Nat → β → ROp Unit} (hf : ∀ x, Steady .unfinished fun n => f n x)
    {k : Nat} (hrun : Prog.forEach (before ++ after) (f fuel) s = some (.ok (), s'))
    (hbefore : Prog.forEach before (f k) s = some (.ok (), s₁)) :
    Prog.forEach before (f fuel) s = some (.ok (), s₁) := by
  obtain ⟨s₂, hrun₂⟩ := forEach_before hrun
  have hagree := (steady_forEach hf before).agree (finished_of_ok hrun₂) (finished_of_ok hbefore)
  exact hagree.trans hbefore

/-! ## The operators -/

/-- The ends behind a text that an operator goes on with. -/
def GoesOnTo (S : DmTree) (P : PermissionTable) (W : World) (V : ValueRules N) (rq : Request)
    (u text : Str) (s : RState) (y : End) : Prop :=
  text.length < maxDmPath - 1 ∧ EndsAt S P W V rq (.expansion rq text u s) y

/-- The ends of a text that the resolution goes on with are passed. -/
def GoOnVisits (S : DmTree) (P : PermissionTable) (W : World) (V : ValueRules N) (rq : Request)
    (fuel : Nat) (u : Str) : Prop :=
  ∀ text s r s', goOn S P W V fuel rq u text s = some (r, s') →
    Visits S P W rq s (GoesOnTo S P W V rq u text s) r s'

theorem onAgent_reads {α : Type} {m : Op α} (hm : Within (Quiet S) m) {r : Except Fault α}
    (hrun : onAgent m s = some (r, s')) : ReadsOnly S s s' :=
  (onAgent_within (readsOnly_frame S) hm).of_run hrun

variable {limit : Nat} (hS : SchemaOk limit S)

include hS

theorem wildcard_visits (hgo : GoOnVisits S P W V rq fuel u)
    (hrun : expansion S P W V fuel rq t ('*' :: u) s = some (r, s')) :
    Visits S P W rq s (EndsAt S P W V rq (.expansion rq t ('*' :: u) s)) r s' := by
  rw [expansion_wildcard, expandWildcard] at hrun
  have hlist := getInstances_within (W := W) hS t
  obtain ⟨e, herror, rfl⟩ | ⟨iv, s₁, hiv, hrest⟩ := bind_cases hrun
  · exact visits_error (onAgent_reads hlist herror)
  have hread := onAgent_reads hlist hiv
  -- the only steps from here are to the instances that have been listed
  have hends : ∀ y, EndsAt S P W V rq (.expansion rq t ('*' :: u) s) y ↔
      t.length + 2 ≤ maxDmPath ∧ ∃ before n after k s₂, iv = before ++ n :: after ∧
        Prog.forEach before (fun m => goOn S P W V k rq u (numbered t m)) s₁ = some (.ok (), s₂) ∧
        GoesOnTo S P W V rq u (numbered t n) s₂ y := by
    intro y
    rw [endsAt_cons]
    constructor
    · rintro ⟨next, hstep, hnext⟩
      cases hstep with
      | literal hstar _ _ _ => exact absurd rfl hstar
      | wildcard hiv' hroom hbefore hlen =>
        rw [hiv] at hiv'
        cases hiv'
        exact ⟨hroom, _, _, _, _, _, rfl, hbefore, hlen, hnext⟩
    · rintro ⟨hroom, before, n, after, k, s₂, rfl, hbefore, hlen, hnext⟩
      exact ⟨_, .wildcard hiv hroom hbefore hlen, hnext⟩
  by_cases hempty : iv = []
  · subst hempty
    rw [if_pos rfl] at hrest
    cases hrest
    exact visits_none hread fun _ y => by simp [hends]
  · rw [if_neg hempty] at hrest
    split at hrest
    · cases hrest
      exact visits_error hread
    · rename_i hroom
      refine ((visits_forEach (fun n => hgo (numbered t n)) iv hrest).after_reads hread).imp ?_ ?_
      · rintro y ⟨before, n, after, s₂, hxs, hbefore, hy⟩
        exact (hends y).mpr ⟨Nat.le_of_not_lt hroom, before, n, after, fuel, s₂, hxs, hbefore, hy⟩
      · rintro rfl y hy
        obtain ⟨-, before, n, after, k, s₂, hxs, hbefore, hy⟩ := (hends y).mp hy
        refine ⟨before, n, after, s₂, hxs, ?_, hy⟩
        exact forEach_agree (fun m => goOn_steady hS rq u (numbered t m)) (hxs ▸ hrest) hbefore

theorem referenceValue_within : Within (ReadsOnly S) (referenceValue S P W rq t) := by
  have hR := readsOnly_frame S
  have hnone : Within (ReadsOnly S) (pure none : ROp (Option Str)) := within_pure hR.toIsFrame _
  unfold referenceValue
  split
  · exact failWith_within hR _
  · split
    · exact failWith_within hR _
    · split
      · exact giveUp_within hR hnone _
      · refine within_bind hR.toIsFrame (onAgent_within hR (getParameterValue_within hS _ _ _))
          fun value => ?_
        split
        · exact giveUp_within hR hnone _
        · exact within_pure hR.toIsFrame _

theorem objectAt_within (path : Str) : Within (ReadsOnly S) (objectAt S P W rq path) := by
  have hR := readsOnly_frame S
  refine within_bind hR.toIsFrame (onAgent_within hR (getPathProperties_within hS _ _ _))
    fun properties => ?_
  split
  · exact failWith_within hR _
  · split
    · exact giveUp_within hR (within_pure hR.toIsFrame _) _
    · exact within_pure hR.toIsFrame _

theorem objectOfValue_within (value : Option Str) :
    Within (ReadsOnly S) (objectOfValue S P W (followed S P W V fuel rq) rq value) := by
  have hR := readsOnly_frame S
  unfold objectOfValue
  split
  · exact within_pure hR.toIsFrame _
  · split
    · refine within_bind hR.toIsFrame
        (inOwnVector_within hR (resolvePath_agentQuiet hS _ _ _)) fun paths => ?_
      split
      · exact giveUp_within hR (within_pure hR.toIsFrame _) _
      · exact objectAt_within hS _
    · exact objectAt_within hS _

theorem reference_visits (hgo : GoOnVisits S P W V rq fuel u)
    (hrun : expansion S P W V fuel rq t ('+' :: u) s = some (r, s')) :
    Visits S P W rq s (EndsAt S P W V rq (.expansion rq t ('+' :: u) s)) r s' := by
  rw [expansion_reference, resolveReferenceFollow_eq] at hrun
  have hvalueReads : Within (ReadsOnly S) (referenceValue S P W rq t) := referenceValue_within hS
  obtain ⟨e, herror, rfl⟩ | ⟨value, s₁, hvalue, hrest⟩ := bind_cases hrun
  · exact visits_error (hvalueReads.of_run herror)
  have htrans : ∀ {t}, ReadsOnly S s₁ t → ReadsOnly S s t :=
    (readsOnly_frame S).trans (hvalueReads.of_run hvalue)
  have hobjectReads : Within (ReadsOnly S)
      (objectOfValue S P W (followed S P W V fuel rq) rq value) := objectOfValue_within hS value
  obtain ⟨e, herror, rfl⟩ | ⟨object, s₂, hobject, hrest⟩ := bind_cases hrest
  · exact visits_error (htrans (hobjectReads.of_run herror))
  have hread : ReadsOnly S s s₂ := htrans (hobjectReads.of_run hobject)
  -- whatever the fuel, the value leads to this object
  have hends : ∀ y, EndsAt S P W V rq (.expansion rq t ('+' :: u) s) y ↔
      ∃ text, object = some text ∧ GoesOnTo S P W V rq u text s₂ y := by
    intro y
    rw [endsAt_cons]
    constructor
    · rintro ⟨next, hstep, hnext⟩
      cases hstep with
      | literal _ hplus _ _ => exact absurd rfl hplus
      | reference hvalue' hobject' hlen =>
        rw [hvalue] at hvalue'
        cases hvalue'
        have hagree := (objectOfValue_steady hS rq value).agree (finished_of_ok hobject)
          (finished_of_ok hobject')
        rw [hobject, hobject'] at hagree
        cases hagree
        exact ⟨_, rfl, hlen, hnext⟩
    · rintro ⟨text, rfl, hlen, hnext⟩
      cases value with
      | none => cases hobject
      | some value => exact ⟨_, .reference hvalue hobject hlen, hnext⟩
  cases object with
  | none =>
    cases hrest
    exact visits_none hread fun _ y => by simp [hends]
  | some text =>
    refine ((hgo text s₂ r s' hrest).after_reads hread).imp (fun y hy => ?_) fun _ y hy => ?_
    · exact (hends y).mpr ⟨text, rfl, hy⟩
    · obtain ⟨_, ⟨⟩, hy⟩ := (hends y).mp hy
      exact hy

theorem prepareSearch_within (rounds : Nat) (iv : List Int) (key : Str) :
    Within (ReadsOnly S) (prepareSearch S P W rq rounds t iv key) :=
  have hR := readsOnly_frame S
  @prepareSearch_related _ S P W rq _ hS hR.relation rounds rounds
    (resolveIntermediateReferences_within hS hR rounds) t iv key

omit hS in
theorem doUniqueKeysMatch_within (index : Nat) (sp : SearchParam) :
    Within (ReadsOnly S) (doUniqueKeysMatch V index sp) :=
  doKeysMatch_within (readsOnly_frame S) sp _ _

/-- The ends behind an instance that a search tries. -/
def TriesTo (S : DmTree) (P : PermissionTable) (W : World) (V : ValueRules N) (rq : Request)
    (t u : Str) (sps : SearchParam × SearchParam) (entry : Int × Nat) (s : RState) (y : End) :
    Prop :=
  ∃ s₁ s₂, doUniqueKeysMatch V entry.2 sps.1 s = some (.ok true, s₁) ∧
    doUniqueKeysMatch V entry.2 sps.2 s₁ = some (.ok true, s₂) ∧
    GoesOnTo S P W V rq u (numbered t entry.1) s₂ y

omit hS in
theorem tryInstance_visits (hgo : GoOnVisits S P W V rq fuel u)
    (sps : SearchParam × SearchParam) (entry : Int × Nat)
    (hrun : tryInstance S P W V fuel rq t u sps entry s = some (r, s')) :
    Visits S P W rq s (TriesTo S P W V rq t u sps entry s) r s' := by
  obtain ⟨e, herror, rfl⟩ | ⟨isMatch, s₁, hmatch, hrest⟩ := bind_cases hrun
  · exact visits_error ((doUniqueKeysMatch_within _ _).of_run herror)
  have htrans : ∀ {t}, ReadsOnly S s₁ t → ReadsOnly S s t :=
    (readsOnly_frame S).trans ((doUniqueKeysMatch_within _ _).of_run hmatch)
  obtain ⟨e, herror, rfl⟩ | ⟨isRefMatch, s₂, hrefMatch, hrest⟩ := bind_cases hrest
  · exact visits_error (htrans ((doUniqueKeysMatch_within _ _).of_run herror))
  have hread : ReadsOnly S s s₂ := htrans ((doUniqueKeysMatch_within _ _).of_run hrefMatch)
  have htries : ∀ y, TriesTo S P W V rq t u sps entry s y ↔
      (isMatch && isRefMatch) = true ∧ GoesOnTo S P W V rq u (numbered t entry.1) s₂ y := by
    intro y
    constructor
    · rintro ⟨s₁', s₂', hmatch', hrefMatch', hy⟩
      rw [hmatch] at hmatch'
      cases hmatch'
      rw [hrefMatch] at hrefMatch'
      cases hrefMatch'
      exact ⟨rfl, hy⟩
    · rintro ⟨hboth, hy⟩
      obtain ⟨rfl, rfl⟩ := Bool.and_eq_true_iff.mp hboth
      exact ⟨s₁, s₂, hmatch, hrefMatch, hy⟩
  cases hboth : isMatch && isRefMatch with
  | false =>
    rw [hboth] at hrest
    cases hrest
    exact visits_none hread fun _ y => by simp [htries, hboth]
  | true =>
    rw [hboth] at hrest
    exact ((hgo _ s₂ r s' hrest).after_reads hread).imp (fun y hy => (htries y).mpr ⟨hboth, hy⟩)
      fun _ y hy => ((htries y).mp hy).2

theorem search_visits {c : Char} {rest : Str} (hclosed : u.dropWhile (· ≠ ']') = c :: rest)
    (hgo : GoOnVisits S P W V rq fuel rest)
    (hrun : expansion S P W V fuel rq t ('[' :: u) s = some (r, s')) :
    Visits S P W rq s (EndsAt S P W V rq (.expansion rq t ('[' :: u) s)) r s' := by
  rw [expansion_search _ hclosed] at hrun
  have hlist := getInstances_within (W := W) hS t
  obtain ⟨e, herror, rfl⟩ | ⟨iv, s₁, hiv, hrest⟩ := bind_cases hrun
  · exact visits_error (onAgent_reads hlist herror)
  have hread := onAgent_reads hlist hiv
  -- the only steps from here are to the instances that match
  have hends : ∀ y, EndsAt S P W V rq (.expansion rq t ('[' :: u) s) y ↔ iv ≠ [] ∧
      ∃ k sps s₂, prepareSearch S P W rq k t iv (u.takeWhile (· ≠ ']')) s₁ = some (.ok sps, s₂) ∧
        ∃ before entry after k' s₃, iv.zipIdx = before ++ entry :: after ∧
          Prog.forEach before (tryInstance S P W V k' rq t rest sps) s₂ = some (.ok (), s₃) ∧
          TriesTo S P W V rq t rest sps entry s₃ y := by
    intro y
    rw [endsAt_cons]
    constructor
    · rintro ⟨next, hstep, hnext⟩
      cases hstep with
      | literal _ _ hopen _ => exact absurd rfl hopen
      | search hclosed' hiv' hne hprepare hentries hbefore hmatch hrefMatch hlen =>
        rw [hclosed] at hclosed'
        cases hclosed'
        rw [hiv] at hiv'
        cases hiv'
        exact ⟨hne, _, _, _, hprepare, _, _, _, _, _, hentries, hbefore, _, _, hmatch, hrefMatch,
          hlen, hnext⟩
    · rintro ⟨hne, k, sps, s₂, hprepare, before, entry, after, k', s₃, hentries, hbefore, s₄, s₅,
        hmatch, hrefMatch, hlen, hnext⟩
      exact ⟨_, .search hclosed hiv hne hprepare hentries hbefore hmatch hrefMatch hlen, hnext⟩
  by_cases hempty : iv = []
  · rw [if_pos hempty] at hrest
    cases hrest
    exact visits_none hread fun _ y => by simp [hends, hempty]
  rw [if_neg hempty] at hrest
  have htrans : ∀ {t}, ReadsOnly S s₁ t → ReadsOnly S s t := (readsOnly_frame S).trans hread
  have hprepareReads : Within (ReadsOnly S) (prepareSearch S P W rq fuel t iv
    (u.takeWhile (· ≠ ']'))) := prepareSearch_within hS fuel iv _
  obtain ⟨e, herror, rfl⟩ | ⟨sps, s₂, hprepare, hloop⟩ := bind_cases hrest
  · exact visits_error (htrans (hprepareReads.of_run herror))
  refine ((visits_forEach (fun entry _ _ _ => tryInstance_visits hgo sps entry) iv.zipIdx
    hloop).after_reads (htrans (hprepareReads.of_run hprepare))).imp ?_ ?_
  · rintro y ⟨before, entry, after, s₃, hxs, hbefore, hy⟩
    exact (hends y).mpr
      ⟨hempty, fuel, sps, s₂, hprepare, before, entry, after, fuel, s₃, hxs, hbefore, hy⟩
  · rintro rfl y hy
    obtain ⟨-, k, sps', s₂', hprepare', before, entry, after, k', s₃, hxs, hbefore, hy⟩ :=
      (hends y).mp hy
    have hagree := (prepareSearch_steady hS rq t iv (u.takeWhile (· ≠ ']'))).agree
      (finished_of_ok hprepare) (finished_of_ok hprepare')
    rw [hprepare, hprepare'] at hagree
    cases hagree
    refine ⟨before, entry, after, s₃, hxs, ?_, hy⟩
    exact forEach_agree (tryInstance_steady hS rq t rest _) (hxs ▸ hloop) hbefore

/-- A resolution passes its ends, and without an error all of them. -/
theorem expansion_visits (hrun : expansion S P W V fuel rq t u s = some (r, s')) :
    Visits S P W rq s (EndsAt S P W V rq (.expansion rq t u s)) r s' := by
  induction hlen : u.length using Nat.strongRecOn generalizing t u s r s' with
  | ind len ih =>
    subst hlen
    have hgo : ∀ rest : Str, rest.length < u.length → GoOnVisits S P W V rq fuel rest :=
      fun rest hlt text s₀ r₀ s₁ hgoOn =>
        visits_checked (fun hexpand => ih rest.length hlt hexpand rfl) hgoOn
    cases u with
    | nil =>
      rw [expansion_nil] at hrun
      have hsame := (readsOnly_frame S).refl s
      refine ⟨[(t, s)], .step hsame hrun id (.reads ((readsOnly_frame S).refl _)), fun y hy => ?_,
        fun _ y hy => ?_⟩
      · exact endsAt_nil.mpr (List.mem_singleton.mp hy)
      · exact List.mem_singleton.mpr (endsAt_nil.mp hy)
    | cons c u =>
      have hlt : u.length < (c :: u).length := Nat.lt_succ_self _
      by_cases hstar : c = '*'
      · subst hstar
        exact wildcard_visits hS (hgo u hlt) hrun
      · by_cases hplus : c = '+'
        · subst hplus
          exact reference_visits hS (hgo u hlt) hrun
        · by_cases hopen : c = '['
          · subst hopen
            cases hclosed : u.dropWhile (· ≠ ']') with
            | nil =>
              rw [expansion_unclosed _ hclosed] at hrun
              cases hrun
              exact visits_error ((readsOnly_frame S).refl s)
            | cons d rest =>
              exact search_visits hS hclosed (hgo rest (Nat.lt_succ_of_lt (rest_shorter hclosed))) hrun
          · rw [expansion_literal fuel hstar hplus hopen] at hrun
            exact (visits_checked (fun hexpand => ih u.length hlt hexpand rfl) hrun).imp
              (fun y => (endsAt_literal hstar hplus hopen).mpr)
              fun _ y => (endsAt_literal hstar hplus hopen).mp

theorem resolvePath_visits {path : Str}
    (hrun : resolvePath S P W V fuel rq path s = some (r, s')) :
    Visits S P W rq s (ComesTo S P W V rq path s) r s' := by
  have hsame := (readsOnly_frame S).refl s
  cases fuel with
  | zero =>
    cases hrun
    exact visits_error hsame
  | succ fuel =>
    have hgroups : (Prog.require (!rq.wantsGroups || allowsGroups rq.op) : ROp Unit) s =
        some (.ok (), s) ∨ (Prog.require (!rq.wantsGroups || allowsGroups rq.op) : ROp Unit) s =
          none := by
      unfold Prog.require
      split
      · exact .inl rfl
      · exact .inr rfl
    rw [resolvePath] at hrun
    rcases hgroups with hgroups | hgroups
    · rw [bind_run hgroups] at hrun
      by_cases hdots : ['.', '.'] <:+: path
      · rw [if_pos hdots] at hrun
        cases hrun
        exact visits_error hsame
      · rw [if_neg hdots] at hrun
        exact (expansion_visits hS hrun).imp (fun y hy => ⟨hdots, hy⟩) fun _ y hy => hy.2
    · rw [bind_none hgroups] at hrun
      cases hrun

end Steps

end ResolvedEnds
