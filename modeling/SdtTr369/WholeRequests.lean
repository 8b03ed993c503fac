import SdtTr369.HandleAdd
import SdtTr369.DeleteRequests

/-!
# Requests without `allow_partial`

`MSG_HANDLER_HandleAdd` and `MSG_HANDLER_HandleDelete` do a whole request in one transaction.
Either the objects of the request are created, or deleted, and committed, or the answer is an
error and the instances and the rows are those from before the request.
-/

namespace WholeRequests

open UspTypes TextUtils Schema SchemaInvariant PathCodec DecimalText EffectProgram Agent InstVector
open List
open DmTrans DataModel DataModelRead ExprVector GroupSetVector HandleDelete HandleAdd UndoLog
open InstanceTree HeldInstances Addition QuietReads AbortedTransaction CommittedTransaction
open DeleteRequests PathRoundTrip ResolvedPaths

/-! ## Additions in a transaction -/

/-- From `a` to `a'` the instances of the tables that the agent owns grew by `new`. -/
structure Adds (S : DmTree) (a a' : State) (new : List DmInstances) : Prop where
  accounted : Accounted S a a'
  held : ∀ t, AgentOwned S a (topNode t) → (Held a' t ↔ Held a t ∨ t ∈ new)
  fresh : ∀ g ∈ new, g ≠ [] ∧ (AgentOwned S a (topNode g) → ¬ Known a g)
  log : ∃ dts, a'.curTransaction = a.curTransaction.map (· ++ dts) ∧
    changes S dts = new.map .insert

section Additions

variable {S : DmTree} {W : World} {a a' a'' b c : State} {new new' : List DmInstances}

theorem Adds.known (h : Adds S a a' new) {g : DmInstances} (hne : g ≠ [])
    (howned : AgentOwned S a (topNode g)) (hk : Known a g) : Known a' g := by
  obtain ⟨t, ht, hpre⟩ := hk
  exact ⟨t, (h.held t (topNode_of_isPrefix hpre hne ▸ howned)).mpr (.inl ht), hpre⟩

theorem Adds.trans (h : Adds S a a' new) (h' : Adds S a' a'' new') :
    Adds S a a'' (new ++ new') where
  accounted := h.accounted.trans h'.accounted
  held t ht := by
    rw [h'.held t (ht.accounted h.accounted), h.held t ht, mem_append, or_assoc]
  fresh g hg := by
    rcases List.mem_append.mp hg with hg | hg
    · exact h.fresh g hg
    · obtain ⟨hne, hnew⟩ := h'.fresh g hg
      exact ⟨hne, fun howned hk => hnew (howned.accounted h.accounted) (h.known hne howned hk)⟩
  log := by
    obtain ⟨dts, hlog, hdts⟩ := h.log
    obtain ⟨dts', hlog', hdts'⟩ := h'.log
    refine ⟨dts ++ dts', ?_, by rw [changes_append, hdts, hdts', map_append]⟩
    rw [hlog', hlog, Option.map_map]
    congr 1
    funext log
    exact append_assoc ..

theorem adds_quiet (hok : StateOk S a) (hclosed : Closed a) (h : Quiet S a a') : Adds S a a' [] where
  accounted := accounted_quiet hok hclosed h
  held t ht := by rw [h.held_iff ht.settled, or_iff_left not_mem_nil]
  fresh := nofun
  log := ⟨[], by simp [h.log], rfl⟩

/-- What a program does that neither adds nor deletes an instance. -/
def Keeping (S : DmTree) (a a' : State) : Prop := StateOk S a → Closed a → Adds S a a' []

theorem keeping_frame (S : DmTree) : IsFrame (Keeping S) where
  refl a hok hclosed := adds_quiet hok hclosed (Quiet.refl S a)
  trans h h' hok hclosed := by
    have hadds := h hok hclosed
    exact hadds.trans (h' hadds.accounted.ok hadds.accounted.closed)

theorem keeping_quiet {α : Type} {m : Op α} (h : Within (Quiet S) m) : Within (Keeping S) m :=
  h.mono fun _ _ hq hok hclosed => adds_quiet hok hclosed hq

theorem setParameterValue_keeps (hS : SchemaOk maxDmInstanceOrder S) (path newValue : Str)
    (checkWritable : Bool) :
    Within (Keeping S) (setParameterValue S W path newValue checkWritable) := by
  intro a
  by_cases hgood : StateOk S a ∧ Closed a
  swap
  · exact (wp_true _ _).mono (fun _ _ _ hok hclosed => absurd ⟨hok, hclosed⟩ hgood)
      fun _ _ _ hok hclosed => absurd ⟨hok, hclosed⟩ hgood
  obtain ⟨hok, hclosed⟩ := hgood
  have hset := setParameterValue_accounted (W := W) hS hok hclosed path newValue checkWritable
  refine ((setParameterValue_spec hS hok hclosed path newValue checkWritable).and hset).mono
    (fun _ a' h _ _ => ?_) fun _ a' h _ _ => ?_
  · obtain ⟨⟨node, inst, b, -, hb, hset⟩, haccounted⟩ := h
    obtain ⟨c, ⟨R, hc, -⟩, rfl | ⟨dt, hop, rfl⟩⟩ := hset.stored
    · refine ⟨haccounted, fun t ht => ?_, nofun, [], by simp [hc.log, hb.log], rfl⟩
      rw [hc.held, hb.held_iff ht.settled, or_iff_left not_mem_nil]
    · refine ⟨haccounted, fun t ht => ?_, nofun, [dt], ?_, changes_cons_set hop⟩
      · rw [or_iff_left not_mem_nil, ← hb.held_iff ht.settled, ← hc.held]
        rfl
      · rw [appendEntry, hc.log, hb.log]
  · obtain ⟨⟨node, inst, b, hb, R, hc, -⟩, haccounted⟩ := h
    refine ⟨haccounted, fun t ht => ?_, nofun, [], by simp [hc.log, hb.log], rfl⟩
    rw [hc.held, hb.held_iff ht.settled, or_iff_left not_mem_nil]

/-- `DATA_MODEL_AddInstance` adds the instance that it returns, or none. -/
theorem addInstance_adds (hS : SchemaOk maxDmInstanceOrder S) (hok : StateOk S a)
    (hclosed : Closed a) (path : Str) (wantInstance : Bool) (flags : AddFlags) :
    Wp True (addInstance S W path wantInstance flags) a
      (fun r a' => ∀ n, r = some n → ∃ node parent, Adds S a a' [parent ++ [(node, n)]] ∧
        (wantInstance = true →
          getQualifiedNode S (stripTrailingDot path) = some (node, parent, false)))
      (fun _ a' => Adds S a a' []) := by
  have hadd := addInstance_accounted (W := W) (T := True) hS hok hclosed (fun _ => trivial) path
    wantInstance flags
  refine ((addInstance_spec hS hok (fun _ => trivial) path wantInstance flags).and hadd).mono
    (fun r a' h n hn => ?_) fun _ a' h => ?_
  · obtain ⟨⟨rfl, -⟩ | ⟨node, parent, n', b, rfl, hadds, hg⟩, haccounted⟩ := h
    · cases hn
    obtain rfl := Option.some.inj hn
    refine ⟨node, parent, ⟨haccounted, fun t ht => ?_, ?_, ?_⟩,
      fun hwant => hadds.unqualified (.inl hwant)⟩
    · rw [hg.held, hadds.quiet.held_iff ht.settled, mem_singleton]
    · rintro g hg
      obtain rfl := List.mem_singleton.mp hg
      refine ⟨by simp, fun howned hk => addsTo_not_known hclosed hadds howned ?_⟩
      exact (hadds.quiet.known_iff (by simp) howned.settled).mpr hk
    · obtain ⟨dt, hop, hentry, hlog⟩ := hg.log
      refine ⟨[dt], by rw [hlog, hadds.quiet.log], ?_⟩
      rw [changes_cons_add hop, hentry]
      rfl
  · obtain ⟨hquiet | ⟨node, parent, n, b, hadds, hu⟩, haccounted⟩ := h
    · exact adds_quiet hok hclosed hquiet
    refine ⟨haccounted, fun t ht => ?_, nofun, [], by simp [hu.log, hadds.quiet.log], rfl⟩
    rw [hu.held, hadds.quiet.held_iff ht.settled, or_iff_left not_mem_nil]
    refine and_iff_left_of_imp fun hheld hpre => ?_
    refine addsTo_not_known hclosed hadds (topNode_of_isPrefix hpre (by simp) ▸ ht) ⟨t, ?_, hpre⟩
    exact (hadds.quiet.held_iff ht.settled).mpr hheld

/-- The replay takes back additions with everything below them. -/
theorem replay_inserts (V : Collection (NodeId × Int)) (t : DmInstances) :
    replay (new.map .insert) V t ↔ V t ∧ ∀ g ∈ new, ¬ g <+: t := by
  induction new generalizing V with
  | nil => exact (and_iff_left nofun).symm
  | cons g new ih =>
    rw [map_cons, replay, ih, forall_mem_cons, ← and_assoc]
    rfl

/-- What was added in a transaction is gone after its abort, and nothing else. -/
theorem adds_aborted (hstart : Started a c) (h : Adds S c b new) (ha : Aborted S b a' (logOf b)) :
    InstancesRestored S a a' ∧ a'.db.rows = a.db.rows := by
  obtain ⟨dts, hlog, hdts⟩ := h.log
  have hlogOf : logOf b = dts := by
    rw [logOf, hlog, hstart.log]
    rfl
  refine ⟨fun t ht => ?_, ?_⟩
  · have howned : AgentOwned S c (topNode t) := ⟨hstart.settled ht.settled, ht.ungrouped⟩
    rw [ha.held, hlogOf, hdts, replay_inserts, h.held t howned, hstart.held]
    constructor
    · rintro ⟨ht | hmem, hnone⟩
      · exact ht
      · exact absurd prefix_rfl (hnone t hmem)
    · refine fun ht => ⟨.inl ht, fun g hg hpre => ?_⟩
      obtain ⟨hne, hfresh⟩ := h.fresh g hg
      exact hfresh (topNode_of_isPrefix hpre hne ▸ howned) ⟨t, (hstart.held t).mpr ht, hpre⟩
  · rw [ha.db, Database.rollback, h.accounted.saved, hstart.db]

end Additions

/-! ## Add requests -/

/-- The paths of the objects that the entries of a response report as created. -/
def createdPaths (results : List CreatedObjResult) : List Str :=
  results.filterMap fun result => match result with
    | .operSuccess _ instantiatedPath _ _ => some instantiatedPath
    | .operFailure .. => none

/-- The path in a response stands for this instance of a table. -/
def Denotes (S : DmTree) (path : Str) (inst : DmInstances) : Prop :=
  ∃ objPath node parent n, path = withTrailingDot (appendName objPath (intDigits n)) ∧
    getQualifiedNode S (stripTrailingDot objPath) = some (node, parent, false) ∧
    inst = parent ++ [(node, n)]

/-- From `a` to `a'` objects were added, and behind `results` the response lists them all
unless there was an error. -/
def Created (S : DmTree) (a a' : State) (results : List CreatedObjResult)
    (r : List CreatedObjResult × Option Err) : Prop :=
  ∃ new, Adds S a a' new ∧ (r.2 = none →
    ∃ entries, r.1 = results ++ entries ∧ List.Forall₂ (Denotes S) (createdPaths entries) new)

/-- What an Add request leaves behind: all that it reports as created, or, with an error, what
was there before. -/
def AddedWholly (S : DmTree) (a a' : State) : AddAnswer → Prop
  | .addResp results => ∃ new, List.Forall₂ (Denotes S) (createdPaths results) new ∧
      (∀ g ∈ new, AgentOwned S a (topNode g) → ¬ Known a g) ∧
      ∀ t, AgentOwned S a (topNode t) → (Held a' t ↔ Held a t ∨ t ∈ new)
  | .error _ _ => InstancesRestored S a a' ∧ a'.db.rows = a.db.rows

section Created

variable {S : DmTree} {a a' a'' : State} {results entries : List CreatedObjResult}
  {r r' : List CreatedObjResult × Option Err}

theorem Created.good (h : Created S a a' results r) : Accounted S a a' := by
  obtain ⟨new, hadds, -⟩ := h
  exact hadds.accounted

theorem created_none (hok : StateOk S a) (hclosed : Closed a) (results : List CreatedObjResult) :
    Created S a a results (results, none) :=
  ⟨[], adds_quiet hok hclosed (Quiet.refl S a), fun _ => ⟨[], (append_nil _).symm, .nil⟩⟩

theorem Created.failed (h : Created S a a' results r) (hr : r'.2 ≠ none) :
    Created S a a' entries r' := by
  obtain ⟨new, hadds, -⟩ := h
  exact ⟨new, hadds, fun hnone => absurd hnone hr⟩

theorem Created.behind (h : Created S a' a'' results r) (h' : Adds S a a' []) :
    Created S a a'' results r := by
  obtain ⟨new, hadds, hlisted⟩ := h
  exact ⟨new, h'.trans hadds, hlisted⟩

/-- One more object or expression, and the rest of the loop. -/
theorem Created.then (h : Created S a a' [] (entries, none))
    (h' : Created S a' a'' (results ++ entries) r) : Created S a a'' results r := by
  obtain ⟨new, hadds, hlisted⟩ := h
  obtain ⟨new', hadds', hlisted'⟩ := h'
  obtain ⟨_, rfl, hdenotes⟩ := hlisted rfl
  refine ⟨new ++ new', hadds.trans hadds', fun hnone => ?_⟩
  obtain ⟨entries', hr, hdenotes'⟩ := hlisted' hnone
  refine ⟨entries ++ entries', by rw [hr, append_assoc], ?_⟩
  rw [createdPaths, filterMap_append]
  exact rel_append hdenotes hdenotes'

end Created

section Add

variable {S : DmTree} {P : PermissionTable} {W : World} {N : Type} {R : ValueRules N} {fuel : Nat}
  {role : CombinedRole} {G : GroupCallbacks} {notifies : List (Op Unit)}
  (hS : SchemaOk maxDmInstanceOrder S)

include hS

theorem getPathProperties_safely (path : Str) (role : Option CombinedRole) :
    Safely (Quiet S) (getPathProperties S P W path role) := by
  have hq := quiet_frame S
  have hexist : ∀ t, Safely (Quiet S) (.attempt (instVectorIsExist S W t) : Op (Except Err Bool)) :=
    fun t => safely_attempt (instVectorIsExist_within hS t)
  unfold getPathProperties addInstanceFlags
  split
  · exact safely_pure hq _
  · refine safely_bind hq (safely_bind hq (hexist _) fun found => ?_) fun _ => safely_pure hq _
    split
    · exact safely_pure hq _
    · exact safely_pure hq _
    · split
      · exact safely_pure hq _
      · refine safely_bind hq (hexist _) fun parentFound => ?_
        split <;> exact safely_pure hq _

theorem settingEntries_safely (fullPath : Str) (settings : List CreateParamSetting) :
    Safely (Quiet S) (settingEntries S P W role fullPath settings) := by
  have hq := quiet_frame S
  induction settings with
  | nil => exact safely_pure hq _
  | cons ps rest ih =>
    have hnew : Safely (Quiet S)
        (newEntry S P W (appendName fullPath ps.param) ps.value ps.required (some role)) := by
      refine safely_bind hq (getPathProperties_safely hS _ _) fun properties => ?_
      dsimp only
      repeat' split
      all_goals exact safely_pure hq _
    exact safely_bind hq hnew fun _ => safely_bind hq ih fun _ => safely_pure hq _

theorem setUngrouped_safely (gsv : List GroupSetEntry) :
    Safely (Keeping S) (setUngrouped S W gsv) := by
  have hR := keeping_frame S
  induction gsv with
  | nil => exact safely_pure hR _
  | cons gse rest ih =>
    have hgoOn : ∀ gse, Safely (Keeping S)
        (setUngrouped S W rest >>= fun r => pure (gse :: r.1, r.2) : Op _) :=
      fun _ => safely_bind hR ih fun _ => safely_pure hR _
    rw [setUngrouped]
    split
    · exact hgoOn gse
    · refine safely_bind hR (safely_attempt (setParameterValue_keeps hS _ _ _)) fun outcome => ?_
      split
      · exact hgoOn gse
      · dsimp only
        split
        · exact safely_pure hR _
        · exact hgoOn _

omit hS in
theorem setParameterGroup_safely (group : Nat) (isRequired : Bool) (gsv : List GroupSetEntry) :
    Safely (Keeping S) (setParameterGroup G group isRequired gsv) := by
  have hR := keeping_frame S
  unfold setParameterGroup
  dsimp only
  split
  · exact safely_pure hR _
  · split
    · exact safely_pure hR _
    · refine safely_bind hR (fun a hok hclosed => adds_quiet hok hclosed (quiet_calls S a _))
        fun answer => ?_
      repeat' split
      all_goals exact safely_pure hR _

omit hS in
theorem setGroups_safely (groups : List Nat) (gsv : List GroupSetEntry) :
    Safely (Keeping S) (setGroups G groups gsv) := by
  have hR := keeping_frame S
  induction groups generalizing gsv with
  | nil => exact safely_pure hR _
  | cons group groups ih =>
    refine safely_bind hR (setParameterGroup_safely group true gsv) fun required => ?_
    split
    split
    · exact safely_pure hR _
    · exact safely_bind hR (setParameterGroup_safely group false _) fun _ => ih _

theorem setValues_safely (gsv : List GroupSetEntry) (index numEntries : Nat) :
    Safely (Keeping S) (setValues S W G gsv index numEntries) := by
  have hR := keeping_frame S
  refine safely_bind hR ?_ fun _ => safely_pure hR _
  unfold setSlice
  split
  · exact safely_pure hR _
  · refine safely_bind hR (setUngrouped_safely hS _) fun set => ?_
    split
    split
    · exact safely_pure hR _
    · exact setGroups_safely _ _

theorem getUniqueKeyParams_quiet (objPath : Str) :
    Within (Quiet S) (getUniqueKeyParams S P W role objPath) := by
  have hq := quiet_frame S
  have hentries : ∀ names found,
      Within (Quiet S) (uniqueKeyEntries S P W role objPath names found) := by
    intro names
    induction names with
    | nil => exact fun _ => within_pure hq _
    | cons name names ih =>
      intro found
      rw [uniqueKeyEntries]
      split
      · exact ih _
      · refine within_bind hq (getPathProperties_within hS _ _ _) fun properties => ?_
        dsimp only
        split <;> exact ih _
  unfold getUniqueKeyParams
  split
  · exact within_fail hq _
  split
  · exact within_pure hq _
  refine within_bind hq (hentries _ _) fun found => ?_
  split
  split
  · exact within_pure hq _
  refine within_bind hq (groupGetValues_within hS _) fun ggv => ?_
  split
  · exact within_fail hq _
  · exact within_pure hq _
  · exact within_pure hq _

theorem validateDefaultedUniqueKeys_keeps (objPath : Str) (uniqueKeyParams : List (Str × Str))
    (gsv : List GroupSetEntry) :
    Within (Keeping S) (validateDefaultedUniqueKeys S W objPath uniqueKeyParams gsv) := by
  have hR := keeping_frame S
  have htakeOut : ∀ ukPaths, Within (Keeping S) (takeOutAllReadOnly S ukPaths) := by
    intro ukPaths
    induction ukPaths with
    | nil => exact within_pure hR _
    | cons ukPath rest ih =>
      refine within_bind hR ?_ fun _ => within_bind hR ih fun _ => within_pure hR _
      unfold takeOutReadOnly
      split
      · exact within_pure hR _
      · split
        · exact within_halt _
        · exact within_pure hR _
  unfold validateDefaultedUniqueKeys
  dsimp only
  split
  · exact within_fail hR _
  · refine within_bind hR (htakeOut _) fun ukPaths => within_forEach hR fun key _ => ?_
    split
    · exact within_pure hR _
    · exact setParameterValue_keeps hS _ _ _

variable (cr : CreateObj)

theorem setUpObject_safely (fullPath : Str) :
    Safely (Keeping S) (setUpObject S P W role G cr fullPath) := by
  have hR := keeping_frame S
  refine safely_bind hR ((settingEntries_safely hS _ _).mono fun a a' hq hok hclosed =>
    adds_quiet hok hclosed hq) fun gsv => ?_
  refine safely_bind hR (setValues_safely hS _ _ _) fun gsv => ?_
  split
  · exact safely_pure hR _
  refine safely_bind hR (safely_attempt (keeping_quiet (getUniqueKeyParams_quiet hS _)))
    fun keys => ?_
  split
  · exact safely_pure hR _
  refine safely_bind hR (safely_attempt (validateDefaultedUniqueKeys_keeps hS _ _ _))
    fun validated => ?_
  split <;> exact safely_pure hR _

omit hS in
theorem setUpObject_created (fullPath : Str) (a : State) :
    Wp True (setUpObject S P W role G cr fullPath) a
      (fun r _ => r.2 = none → createdPaths [r.1] = [withTrailingDot fullPath])
      (fun _ _ => True) := by
  rw [setUpObject, wp_bind]
  refine (wp_true _ _).mono (fun gsv b _ => ?_) fun _ _ _ => trivial
  rw [wp_bind]
  refine (wp_true _ _).mono (fun gsv b _ => ?_) fun _ _ _ => trivial
  split
  · exact nofun
  rw [wp_bind]
  refine (wp_true _ _).mono (fun keys b _ => ?_) fun _ _ _ => trivial
  split
  · exact nofun
  rw [wp_bind]
  refine (wp_true _ _).mono (fun validated b _ => ?_) fun _ _ _ => trivial
  split
  · exact nofun
  · exact fun _ => rfl

theorem createObject_adds (objPath : Str) {a : State} (hok : StateOk S a) (hclosed : Closed a) :
    Wp True (createObject S P W role G false cr objPath) a (fun r a' => Created S a a' [] r)
      (fun _ _ => False) := by
  rw [createObject, wp_bind, wp_attempt]
  refine (addInstance_adds hS hok hclosed _ _ _).mono (fun added b hadds => ?_) fun e b hadds => ?_
  swap
  · exact ⟨[], hadds, nofun⟩
  dsimp only
  cases added with
  | none => trivial
  | some n =>
    obtain ⟨node, parent, hadds, hget⟩ := hadds n rfl
    have hgood := hadds.accounted
    rw [wp_bind]
    refine ((setUpObject_safely hS cr _ b).and
      (setUpObject_created cr _ b |>.mono (fun _ _ h => h) fun _ _ _ => trivial)).mono
      (fun r a' h => ?_) fun _ _ h => h.1
    refine ⟨_, hadds.trans (h.1 hgood.ok hgood.closed), fun hnone => ⟨_, rfl, ?_⟩⟩
    rw [h.2 hnone]
    exact .cons ⟨objPath, node, parent, n, rfl, hget rfl, rfl⟩ .nil

theorem createObjects_adds (objPaths : List Str) (results : List CreatedObjResult) {a : State}
    (hok : StateOk S a) (hclosed : Closed a) :
    Wp True (createObjects S P W role G notifies false cr objPaths results) a
      (fun r a' => Created S a a' results r) (fun _ _ => False) := by
  induction objPaths generalizing results a with
  | nil => exact created_none hok hclosed results
  | cons objPath objPaths ih =>
    rw [createObjects, createObjectTrans, if_pos rfl, wp_bind]
    refine (createObject_adds hS cr objPath hok hclosed).mono (fun r b hb => ?_) fun _ _ h => h
    obtain ⟨new, err⟩ := r
    cases err with
    | some e => exact hb.failed (Option.some_ne_none e)
    | none =>
      refine (ih (results ++ new) hb.good.ok hb.good.closed).mono (fun _ _ h => hb.then h)
        fun _ _ h => h

theorem createExpressionObjects_adds {a : State} (hok : StateOk S a) (hclosed : Closed a) :
    Wp True (createExpressionObjects S P W R fuel role G notifies false cr) a
      (fun r a' => Created S a a' [] r) (fun _ _ => False) := by
  have hfails : ∀ e err b, Quiet S a b →
      Created S a b [] ([CreatedObjResult.operFailure cr.objPath [] e], err) :=
    fun e err b hb => ⟨[], adds_quiet hok hclosed hb, fun _ => ⟨_, rfl, .nil⟩⟩
  unfold createExpressionObjects
  split
  · exact hfails _ _ a (Quiet.refl S a)
  rw [wp_bind, wp_attempt]
  refine (resolvedPaths_quiet hS cr.objPath a).mono (fun objPaths b hb => ?_)
    fun e b hb => hfails _ _ b hb
  split
  · rename_i h
    cases h
  · exact hfails _ _ b hb
  · rename_i paths _ h
    cases h
    exact (createObjects_adds hS cr _ [] (hb.ok hok) (hb.closed hclosed)).mono
      (fun _ _ h => h.behind (adds_quiet hok hclosed hb)) fun _ _ h => h

theorem createExpressions_adds (createObjs : List CreateObj) (results : List CreatedObjResult)
    {a : State} (hok : StateOk S a) (hclosed : Closed a) :
    Wp True (createExpressions S P W R fuel role G notifies false createObjs results) a
      (fun r a' => Created S a a' results r) (fun _ _ => False) := by
  induction createObjs generalizing results a with
  | nil => exact created_none hok hclosed results
  | cons cr rest ih =>
    rw [createExpressions, wp_bind]
    refine (createExpressionObjects_adds hS cr hok hclosed).mono (fun r b hb => ?_) fun _ _ h => h
    obtain ⟨new, err⟩ := r
    cases err with
    | some e => exact hb.failed (Option.some_ne_none e)
    | none =>
      refine (ih (results ++ new) hb.good.ok hb.good.closed).mono (fun _ _ h => hb.then h)
        fun _ _ h => h

end Add

/-! ## Delete requests -/

/-- From `a` to `a'` the instances of `gone` were deleted with everything below them. -/
structure Deletes (S : DmTree) (a a' : State) (gone : List DmInstances) : Prop where
  shrunk : InstancesShrunk S (fun _ => False) a a'
  held : ∀ t, SettledAt S a (topNode t) → (Held a' t ↔ Held a t ∧ ∀ g ∈ gone, ¬ g <+: t)

/-- From `a` to `a'` objects were deleted, and behind `results` the response lists them all
unless there was an error. -/
def Removed (S : DmTree) (a a' : State) (listed : List Str) (err : Option Err) : Prop :=
  InstancesShrunk S (fun _ => False) a a' ∧
    (err = none → ∃ gone, List.Forall₂ (Names S) listed gone ∧ Deletes S a a' gone)

/-- What a Delete request leaves behind: nothing of what it reports as deleted and all else, or,
with an error, what was there before. -/
def DeletedWholly (S : DmTree) (a a' : State) : DeleteAnswer → Prop
  | .deleteResp results => ∃ gone,
      List.Forall₂ (Names S) (results.flatMap affectedPaths) gone ∧
      ∀ t, SettledAt S a (topNode t) → (Held a' t ↔ Held a t ∧ ∀ g ∈ gone, ¬ g <+: t)
  | .error _ _ => (∀ t, SettledAt S a (topNode t) → (Held a' t ↔ Held a t)) ∧
      a'.db.rows = a.db.rows

section Delete

variable {S : DmTree} {P : PermissionTable} {W : World} {N : Type} {R : ValueRules N} {fuel : Nat}
  {role : CombinedRole} {notifies : List (Op Unit)} {a a' a'' : State} {gone gone' : List DmInstances}

theorem deletes_quiet (hok : StateOk S a) (hclosed : Closed a) (h : Quiet S a a') :
    Deletes S a a' [] where
  shrunk := shrunk_quiet hok hclosed h
  held t hs := by rw [h.held_iff hs, and_iff_left nofun]

theorem Deletes.trans (h : Deletes S a a' gone) (h' : Deletes S a' a'' gone') :
    Deletes S a a'' (gone ++ gone') where
  shrunk := h.shrunk.trans h'.shrunk
  held t hs := by
    rw [h'.held t (h.shrunk.settled _ hs), h.held t hs, forall_mem_append, and_assoc]

theorem deletes_removal {inst : DmInstances} (hclosed : Closed a) (h : Removal S a a' inst) :
    Deletes S a a' [inst] where
  shrunk := h.shrunk hclosed
  held t hs := by
    rw [forall_mem_singleton]
    refine ⟨fun ht => ⟨h.shrinks.held t hs ht, fun hpre => h.gone.2.2 ⟨t, ht, hpre⟩⟩, ?_⟩
    exact fun ht => h.kept t hs ht.1 ht.2

theorem shrunk_isOpen (h : InstancesShrunk S (fun _ => False) a a')
    (hopen : a.curTransaction ≠ none) : a'.curTransaction ≠ none := by
  obtain ⟨dts, hlog, -⟩ := h.log
  rw [hlog]
  exact fun hnone => hopen (Option.map_eq_none_iff.mp hnone)

theorem removed_nil (hok : StateOk S a) (hclosed : Closed a) (err : Option Err) :
    Removed S a a [] err := by
  have hsame := deletes_quiet hok hclosed (Quiet.refl S a)
  exact ⟨hsame.shrunk, fun _ => ⟨[], .nil, hsame⟩⟩

theorem Deletes.then {first listed : List Str} {err : Option Err}
    (hnames : List.Forall₂ (Names S) first gone) (h : Deletes S a a' gone)
    (h' : Removed S a' a'' listed err) : Removed S a a'' (first ++ listed) err := by
  refine ⟨h.shrunk.trans h'.1, fun hnone => ?_⟩
  obtain ⟨gone', hnames', hdeletes⟩ := h'.2 hnone
  exact ⟨gone ++ gone', rel_append hnames hnames', h.trans hdeletes⟩

variable (hS : SchemaOk maxDmInstanceOrder S)

include hS

theorem deleteWholly_removed (paths affected : List Str) (hok : StateOk S a) (hclosed : Closed a)
    (hopen : a.curTransaction ≠ none) :
    Wp True (deleteWholly S W paths affected) a
      (fun r a' => match r with
        | .ok all => ∃ listed, all = affected ++ listed ∧ Removed S a a' listed none
        | .error _ => InstancesShrunk S (fun _ => False) a a')
      (fun _ _ => False) := by
  induction paths generalizing affected a with
  | nil => exact ⟨[], (append_nil _).symm, removed_nil hok hclosed none⟩
  | cons path paths ih =>
    rw [deleteWholly, wp_bind, wp_attempt]
    refine (deleteInstance_removal hS hok hclosed hopen path { checkDeletable := true }).mono
      (fun _ b h => ?_) fun _ b h => h.shrunk hclosed
    obtain ⟨inst, hnames, hremoval⟩ := h.resolve_right fun h => Bool.false_ne_true h.1
    have hdeletes := deletes_removal hclosed hremoval
    refine (ih (affected ++ [withTrailingDot path]) hdeletes.shrunk.ok hdeletes.shrunk.closed
      (shrunk_isOpen hdeletes.shrunk hopen)).mono (fun r a' h => ?_) fun _ _ h => h
    cases r with
    | error e => exact hdeletes.shrunk.trans h
    | ok all =>
      obtain ⟨listed, rfl, hrest⟩ := h
      refine ⟨withTrailingDot path :: listed, by rw [append_assoc]; rfl, ?_⟩
      exact hdeletes.then (.cons hnames.dotted .nil) hrest

theorem deleteExpressions_removed (paths : List Str) (results : List DeletedObjResult)
    (hok : StateOk S a) (hclosed : Closed a) (hopen : a.curTransaction ≠ none) :
    Wp True (deleteExpressions S P W R fuel role notifies false paths results) a
      (fun r a' => ∃ listed, (r.2 = none → r.1.flatMap affectedPaths =
        results.flatMap affectedPaths ++ listed) ∧ Removed S a a' listed r.2)
      (fun _ _ => False) := by
  induction paths generalizing results a with
  | nil => exact ⟨[], fun _ => (append_nil _).symm, removed_nil hok hclosed none⟩
  | cons path paths ih =>
    have hfails : ∀ e b, InstancesShrunk S (fun _ => False) a b → ∃ listed : List Str,
        (some e = none → (results ++ [DeletedObjResult.operFailure path e]).flatMap affectedPaths =
          results.flatMap affectedPaths ++ listed) ∧ Removed S a b listed (some e) :=
      fun e b hb => ⟨[], nofun, hb, nofun⟩
    rw [deleteExpressions, deleteExpressionObjects, wp_bind, wp_bind, wp_attempt]
    refine (resolvedPaths_quiet hS path a).mono (fun objPaths b hb => ?_)
      fun e b hb => hfails e b (shrunk_quiet hok hclosed hb)
    have hquiet := deletes_quiet hok hclosed hb
    simp only [Bool.false_eq_true, if_false, wp_bind]
    refine (deleteWholly_removed hS objPaths [] hquiet.shrunk.ok hquiet.shrunk.closed
      (shrunk_isOpen hquiet.shrunk hopen)).mono (fun r c h => ?_) fun _ _ h => h
    cases r with
    | error e => exact hfails e c (hquiet.shrunk.trans h)
    | ok affected =>
      obtain ⟨_, rfl, hremoved⟩ := h
      obtain ⟨gone, hnames, hdeletes⟩ := hremoved.2 rfl
      refine (ih (results ++ [.operSuccess path affected []]) hremoved.1.ok hremoved.1.closed
        (shrunk_isOpen (hquiet.shrunk.trans hremoved.1) hopen)).mono (fun r a' h => ?_) fun _ _ h => h
      obtain ⟨listed, hlisted, hrest⟩ := h
      refine ⟨affected ++ listed, fun hnone => ?_, (hquiet.trans hdeletes).then hnames hrest⟩
      rw [hlisted hnone, flatMap_append, flatMap_singleton, append_assoc]
      rfl

end Delete

/-! ## Whole requests -/

theorem logOf_closed {a : State} (h : a.curTransaction = none) : logOf a = [] := by
  rw [logOf, h]
  rfl

/-- Behind a start the transaction is open and has a log. -/
theorem logOf_open {a c b : State} (hstart : Started a c)
    (h : ∃ dts, b.curTransaction = c.curTransaction.map (· ++ dts)) :
    b.curTransaction = some (logOf b) := by
  obtain ⟨dts, hlog⟩ := h
  rw [logOf, hlog, hstart.log]
  rfl

section Requests

variable (rs : List Registration) (hrs : ∀ r ∈ rs, WithinArrays r) (P : PermissionTable) (W : World)
  {N : Type} (R : ValueRules N) (fuel : Nat) (role : CombinedRole) (notifies : List (Op Unit))
  (hnotifies : ∀ notify ∈ notifies, Spares (registerAll initialTree rs) (fun _ => True) notify)
  {a : State} (hok : StateOk (registerAll initialTree rs) a) (hclosed : Closed a)
  (hnone : a.curTransaction = none)

include hrs hnotifies hok hclosed hnone

/-- An Add request creates all that its response reports and nothing else, or its answer is an
error and it has changed neither instances nor rows. -/
theorem add_all_or_nothing (G : GroupCallbacks) (createObjs : List CreateObj) :
    Wp True (handleAdd (registerAll initialTree rs) P W R fuel role G notifies false createObjs) a
      (fun answer a' => AddedWholly (registerAll initialTree rs) a a' answer ∧ logOf a' = [])
      (fun _ _ => False) := by
  have hS := registered_ok hrs
  generalize registerAll initialTree rs = S at *
  unfold handleAdd
  split
  · exact ⟨⟨[], .nil, nofun, fun t _ => (or_iff_left not_mem_nil).symm⟩, logOf_closed hnone⟩
  rw [if_neg Bool.false_ne_true, wp_bind, wp_attempt]
  refine (transStart_spec hS hok hnone).mono (fun _ c hstart => ?_)
    fun e b hrefused => ⟨⟨fun t _ => hrefused.held t, hrefused.rows⟩, hrefused.log⟩
  rw [wp_bind]
  refine (createExpressions_adds hS createObjs [] (hstart.ok hok) (hstart.closed hclosed)).mono
    (fun r b hb => ?_) fun _ _ h => h
  obtain ⟨results, err⟩ := r
  obtain ⟨new, hadds, hlisted⟩ := hb
  have hcurrent := logOf_open hstart (hadds.log.imp fun _ h => h.1)
  have haborted : ∀ a', Aborted S b a' (logOf b) →
      (InstancesRestored S a a' ∧ a'.db.rows = a.db.rows) ∧ logOf a' = [] :=
    fun a' ha => ⟨adds_aborted hstart hadds ha, logOf_closed ha.log⟩
  cases err with
  | some e =>
    simp only [wp_bind, wp_ignore]
    exact (transAbort_spec hS hadds.accounted.ok hcurrent).mono (fun _ a' ha => haborted a' ha)
      fun _ a' ha => haborted a' ha
  | none =>
    simp only [wp_bind, wp_attempt]
    refine (transCommit_notifies hS hadds.accounted.ok hadds.accounted.closed hcurrent
      hnotifies).mono (fun _ a' hc => ?_) fun e a' ha => haborted a' ha.1
    obtain ⟨entries, hentries, hdenotes⟩ := hlisted rfl
    have howned : ∀ top, AgentOwned S a top → AgentOwned S c top :=
      fun top h => ⟨hstart.settled h.settled, h.ungrouped⟩
    refine ⟨⟨new, ?_, fun g hg ht hk => ?_, fun t ht => ?_⟩, logOf_closed hc.log⟩
    · obtain rfl : results = entries := hentries
      exact hdenotes
    · refine (hadds.fresh g hg).2 (howned _ ht) ?_
      exact hk.imp fun t ht => ⟨(hstart.held t).mpr ht.1, ht.2⟩
    · have hsettled := hadds.accounted.settled _ (howned _ ht).settled
      rw [← hstart.held, ← hadds.held t (howned _ ht)]
      exact ⟨hc.held t hsettled, hc.kept t hsettled trivial⟩

/-- A Delete request deletes all that its response reports and nothing else, or its answer is
an error and it has changed neither instances nor rows. -/
theorem delete_all_or_nothing (paths : List Str) :
    Wp True (handleDelete (registerAll initialTree rs) P W R fuel role notifies false paths) a
      (fun answer a' => DeletedWholly (registerAll initialTree rs) a a' answer ∧ logOf a' = [])
      (fun _ _ => False) := by
  have hS := registered_ok hrs
  generalize registerAll initialTree rs = S at *
  unfold handleDelete
  split
  · exact ⟨⟨[], .nil, fun t _ => (and_iff_left nofun).symm⟩, logOf_closed hnone⟩
  rw [if_neg Bool.false_ne_true, wp_bind, wp_attempt]
  refine (transStart_spec hS hok hnone).mono (fun _ c hstart => ?_)
    fun e b hrefused => ⟨⟨fun t _ => hrefused.held t, hrefused.rows⟩, hrefused.log⟩
  have hopen : c.curTransaction ≠ none := by
    rw [hstart.log]
    exact Option.some_ne_none _
  rw [wp_bind]
  refine (deleteExpressions_removed hS paths [] (hstart.ok hok) (hstart.closed hclosed) hopen).mono
    (fun r b hb => ?_) fun _ _ h => h
  obtain ⟨results, err⟩ := r
  obtain ⟨listed, hlisted, hshrunk, hdeletes⟩ := hb
  have hcurrent := logOf_open hstart (hshrunk.log.imp fun _ h => h.1)
  have haborted : ∀ a', Aborted S b a' (logOf b) →
      ((∀ t, SettledAt S a (topNode t) → (Held a' t ↔ Held a t)) ∧ a'.db.rows = a.db.rows) ∧
        logOf a' = [] := by
    refine fun a' ha => ⟨⟨fun t hs => ?_, ?_⟩, logOf_closed ha.log⟩
    · rw [← hstart.held t]
      exact (shrunk_aborted hstart.log hshrunk ha).1 t (hstart.settled hs)
    · rw [ha.db, Database.rollback, hshrunk.saved, hstart.db]
  cases err with
  | some e =>
    simp only [wp_bind, wp_ignore]
    exact (transAbort_spec hS hshrunk.ok hcurrent).mono (fun _ a' ha => haborted a' ha)
      fun _ a' ha => haborted a' ha
  | none =>
    simp only [wp_bind, wp_attempt]
    refine (transCommit_notifies hS hshrunk.ok hshrunk.closed hcurrent hnotifies).mono
      (fun _ a' hc => ?_) fun e a' ha => haborted a' ha.1
    obtain ⟨gone, hnames, hdeletes⟩ := hdeletes rfl
    refine ⟨⟨gone, ?_, fun t hs => ?_⟩, logOf_closed hc.log⟩
    · rwa [hlisted rfl]
    · have hsettled := hshrunk.settled _ (hstart.settled hs)
      rw [← hstart.held, ← hdeletes.held t (hstart.settled hs)]
      exact ⟨hc.held t hsettled, hc.kept t hsettled trivial⟩

end Requests

/-- An Add request for one more instance of `Device.A.`. -/
def addSecond : Op AddAnswer :=
  handleAdd (registerAll initialTree nestedTables) masters readyWorld wholeNumbers 1 ⟨0, 1⟩
    (fun _ => none) [] false [⟨"Device.A.".toList, []⟩]

theorem add_all_or_nothing_second :
    AddedWholly (registerAll initialTree nestedTables) nestedInstances
      (addSecond.after nestedInstances)
      (.addResp [.operSuccess "Device.A.".toList "Device.A.2.".toList [] []]) := by
  have hwholly := add_all_or_nothing nestedTables nestedTables_within masters readyWorld
    wholeNumbers 1 ⟨0, 1⟩ [] nofun nestedInstances_ok nestedInstances_closed rfl (fun _ => none)
    [⟨"Device.A.".toList, []⟩]
  exact ((hwholly.of_run (Prog.run_eq (by decide +kernel))).1 _ rfl).1

/-- A Delete request for the one instance of `Device.A.`. -/
def deleteWhole : Op DeleteAnswer :=
  handleDelete (registerAll initialTree nestedTables) masters readyWorld wholeNumbers 1 ⟨0, 1⟩ []
    false ["Device.A.1.".toList]

theorem delete_all_or_nothing_nested :
    DeletedWholly (registerAll initialTree nestedTables) nestedInstances
      (deleteWhole.after nestedInstances) (.deleteResp firstDeleted) := by
  have hwholly := delete_all_or_nothing nestedTables nestedTables_within masters readyWorld
    wholeNumbers 1 ⟨0, 1⟩ [] nofun nestedInstances_ok nestedInstances_closed rfl
    ["Device.A.1.".toList]
  exact ((hwholly.of_run (Prog.run_eq (by decide +kernel))).1 _ rfl).1

end WholeRequests
