import SdtTr369.HeldInstances
import SdtTr369.LifeEvents

/-!
# The refresh of a table by its vendor

`RefreshInstVector` of `dm_inst_vector.c`: the callback of a table reports the
instances one by one into a second vector, and the differences to the vector
that it replaces become life events. Until it has replaced the vector the
variable `refresh_instances_top_node` is set, and every refresh that the callback
or the resolution of a subscription asks for in between returns at once.
-/

namespace InstanceRefresh

open UspTypes Schema SchemaInvariant PathCodec PathRoundTrip EffectProgram InstVector UndoLog List
open SubsRetry InstanceTree
open HeldInstances (RefreshedOk refreshInstances_ok)
open LifeEvents (SubsSettings LifeSubs LifeEvent isActive mem_addMissing resolveWithoutRefresh
  queueRefreshed changeSubs)

mutual

/-- What a call of `RefreshInstVector` meets if it gets that far: the clock before
and after the callback, the calls and the outcome of the callback, and the tables
that the resolution of the deletion paths asks for. -/
inductive Visit where
  | mk (curTime : Int) (callback : Calls) (result : Except Err Int) (returnTime : Int)
      (resolution : Queries)

/-- The calls that a refresh callback makes into the data model. -/
inductive Calls where
  | done
  | refreshInstance (path : Str) (rest : Calls)
  | query (top : NodeId) (visit : Visit) (rest : Calls)

inductive Queries where
  | done
  | query (top : NodeId) (visit : Visit) (rest : Queries)

end

/-- The paths that a callback reports. -/
def Calls.reported : Calls → List Str
  | .done => []
  | .refreshInstance path rest => path :: rest.reported
  | .query _ _ rest => rest.reported

/-- The variables of `dm_inst_vector.c`, with the life events. -/
structure RefreshState where
  life : LifeEvents.State Agent.State
  refreshInstancesTopNode : Option NodeId
  refreshedInstancesVector : List DmInstances
  notifySubscriptionsAllowed : Bool

abbrev RefreshOp := Prog RefreshState Err

def RefreshState.agent (s : RefreshState) : Agent.State := s.life.dataModel

def updateAgent (f : Agent.State → Agent.State) : RefreshOp Unit :=
  .update fun s => { s with life := { s.life with dataModel := f s.agent } }

variable (S : DmTree) (resolve : SubsSettings → Agent.State → List Str)

/-- `DM_INST_VECTOR_RefreshInstance`. -/
def instVectorRefreshInstance (path : Str) : RefreshOp Unit := do
  let refreshTop ← .read (·.refreshInstancesTopNode)
  let refreshed ← .read (·.refreshedInstancesVector)
  match getQualifiedNode S path with
  | none => .fail .objectDoesNotExist
  | some (id, inst, isQualified) =>
    if (S.node id).type ≠ .objectMultiInstance then .fail .objectNotCreatable
    else if isQualified = false then .fail .invalidArguments
    else if some (topNode inst) ≠ refreshTop then pure ()
    else if isExistInInstVector inst refreshed then pure ()
    else if 1 < inst.length ∧ isExistInInstVector inst.dropLast refreshed = false then
      .fail .objectDoesNotExist
    else .update fun s =>
      { s with refreshedInstancesVector := addToInstVector inst s.refreshedInstancesVector }

/-! ## Events -/

/-- `inst->nodes[inst->order-1]`. -/
def lastNode (inst : DmInstances) : NodeId := (inst.getLast?.map Prod.fst).getD 0

/-- `DM_PRIV_FormInstantiatedPath` into a local buffer. -/
def instancePath (inst : DmInstances) : Option (Except Err Str) :=
  formInstantiatedPath (S.node (lastNode inst)).path (instances inst) maxDmPath

/-- `DEVICE_SUBSCRIPTION_NotifyObjectLifeEvent`. -/
def notifyObjectLifeEvent (objPath : Str) (notifyType : SubsNotify) (happened : Agent.State) :
    RefreshOp Unit := do
  let resolved ← .read (·.life.objectDeletionPathsResolved)
  .require (notifyType ≠ .objectDeletion || resolved)
  .update fun s => { s with life := queueRefreshed notifyType happened [objPath] s.life }

def notifyInstance (notifyType : SubsNotify) (happened : Agent.State) (inst : DmInstances) :
    RefreshOp Unit :=
  match instancePath S inst with
  | none => .halt
  | some (.error _) => pure ()
  | some (.ok path) => notifyObjectLifeEvent path notifyType happened

/-- The first loop of `RefreshInstVector`. The data model just after the creation
has the new instances. -/
def notifyCreations (top : NodeId) : RefreshOp Unit := do
  let oldInstances ← .read fun s => s.agent.instVector top
  let newInstances ← .read (·.refreshedInstancesVector)
  let happened ← .read fun s => setVector s.agent top newInstances
  .forEach newInstances fun inst =>
    if isExistInInstVector inst oldInstances then pure ()
    else notifyInstance S .objectCreation happened inst

/-- The second loop, which fills `deleted_instances`. -/
def deletedInstances (oldInstances newInstances : List DmInstances) : List DmInstances :=
  oldInstances.foldl (fun deleted inst =>
    if isExistInInstVector inst newInstances then deleted else addToInstVector inst deleted) []

/-- `DEVICE_SUBSCRIPTION_ResolveObjectDeletionPaths`: its queries leave the instances
that its resolutions read. -/
def resolveObjectDeletionPaths (queries : RefreshOp Unit) : RefreshOp Unit := do
  let resolved ← .read (·.life.objectDeletionPathsResolved)
  if resolved then pure ()
  else do
    queries
    .update fun s => { s with life := resolveWithoutRefresh resolve s.life }

def notifyDeletions (top : NodeId) (queries : RefreshOp Unit) : RefreshOp Unit := do
  let oldInstances ← .read fun s => s.agent.instVector top
  let newInstances ← .read (·.refreshedInstancesVector)
  if deletedInstances oldInstances newInstances = [] then pure ()
  else do
    resolveObjectDeletionPaths resolve queries
    let happened ← .read (·.agent)
    .forEach (deletedInstances oldInstances newInstances)
      (notifyInstance S .objectDeletion happened)

/-- The differences are not looked at before the baseline has been taken. -/
def notifyDifferences (top : NodeId) (queries : RefreshOp Unit) : RefreshOp Unit := do
  let allowed ← .read (·.notifySubscriptionsAllowed)
  if allowed = false then pure ()
  else do
    notifyCreations S top
    notifyDeletions S resolve top queries

/-! ## The refresh -/

/-- The exits of `RefreshInstVector` before its callback. -/
def mustBeRefreshed (top : NodeId) (curTime : Int) : RefreshOp Bool := do
  let refreshTop ← .read (·.refreshInstancesTopNode)
  let agent ← .read (·.agent)
  if refreshTop ≠ none then pure false
  else if (S.node top).registered.refreshInstances = false then pure false
  else if agent.lockPeriod top = agent.curLockPeriod then pure false
  else if curTime ≤ agent.refreshExpiryTime top then do
    updateAgent fun a => lockInstances a top
    pure false
  else pure true

/-- The call of `refresh_instances_cb`, with the path without its `{i}`. -/
def refreshInstancesCb (top : NodeId) (calls : RefreshOp Unit) (result : Except Err Int) :
    RefreshOp Int := do
  .require (multiSeparator.isSuffixOf (S.node top).path)
  .update fun s => { s with refreshInstancesTopNode := some top, refreshedInstancesVector := [] }
  calls
  match result with
  | .error e => .fail e
  | .ok expiryPeriod => pure expiryPeriod

/-- `cur_time + expiry_period` and the lock of the instances. -/
def stampInstances (a : Agent.State) (top : NodeId) (expiryTime : Int) : Agent.State :=
  lockInstances { a with
    refreshExpiryTime := fun n => if n = top then expiryTime else a.refreshExpiryTime n } top

def replaceInstances (top : NodeId) : RefreshOp Unit := .update fun s =>
  { s with
    life := { s.life with dataModel := setVector s.agent top s.refreshedInstancesVector }
    refreshInstancesTopNode := none }

/-- `RefreshInstVector` from its callback on. -/
def refreshTable (top : NodeId) (returnTime : Int) (callback : RefreshOp Int)
    (queries : RefreshOp Unit) : RefreshOp Unit := do
  match ← .attempt callback with
  | .error (_ : Err) => do
    .update fun s => { s with refreshInstancesTopNode := none, refreshedInstancesVector := [] }
    .fail .internalError
  | .ok expiryPeriod => do
    updateAgent fun a => stampInstances a top (returnTime + expiryPeriod)
    notifyDifferences S resolve top queries
    replaceInstances top

mutual

/-- `RefreshInstVector`. -/
def refreshInstVector (top : NodeId) : Visit → RefreshOp Unit
  | .mk curTime callback result returnTime resolution => do
    let due ← mustBeRefreshed S top curTime
    if due then
      refreshTable S resolve top returnTime
        (refreshInstancesCb S top (makeCalls callback) result) (makeQueries resolution)
    else pure ()

def makeCalls : Calls → RefreshOp Unit
  | .done => pure ()
  | .refreshInstance path rest => do
    .ignore (instVectorRefreshInstance S path)
    makeCalls rest
  | .query top visit rest => do
    .ignore (refreshInstVector top visit)
    makeCalls rest

def makeQueries : Queries → RefreshOp Unit
  | .done => pure ()
  | .query top visit rest => do
    .ignore (refreshInstVector top visit)
    makeQueries rest

end

/-! ## Calls made during a refresh -/

section Reentered

variable {S} {resolve} {s : RefreshState} {top : NodeId}

/-- Nothing is refreshed inside of a refresh. -/
theorem refreshInstVector_reentered (h : s.refreshInstancesTopNode ≠ none) (n : NodeId)
    (visit : Visit) : refreshInstVector S resolve n visit s = some (.ok (), s) := by
  cases visit with
  | mk curTime callback result returnTime resolution =>
    have hexit : mustBeRefreshed S n curTime s = some (.ok false, s) := by
      show (if s.refreshInstancesTopNode ≠ none then pure false else _ : RefreshOp Bool) s = _
      rw [if_pos h]
      rfl
    rw [refreshInstVector]
    show Prog.bind _ _ s = _
    rw [Prog.bind, hexit]
    rfl

theorem makeQueries_eq (h : s.refreshInstancesTopNode ≠ none) :
    ∀ queries, makeQueries S resolve queries s = some (.ok (), s)
  | .done => by
    rw [makeQueries]
    rfl
  | .query n visit rest => by
    rw [makeQueries]
    show Prog.bind (Prog.bind _ _) _ s = _
    rw [Prog.bind, Prog.bind, Prog.attempt, refreshInstVector_reentered h]
    exact makeQueries_eq h rest

theorem run_of_wp {σ ε : Type} {m : Prog σ ε Unit} {s t : σ}
    (h : Wp False m s (fun _ s' => s' = t) fun _ _ => False) : m s = some (.ok (), t) := by
  unfold Wp at h
  split at h
  · exact h.elim
  · exact h.elim
  · rename_i heq
    rw [heq, h]

/-- A reported instance goes into the new vector or leaves it as it is, whatever
the callback is told. -/
theorem instVectorRefreshInstance_ignored (h : s.refreshInstancesTopNode = some top) (path : Str) :
    (Prog.ignore (instVectorRefreshInstance S path) : RefreshOp Unit) s =
      some (.ok (), { s with
        refreshedInstancesVector := refreshInstance S top s.refreshedInstancesVector path }) := by
  obtain ⟨life, refreshTop, refreshed, allowed⟩ := s
  cases h
  apply run_of_wp
  simp only [wp_ignore, instVectorRefreshInstance, wp_bind, wp_read, refreshInstance]
  cases getQualifiedNode S path with
  | none => exact rfl
  | some found =>
    obtain ⟨id, inst, isQualified⟩ := found
    simp only [ne_eq, Option.some.injEq]
    -- each exit, and the addition, in both
    split
    · exact rfl
    split
    · exact rfl
    split
    · exact rfl
    split
    · exact rfl
    split
    · exact rfl
    · exact rfl

/-- The callback builds up the new vector. -/
theorem makeCalls_eq : ∀ calls s, s.refreshInstancesTopNode = some top →
    makeCalls S resolve calls s = some (.ok (), { s with
      refreshedInstancesVector :=
        calls.reported.foldl (refreshInstance S top) s.refreshedInstancesVector })
  | .done, s, _ => by
    rw [makeCalls]
    rfl
  | .refreshInstance path rest, s, h => by
    rw [makeCalls]
    show Prog.bind _ _ s = _
    rw [Prog.bind, instVectorRefreshInstance_ignored h]
    exact makeCalls_eq rest _ h
  | .query n visit rest, s, h => by
    rw [makeCalls]
    show Prog.bind (Prog.bind _ _) _ s = _
    rw [Prog.bind, Prog.bind, Prog.attempt, refreshInstVector_reentered (by simp [h])]
    exact makeCalls_eq rest s h

end Reentered

/-! ## The new vector -/

/-- The instance of the table that a reported path names. -/
def namedInstance (top : NodeId) (path : Str) : Option DmInstances :=
  match getQualifiedNode S path with
  | none => none
  | some (id, inst, isQualified) =>
    if (S.node id).type = .objectMultiInstance ∧ isQualified = true ∧ topNode inst = top then
      some inst
    else none

/-- The instances that were reported after their parents. -/
inductive Reported : List DmInstances → DmInstances → Prop where
  | outer (before after : List DmInstances) (inst : DmInstances) (h : inst.length ≤ 1) :
      Reported (before ++ inst :: after) inst
  | nested (before after : List DmInstances) (inst : DmInstances)
      (parent : Reported before inst.dropLast) : Reported (before ++ inst :: after) inst

theorem eq_of_concat {l before after : List DmInstances} {x inst : DmInstances}
    (h : l ++ [x] = before ++ inst :: after) :
    before = l ∧ inst = x ∨ ∃ after', l = before ++ inst :: after' := by
  cases after using List.reverseRecOn with
  | nil =>
    obtain ⟨hl, hx⟩ := append_inj' h rfl
    exact .inl ⟨hl.symm, (List.singleton_inj.mp hx).symm⟩
  | append_singleton after y _ =>
    rw [← cons_append, ← append_assoc] at h
    exact .inr ⟨after, (append_inj' h rfl).1⟩

theorem reported_concat {l : List DmInstances} {x inst : DmInstances} :
    Reported (l ++ [x]) inst ↔
      Reported l inst ∨ inst = x ∧ (inst.length ≤ 1 ∨ Reported l inst.dropLast) := by
  constructor
  · generalize hl : l ++ [x] = l'
    intro h
    cases h with
    | outer before after inst h =>
      rcases eq_of_concat hl with ⟨-, rfl⟩ | ⟨after', rfl⟩
      · exact .inr ⟨rfl, .inl h⟩
      · exact .inl (.outer before after' inst h)
    | nested before after inst parent =>
      rcases eq_of_concat hl with ⟨rfl, rfl⟩ | ⟨after', rfl⟩
      · exact .inr ⟨rfl, .inr parent⟩
      · exact .inl (.nested before after' inst parent)
  · rintro (h | ⟨rfl, h | h⟩)
    · cases h with
      | outer before after inst h =>
        rw [append_assoc, cons_append]
        exact .outer before (after ++ [x]) inst h
      | nested before after inst parent =>
        rw [append_assoc, cons_append]
        exact .nested before (after ++ [x]) inst parent
    · exact .outer l [] inst h
    · exact .nested l [] inst h

theorem isExist_iff {div : List DmInstances} (hclosed : PrefixClosed (· ∈ div))
    {inst : DmInstances} (hne : inst ≠ []) :
    isExistInInstVector inst div = true ↔ inst ∈ div := by
  simp only [isExistInInstVector, any_eq_true, isPrefixOf_iff_prefix]
  constructor
  · rintro ⟨t, ht, hpre⟩
    exact hclosed inst t ht hpre hne
  · intro h
    exact ⟨inst, h, prefix_rfl⟩

section Vector

variable {S} {limit : Nat} {top : NodeId}

theorem namedInstance_instance (hS : SchemaOk limit S) {path : Str} {inst : DmInstances}
    (h : namedInstance S top path = some inst) : ∃ node, IsInstance S node inst := by
  unfold namedInstance at h
  split at h
  · cases h
  · rename_i id _ isQualified hget
    split at h
    · rename_i hnamed
      cases h
      exact ⟨id, getQualifiedNode_instance hS (hnamed.2.1 ▸ hget) hnamed.1⟩
    · cases h

/-- The step of a report: an instance of the table is added behind its parent. -/
theorem mem_refreshInstance (hS : SchemaOk limit S) {div : List DmInstances}
    (hclosed : PrefixClosed (· ∈ div)) (path : Str) {t : DmInstances} :
    t ∈ refreshInstance S top div path ↔ t ∈ div ∨
      namedInstance S top path = some t ∧ (t.length ≤ 1 ∨ t.dropLast ∈ div) := by
  have hinstance : ∀ inst, namedInstance S top path = some inst → ∃ node, IsInstance S node inst :=
    fun _ => namedInstance_instance hS
  unfold namedInstance at *
  unfold refreshInstance
  cases hget : getQualifiedNode S path with
  | none => simp
  | some found =>
    obtain ⟨id, inst, isQualified⟩ := found
    simp only [hget] at hinstance ⊢
    by_cases hnamed : (S.node id).type = .objectMultiInstance ∧ isQualified = true ∧
        topNode inst = top
    · obtain ⟨node, hinst⟩ := hinstance inst (if_pos hnamed)
      have hparent : 1 < inst.length → inst.dropLast ≠ [] := by
        intro hlen hnil
        have := congrArg List.length hnil
        simp only [length_dropLast, length_nil] at this
        omega
      rw [if_pos hnamed, if_neg (not_not.mpr hnamed.1), if_neg (by simp [hnamed.2.1]),
        if_neg (not_not.mpr hnamed.2.2)]
      have hexist := isExist_iff hclosed (hinst.ne_nil hS)
      have hexist' := fun hlen => isExist_iff hclosed (hparent hlen)
      simp only [Option.some.injEq]
      split
      · rename_i hin
        refine ⟨.inl, ?_⟩
        rintro (h | ⟨rfl, -⟩)
        · exact h
        · exact hexist.mp hin
      split
      · rename_i hnested
        refine ⟨.inl, ?_⟩
        rintro (h | ⟨rfl, h | h⟩)
        · exact h
        · omega
        · rw [(hexist' hnested.1).mpr h] at hnested
          simp at hnested
      · rename_i hnested
        rw [addToInstVector, mem_append, mem_singleton]
        apply or_congr_right
        constructor
        · rintro rfl
          refine ⟨rfl, ?_⟩
          by_cases hlen : 1 < t.length
          · right
            rw [← hexist' hlen]
            simpa [hlen] using hnested
          · exact .inl (Nat.not_lt.mp hlen)
        · exact fun h => h.1.symm
    · rw [if_neg hnamed]
      split
      · simp
      split
      · simp
      split
      · simp
      · rename_i hm hq htop
        exact absurd ⟨not_not.mp hm, by simpa using hq, not_not.mp htop⟩ hnamed

/-- The vector that the callback builds up has the instances that it reported
after their parents. -/
theorem mem_refreshed (hS : SchemaOk limit S) (paths : List Str) {t : DmInstances} :
    t ∈ paths.foldl (refreshInstance S top) [] ↔
      Reported (paths.filterMap (namedInstance S top)) t := by
  induction paths using List.reverseRecOn generalizing t with
  | nil =>
    simp only [foldl_nil, not_mem_nil, filterMap_nil, false_iff]
    generalize hl : ([] : List DmInstances) = l
    intro h
    cases h <;> simp at hl
  | append_singleton paths path ih =>
    have hclosed := (refreshInstances_ok hS top paths).closed
    rw [foldl_concat, mem_refreshInstance hS hclosed, filterMap_append]
    cases hnamed : namedInstance S top path with
    | none => simp [hnamed, ih]
    | some inst =>
      rw [filterMap_cons_some hnamed, filterMap_nil, reported_concat, ih, ih,
        Option.some.injEq, eq_comm (a := inst)]

end Vector

/-! ## The differences -/

theorem deletedInstances_eq (oldInstances newInstances : List DmInstances) :
    deletedInstances oldInstances newInstances =
      oldInstances.filter fun inst => !isExistInInstVector inst newInstances := by
  have hloop : ∀ deleted, oldInstances.foldl (fun deleted inst =>
      if isExistInInstVector inst newInstances then deleted else addToInstVector inst deleted)
        deleted = deleted ++ oldInstances.filter fun inst =>
          !isExistInInstVector inst newInstances := by
    induction oldInstances with
    | nil => simp
    | cons inst oldInstances ih =>
      intro deleted
      rw [foldl_cons, ih]
      by_cases hexist : isExistInInstVector inst newInstances = true
      · simp [hexist]
      · simp [hexist, addToInstVector]
  exact hloop []

theorem forEach_filter {p : DmInstances → Bool} {f : DmInstances → RefreshOp Unit}
    (insts : List DmInstances) :
    Prog.forEach insts (fun inst => if p inst then pure () else f inst) =
      Prog.forEach (insts.filter fun inst => !p inst) f := by
  induction insts with
  | nil => rfl
  | cons inst insts ih =>
    by_cases hp : p inst = true
    · rw [filter_cons_of_neg (by simp [hp]), Prog.forEach, if_pos hp, ih]
      rfl
    · rw [filter_cons_of_pos (by simpa using hp), Prog.forEach, if_neg hp, ih, Prog.forEach]

/-- The text of the path of an instance, when it can be formed. -/
def formedPath (inst : DmInstances) : Option Str :=
  match instancePath S inst with
  | some (.ok path) => some path
  | _ => none

section Notify

variable {S} {resolve} {T : Prop} {s : RefreshState} {top : NodeId}

/-- The loop over the created or the deleted instances queues an event for each. -/
theorem notifyInstances_spec {notifyType : SubsNotify} {happened : Agent.State}
    (insts : List DmInstances) (s : RefreshState)
    (hresolved : notifyType = .objectDeletion → s.life.objectDeletionPathsResolved = true)
    (hT : ∀ inst ∈ insts, instancePath S inst = none → T) :
    Wp T (Prog.forEach insts (notifyInstance S notifyType happened)) s
      (fun _ s' => (∀ inst ∈ insts, instancePath S inst ≠ none) ∧
        s' = { s with
          life := queueRefreshed notifyType happened (insts.filterMap (formedPath S)) s.life })
      (fun _ _ => False) := by
  induction insts generalizing s with
  | nil => exact ⟨by simp, by simp [queueRefreshed]⟩
  | cons inst insts ih =>
    have hT' := fun inst' hmem => hT inst' (mem_cons_of_mem inst hmem)
    rw [Prog.forEach, wp_bind, notifyInstance]
    cases hpath : instancePath S inst with
    | none => exact hT inst mem_cons_self hpath
    | some formed =>
      have hfirst : instancePath S inst ≠ none := by simp [hpath]
      cases formed with
      | error e =>
        refine (ih s hresolved hT').mono (fun _ s' h => ⟨?_, ?_⟩) fun _ _ h => h
        · exact List.forall_mem_cons.mpr ⟨hfirst, h.1⟩
        · rw [h.2, filterMap_cons_none (by simp [formedPath, hpath])]
      | ok path =>
        have hrequire : (decide (notifyType ≠ .objectDeletion) ||
            s.life.objectDeletionPathsResolved) = true := by
          by_cases hkind : notifyType = .objectDeletion
          · simp [hresolved hkind]
          · simp [hkind]
        simp only [notifyObjectLifeEvent, wp_bind, wp_read, wp_require, wp_update]
        rw [if_pos hrequire]
        refine (ih { s with life := queueRefreshed notifyType happened [path] s.life }
          hresolved hT').mono (fun _ s' h => ⟨?_, ?_⟩) fun _ _ h => h
        · exact List.forall_mem_cons.mpr ⟨hfirst, h.1⟩
        · rw [h.2, filterMap_cons_some (b := path) (by simp [formedPath, hpath])]
          simp [queueRefreshed]

theorem notifyCreations_spec
    (hT : ∀ inst ∈ s.refreshedInstancesVector,
      isExistInInstVector inst (s.agent.instVector top) = false → instancePath S inst = none → T) :
    let created := s.refreshedInstancesVector.filter fun inst =>
      !isExistInInstVector inst (s.agent.instVector top)
    Wp T (notifyCreations S top) s
      (fun _ s' => (∀ inst ∈ created, instancePath S inst ≠ none) ∧
        s' = { s with
          life := queueRefreshed .objectCreation (setVector s.agent top s.refreshedInstancesVector)
            (created.filterMap (formedPath S)) s.life })
      (fun _ _ => False) := by
  simp only [notifyCreations, wp_bind, wp_read, forEach_filter]
  refine notifyInstances_spec _ s (fun h => by cases h) fun inst hmem => ?_
  obtain ⟨hnew, hexist⟩ := List.mem_filter.mp hmem
  exact hT inst hnew (by simpa using hexist)

theorem resolveObjectDeletionPaths_eq (h : s.refreshInstancesTopNode ≠ none) (queries : Queries) :
    resolveObjectDeletionPaths resolve (makeQueries S resolve queries) s =
      some (.ok (), { s with life := resolveWithoutRefresh resolve s.life }) := by
  apply run_of_wp
  simp only [resolveObjectDeletionPaths, wp_bind, wp_read]
  split
  · rename_i hresolved
    rw [resolveWithoutRefresh, if_pos hresolved]
    exact rfl
  · rw [wp_bind_of_run (makeQueries_eq h queries)]
    exact rfl

theorem resolveWithoutRefresh_resolved (resolve : SubsSettings → Agent.State → List Str)
    (l : LifeEvents.State Agent.State) :
    (resolveWithoutRefresh resolve l).objectDeletionPathsResolved = true ∧
      (resolveWithoutRefresh resolve l).dataModel = l.dataModel ∧
      (resolveWithoutRefresh resolve l).objectLifeEvents = l.objectLifeEvents := by
  unfold resolveWithoutRefresh
  split
  · exact ⟨by assumption, rfl, rfl⟩
  · exact ⟨rfl, rfl, rfl⟩

theorem notifyDeletions_spec (h : s.refreshInstancesTopNode ≠ none) (queries : Queries)
    (hT : ∀ inst ∈ s.agent.instVector top,
      isExistInInstVector inst s.refreshedInstancesVector = false →
        instancePath S inst = none → T) :
    let deleted := (s.agent.instVector top).filter fun inst =>
      !isExistInInstVector inst s.refreshedInstancesVector
    Wp T (notifyDeletions S resolve top (makeQueries S resolve queries)) s
      (fun _ s' => (∀ inst ∈ deleted, instancePath S inst ≠ none) ∧
        s' = { s with
          life := if deleted = [] then s.life
            else queueRefreshed .objectDeletion s.agent (deleted.filterMap (formedPath S))
              (resolveWithoutRefresh resolve s.life) })
      (fun _ _ => False) := by
  intro deleted
  simp only [notifyDeletions, wp_bind, wp_read, deletedInstances_eq]
  by_cases hnone : deleted = []
  · rw [if_pos hnone, if_pos hnone, wp_pure, hnone]
    exact ⟨by simp, rfl⟩
  · obtain ⟨hresolved, hmodel, -⟩ := resolveWithoutRefresh_resolved resolve s.life
    rw [if_neg hnone, if_neg hnone, wp_bind_of_run (resolveObjectDeletionPaths_eq h queries),
      wp_bind, wp_read]
    refine (notifyInstances_spec _ _ (fun _ => hresolved) fun inst hmem => ?_).mono
      (fun _ s' hs => ⟨hs.1, ?_⟩) fun _ _ hs => hs
    · obtain ⟨hold, hexist⟩ := List.mem_filter.mp hmem
      exact hT inst hold (by simpa using hexist)
    · rw [hs.2]
      simp only [RefreshState.agent, hmodel]
      rfl

end Notify

/-! ## Runs of a refresh -/

/-- The callback of the table is called at this time. -/
structure Due (s : RefreshState) (top : NodeId) (curTime : Int) : Prop where
  table : (S.node top).type = .objectMultiInstance
  free : s.refreshInstancesTopNode = none
  refreshed : (S.node top).registered.refreshInstances = true
  unlocked : s.agent.lockPeriod top ≠ s.agent.curLockPeriod
  expired : s.agent.refreshExpiryTime top < curTime

/-- The instances of the table in the one data model that are not in the other. -/
def instancesOnlyIn (top : NodeId) (a b : Agent.State) : List DmInstances :=
  (a.instVector top).filter fun inst => inst ∉ b.instVector top

/-- The data model of the refresh while the old instances are visible. -/
def stillVisible (l l' : LifeEvents.State Agent.State) : Agent.State :=
  { l'.dataModel with instVector := l.dataModel.instVector }

def lifeEvent (notifyType : SubsNotify) (happened : Agent.State) (inst : DmInstances) :
    Option (LifeEvent Agent.State) :=
  (formedPath S inst).map fun path => ⟨path, notifyType, .refreshed, happened⟩

/-- An active deletion subscription holds the path of a deleted instance if and only
if its reference list resolves to it while the instance is visible. -/
def MatchedWhileVisible (top : NodeId) (l l' : LifeEvents.State Agent.State) : Prop :=
  ∀ sub ∈ l'.subscriptions, isActive .objectDeletion sub = true →
    ∀ inst ∈ instancesOnlyIn top l.dataModel l'.dataModel, ∀ path,
      formedPath S inst = some path →
        (path ∈ sub.resolvedPaths ↔ path ∈ resolve sub.settings (stillVisible l l'))

/-- The differences are recorded. The deletion subscriptions are resolved for them
unless they have been since the last processing call. -/
structure Notified (top : NodeId) (l l' : LifeEvents.State Agent.State) : Prop where
  formed : CleanTree S → ∀ inst, inst ∈ instancesOnlyIn top l'.dataModel l.dataModel ∨
    inst ∈ instancesOnlyIn top l.dataModel l'.dataModel → ∃ path, formedPath S inst = some path
  events : l'.objectLifeEvents = l.objectLifeEvents ++
    ((instancesOnlyIn top l'.dataModel l.dataModel).filterMap
        (lifeEvent S .objectCreation l'.dataModel) ++
      (instancesOnlyIn top l.dataModel l'.dataModel).filterMap
        (lifeEvent S .objectDeletion (stillVisible l l')))
  settings : l'.subscriptions.map (·.settings) = l.subscriptions.map (·.settings)
  matched : l.objectDeletionPathsResolved = false → MatchedWhileVisible S resolve top l l'
  earlier : l.objectDeletionPathsResolved = true → l'.subscriptions = l.subscriptions

/-- The outcome of a refresh whose callback reported these paths. Of the data model
it changes the vector, the expiry time and the lock of the table. -/
structure Refreshed (top : NodeId) (paths : List Str) (expiryTime : Int) (s s' : RefreshState) :
    Prop where
  cleared : s'.refreshInstancesTopNode = none
  vector : RefreshedOk S top (s'.agent.instVector top)
  reported : ∀ inst, inst ∈ s'.agent.instVector top ↔
    Reported (paths.filterMap (namedInstance S top)) inst
  agent : s'.agent = setVector (stampInstances s.agent top expiryTime) top (s'.agent.instVector top)
  baseline : s.notifySubscriptionsAllowed = false →
    s'.life = { s.life with dataModel := s'.agent }
  notified : s.notifySubscriptionsAllowed = true → Notified S resolve top s.life s'.life

/-- The outcome of a refresh whose callback failed. -/
structure Failed (top : NodeId) (curTime : Int) (s s' : RefreshState) : Prop where
  cleared : s'.refreshInstancesTopNode = none
  kept : s'.life = s.life
  retried : ∀ t, curTime ≤ t → Due S s' top t

/-- The path of an instance that is created or deleted does not fit its buffer. -/
def Unformable (top : NodeId) (paths : List Str) (s : RefreshState) : Prop :=
  s.notifySubscriptionsAllowed = true ∧ ∃ inst, instancePath S inst = none ∧
    ¬ (inst ∈ s.agent.instVector top ↔ Reported (paths.filterMap (namedInstance S top)) inst)

section Runs

variable {S} {resolve} {T : Prop} {s : RefreshState} {top : NodeId} {curTime : Int}

/-- The callback is called if and only if it is due. -/
theorem mustBeRefreshed_iff (htable : (S.node top).type = .objectMultiInstance) :
    mustBeRefreshed S top curTime s = some (.ok true, s) ↔ Due S s top curTime := by
  have hrun : mustBeRefreshed S top curTime s =
      (if s.refreshInstancesTopNode ≠ none then pure false
      else if (S.node top).registered.refreshInstances = false then pure false
      else if s.agent.lockPeriod top = s.agent.curLockPeriod then pure false
      else if curTime ≤ s.agent.refreshExpiryTime top then do
        updateAgent fun a => lockInstances a top
        pure false
      else pure true : RefreshOp Bool) s := rfl
  have hfalse : ∀ s', (some (.ok false, s') : Option (Except Err Bool × RefreshState)) ≠
      some (.ok true, s) := by simp
  rw [hrun]
  constructor
  · intro h
    split at h
    · exact absurd h (hfalse _)
    split at h
    · exact absurd h (hfalse _)
    split at h
    · exact absurd h (hfalse _)
    split at h
    · exact absurd h (hfalse _)
    · rename_i hfree hrefreshed hunlocked hexpired
      exact ⟨htable, not_not.mp hfree, by simpa using hrefreshed, hunlocked, Int.not_le.mp hexpired⟩
  · intro h
    rw [if_neg (not_not.mpr h.free), if_neg (by simp [h.refreshed]), if_neg h.unlocked,
      if_neg (Int.not_le.mpr h.expired)]
    rfl

theorem table_suffix {limit : Nat} (hS : SchemaOk limit S)
    (htable : (S.node top).type = .objectMultiInstance) :
    multiSeparator.isSuffixOf (S.node top).path = true := by
  have hlt : top < S.nodes.length := by
    by_contra hlt
    rw [DmTree.node, getD_eq_getElem?_getD, getElem?_eq_none (Nat.not_lt.mp hlt)]
      at htable
    cases htable
  have htop : 2 ≤ top := by
    by_contra htop
    have hroot : top = 0 ∨ top = 1 :=
      Nat.le_one_iff_eq_zero_or_eq_one.mp (Nat.le_of_lt_succ (Nat.not_le.mp htop))
    rcases hroot with rfl | rfl
    · rw [hS.root_types.1] at htable
      cases htable
    · rw [hS.root_types.2] at htable
      cases htable
  obtain ⟨p, hp, hc⟩ := hS.linked top hlt htop
  rw [hS.child_path p hp top hc, htable, isSuffixOf_iff_suffix]
  exact ⟨(S.node p).path ++ '.' :: (S.node top).name ++ ['.'], by simp [separator]⟩

/-- What the callback leaves. -/
def called (S : DmTree) (top : NodeId) (paths : List Str) (s : RefreshState) : RefreshState :=
  { s with
    refreshInstancesTopNode := some top
    refreshedInstancesVector := paths.foldl (refreshInstance S top) [] }

theorem refreshInstancesCb_eq {limit : Nat} (hS : SchemaOk limit S)
    (resolve : SubsSettings → Agent.State → List Str)
    (htable : (S.node top).type = .objectMultiInstance) (callback : Calls)
    (result : Except Err Int) (s : RefreshState) :
    refreshInstancesCb S top (makeCalls S resolve callback) result s =
      some (result, called S top callback.reported s) := by
  have hcalls : makeCalls S resolve callback
      { s with refreshInstancesTopNode := some top, refreshedInstancesVector := [] } =
        some (.ok (), called S top callback.reported s) := makeCalls_eq callback _ rfl
  show Prog.bind (Prog.require _) _ s = _
  rw [Prog.bind, Prog.require, table_suffix hS htable]
  show Prog.bind (makeCalls S resolve callback) _ _ = _
  rw [Prog.bind, hcalls]
  cases result <;> rfl

/-- The life events once the differences to the new vector have been recorded. -/
def recordDifferences (S : DmTree) (resolve : SubsSettings → Agent.State → List Str)
    (top : NodeId) (new : List DmInstances) (l : LifeEvents.State Agent.State) :
    LifeEvents.State Agent.State :=
  let old := l.dataModel.instVector top
  let created := new.filter fun inst => !isExistInInstVector inst old
  let deleted := old.filter fun inst => !isExistInInstVector inst new
  let l₁ := queueRefreshed .objectCreation (setVector l.dataModel top new)
    (created.filterMap (formedPath S)) l
  if deleted = [] then l₁
  else queueRefreshed .objectDeletion l.dataModel (deleted.filterMap (formedPath S))
    (resolveWithoutRefresh resolve l₁)

theorem recordDifferences_dataModel (new : List DmInstances)
    (l : LifeEvents.State Agent.State) :
    (recordDifferences S resolve top new l).dataModel = l.dataModel := by
  unfold recordDifferences
  simp only
  split
  · rfl
  · exact (resolveWithoutRefresh_resolved _ _).2.1

theorem notifyDifferences_spec (h : s.refreshInstancesTopNode ≠ none) (queries : Queries)
    (hallowed : s.notifySubscriptionsAllowed = true)
    (hT : ∀ inst, instancePath S inst = none →
      (inst ∈ s.refreshedInstancesVector ∧
          isExistInInstVector inst (s.agent.instVector top) = false ∨
        inst ∈ s.agent.instVector top ∧
          isExistInInstVector inst s.refreshedInstancesVector = false) → T) :
    Wp T (notifyDifferences S resolve top (makeQueries S resolve queries)) s
      (fun _ s' => (∀ inst,
          (inst ∈ s.refreshedInstancesVector ∧
              isExistInInstVector inst (s.agent.instVector top) = false ∨
            inst ∈ s.agent.instVector top ∧
              isExistInInstVector inst s.refreshedInstancesVector = false) →
          instancePath S inst ≠ none) ∧
        s' = { s with life := recordDifferences S resolve top s.refreshedInstancesVector s.life })
      (fun _ _ => False) := by
  simp only [notifyDifferences, wp_bind, wp_read, hallowed]
  rw [if_neg (by decide), wp_bind]
  refine (notifyCreations_spec fun inst hnew hexist hpath => ?_).mono (fun _ s₁ h₁ => ?_)
    fun _ _ h => h
  · exact hT inst hpath (.inl ⟨hnew, hexist⟩)
  · obtain ⟨hcreated, rfl⟩ := h₁
    refine (notifyDeletions_spec (by exact h) queries fun inst hold hexist hpath => ?_).mono
      (fun _ s₂ h₂ => ?_) fun _ _ h => h
    · exact hT inst hpath (.inr ⟨hold, hexist⟩)
    · obtain ⟨hdeleted, rfl⟩ := h₂
      refine ⟨fun inst hinst => ?_, ?_⟩
      swap
      · simp only [recordDifferences, RefreshState.agent, queueRefreshed]
        congr 1
      rcases hinst with ⟨hmem, hexist⟩ | ⟨hmem, hexist⟩
      · exact hcreated inst (List.mem_filter.mpr ⟨hmem, by simpa using hexist⟩)
      · exact hdeleted inst (List.mem_filter.mpr ⟨hmem, by simpa using hexist⟩)

/-- The differences that the code finds by prefixes are those of the sets. -/
theorem filter_not_exist {a b : List DmInstances} (hne : ∀ t ∈ a, t ≠ [])
    (hclosed : PrefixClosed (· ∈ b)) :
    (a.filter fun inst => !isExistInInstVector inst b) = a.filter fun inst => inst ∉ b := by
  apply filter_congr
  intro t ht
  have := isExist_iff hclosed (hne t ht)
  grind

/-- What is recorded are the differences. -/
theorem recordDifferences_notified {l l' : LifeEvents.State Agent.State} {a : Agent.State}
    (ha : a.instVector = l.dataModel.instVector) {new : List DmInstances}
    (hl' : l' = { recordDifferences S resolve top new { l with dataModel := a } with
      dataModel := setVector a top new })
    (hcreated : (new.filter fun inst => !isExistInInstVector inst (a.instVector top)) =
      instancesOnlyIn top l'.dataModel l.dataModel)
    (hdeleted : ((a.instVector top).filter fun inst => !isExistInInstVector inst new) =
      instancesOnlyIn top l.dataModel l'.dataModel)
    (hformed : CleanTree S → ∀ inst, inst ∈ instancesOnlyIn top l'.dataModel l.dataModel ∨
      inst ∈ instancesOnlyIn top l.dataModel l'.dataModel → ∃ path, formedPath S inst = some path) :
    Notified S resolve top l l' := by
  have hmodel : l'.dataModel = setVector a top new := by rw [hl']
  have hvisible : stillVisible l l' = a := by rw [stillVisible, hmodel, ← ha]; rfl
  have hqueued : ∀ kind happened insts, (List.map (fun p => (⟨p, kind, .refreshed, happened⟩ :
      LifeEvent Agent.State)) (List.filterMap (formedPath S) insts)) =
        insts.filterMap (lifeEvent S kind happened) := by
    intro kind happened insts
    rw [map_filterMap]
    rfl
  unfold recordDifferences at hl'
  simp only at hl'
  by_cases hnone : ((a.instVector top).filter fun inst => !isExistInInstVector inst new) = []
  · rw [if_pos hnone] at hl'
    refine ⟨hformed, ?_, by rw [hl']; rfl, fun _ sub _ _ inst hinst => ?_,
      fun _ => by rw [hl']; rfl⟩
    · rw [← hcreated, ← hdeleted, hnone, hmodel, hl']
      simp [queueRefreshed, hqueued]
    · rw [← hdeleted, hnone] at hinst
      cases hinst
  · rw [if_neg hnone] at hl'
    generalize hl₁ : queueRefreshed .objectCreation (setVector a top new)
      ((new.filter fun inst => !isExistInInstVector inst (a.instVector top)).filterMap
        (formedPath S)) { l with dataModel := a } = l₁ at hl'
    obtain ⟨-, -, hevents⟩ := resolveWithoutRefresh_resolved resolve l₁
    have hsubs : l'.subscriptions = (resolveWithoutRefresh resolve l₁).subscriptions := by
      rw [hl']
      rfl
    have hbefore : l₁.subscriptions = l.subscriptions ∧ l₁.dataModel = a ∧
        l₁.objectDeletionPathsResolved = l.objectDeletionPathsResolved := by
      rw [← hl₁]
      exact ⟨rfl, rfl, rfl⟩
    refine ⟨hformed, ?_, ?_, fun hflag sub hsub hactive inst _ path _ => ?_, fun hflag => ?_⟩
    · rw [← hcreated, ← hdeleted, hvisible, hmodel, hl']
      simp only [queueRefreshed, hevents]
      rw [← hl₁]
      simp [queueRefreshed, hqueued]
    · rw [hsubs, (LifeEvents.resolveWithoutRefresh_resolves resolve l₁).settings, hbefore.1]
    · rw [hsubs, resolveWithoutRefresh, hbefore.2.2, hflag] at hsub
      obtain ⟨sub₀, -, rfl⟩ := List.mem_map.mp hsub
      by_cases hactive₀ : isActive .objectDeletion sub₀ = true
      · rw [if_pos hactive₀, hvisible, hbefore.2.1, LifeSubs.resolved, mem_addMissing]
        simp [LifeSubs.cleared]
      · rw [if_neg hactive₀] at hactive
        exact absurd hactive hactive₀
    · rw [hsubs, resolveWithoutRefresh, if_pos (by rw [hbefore.2.2, hflag]), hbefore.1]

theorem lastNode_instance {limit : Nat} (hS : SchemaOk limit S) {node : NodeId}
    {inst : DmInstances} (h : IsInstance S node inst) : lastNode inst = node := by
  obtain ⟨l, hl⟩ := table_instanceNodes hS h.lt h.table
  have hnodes := h.nodes
  rw [hl] at hnodes
  rw [lastNode, ← getLast?_map, hnodes, getLast?_concat]
  rfl

/-- In a tree of ordinary names a path can be formed when it fits. -/
theorem formed_of_clean {limit : Nat} (hS : SchemaOk limit S) (hclean : CleanTree S)
    {node : NodeId} {inst : DmInstances} (h : IsInstance S node inst)
    (hform : instancePath S inst ≠ none) : ∃ path, formedPath S inst = some path := by
  have hlen : (instances inst).length = (S.node node).order := by
    rw [hS.order_eq node h.lt, ← h.nodes, instances, length_map, length_map]
  have hpath := formInstantiatedPath_node hS hclean h.lt hlen maxDmPath
  rw [instancePath, lastNode_instance hS h, hpath] at hform
  split at hform
  · rename_i hfit
    rw [formedPath, instancePath, lastNode_instance hS h, hpath, if_pos hfit]
    exact ⟨_, rfl⟩
  · exact absurd rfl hform

/-- The differences to a new vector are recorded. -/
theorem notifyDifferences_notified {limit : Nat} (hS : SchemaOk limit S)
    {l : LifeEvents.State Agent.State} {a : Agent.State} {new : List DmInstances}
    (ha : a.instVector = l.dataModel.instVector)
    (hheld : ∀ t ∈ l.dataModel.instVector top, ∃ node, IsInstance S node t)
    (hclosed : PrefixClosed (· ∈ l.dataModel.instVector top)) (hnew : RefreshedOk S top new)
    (queries : Queries) (s : RefreshState) (hguard : s.refreshInstancesTopNode ≠ none)
    (hallowed : s.notifySubscriptionsAllowed = true) (hlife : s.life = { l with dataModel := a })
    (hvector : s.refreshedInstancesVector = new)
    (hT : ∀ inst, instancePath S inst = none →
      ¬ (inst ∈ l.dataModel.instVector top ↔ inst ∈ new) → T) :
    Wp T (notifyDifferences S resolve top (makeQueries S resolve queries)) s
      (fun _ s' => s' = { s with life := recordDifferences S resolve top new s.life } ∧
        Notified S resolve top l { s'.life with dataModel := setVector a top new })
      (fun _ _ => False) := by
  have hvec : s.agent.instVector top = l.dataModel.instVector top := by
    rw [RefreshState.agent, hlife]
    exact congrFun ha top
  have hne : ∀ t ∈ l.dataModel.instVector top, t ≠ [] := fun t ht =>
    (hheld t ht).choose_spec.ne_nil hS
  have hne' : ∀ t ∈ new, t ≠ [] := fun t ht => (hnew.held t ht).2.choose_spec.ne_nil hS
  have hdiff : ∀ inst, (inst ∈ s.refreshedInstancesVector ∧
        isExistInInstVector inst (s.agent.instVector top) = false ∨
      inst ∈ s.agent.instVector top ∧
        isExistInInstVector inst s.refreshedInstancesVector = false) ↔
      ¬ (inst ∈ l.dataModel.instVector top ↔ inst ∈ new) := by
    intro inst
    rw [hvec, hvector]
    have hold := @isExist_iff _ hclosed inst
    have hnew' := @isExist_iff _ hnew.closed inst
    grind
  refine (notifyDifferences_spec hguard queries hallowed fun inst hpath hmem =>
    hT inst hpath ((hdiff inst).mp hmem)).mono (fun _ s' h => ?_) fun _ _ h => h
  obtain ⟨hform, rfl⟩ := h
  have hcreated : instancesOnlyIn top (setVector a top new) l.dataModel =
      new.filter fun inst => inst ∉ l.dataModel.instVector top := by
    simp [instancesOnlyIn]
  have hdeleted : instancesOnlyIn top l.dataModel (setVector a top new) =
      (l.dataModel.instVector top).filter fun inst => inst ∉ new := by
    simp [instancesOnlyIn]
  rw [hvector, hlife]
  refine ⟨rfl, recordDifferences_notified ha rfl ?_ ?_ ?_⟩
  · rw [hcreated, ha, filter_not_exist hne' hclosed]
  · rw [hdeleted, ha, filter_not_exist hne hnew.closed]
  · intro hclean inst hinst
    have hmem : ¬ (inst ∈ l.dataModel.instVector top ↔ inst ∈ new) := by
      rw [hcreated, hdeleted] at hinst
      grind
    have hinstance : ∃ node, IsInstance S node inst := by
      by_cases hold : inst ∈ l.dataModel.instVector top
      · exact hheld inst hold
      · exact (hnew.held inst (by grind)).2
    exact formed_of_clean hS hclean hinstance.choose_spec (hform inst ((hdiff inst).mpr hmem))

/-- The call of a callback that fails. -/
theorem refreshTable_error (e : Err) (callback : RefreshOp Int) (queries : RefreshOp Unit)
    (returnTime : Int) {paths : List Str} (hdue : Due S s top curTime)
    (hcallback : callback s = some (.error e, called S top paths s)) :
    Wp T (refreshTable S resolve top returnTime callback queries) s (fun _ _ => False)
      (fun e' s' => e' = .internalError ∧ Failed S top curTime s s') := by
  have hrun : (Prog.attempt callback : RefreshOp (Except Err Int)) s =
      some (.ok (.error e), called S top paths s) := by
    rw [Prog.attempt, hcallback]
    rfl
  rw [refreshTable, wp_bind_of_run hrun]
  simp only [wp_bind, wp_update, wp_fail]
  refine ⟨trivial, rfl, rfl, fun t ht => ?_⟩
  exact ⟨hdue.table, rfl, hdue.refreshed, hdue.unlocked, Int.lt_of_lt_of_le hdue.expired ht⟩

/-- The state after a callback that succeeded. -/
def replaced (S : DmTree) (resolve : SubsSettings → Agent.State → List Str) (top : NodeId)
    (paths : List Str) (expiryTime : Int) (s : RefreshState) : RefreshState :=
  let new := paths.foldl (refreshInstance S top) []
  let stamped := { s.life with dataModel := stampInstances s.agent top expiryTime }
  { called S top paths s with
    life := {
      if s.notifySubscriptionsAllowed then recordDifferences S resolve top new stamped
      else stamped with
      dataModel := setVector (stampInstances s.agent top expiryTime) top new }
    refreshInstancesTopNode := none }

theorem replaced_instVector (paths : List Str) (expiryTime : Int) :
    (replaced S resolve top paths expiryTime s).agent.instVector top =
      paths.foldl (refreshInstance S top) [] := if_pos rfl

/-- The vector is the one that the callback has built up. -/
theorem refreshed_of_notified {limit : Nat} (hS : SchemaOk limit S) (paths : List Str)
    (expiryTime : Int)
    (hnotified : s.notifySubscriptionsAllowed = true →
      Notified S resolve top s.life (replaced S resolve top paths expiryTime s).life) :
    Refreshed S resolve top paths expiryTime s (replaced S resolve top paths expiryTime s) where
  cleared := rfl
  vector := by
    rw [replaced_instVector]
    exact refreshInstances_ok hS top paths
  reported inst := by rw [replaced_instVector, mem_refreshed hS]
  agent := by
    rw [replaced_instVector]
    rfl
  baseline h := by
    simp only [replaced, h]
    rfl
  notified := hnotified

/-- The call of a callback that succeeds. -/
theorem refreshTable_ok {limit : Nat} (hS : SchemaOk limit S) (expiryPeriod : Int)
    (callback : RefreshOp Int) (queries : Queries) (returnTime : Int) {paths : List Str}
    (hcallback : callback s = some (.ok expiryPeriod, called S top paths s))
    (hheld : ∀ t ∈ s.agent.instVector top, ∃ node, IsInstance S node t)
    (hclosed : PrefixClosed (· ∈ s.agent.instVector top)) :
    Wp (Unformable S top paths s)
      (refreshTable S resolve top returnTime callback (makeQueries S resolve queries)) s
      (fun _ s' => s' = replaced S resolve top paths (returnTime + expiryPeriod) s ∧
        Refreshed S resolve top paths (returnTime + expiryPeriod) s s')
      (fun _ _ => False) := by
  have hrun : (Prog.attempt callback : RefreshOp (Except Err Int)) s =
      some (.ok (.ok expiryPeriod), called S top paths s) := by
    rw [Prog.attempt, hcallback]
    rfl
  have houtcome : ∀ s', s' = replaced S resolve top paths (returnTime + expiryPeriod) s →
      (s.notifySubscriptionsAllowed = true → Notified S resolve top s.life s'.life) →
      s' = replaced S resolve top paths (returnTime + expiryPeriod) s ∧
        Refreshed S resolve top paths (returnTime + expiryPeriod) s s' := by
    rintro s' rfl hnotified
    exact ⟨rfl, refreshed_of_notified hS paths _ hnotified⟩
  rw [refreshTable, wp_bind_of_run hrun]
  simp only [updateAgent, wp_bind, wp_update, replaceInstances]
  cases hallowed : s.notifySubscriptionsAllowed with
  | false =>
    have hcalled : (called S top paths s).notifySubscriptionsAllowed = false := hallowed
    simp only [notifyDifferences, wp_bind, wp_read]
    rw [if_pos hcalled, wp_pure]
    refine houtcome _ ?_ fun h => ?_
    · simp only [replaced, hallowed]
      rfl
    · rw [hallowed] at h
      cases h
  | true =>
    refine (notifyDifferences_notified hS (l := s.life)
      (a := stampInstances s.agent top (returnTime + expiryPeriod)) rfl hheld hclosed
      (refreshInstances_ok hS top paths) queries
      { called S top paths s with
        life := { s.life with
          dataModel := stampInstances s.agent top (returnTime + expiryPeriod) } }
      (Option.some_ne_none top) hallowed rfl rfl fun inst hpath hdiff => ?_).mono
      (fun _ s' h => ?_) fun _ _ h => h
    · rw [mem_refreshed hS] at hdiff
      exact ⟨hallowed, inst, hpath, hdiff⟩
    · obtain ⟨rfl, hnotified⟩ := h
      refine houtcome _ ?_ fun _ => ?_
      · simp only [replaced, hallowed, RefreshState.agent, recordDifferences_dataModel]
        rfl
      · simp only [RefreshState.agent, recordDifferences_dataModel]
        exact hnotified

/-- A call of `RefreshInstVector` whose callback is due. -/
theorem refreshInstVector_spec {limit : Nat} (hS : SchemaOk limit S)
    (resolve : SubsSettings → Agent.State → List Str) (callback : Calls) (result : Except Err Int)
    (returnTime : Int) (resolution : Queries)
    (hdue : Due S s top curTime) (hheld : ∀ t ∈ s.agent.instVector top, ∃ node, IsInstance S node t)
    (hclosed : PrefixClosed (· ∈ s.agent.instVector top)) :
    Wp (Unformable S top callback.reported s)
      (refreshInstVector S resolve top (.mk curTime callback result returnTime resolution)) s
      (fun _ s' => ∃ expiryPeriod, result = .ok expiryPeriod ∧
        s' = replaced S resolve top callback.reported (returnTime + expiryPeriod) s ∧
        Refreshed S resolve top callback.reported (returnTime + expiryPeriod) s s')
      (fun e s' => (∃ e', result = .error e') ∧ e = .internalError ∧
        Failed S top curTime s s') := by
  rw [refreshInstVector, wp_bind_of_run ((mustBeRefreshed_iff hdue.table).mpr hdue), if_pos rfl]
  have hcallback := refreshInstancesCb_eq hS resolve hdue.table callback result s
  cases result with
  | error e =>
    exact (refreshTable_error e _ _ returnTime hdue hcallback).mono (fun _ _ h => h.elim)
      fun _ _ h => ⟨⟨e, rfl⟩, h⟩
  | ok expiryPeriod =>
    exact (refreshTable_ok hS expiryPeriod _ resolution returnTime hcallback hheld hclosed).mono
      (fun _ _ h => ⟨expiryPeriod, rfl, h⟩) fun _ _ h => h.elim

end Runs

/-- A refresh whose callback is due: with the success of the callback the vector has
the instances that were reported after their parents, and the differences to the old
one are recorded; with an error the old vector stays and is refreshed again. No table
is under refresh afterwards. -/
theorem refreshInstVector_outcome (rs : List Registration) (hrs : ∀ r ∈ rs, WithinArrays r)
    (resolve : SubsSettings → Agent.State → List Str) (top : NodeId) (curTime : Int)
    (callback : Calls) (result : Except Err Int) (returnTime : Int) (resolution : Queries)
    (s : RefreshState) (hdue : Due (registerAll initialTree rs) s top curTime)
    (hheld : ∀ t ∈ s.agent.instVector top, ∃ node, IsInstance (registerAll initialTree rs) node t)
    (hclosed : PrefixClosed (· ∈ s.agent.instVector top)) :
    Wp (Unformable (registerAll initialTree rs) top callback.reported s)
      (refreshInstVector (registerAll initialTree rs) resolve top
        (.mk curTime callback result returnTime resolution)) s
      (fun _ s' => ∃ expiryPeriod, result = .ok expiryPeriod ∧
        Refreshed (registerAll initialTree rs) resolve top callback.reported
          (returnTime + expiryPeriod) s s')
      (fun e s' => (∃ e', result = .error e') ∧ e = .internalError ∧
        Failed (registerAll initialTree rs) top curTime s s') := by
  have hS := registered_ok hrs
  exact (refreshInstVector_spec hS resolve callback result returnTime resolution hdue hheld
    hclosed).mono (fun _ _ ⟨expiryPeriod, hresult, _, h⟩ => ⟨expiryPeriod, hresult, h⟩)
    fun _ _ h => h

/-! ## Two tables kept by their vendors -/

/-- `DM_INST_VECTOR_NextLockPeriod`. -/
def nextLockPeriod : RefreshOp Unit :=
  updateAgent fun a => { a with curLockPeriod := a.curLockPeriod + 1 }

/-- Two tables with refresh callbacks, and a table nested in the first. -/
def vendorTables : List Registration :=
  [{ tableRegistration "Device.A.{i}" with
      attach := fun registered => { registered with refreshInstances := true } },
    tableRegistration "Device.A.{i}.C.{i}",
    { tableRegistration "Device.B.{i}" with
      attach := fun registered => { registered with refreshInstances := true } }]

theorem vendorTables_within : ∀ r ∈ vendorTables, WithinArrays r := by
  intro r hr
  simp only [vendorTables, mem_cons, not_mem_nil, or_false] at hr
  rcases hr with rfl | rfl | rfl <;> exact ⟨by decide, by decide, by decide⟩

/-- Reference lists of partial paths: the instances whose paths begin with one of them. -/
def resolvePartialPaths (settings : SubsSettings) (a : Agent.State) : List Str :=
  let held := [2, 4].flatMap a.instVector
  (held.filterMap (formedPath (registerAll initialTree vendorTables))).filter fun path =>
    settings.pathExpressions.any (·.isPrefixOf path)

abbrev refreshVendorTable (top : NodeId) (visit : Visit) : RefreshOp Unit :=
  refreshInstVector (registerAll initialTree vendorTables) resolvePartialPaths top visit

def reporting (path : String) : Calls := .refreshInstance path.toList .done

/-- The start of the agent: both tables have one instance. -/
def takeBaseline : RefreshOp Unit := do
  refreshVendorTable 2 (.mk 1 (reporting "Device.A.1") (.ok 0) 1 .done)
  refreshVendorTable 4 (.mk 1 (reporting "Device.B.1") (.ok 0) 1 .done)
  .update fun s => { s with notifySubscriptionsAllowed := true }
  nextLockPeriod

def atStart : RefreshState := ⟨LifeEvents.initialState Agent.initialState, none, [], false⟩

def afterBaseline : RefreshState := takeBaseline.after atStart

theorem afterBaseline_vectors : afterBaseline.agent.instVector 2 = [[(2, 1)]] ∧
    afterBaseline.agent.instVector 4 = [[(4, 1)]] := by
  decide +kernel

theorem prefixClosed_single (x : NodeId × Int) : PrefixClosed (· ∈ [[x]]) := by
  intro p t ht hp hne
  obtain rfl := List.mem_singleton.mp ht
  cases p with
  | nil => exact absurd rfl hne
  | cons y p =>
    obtain ⟨rfl, hnil⟩ := List.cons_prefix_cons.mp hp
    rw [List.prefix_nil.mp hnil]
    exact mem_cons_self

/-- An instance below one that is reported later, an instance of another table and a
query of it, then a table and its nested one. -/
def mixedCalls : Calls :=
  .refreshInstance "Device.A.2.C.1".toList (.refreshInstance "Device.B.7".toList
    (.query 4 (.mk 2 (reporting "Device.B.2") (.ok 0) 2 .done)
      (.refreshInstance "Device.A.2".toList (.refreshInstance "Device.A.2.C.1".toList .done))))

example : ((refreshVendorTable 2 (.mk 2 mixedCalls (.ok 60) 2 .done)).after
      afterBaseline).agent.instVector 2 = [[(2, 2)], [(2, 2), (3, 1)]] := by
  decide +kernel

/-- The refresh of the first table with these calls. -/
theorem refreshInstVector_outcome_mixed :
    Wp (Unformable (registerAll initialTree vendorTables) 2 mixedCalls.reported afterBaseline)
      (refreshVendorTable 2 (.mk 2 mixedCalls (.ok 60) 2 .done)) afterBaseline
      (fun _ s' => ∃ expiryPeriod, (.ok 60 : Except Err Int) = .ok expiryPeriod ∧
        Refreshed (registerAll initialTree vendorTables) resolvePartialPaths 2 mixedCalls.reported
          (2 + expiryPeriod) afterBaseline s')
      (fun e s' => (∃ e', (.ok 60 : Except Err Int) = .error e') ∧ e = .internalError ∧
        Failed (registerAll initialTree vendorTables) 2 2 afterBaseline s') := by
  refine refreshInstVector_outcome vendorTables vendorTables_within resolvePartialPaths 2 2
    mixedCalls (.ok 60) 2 .done afterBaseline ?_ ?_ ?_
  · exact ⟨by decide +kernel, by decide +kernel, by decide +kernel, by decide +kernel,
      by decide +kernel⟩
  · rw [afterBaseline_vectors.1]
    intro t ht
    rw [List.mem_singleton.mp ht]
    exact ⟨2, by decide, by decide, by decide⟩
  · rw [afterBaseline_vectors.1]
    exact prefixClosed_single (2, 1)

/-- The only instance of the first table is gone, and after that a deletion subscription
to the second one is enabled. -/
def subscribeLate : RefreshOp Unit := do
  refreshVendorTable 2 (.mk 2 .done (.ok 0) 2 .done)
  .update fun s => { s with
    life := { s.life with
      subscriptions := changeSubs (.added ⟨1, 1, true, .objectDeletion, ["Device.B.".toList]⟩)
        s.life.subscriptions } }

def afterSubscription : RefreshState := subscribeLate.after afterBaseline

/-- The refresh that finds the instance of the second table gone. -/
def lateRefresh : RefreshOp Unit := refreshVendorTable 4 (.mk 2 .done (.ok 0) 2 .done)

/-- Its deletion is recorded, and the subscription that names it while it is visible
is not matched with it. -/
theorem late_subscription_not_matched :
    (takeBaseline.result atStart = some (.ok ()) ∧
        subscribeLate.result afterBaseline = some (.ok ()) ∧
        lateRefresh.result afterSubscription = some (.ok ())) ∧
      Due (registerAll initialTree vendorTables) afterSubscription 4 2 ∧
      afterSubscription.agent.instVector 4 = [[(4, 1)]] ∧
      afterSubscription.notifySubscriptionsAllowed = true ∧
      ((lateRefresh.after afterSubscription).life.objectLifeEvents.map fun ole =>
        (ole.objPath, ole.notifyType)) =
          [("Device.A.1".toList, .objectDeletion), ("Device.B.1".toList, .objectDeletion)] ∧
      ¬ MatchedWhileVisible (registerAll initialTree vendorTables) resolvePartialPaths 4
        afterSubscription.life (lateRefresh.after afterSubscription).life := by
  refine ⟨⟨?_, ?_, ?_⟩, ?_, ?_, ?_, ?_, fun h => ?_⟩
  · decide +kernel
  · decide +kernel
  · decide +kernel
  · exact ⟨by decide +kernel, by decide +kernel, by decide +kernel, by decide +kernel,
      by decide +kernel⟩
  · decide +kernel
  · decide +kernel
  · decide +kernel
  · have hsubs : ((lateRefresh.after afterSubscription).life.subscriptions.map fun sub =>
        (sub.settings, sub.resolvedPaths)) =
        [(⟨1, 1, true, .objectDeletion, ["Device.B.".toList]⟩, [])] := by
      decide +kernel
    obtain ⟨sub, hsub, hfields⟩ := List.mem_map.mp (hsubs ▸ mem_singleton_self _)
    obtain ⟨hsettings, hpaths⟩ := Prod.mk.injEq .. ▸ hfields
    have hiff := h sub hsub (by rw [isActive, hsettings]; decide) [(4, 1)] (by decide +kernel)
      "Device.B.1".toList (by decide +kernel)
    rw [hsettings, hpaths] at hiff
    have hresolved : "Device.B.1".toList ∈ resolvePartialPaths
        ⟨1, 1, true, .objectDeletion, ["Device.B.".toList]⟩
        (stillVisible afterSubscription.life (lateRefresh.after afterSubscription).life) := by
      decide +kernel
    exact absurd (hiff.mpr hresolved) (by decide)

end InstanceRefresh
