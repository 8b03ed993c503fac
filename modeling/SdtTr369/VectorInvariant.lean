import SdtTr369.BootInstances

/-!
# The instance vectors over whole runs

A run begins with a boot from some database. Two steps register a tuple without
asking for its parent, `DATA_MODEL_AddParameterInstances` at boot and
`DATA_MODEL_InformInstance`, and an abort can put a tuple back whose parent it
has removed. Where these three find or leave the parents, every vector is free of
duplicates and closed under ancestors in every state of the run, and the two
queries for the instances of a table agree.
-/

namespace VectorInvariant

open UspTypes Schema SchemaInvariant PathCodec EffectProgram Agent InstVector DmTrans DataModel
open UndoLog PathRoundTrip InstanceTree HeldInstances AbortedTransaction
open CommittedTransaction BootInstances

structure VectorsOk (S : DmTree) (a : State) : Prop where
  ok : StateOk S a
  closed : Closed a

/-! ## The two queries -/

/-- `DATA_MODEL_GetNumInstances` gives the length of the list that
`DATA_MODEL_GetInstances` gives, and fails when this fails. -/
def CountsAgree (S : DmTree) (W : World) (a : State) : Prop :=
  ∀ path node inst, getQualifiedNode S path = some (node, inst, false) →
    Prog.result (getNumInstances S W path) a =
      (Prog.result (getInstances S W path) a).map (Except.map List.length)

section Queries

variable {S : DmTree} {W : World} {a : State}

theorem count_eq_length (h : VectorsOk S a) (node : NodeId) (inst : DmInstances) :
    countInstances node inst (a.instVector (topNodeOf node inst)) =
      (listInstances node inst (a.instVector (topNodeOf node inst))).length := by
  obtain ⟨l, hnodup, hmem, hcount⟩ := countInstances_eq node inst h.ok
  have hperm : l.Perm (listInstances node inst (a.instVector (topNodeOf node inst))) := by
    refine (List.perm_ext_iff_of_nodup hnodup (listInstances_nodup _)).mpr fun n => ?_
    rw [hmem, mem_listInstances h.ok]
    exact ⟨Held.known, fun hk => h.closed.held_of_known hk (by simp)⟩
  rw [hcount, hperm.length_eq]

theorem countsAgree (hS : SchemaOk maxDmInstanceOrder S) (h : VectorsOk S a) :
    CountsAgree S W a := by
  intro path node inst hget
  have hspec := getQualifiedNode_spec hS hget
  have hm := (hspec.2.2 rfl).1
  have htable : IsTableOf S node inst := ⟨hspec.1, hm, (hspec.2.2 rfl).2⟩
  have htop : inst ≠ [] → (S.node (topNode inst)).type ≠ .objectMultiInstance → False := by
    intro hne hno
    refine hno (topNode_table hS hspec.1 ?_ hne)
    rw [← htable.nodes]
    exact List.prefix_append ..
  simp only [getNumInstances, getInstances, hget, hm, ne_eq, not_true_eq_false, ↓reduceIte,
    Bool.false_eq_true]
  have hexist := instVectorIsExist_spec (W := W) hS h.ok htop
  obtain ⟨r, b, hrun⟩ := hexist.exists_run
  cases r with
  | error e => rw [Prog.result_bind_error hrun, Prog.result_bind_error hrun]; rfl
  | ok found =>
    rw [Prog.result_bind hrun, Prog.result_bind hrun]
    have hb := ((hexist.of_run hrun).1 found rfl).1
    cases found with
    | false => rfl
    | true =>
      simp only [↓reduceIte, instVectorGetNumInstances, instVectorGetInstances]
      have hrequire : requireTable S node inst b = some (.ok (), b) := by
        have := wp_requireTable (T := False) (a := b) (Q := fun _ c => c = b)
          (E := fun _ _ => False) hS htable rfl
        obtain ⟨r, c, hrun⟩ := this.exists_run
        obtain ⟨hok, herr⟩ := this.of_run hrun
        cases r with
        | error e => exact (herr e rfl).elim
        | ok u => rw [hrun, hok u rfl]
      rw [Prog.result_bind hrequire, Prog.result_bind hrequire]
      have hrefresh := refreshInstVector_quiet (T := False) (W := W) (a := b) hS
        (topNodeOf node inst)
      obtain ⟨r, c, hrun⟩ := hrefresh.exists_run
      cases r with
      | error e => rw [Prog.result_bind_error hrun, Prog.result_bind_error hrun]; rfl
      | ok u =>
        have hc := ((hrefresh.of_run hrun).1 u rfl).1
        rw [Prog.result_bind hrun, Prog.result_bind hrun]
        have hquiet := hb.trans hc
        have heq := count_eq_length ⟨hquiet.ok h.ok, hquiet.closed h.closed⟩ node inst
        simp only [Prog.result, Prog.read, Option.map_some, Except.map, heq]

end Queries

/-! ## Steps of a run -/

/-- The calls that change or read the instances. -/
inductive VectorOp where
  | add (path : Str) (wantInstance : Bool) (flags : AddFlags)
  | delete (path : Str) (flags : DelFlags)
  | set (path value : Str) (checkWritable : Bool)
  | inform (path : Str)
  | notifyAdded (path : Str)
  | notifyDeleted (path : Str)
  | numInstances (path : Str)
  | instances (path : Str)
  deriving DecidableEq, Repr

/-- The callers go on after a call that fails. -/
def runVectorOp (S : DmTree) (W : World) : VectorOp → Op Unit
  | .add path wantInstance flags => .ignore (addInstance S W path wantInstance flags)
  | .delete path flags => .ignore (deleteInstance S W path flags)
  | .set path value checkWritable => .ignore (setParameterValue S W path value checkWritable)
  | .inform path => .ignore (informInstance S path)
  | .notifyAdded path => .ignore (notifyInstanceAdded S W path)
  | .notifyDeleted path => .ignore (notifyInstanceDeleted S W path)
  | .numInstances path => .ignore (getNumInstances S W path)
  | .instances path => .ignore (getInstances S W path)

/-- A commit has the calls that the notify functions make at each level of its
cascade; refreshes happen inside the calls, once in each lock period. -/
inductive Step where
  | start
  | commit (notifies : List (List VectorOp))
  | abort
  | call (op : VectorOp)
  | nextLockPeriod
  deriving DecidableEq, Repr

def runOps (S : DmTree) (W : World) (ops : List VectorOp) : Op Unit :=
  .forEach ops (runVectorOp S W)

def runStep (S : DmTree) (W : World) : Step → Op Unit
  | .start => .ignore (transStart S W)
  | .commit notifies => .ignore (transCommit S W (notifies.map (runOps S W)))
  | .abort => .ignore (transAbort S W)
  | .call op => runVectorOp S W op
  | .nextLockPeriod => .update fun a => { a with curLockPeriod := a.curLockPeriod + 1 }

/-! ## The condition -/

/-- An instance is informed of after its parent. -/
def OpMeets (S : DmTree) (op : VectorOp) (a : State) : Prop :=
  match op with
  | .inform path => ∀ node inst, getQualifiedNode S path = some (node, inst, true) →
      inst.dropLast = [] ∨ Held a inst.dropLast
  | _ => True

/-- The replay of the current log puts tuples back only under their ancestors. -/
def AbortMeets (S : DmTree) (a : State) : Prop :=
  RestoresUnder (Held a) (changes S (logOf a))

/-- A commit that is refused is an abort, at every level of the cascade. -/
def CommitMeets (S : DmTree) (W : World) : List (List VectorOp) → State → Prop
  | [], a => commitRefused W a = true → AbortMeets S a
  | ops :: rest, a => (commitRefused W a = true → AbortMeets S a) ∧
      (Prog.result (commitLog S W) a = some (.ok true) →
        MeetsAlong (OpMeets S) (runVectorOp S W) ops
            ((transStart S W).after ((commitLog S W).after a)) ∧
          CommitMeets S W rest
            ((runOps S W ops).after ((transStart S W).after ((commitLog S W).after a))))

def StepMeets (S : DmTree) (W : World) (step : Step) (a : State) : Prop :=
  match step with
  | .commit notifies => CommitMeets S W notifies a
  | .abort => AbortMeets S a
  | .call op => OpMeets S op a
  | _ => True

/-! ## What a step keeps -/

section Steps

variable {S : DmTree} {W : World} {a : State}

theorem VectorsOk.quiet {a' : State} (h : VectorsOk S a) (h' : Quiet S a a') : VectorsOk S a' :=
  ⟨h'.ok h.ok, h'.closed h.closed⟩

theorem VectorsOk.accounted {a' : State} (h : Accounted S a a') : VectorsOk S a' :=
  ⟨h.ok, h.closed⟩

section

variable (hS : SchemaOk maxDmInstanceOrder S)
include hS

theorem informInstance_ok (h : VectorsOk S a) {path : Str} (hmeets : OpMeets S (.inform path) a) :
    Keeps True (informInstance S path) a (VectorsOk S) := by
  unfold informInstance
  split
  · exact h
  rename_i node inst isQualified hget
  split
  · exact h
  rename_i hnot
  rw [not_or, Bool.not_eq_false] at hnot
  obtain ⟨rfl, hne⟩ := hnot
  have hspec := getQualifiedNode_spec hS hget
  obtain ⟨table, hinst⟩ := instance_of_nodes hS hspec.1 (hspec.2.1 rfl) hne
  refine wp_instVectorAdd hne (fun _ => trivial) ?_
  exact ⟨h.ok.addHeld hinst, h.closed.addHeld (hmeets node inst hget)⟩

theorem notifyInstanceAdded_ok (h : VectorsOk S a) (path : Str) :
    Keeps True (notifyInstanceAdded S W path) a (VectorsOk S) := by
  unfold notifyInstanceAdded
  split
  · exact h
  rename_i node inst isQualified hget
  split
  · exact h
  rename_i hm
  split
  · exact h
  rename_i hq
  rw [Bool.not_eq_false] at hq
  subst hq
  have hinst := getQualifiedNode_instance hS hget (Decidable.not_not.mp hm)
  rw [Keeps, wp_bind]
  refine (instVectorIsExist_spec hS h.ok fun _ _ => trivial).mono (fun found b hb => ?_)
    fun _ _ hb => h.quiet hb
  have h₁ := h.quiet hb.1
  split
  · exact h₁
  rw [wp_bind]
  refine (instVectorIsExist_spec hS h₁.ok fun _ _ => trivial).mono (fun found' c hc => ?_)
    fun _ _ hc => h₁.quiet hc
  have h₂ := h₁.quiet hc.1
  split
  · rename_i hparent
    refine wp_instVectorAdd (hinst.ne_nil hS) (fun _ => trivial) ?_
    refine ⟨h₂.ok.addHeld hinst, h₂.closed.addHeld ?_⟩
    by_cases hne : inst.dropLast = []
    · exact .inl hne
    · exact .inr (h₂.closed.held_of_known ((hc.2.2.mp hparent).resolve_left hne) hne)
  · exact h₂

theorem notifyInstanceDeleted_ok (h : VectorsOk S a) (path : Str) :
    Keeps True (notifyInstanceDeleted S W path) a (VectorsOk S) := by
  unfold notifyInstanceDeleted
  split
  · exact h
  rename_i node inst isQualified hget
  split
  · exact h
  rename_i hm
  split
  · exact h
  rename_i hq
  rw [Bool.not_eq_false] at hq
  subst hq
  have hinst := getQualifiedNode_instance hS hget (Decidable.not_not.mp hm)
  rw [Keeps, wp_bind]
  refine (instVectorIsExist_spec hS h.ok fun _ _ => trivial).mono (fun found b hb => ?_)
    fun _ _ hb => h.quiet hb
  have h₁ := h.quiet hb.1
  split
  · rw [wp_bind]
    refine (resolveObjectDeletionPaths_quiet hS).mono (fun _ c hc => ?_) fun _ _ h => h.elim
    have h₂ := h₁.quiet hc
    refine wp_instVectorRemove (hinst.ne_nil hS) (fun _ => trivial) ?_
    exact ⟨h₂.ok.removeHeld, h₂.closed.removeHeld (hinst.ne_nil hS)⟩
  · exact h₁

/-- A query refreshes and reads. -/
theorem query_ok {β : Type} (h : VectorsOk S a) {node : NodeId} {inst : DmInstances}
    {f : State → β} {e : Err} :
    Keeps True (do
        if ← instVectorIsExist S W inst then
          requireTable S node inst
          refreshInstVector S W (topNodeOf node inst)
          .read f
        else .fail e : Op β) a (VectorsOk S) := by
  rw [Keeps, wp_bind]
  refine (instVectorIsExist_spec hS h.ok fun _ _ => trivial).mono (fun found b hb => ?_)
    fun _ _ hb => h.quiet hb
  have h₁ := h.quiet hb.1
  split
  · simp only [requireTable, wp_bind, wp_require, wp_requireTop, wp_read]
    split
    · split
      · exact (refreshInstVector_quiet hS _).mono (fun _ _ hc => h₁.quiet hc.1)
          fun _ _ hc => h₁.quiet hc
      · trivial
    · trivial
  · exact h₁

theorem runVectorOp_ok (op : VectorOp) (h : VectorsOk S a) (hmeets : OpMeets S op a) :
    Keeps True (runVectorOp S W op) a (VectorsOk S) := by
  cases op with
  | add path wantInstance flags =>
    rw [runVectorOp, Keeps, wp_ignore]
    exact keeps_mono (addInstance_accounted hS h.ok h.closed (fun _ => trivial) path wantInstance
      flags) fun _ => VectorsOk.accounted
  | delete path flags =>
    rw [runVectorOp, Keeps, wp_ignore]
    exact keeps_mono (deleteInstance_accounted hS h.ok h.closed (fun _ => trivial) path flags)
      fun _ => VectorsOk.accounted
  | set path value checkWritable =>
    rw [runVectorOp, Keeps, wp_ignore]
    exact keeps_mono (setParameterValue_accounted hS h.ok h.closed path value checkWritable)
      fun _ => VectorsOk.accounted
  | inform path =>
    rw [runVectorOp, Keeps, wp_ignore]
    exact informInstance_ok hS h hmeets
  | notifyAdded path =>
    rw [runVectorOp, Keeps, wp_ignore]
    exact notifyInstanceAdded_ok hS h path
  | notifyDeleted path =>
    rw [runVectorOp, Keeps, wp_ignore]
    exact notifyInstanceDeleted_ok hS h path
  | numInstances path =>
    rw [runVectorOp, Keeps, wp_ignore, getNumInstances]
    split
    · exact h
    split
    · exact h
    split
    · exact h
    exact query_ok hS h
  | instances path =>
    rw [runVectorOp, Keeps, wp_ignore, getInstances]
    split
    · exact h
    split
    · exact h
    split
    · exact h
    exact query_ok hS h

theorem runOps_ok (ops : List VectorOp) (h : VectorsOk S a)
    (hmeets : MeetsAlong (OpMeets S) (runVectorOp S W) ops a) :
    Keeps True (runOps S W ops) a (VectorsOk S) :=
  keeps_run (fun op _ h hmeets => runVectorOp_ok hS op h hmeets) ops h hmeets

theorem transStart_ok (h : VectorsOk S a) : Keeps True (transStart S W) a (VectorsOk S) := by
  cases hcur : a.curTransaction with
  | none =>
    refine (transStart_spec hS h.ok hcur).mono (fun _ b hb => ?_) fun _ b hb => ?_
    · exact ⟨hb.ok h.ok, hb.closed h.closed⟩
    · exact ⟨hb.ok, h.closed.congr hb.held⟩
  | some log =>
    simp only [Keeps, transStart, wp_bind, wp_read, isWithinTransaction, hcur, Option.isSome_some,
      ↓reduceIte, wp_pure]
    exact h

end

theorem aborted_ok {a' : State} {log : List DmTrans} (h : VectorsOk S a)
    (hlog : a.curTransaction = some log) (hmeets : AbortMeets S a) (ha : Aborted S a a' log) :
    VectorsOk S a' := by
  rw [AbortMeets, logOf, hlog, Option.getD_some] at hmeets
  exact ⟨ha.ok, ((replay_prefixClosed_iff h.closed).mpr hmeets).congr ha.held⟩

theorem transAbort_ok (hS : SchemaOk maxDmInstanceOrder S) (h : VectorsOk S a)
    (hmeets : AbortMeets S a) : Keeps True (transAbort S W) a (VectorsOk S) := by
  cases hcur : a.curTransaction with
  | none =>
    simp only [Keeps, transAbort, wp_bind, wp_read, hcur, wp_pure]
    exact h
  | some log =>
    exact keeps_mono (transAbort_spec hS h.ok hcur) fun _ => aborted_ok h hcur hmeets

theorem abortMeets_nil (h : logOf a = []) : AbortMeets S a := by
  intro p t _ _ ⟨c, hc, _⟩
  rw [h] at hc
  cases hc

theorem commitLog_ok (hS : SchemaOk maxDmInstanceOrder S) (h : VectorsOk S a)
    (hmeets : commitRefused W a = true → AbortMeets S a) :
    Wp True (commitLog S W) a (fun _ b => VectorsOk S b ∧ b.curTransaction = none)
      (fun _ b => VectorsOk S b) := by
  cases hcur : a.curTransaction with
  | none =>
    simp only [commitLog, wp_bind, wp_read, hcur, wp_pure]
    exact ⟨h, trivial⟩
  | some log =>
    refine (commitLog_spec hS h.ok hcur).mono (fun _ b hb => ?_) fun _ b hb => ?_
    · exact ⟨⟨hb.1.ok h.ok, h.closed.congr hb.1.held⟩, hb.1.log⟩
    · exact aborted_ok h hcur (hmeets hb.2) hb.1

/-- The cascade begins with an empty log. -/
theorem cascadeStart_ok (hS : SchemaOk maxDmInstanceOrder S) (h : VectorsOk S a)
    (hnone : a.curTransaction = none) :
    Keeps True (transStart S W) a fun b => VectorsOk S b ∧ logOf b = [] := by
  refine (transStart_spec hS h.ok hnone).mono (fun _ b hb => ?_) fun _ b hb => ?_
  · refine ⟨⟨hb.ok h.ok, hb.closed h.closed⟩, ?_⟩
    rw [logOf, hb.log]
    rfl
  · exact ⟨⟨hb.ok, h.closed.congr hb.held⟩, hb.log⟩

/-- A commit keeps what its cascade keeps. -/
theorem commitWith_ok (hS : SchemaOk maxDmInstanceOrder S) (h : VectorsOk S a)
    (hmeets : commitRefused W a = true → AbortMeets S a) {cascade : Op Unit}
    (hcascade : Prog.result (commitLog S W) a = some (.ok true) →
      let b := (transStart S W).after ((commitLog S W).after a)
      VectorsOk S b → logOf b = [] → Keeps True cascade b (VectorsOk S)) :
    Keeps True (commitWith S W cascade) a (VectorsOk S) := by
  rw [commitWith, Keeps, wp_bind]
  refine (commitLog_ok hS h hmeets).and_run.mono (fun more b hb => ?_) fun _ _ hb => hb.1
  obtain ⟨⟨hb, hnone⟩, hrun⟩ := hb
  cases more with
  | false => exact hb
  | true =>
    obtain ⟨hresult, rfl⟩ := Prog.result_after hrun
    have hrest : ∀ c, (VectorsOk S c ∧ logOf c = []) ∧
        c = (transStart S W).after ((commitLog S W).after a) →
        Wp True (do
          .ignore cascade
          .require (← .read fun a => !isWithinTransaction a) : Op Unit) c
          (fun _ => VectorsOk S) (fun _ => VectorsOk S) := by
      rintro c ⟨⟨hc, hlog⟩, rfl⟩
      simp only [wp_bind, wp_ignore, wp_read, wp_require]
      refine (hcascade hresult hc hlog).mono (fun _ d hd => ?_) fun _ d hd => ?_ <;>
      · split
        · exact hd
        · trivial
    simp only [↓reduceIte]
    rw [wp_bind, wp_ignore]
    exact (cascadeStart_ok hS hb hnone).and_after.mono (fun _ c hc => hrest c hc)
      fun _ c hc => hrest c hc

theorem transCommit_ok (hS : SchemaOk maxDmInstanceOrder S) (notifies : List (List VectorOp))
    (h : VectorsOk S a) (hmeets : CommitMeets S W notifies a) :
    Keeps True (transCommit S W (notifies.map (runOps S W))) a (VectorsOk S) := by
  induction notifies generalizing a with
  | nil =>
    refine commitWith_ok hS h hmeets fun _ hb hlog => ?_
    refine commitWith_ok hS hb (fun _ => abortMeets_nil hlog) fun _ hc _ => ?_
    exact hc
  | cons ops rest ih =>
    obtain ⟨habort, hcascade⟩ := hmeets
    refine commitWith_ok hS h habort fun hmore hb _ => ?_
    obtain ⟨hops, hrest⟩ := hcascade hmore
    rw [Keeps, wp_bind, wp_ignore]
    refine (runOps_ok hS ops hb hops).and_after.mono (fun _ c hc => ?_) fun _ c hc => ?_ <;>
    · obtain ⟨hc, rfl⟩ := hc
      exact ih hc hrest

theorem runStep_ok (hS : SchemaOk maxDmInstanceOrder S) (step : Step) (h : VectorsOk S a)
    (hmeets : StepMeets S W step a) : Keeps True (runStep S W step) a (VectorsOk S) := by
  cases step with
  | start =>
    rw [runStep, Keeps, wp_ignore]
    exact transStart_ok hS h
  | commit notifies =>
    rw [runStep, Keeps, wp_ignore]
    exact transCommit_ok hS notifies h hmeets
  | abort =>
    rw [runStep, Keeps, wp_ignore]
    exact transAbort_ok hS h hmeets
  | call op => exact runVectorOp_ok hS op h hmeets
  | nextLockPeriod => exact ⟨⟨h.ok.held, h.ok.nodup, h.ok.entries⟩, h.closed⟩

theorem bootState_vectorsOk (hS : SchemaOk maxDmInstanceOrder S) {rows : List (Key × Str)}
    (hrows : RowsUnderParents S rows) (removeUnknownParams : Bool) :
    VectorsOk S (bootState S W rows removeUnknownParams) := by
  obtain ⟨hok, -, hheld⟩ := bootState_spec (W := W) hS rows removeUnknownParams
  exact ⟨hok, closed_of_rows hrows hheld⟩

end Steps

/-! ## Runs -/

/-- What is said of every state of a run. -/
structure VectorsAgree (S : DmTree) (W : World) (a : State) : Prop where
  nodup : ∀ top, (a.instVector top).Nodup
  closed : Closed a
  counts : CountsAgree S W a

theorem run_keeps_vectors (rs : List Registration) (hrs : ∀ r ∈ rs, WithinArrays r) (W : World)
    (rows : List (Key × Str)) (removeUnknownParams : Bool) (steps : List Step) (a : State)
    (hrows : RowsUnderParents (registerAll initialTree rs) rows)
    (hmeets : MeetsAlong (StepMeets (registerAll initialTree rs) W)
      (runStep (registerAll initialTree rs) W) steps
      (bootState (registerAll initialTree rs) W rows removeUnknownParams))
    (hrun : Prog.forEach steps (runStep (registerAll initialTree rs) W)
      (bootState (registerAll initialTree rs) W rows removeUnknownParams) = some (.ok (), a)) :
    VectorsAgree (registerAll initialTree rs) W a := by
  have hS := registered_ok hrs
  have hrun' := keeps_run (T := True) (fun step _ h hmeets => runStep_ok hS step h hmeets) steps
    (bootState_vectorsOk hS hrows removeUnknownParams) hmeets
  have h := (hrun'.of_run hrun).1 () rfl
  exact ⟨h.ok.nodup, h.closed, countsAgree hS h⟩

/-- An instance of each of the two nested tables is added and committed. -/
def addNested : List Step :=
  [.start, .call (.add "Device.A.1".toList false {}), .call (.add "Device.A.1.B.7".toList false {}),
    .commit []]

/-- From an empty database. -/
theorem run_keeps_vectors_nested :
    let S := registerAll initialTree nestedTables
    VectorsAgree S quietWorld
      ((Prog.forEach addNested (runStep S quietWorld)).after (bootState S quietWorld [] false)) := by
  intro S
  refine run_keeps_vectors nestedTables nestedTables_within quietWorld [] false addNested _ ?_ ?_
    (Prog.run_eq (by decide +kernel))
  · intro row hrow
    cases hrow
  · refine ⟨trivial, trivial, trivial, fun hrefused => ?_, trivial⟩
    exact absurd hrefused (by decide +kernel)

/-- After a boot from the rows that `addNested` leaves, one query finds no instance of
the outer table and the other finds one. -/
theorem boot_loses_parent :
    let S := registerAll initialTree nestedTables
    let a := (Prog.forEach addNested (runStep S quietWorld)).after (bootState S quietWorld [] false)
    let b := bootState S quietWorld a.db.rows false
    Prog.result (getNumInstances S quietWorld "Device.A".toList) b = some (.ok 0) ∧
      Prog.result (getInstances S quietWorld "Device.A".toList) b = some (.ok [1]) ∧
      ¬ VectorsAgree S quietWorld b := by
  intro S a b
  have hnum : Prog.result (getNumInstances S quietWorld "Device.A".toList) b = some (.ok 0) := by
    decide +kernel
  have hlist : Prog.result (getInstances S quietWorld "Device.A".toList) b = some (.ok [1]) := by
    decide +kernel
  refine ⟨hnum, hlist, fun h => ?_⟩
  have hagree := h.counts "Device.A".toList 2 [] (by decide +kernel)
  rw [hnum, hlist] at hagree
  simp [Except.map] at hagree

end VectorInvariant
