import SdtTr369.RequestTable

/-!
# Operations from start to completion

What each step does with the outstanding operations, and the condition under
which it does so: an operation ends with one completion and with the removal of
its row, and a reboot leaves no row but those of restarted operations. A status
that could not be set leaves a transaction open, which the next one takes over.
-/

namespace RequestRuns

open UspTypes RequestTable RunHistory List

/-- What the Request table says about an operation from start to completion. -/
structure Operation where
  inst : Nat
  command : Str
  commandKey : Str
  deriving DecidableEq, Repr

def operation (r : Request) : Operation := ⟨r.inst, r.command, r.commandKey⟩

def operations (s : State) : List Operation := s.rows.map operation

/-- What is decided about an operation after a reboot; `none` when it goes on. -/
def restartOutcome (A : RestartAnswers) : Option (Option Err) :=
  match A.decides with
  | .error _ => none
  | .ok (.finished err) => some err
  | .ok .restart =>
    if A.readsArgs = false then some (some .internalError)
    else match A.callback with
    | .error e => some (some e)
    | .ok _ => none

/-- How a step ends an operation; `none` when it does not. -/
def outcome (step : RequestStep) (inst : Nat) : Option (Option Err) :=
  match step with
  | .complete _ i err => if i = inst then some err else none
  | .reboot _ A => restartOutcome (A inst)
  | .operate .. | .status .. => none

def completion (step : RequestStep) (op : Operation) : Option Completion :=
  (outcome step op.inst).map fun err => ⟨op.inst, op.command, readCommandKey op.commandKey, err⟩

/-- The start of `op` is reported in the step. -/
def Started (C : Commands) (s : State) (step : RequestStep) (op : Operation) : Prop :=
  match step with
  | .operate rq calls =>
    .reqObjPath op.command op.inst ∈ reported C rq calls s ∧ op.commandKey = rq.commandKey
  | _ => False

/-- One step does with the outstanding operations what it should. -/
structure StepOk (C : Commands) (s : State) (step : RequestStep) (s' : State) : Prop where
  outstanding : ∃ started,
    operations s' = (operations s).filter (outcome step ·.inst = none) ++ started ∧
      ∀ op, Started C s step op → op ∈ started
  nodup : ((operations s').map (·.inst)).Nodup
  completed : s'.completed = s.completed ++ (operations s).filterMap (completion step)
  restarted : ∀ lists A, step = .reboot lists A →
    ∀ op ∈ operations s', op.inst ∈ s'.restarted

/-! ## The condition -/

def flawless : CompleteAnswers := ⟨true, true, true, ⟨true, true⟩, true, ⟨true, true⟩⟩

def isAsync (C : Commands) (path : Str) : Bool :=
  (C.node path).any fun node => (C.info node).isAsync

/-- The answers under which a step does what it should. -/
def Meets (C : Commands) (s : State) : RequestStep → Prop
  | .operate _ calls => ∀ call ∈ calls, call.start.sqlite = true ∧
      (isAsync C call.path = true → call.commit = ⟨true, true⟩)
  | .complete A inst _ => inst ∈ s.instances → A = flawless
  | .status A inst _ => inst ∈ s.instances → A.lists = true → A.start.sqlite = true
  | .reboot lists A => s.instances ≠ [] → lists = true ∧ ∀ inst ∈ s.instances,
      (A inst).readsCommand = true ∧ (∀ e, (A inst).decides ≠ .error e) ∧
        (restartOutcome (A inst) ≠ none → (A inst).complete = flawless)

/-! ## Tidy states -/

/-- No transaction is open, or one in which nothing has happened. -/
structure Tidy (s : State) : Prop where
  instances : s.instances = s.rows.map (·.inst)
  nodup : s.instances.Nodup
  transaction : (s.curTransaction = none ∧ s.saved = none) ∨
    (s.curTransaction = some [] ∧ s.saved = some s.rows)

def opened (s : State) : State := { s with curTransaction := some [], saved := some s.rows }

def closed (s : State) : State := { s with curTransaction := none, saved := none }

/-- A row was added in the open transaction. -/
def added (s : State) (row : Request) : State :=
  { opened s with
    instances := s.instances ++ [row.inst]
    rows := s.rows ++ [row]
    curTransaction := some [(true, row.inst)] }

theorem initialState_tidy : Tidy initialState :=
  ⟨rfl, nodup_nil, .inl ⟨rfl, rfl⟩⟩

/-- Every row of the database has its number in the instance vector. -/
def Covered (s : State) : Prop := ∀ r ∈ s.rows, r.inst ∈ s.instances

namespace Tidy

variable {s : State}

theorem opened (h : Tidy s) : Tidy (opened s) := ⟨h.instances, h.nodup, .inr ⟨rfl, rfl⟩⟩

theorem closed (h : Tidy s) : Tidy (closed s) := ⟨h.instances, h.nodup, .inl ⟨rfl, rfl⟩⟩

theorem covered (h : Tidy s) : Covered s := by
  intro r hr
  rw [h.instances]
  exact mem_map_of_mem hr

theorem saved_getD (h : Tidy s) : s.saved.getD s.rows = s.rows := by
  rcases h.transaction with ⟨-, hsaved⟩ | ⟨-, hsaved⟩ <;> rw [hsaved] <;> rfl

theorem operations_nodup (h : Tidy s) : ((operations s).map (·.inst)).Nodup := by
  have hinst : (operations s).map (·.inst) = s.instances := by
    rw [h.instances, operations, map_map]
    rfl
  rw [hinst]
  exact h.nodup

end Tidy

theorem transStart_quiet {s : State} (h : (s.curTransaction = none ∧ s.saved = none) ∨
    (s.curTransaction = some [] ∧ s.saved = some s.rows)) {T : TransAnswers}
    (hsqlite : T.sqlite = true) :
    transStart T s = (opened s, true) ∨ transStart T s = (closed s, false) ∧ T.hook = false := by
  rcases h with ⟨hcur, hsaved⟩ | ⟨hcur, hsaved⟩
  · cases hhook : T.hook
    · refine .inr ⟨?_, rfl⟩
      simp [transStart, hcur, hsaved, hsqlite, hhook, transAbort, closed]
    · refine .inl ?_
      simp [transStart, hcur, hsaved, hsqlite, hhook, opened]
  · refine .inl ?_
    have hopen : opened s = s := by
      rw [opened, ← hcur, ← hsaved]
    simp [transStart, hcur, hopen]

theorem transStart_tidy {s : State} (h : Tidy s) {T : TransAnswers} (hsqlite : T.sqlite = true) :
    transStart T s = (opened s, true) ∨ transStart T s = (closed s, false) ∧ T.hook = false :=
  transStart_quiet h.transaction hsqlite

theorem transStart_fine {s : State} (h : Tidy s) : transStart ⟨true, true⟩ s = (opened s, true) := by
  rcases transStart_tidy h (T := ⟨true, true⟩) rfl with hstart | ⟨-, hhook⟩
  · exact hstart
  · cases hhook

theorem transCommit_opened (T : TransAnswers) (s : State) : transCommit T (opened s) = closed s := by
  rcases T with ⟨_ | _, _ | _⟩ <;> rfl

variable {row : Request} {s' : State} {C : Commands} {inst : Nat} {args : OperationArgs.Args}
  {o : Operated} {step : RequestStep}

theorem transAbort_added {s : State} (hfresh : row.inst ∉ s.instances) :
    transAbort (added s row) = closed s := by
  have hundo : (s.instances ++ [row.inst]).filter (· ≠ row.inst) = s.instances := by
    rw [filter_append, List.filter_eq_self.mpr]
    · simp
    · intro inst hinst
      simpa using fun heq : inst = row.inst => hfresh (heq ▸ hinst)
  simp [transAbort, added, opened, closed, undoEntry] at hundo ⊢
  exact hundo

/-- What is left of `added` after its transaction is committed. -/
theorem transCommit_added (s : State) (row : Request) :
    transCommit ⟨true, true⟩ (added s row) =
      closed { s with instances := s.instances ++ [row.inst], rows := s.rows ++ [row] } := rfl

/-! ## Starting operations -/

theorem nextInstance_fresh (s : State) : nextInstance s ∉ s.instances := by
  have hle : ∀ (l : List Nat) (m : Nat), m ≤ l.foldl max m ∧ ∀ n ∈ l, n ≤ l.foldl max m := by
    intro l
    induction l with
    | nil => simp
    | cons a l ih =>
      intro m
      obtain ⟨hm, hl⟩ := ih (max m a)
      refine ⟨by rw [foldl_cons]; omega, fun n hn => ?_⟩
      rw [foldl_cons]
      rcases List.mem_cons.mp hn with rfl | hn
      · omega
      · exact hl n hn
  intro hmem
  have := (hle s.instances 0).2 _ hmem
  simp only [nextInstance] at this
  omega

section

variable {s : State} (h : Covered s)
include h

theorem modifyRow_added (hfresh : row.inst ∉ s.instances) (f : Request → Request)
    (hf : (f row).inst = row.inst) : modifyRow row.inst f (added s row) = added s (f row) := by
  have hsame : (s.rows.map fun r => if r.inst = row.inst then f r else r) = s.rows := by
    conv => rhs; rw [← map_id s.rows]
    refine map_congr_left fun r hr => ?_
    have hne : r.inst ≠ row.inst := by
      intro heq
      apply hfresh
      rw [← heq]
      exact h r hr
    simp [hne]
  simp [modifyRow, added, opened, hsame, hf]

variable {A : OperateAnswers} {path key originator : Str} {node : Nat}

/-- `DEVICE_REQUEST_Add` adds one row, which has the command and its key when it succeeds. -/
theorem requestAdd_spec {r : Except Err Nat}
    (hrun : requestAdd A path key originator (opened s) = (s', r)) :
    s' = opened s ∧ (∃ e, r = .error e) ∨ ∃ row, row.inst = nextInstance s ∧ s' = added s row ∧
      ∀ inst, r = .ok inst → operation row = ⟨inst, path, key⟩ := by
  have hfresh := nextInstance_fresh s
  have hmodify : ∀ (row : Request) (f : Request → Request), row.inst = nextInstance s →
      (f row).inst = row.inst → modifyRow (nextInstance s) f (added s row) = added s (f row) := by
    intro row f hrow hf
    rw [← hrow]
    exact modifyRow_added h (hrow ▸ hfresh) f hf
  have hnext : nextInstance (opened s) = nextInstance s := rfl
  have hadd : logEntry true (nextInstance s) { opened s with
      instances := (opened s).instances ++ [nextInstance s]
      rows := (opened s).rows ++ [⟨nextInstance s, [], [], [], [], none⟩] } =
      added s ⟨nextInstance s, [], [], [], [], none⟩ := rfl
  simp only [requestAdd, hnext, hadd] at hrun
  cases hadds : A.adds
  · simp only [hadds, if_true, Prod.mk.injEq] at hrun
    exact .inl ⟨hrun.1.symm, _, hrun.2.symm⟩
  · right
    simp only [hadds, Bool.true_eq_false, if_false] at hrun
    split at hrun
    · cases hrun
      exact ⟨_, rfl, rfl, nofun⟩
    · rw [hmodify _ _ (by rfl) (by rfl)] at hrun
      split at hrun
      · cases hrun
        exact ⟨_, rfl, rfl, nofun⟩
      · rw [hmodify _ _ (by rfl) (by rfl)] at hrun
        split at hrun
        · cases hrun
          exact ⟨_, rfl, rfl, nofun⟩
        · rw [hmodify _ _ (by rfl) (by rfl)] at hrun
          split at hrun
          · cases hrun
            exact ⟨_, rfl, rfl, nofun⟩
          · rw [hmodify _ _ (by rfl) (by rfl)] at hrun
            cases hrun
            refine ⟨_, rfl, rfl, ?_⟩
            rintro inst ⟨⟩
            rfl

theorem admitAsync_spec {r : Except Err Nat}
    (hrun : admitAsync C A node path key originator (opened s) = (s', r)) :
    (∃ e, r = .error e) ∧ (s' = opened s ∨ ∃ row, row.inst = nextInstance s ∧ s' = added s row) ∨
      ∃ row inst, row.inst = nextInstance s ∧ s' = added s row ∧ r = .ok inst ∧
        operation row = ⟨inst, path, key⟩ := by
  unfold admitAsync at hrun
  split at hrun
  · cases hrun
    exact .inl ⟨⟨_, rfl⟩, .inl rfl⟩
  · rcases requestAdd_spec h hrun with ⟨rfl, herror⟩ | ⟨row, hinst, rfl, hop⟩
    · exact .inl ⟨herror, .inl rfl⟩
    · cases r with
      | error e => exact .inl ⟨⟨e, rfl⟩, .inr ⟨row, hinst, rfl⟩⟩
      | ok inst => exact .inr ⟨row, inst, hinst, rfl, rfl, hop inst rfl⟩

/-- The arguments are put into the new row. -/
theorem persistArgs_spec (hinst : row.inst = inst) (hfresh : row.inst ∉ s.instances)
    (hrun : persistArgs C A node inst args (added s row) = some s') :
    ∃ row', row'.inst = row.inst ∧ operation row' = operation row ∧ s' = added s row' ∧
      ((C.info node).canRestart = true →
        row'.inputArgs = OperationArgs.persistOperationArgs args) := by
  unfold persistArgs at hrun
  split at hrun
  · split at hrun
    · cases hrun
    · obtain ⟨shadow, hshadow, rfl⟩ := Option.map_eq_some_iff.mp hrun
      refine ⟨{ row with inputArgs := some shadow }, rfl, rfl, ?_, fun _ => hshadow.symm⟩
      rw [← hinst]
      exact modifyRow_added h hfresh _ rfl
  · next hcannot =>
    cases hrun
    exact ⟨row, rfl, rfl, rfl, fun hcan => absurd hcan hcannot⟩

/-- What is left in the open transaction by a command that failed. -/
def Undone (s : State) (o : Operated) : Prop :=
  isFailure o.result = true ∧
    (o.state = opened s ∨ ∃ row, row.inst = nextInstance s ∧ o.state = added s row)

/-- What the asynchronous branch leaves in the open transaction. -/
theorem startAsync_spec (hrun : startAsync C A node path key originator args (opened s) = o) :
    Undone s o ∨ ∃ row inst, row.inst = nextInstance s ∧ o.state = added s row ∧
      o.result = .reqObjPath path inst ∧ operation row = ⟨inst, path, key⟩ ∧
      o.received = some (OperationArgs.addTimeRef A.timeRef args) ∧
      ((C.info node).canRestart = true → row.inputArgs =
        OperationArgs.persistOperationArgs (OperationArgs.addTimeRef A.timeRef args)) := by
  subst hrun
  unfold startAsync
  cases hadm : admitAsync C A node path key originator (opened s) with
  | mk s₁ r =>
    rcases admitAsync_spec h hadm with ⟨⟨e, rfl⟩, hs₁⟩ | ⟨row, inst, hinst, rfl, rfl, hop⟩
    · exact .inl ⟨rfl, hs₁⟩
    · dsimp only
      have hrow : row.inst = inst := congrArg Operation.inst hop
      cases hpersist : persistArgs C A node inst (OperationArgs.addTimeRef A.timeRef args)
          (added s row) with
      | none => exact .inl ⟨rfl, .inr ⟨row, hinst, rfl⟩⟩
      | some s₂ =>
        obtain ⟨row', hinst', hop', rfl, hargs⟩ := persistArgs_spec h hrow
          (hinst ▸ nextInstance_fresh s) hpersist
        cases hcallback : A.callback (OperationArgs.addTimeRef A.timeRef args) with
        | error e => exact .inl ⟨rfl, .inr ⟨row', hinst'.trans hinst, rfl⟩⟩
        | ok _ =>
          exact .inr ⟨row', inst, hinst'.trans hinst, rfl, rfl, hop'.trans hop, rfl, hargs⟩

/-- A started operation has a row in the open transaction. -/
theorem operate_spec (hrun : operate C A path key originator args (opened s) = o) :
    Undone s o ∨ ((∃ outputArgs, o.result = .outputArgs path outputArgs) ∧ o.state = opened s) ∨
      ∃ node, C.node path = some node ∧ (C.info node).isAsync = true ∧
        ∃ row inst, row.inst = nextInstance s ∧ o.state = added s row ∧
          o.result = .reqObjPath path inst ∧ operation row = ⟨inst, path, key⟩ ∧
          o.received = some (OperationArgs.addTimeRef A.timeRef args) ∧
          ((C.info node).canRestart = true → row.inputArgs =
            OperationArgs.persistOperationArgs (OperationArgs.addTimeRef A.timeRef args)) := by
  subst hrun
  unfold operate
  cases hchecks : A.checks with
  | error e => exact .inl ⟨rfl, .inl rfl⟩
  | ok _ =>
    cases hnode : C.node path with
    | none => exact .inl ⟨rfl, .inl rfl⟩
    | some node =>
      dsimp only
      split
      · exact .inl ⟨rfl, .inl rfl⟩
      · split
        · next hasync =>
          rcases startAsync_spec h rfl with hundone | hstarted
          · exact .inl hundone
          · exact .inr (.inr ⟨node, rfl, hasync, hstarted⟩)
        · unfold runSync
          cases hcallback : A.callback args with
          | error e => exact .inl ⟨rfl, .inl rfl⟩
          | ok outputArgs => exact .inr (.inl ⟨⟨outputArgs, rfl⟩, rfl⟩)

end

/-- `s'` is `s` with these rows added. -/
structure Grown (s : State) (started : List Operation) (s' : State) : Prop where
  tidy : Tidy s'
  operations : operations s' = operations s ++ started
  completed : s'.completed = s.completed

theorem Grown.of_closed {s : State} (h : Tidy s) : Grown s [] (closed s) :=
  ⟨h.closed, (append_nil _).symm, rfl⟩

theorem Grown.trans {s s₁ s₂ : State} {ops₁ ops₂ : List Operation} (h₁ : Grown s ops₁ s₁)
    (h₂ : Grown s₁ ops₂ s₂) : Grown s (ops₁ ++ ops₂) s₂ := by
  refine ⟨h₂.tidy, ?_, h₂.completed.trans h₁.completed⟩
  rw [h₂.operations, h₁.operations, append_assoc]

theorem Grown.of_added {s : State} (h : Tidy s) (hfresh : row.inst ∉ s.instances) :
    Grown s [operation row] (transCommit ⟨true, true⟩ (added s row)) := by
  rw [transCommit_added]
  refine ⟨⟨?_, ?_, .inl ⟨rfl, rfl⟩⟩, ?_, rfl⟩
  · change s.instances ++ [row.inst] = (s.rows ++ [row]).map (·.inst)
    rw [map_append, ← h.instances]
    rfl
  · change (s.instances ++ [row.inst]).Nodup
    rw [← concat_eq_append]
    exact h.nodup.concat hfresh
  · change (s.rows ++ [row]).map operation = _
    rw [map_append]
    rfl

/-- One path of an Operate request. -/
theorem call_spec {s : State} (h : Tidy s) {call : OperateCall}
    (hcommit : isAsync C call.path = true → call.commit = ⟨true, true⟩) {rq : OperateRequest}
    (hrun : operate C call.answers call.path rq.commandKey rq.originator args (opened s) = o) :
    ∃ started, Grown s started
        (if isFailure o.result then transAbort o.state else transCommit call.commit o.state) ∧
      ∀ path inst, o.result = .reqObjPath path inst → ⟨inst, path, rq.commandKey⟩ ∈ started := by
  rcases operate_spec h.covered hrun with ⟨hfail, hstate⟩ | ⟨⟨outputArgs, hresult⟩, hstate⟩ |
    ⟨node, hnode, hasync, row, inst, hinst, hstate, hresult, hop, -⟩
  · refine ⟨[], ?_, ?_⟩
    · rw [if_pos hfail]
      rcases hstate with hstate | ⟨row, hinst, hstate⟩ <;> rw [hstate]
      · exact Grown.of_closed h
      · rw [transAbort_added (hinst ▸ nextInstance_fresh s)]
        exact Grown.of_closed h
    · intro path inst hresult
      rw [hresult] at hfail
      cases hfail
  · rw [hresult, hstate]
    refine ⟨[], ?_, nofun⟩
    change Grown s [] (transCommit call.commit (opened s))
    rw [transCommit_opened]
    exact Grown.of_closed h
  · rw [hresult, hstate]
    refine ⟨[operation row], ?_, ?_⟩
    · rw [hcommit (by rw [isAsync, hnode]; exact hasync)]
      exact Grown.of_added h (hinst ▸ nextInstance_fresh s)
    · rintro _ _ ⟨⟩
      rw [hop]
      exact List.mem_singleton.mpr rfl

theorem handleOperate_spec {rq : OperateRequest} (calls : List OperateCall) :
    ∀ (args : OperationArgs.Args) (results : List OperResult) (s : State), Tidy s →
      (∀ call ∈ calls, call.start.sqlite = true ∧
        (isAsync C call.path = true → call.commit = ⟨true, true⟩)) →
      ∃ started, Grown s started (handleOperate C rq calls args results s).1 ∧
        ∀ path inst, .reqObjPath path inst ∈ (handleOperate C rq calls args results s).2.getD [] →
          .reqObjPath path inst ∈ results ∨ ⟨inst, path, rq.commandKey⟩ ∈ started := by
  induction calls with
  | nil =>
    intro args results s h _
    exact ⟨[], ⟨h, (append_nil _).symm, rfl⟩, fun _ _ hmem => .inl hmem⟩
  | cons call calls ih =>
    intro args results s h hmeets
    obtain ⟨⟨hsqlite, hcommit⟩, hmeets⟩ := List.forall_mem_cons.mp hmeets
    unfold handleOperate
    rcases transStart_tidy h hsqlite with hstart | ⟨hstart, -⟩
    · rw [hstart]
      dsimp only
      obtain ⟨first, hfirst, hreported⟩ := call_spec h hcommit
        (rfl : operate C call.answers call.path rq.commandKey rq.originator args (opened s) = _)
      obtain ⟨rest, hrest, hmem⟩ := ih _ _ _ hfirst.tidy hmeets
      refine ⟨first ++ rest, hfirst.trans hrest, fun path inst hin => ?_⟩
      rcases hmem path inst hin with hin | hin
      · rcases List.mem_append.mp hin with hin | hin
        · exact .inl hin
        · have hlast := hreported path inst (List.mem_singleton.mp hin).symm
          exact .inr (mem_append_left _ hlast)
      · exact .inr (mem_append_right _ hin)
    · rw [hstart]
      exact ⟨[], Grown.of_closed h, nofun⟩

/-! ## Ending operations -/

/-- The row is gone and its completion is handed over. -/
def finish (row : Request) (err : Option Err) (s : State) : State :=
  closed { s with
    rows := s.rows.filter (·.inst ≠ row.inst)
    instances := s.instances.filter (· ≠ row.inst)
    completed := s.completed ++ [⟨row.inst, row.command, readCommandKey row.commandKey, err⟩] }

theorem Tidy.finish {s : State} (h : Tidy s) (row : Request) (err : Option Err) :
    Tidy (finish row err s) := by
  refine ⟨?_, h.nodup.filter _, .inl ⟨rfl, rfl⟩⟩
  change s.instances.filter _ = (s.rows.filter _).map _
  rw [h.instances, filter_map]
  rfl

theorem findRow_eq {s : State} (h : Tidy s) (hrow : row ∈ s.rows) :
    findRow s row.inst = some row := by
  have hnodup := h.nodup
  rw [h.instances] at hnodup
  cases hfind : findRow s row.inst with
  | none =>
    have := List.find?_eq_none.mp hfind row hrow
    simp at this
  | some found =>
    have hinst : found.inst = row.inst := by simpa using find?_some hfind
    rw [inj_on_of_nodup_map hnodup (mem_of_find?_eq_some hfind) hrow hinst]

theorem operationComplete_absent (A : CompleteAnswers) (err : Option Err) {s : State}
    (habsent : inst ∉ s.instances) : operationComplete A inst err s = s := by
  simp [operationComplete, isRequestInstanceValid, habsent]

/-- `DEVICE_REQUEST_OperationComplete` for a row of the table. -/
theorem operationComplete_row {s : State} (h : Tidy s) (hrow : row ∈ s.rows) (err : Option Err) :
    operationComplete flawless row.inst err s = finish row err s := by
  have hvalid : isRequestInstanceValid true row.inst s = true := by
    rw [isRequestInstanceValid, h.instances]
    simpa using ⟨row, hrow, rfl⟩
  simp only [operationComplete, flawless, hvalid, findRow_eq h hrow, transStart_fine h,
    Bool.true_eq_false, if_false]
  rfl

/-! ## Recovery after a reboot -/

theorem boot_rows {s : State} (h : Tidy s) : (boot s).rows = s.rows.map rebuilt :=
  congrArg (List.map rebuilt) h.saved_getD

theorem boot_instances {s : State} (h : Tidy s) : (boot s).instances = s.instances := by
  change (boot s).rows.map (·.inst) = _
  rw [boot_rows h, map_map, h.instances]
  rfl

theorem Tidy.boot {s : State} (h : Tidy s) : Tidy (boot s) :=
  ⟨rfl, boot_instances h ▸ h.nodup, .inl ⟨rfl, rfl⟩⟩

theorem operations_boot {s : State} (h : Tidy s) : operations (boot s) = operations s := by
  rw [operations, boot_rows h, map_map]
  rfl

/-- What the recovery does with a row about which it can decide. -/
theorem restartRows_cons {A : Nat → RestartAnswers} {rest : List Nat} {s : State} (h : Tidy s)
    (hrow : row ∈ s.rows) (hreads : (A row.inst).readsCommand = true)
    (hdecides : ∀ e, (A row.inst).decides ≠ .error e)
    (hcomplete : restartOutcome (A row.inst) ≠ none → (A row.inst).complete = flawless) :
    restartRows A (row.inst :: rest) s = restartRows A rest
      (match restartOutcome (A row.inst) with
      | none => { s with restarted := s.restarted ++ [row.inst] }
      | some err => finish row err s) := by
  rw [restartRows, hreads, if_neg (by simp)]
  cases hdecide : (A row.inst).decides with
  | error e => exact absurd hdecide (hdecides e)
  | ok decision =>
    cases decision with
    | finished err =>
      have hout : restartOutcome (A row.inst) = some err := by
        rw [restartOutcome, hdecide]
      have hflawless := hcomplete (by rw [hout]; simp)
      simp only [hout, hflawless, operationComplete_row h hrow]
    | restart =>
      cases hargs : (A row.inst).readsArgs with
      | false =>
        have hout : restartOutcome (A row.inst) = some (some .internalError) := by
          rw [restartOutcome, hdecide]
          simp [hargs]
        have hflawless := hcomplete (by rw [hout]; simp)
        simp only [hout, restartAsyncOperation, hargs, if_true, hflawless,
          operationComplete_row h hrow]
      | true =>
        cases hcallback : (A row.inst).callback with
        | error e =>
          have hout : restartOutcome (A row.inst) = some (some e) := by
            rw [restartOutcome, hdecide]
            simp [hargs, hcallback]
          have hflawless := hcomplete (by rw [hout]; simp)
          simp only [hout, restartAsyncOperation, hargs, hcallback, hflawless,
            operationComplete_row h hrow, Bool.true_eq_false, if_false]
        | ok _ =>
          have hout : restartOutcome (A row.inst) = none := by
            rw [restartOutcome, hdecide]
            simp [hargs, hcallback]
          simp only [hout, restartAsyncOperation, hargs, hcallback, Bool.true_eq_false, if_false]

/-- The loop of the recovery: the rows before `todo` were restarted. -/
theorem restartRows_spec (A : Nat → RestartAnswers) (todo : List Request) :
    ∀ (before : List Request) (s : State), Tidy s → s.rows = before ++ todo →
      (∀ row ∈ before, row.inst ∈ s.restarted) →
      (∀ row ∈ todo, (A row.inst).readsCommand = true ∧
        (∀ e, (A row.inst).decides ≠ .error e) ∧
        (restartOutcome (A row.inst) ≠ none → (A row.inst).complete = flawless)) →
      let s' := restartRows A (todo.map (·.inst)) s
      Tidy s' ∧ s'.rows = before ++ todo.filter (fun row => restartOutcome (A row.inst) = none) ∧
        (∀ row ∈ s'.rows, row.inst ∈ s'.restarted) ∧
        s'.completed = s.completed ++ todo.filterMap fun row =>
          (restartOutcome (A row.inst)).map fun err =>
            ⟨row.inst, row.command, readCommandKey row.commandKey, err⟩ := by
  induction todo with
  | nil =>
    intro before s h hrows hrestarted _
    refine ⟨h, hrows, ?_, (append_nil _).symm⟩
    change ∀ row ∈ s.rows, row.inst ∈ s.restarted
    rw [hrows, append_nil]
    exact hrestarted
  | cons row todo ih =>
    intro before s h hrows hrestarted hmeets
    obtain ⟨⟨hreads, hdecides, hcomplete⟩, hmeets⟩ := List.forall_mem_cons.mp hmeets
    have hrow : row ∈ s.rows := by
      rw [hrows]
      exact mem_append_right _ mem_cons_self
    dsimp only
    rw [map_cons, restartRows_cons h hrow hreads hdecides hcomplete]
    cases hout : restartOutcome (A row.inst) with
    | none =>
      have htidy : Tidy { s with restarted := s.restarted ++ [row.inst] } :=
        ⟨h.instances, h.nodup, h.transaction⟩
      have hbefore : ∀ r ∈ before ++ [row], r.inst ∈ s.restarted ++ [row.inst] := by
        intro r hr
        rcases List.mem_append.mp hr with hr | hr
        · exact mem_append_left _ (hrestarted r hr)
        · rw [List.mem_singleton.mp hr]
          exact mem_append_right _ (List.mem_singleton.mpr rfl)
      obtain ⟨htidy', hrows', hall, hcompleted⟩ := ih (before ++ [row])
        { s with restarted := s.restarted ++ [row.inst] } htidy (by simp [hrows]) hbefore hmeets
      refine ⟨htidy', ?_, hall, ?_⟩
      · rw [hrows']
        simp [hout]
      · rw [hcompleted]
        simp [hout]
    | some err =>
      have hnodup := h.nodup
      rw [h.instances, hrows, map_append, map_cons] at hnodup
      have hne : ∀ r ∈ before ++ todo, r.inst ≠ row.inst := by
        intro r hr heq
        have hnot := (List.nodup_middle.mp hnodup).notMem
        apply hnot
        rw [← heq, ← map_append]
        exact mem_map_of_mem hr
      have hrows' : (finish row err s).rows = before ++ todo := by
        have hfilter : (before ++ todo).filter (fun r => r.inst ≠ row.inst) = before ++ todo :=
          List.filter_eq_self.mpr fun r hr => by simpa using hne r hr
        change s.rows.filter (fun r => r.inst ≠ row.inst) = _
        rw [hrows, filter_append, filter_cons, if_neg (by simp), ← filter_append]
        exact hfilter
      obtain ⟨htidy', hrows'', hall, hcompleted⟩ := ih before (finish row err s) (h.finish row err)
        hrows' hrestarted hmeets
      refine ⟨htidy', ?_, hall, ?_⟩
      · rw [hrows'']
        simp [hout]
      · rw [hcompleted]
        simp [finish, closed, hout]

/-! ## Steps -/

theorem updateOperationStatus_spec {s : State} (h : Tidy s) {A : StatusAnswers} (status : Str)
    (hsqlite : inst ∈ s.instances → A.lists = true → A.start.sqlite = true) :
    let s' := updateOperationStatus A inst status s
    Tidy s' ∧ operations s' = operations s ∧ s'.completed = s.completed := by
  dsimp only [updateOperationStatus]
  split
  · exact ⟨h, rfl, rfl⟩
  · rename_i hvalid
    have hvalid : A.lists = true ∧ inst ∈ s.instances := by
      simpa [isRequestInstanceValid] using hvalid
    have hmodify : ∀ f : Request → Request, (∀ r, operation (f r) = operation r) →
        (modifyRow inst f s).rows.map operation = s.rows.map operation := by
      intro f hf
      change (s.rows.map _).map operation = _
      rw [map_map]
      refine map_congr_left fun r _ => ?_
      simp only [Function.comp_apply]
      split
      · exact hf r
      · rfl
    rcases transStart_tidy h (hsqlite hvalid.2 hvalid.1) with hstart | ⟨hstart, -⟩
    · rw [hstart]
      dsimp only
      split
      · exact ⟨h.opened, rfl, rfl⟩
      · have hops := hmodify (fun r => { r with status := status }) fun _ => rfl
        have hinsts := congrArg (List.map Operation.inst) hops
        rw [map_map, map_map] at hinsts
        -- a commit that is refused restores the rows
        rcases A.commit with ⟨_ | _, _ | _⟩
        · exact ⟨h.closed, rfl, rfl⟩
        · exact ⟨h.closed, rfl, rfl⟩
        · exact ⟨h.closed, rfl, rfl⟩
        · refine ⟨⟨?_, h.nodup, .inl ⟨rfl, rfl⟩⟩, hops, rfl⟩
          exact h.instances.trans hinsts.symm
    · rw [hstart]
      exact ⟨h.closed, rfl, rfl⟩

/-- When no operation ends, every operation is kept and none is completed. -/
theorem StepOk.of_grown {s : State} {started : List Operation}
    (hout : ∀ inst, outcome step inst = none) (hgrown : Grown s started s')
    (hstarted : ∀ op, Started C s step op → op ∈ started)
    (hreboot : ∀ lists A, step ≠ .reboot lists A) : StepOk C s step s' := by
  refine ⟨⟨started, ?_, hstarted⟩, hgrown.tidy.operations_nodup, ?_,
    fun lists A h => absurd h (hreboot lists A)⟩
  · simp [hout, hgrown.operations]
  · have hnone : (operations s).filterMap (completion step) = [] := by
      simp [completion, hout]
    rw [hnone, append_nil, hgrown.completed]

theorem complete_spec (C : Commands) {s : State} (h : Tidy s) {A : CompleteAnswers}
    {err : Option Err} (hmeets : inst ∈ s.instances → A = flawless) :
    let s' := operationComplete A inst err s
    Tidy s' ∧ StepOk C s (.complete A inst err) s' := by
  by_cases hmem : inst ∈ s.instances
  · rw [hmeets hmem]
    rw [h.instances] at hmem
    obtain ⟨row, hrow, rfl⟩ := List.mem_map.mp hmem
    dsimp only
    rw [operationComplete_row h hrow]
    refine ⟨h.finish row err, ⟨[], ?_, nofun⟩, (h.finish row err).operations_nodup, ?_, nofun⟩
    · change (s.rows.filter _).map operation = _
      rw [append_nil, operations, filter_map]
      congr 1
      refine filter_congr fun r _ => ?_
      simp only [outcome, operation, Function.comp_apply]
      by_cases heq : row.inst = r.inst
      · simp [heq]
      · simp [heq, Ne.symm heq]
    · change s.completed ++ _ = _
      congr 1
      have hnodup := h.nodup
      rw [h.instances] at hnodup
      obtain ⟨before, after, hsplit⟩ := append_of_mem hrow
      rw [hsplit, map_append, map_cons] at hnodup
      have hne : ∀ r ∈ before ++ after, row.inst ≠ r.inst := by
        intro r hr heq
        have hnot := (List.nodup_middle.mp hnodup).notMem
        apply hnot
        rw [heq, ← map_append]
        exact mem_map_of_mem hr
      have hnone : ∀ rows : List Request, (∀ r ∈ rows, row.inst ≠ r.inst) →
          (rows.map operation).filterMap (completion (.complete flawless row.inst err)) = [] := by
        intro rows hrows
        rw [filterMap_eq_nil_iff]
        intro op hop
        obtain ⟨r, hr, rfl⟩ := List.mem_map.mp hop
        simp [completion, outcome, operation, hrows r hr]
      rw [operations, hsplit, map_append, map_cons, filterMap_append,
        hnone before fun r hr => hne r (mem_append_left _ hr),
        filterMap_cons, hnone after fun r hr => hne r (mem_append_right _ hr)]
      simp [completion, outcome, operation]
  · dsimp only
    rw [operationComplete_absent A err hmem]
    have hout : ∀ op ∈ operations s, outcome (.complete A inst err) op.inst = none := by
      intro op hop
      obtain ⟨r, hr, rfl⟩ := List.mem_map.mp hop
      have hne : inst ≠ r.inst := by
        rintro rfl
        apply hmem
        rw [h.instances]
        exact mem_map_of_mem hr
      simp [outcome, operation, hne]
    refine ⟨h, ⟨[], ?_, nofun⟩, h.operations_nodup, ?_, nofun⟩
    · rw [append_nil, List.filter_eq_self.mpr]
      intro op hop
      simpa using hout op hop
    · rw [List.filterMap_eq_nil_iff.mpr, append_nil]
      intro op hop
      simp [completion, hout op hop]

theorem reboot_spec (C : Commands) {s : State} (h : Tidy s) {lists : Bool} {A : Nat → RestartAnswers}
    (hmeets : Meets C s (.reboot lists A)) :
    let s' := restartAsyncOperations lists A (boot s)
    Tidy s' ∧ StepOk C s (.reboot lists A) s' := by
  dsimp only
  by_cases hempty : s.instances = []
  · have hnone : operations s = [] := by
      rw [h.instances] at hempty
      rw [operations, List.map_eq_nil_iff.mp hempty]
      rfl
    have hsame : restartAsyncOperations lists A (boot s) = boot s := by
      rw [restartAsyncOperations, boot_instances h, hempty]
      split <;> rfl
    rw [hsame]
    refine ⟨h.boot, ⟨[], ?_, nofun⟩, h.boot.operations_nodup, ?_, ?_⟩
    · rw [operations_boot h, hnone]
      rfl
    · rw [hnone]
      exact (append_nil _).symm
    · rintro _ _ - op hop
      rw [operations_boot h, hnone] at hop
      cases hop
  · obtain ⟨hlists, hrow⟩ := hmeets hempty
    have hinstances : ∀ row ∈ (boot s).rows, row.inst ∈ s.instances := fun row hmem => by
      rw [← boot_instances h, h.boot.instances]
      exact mem_map_of_mem hmem
    obtain ⟨htidy, hkept, hall, hcompleted⟩ := restartRows_spec A (boot s).rows [] (boot s) h.boot rfl
      nofun fun row hmem => hrow row.inst (hinstances row hmem)
    have hsame : restartAsyncOperations lists A (boot s) =
        restartRows A ((boot s).rows.map (·.inst)) (boot s) := by
      rw [restartAsyncOperations, if_pos hlists, h.boot.instances]
    rw [hsame]
    refine ⟨htidy, ⟨[], ?_, nofun⟩, htidy.operations_nodup, ?_, ?_⟩
    · rw [← operations_boot h, operations, hkept, nil_append, append_nil, operations,
        filter_map]
      rfl
    · rw [← operations_boot h, hcompleted, operations, filterMap_map]
      rfl
    · rintro _ _ - op hop
      obtain ⟨row, hmem, rfl⟩ := List.mem_map.mp hop
      exact hall row hmem

theorem requestStep_spec {s : State} (h : Tidy s) (hmeets : Meets C s step) :
    Tidy (requestStep C step s) ∧ StepOk C s step (requestStep C step s) := by
  cases step with
  | operate rq calls =>
    obtain ⟨started, hgrown, hreported⟩ := handleOperate_spec calls rq.inputArgs [] s h hmeets
    refine ⟨hgrown.tidy, .of_grown (fun _ => rfl) hgrown ?_ nofun⟩
    rintro ⟨inst, command, commandKey⟩ ⟨hmem, rfl⟩
    rcases hreported command inst hmem with hmem | hmem
    · cases hmem
    · exact hmem
  | complete A inst err => exact complete_spec C h hmeets
  | status A inst status =>
    obtain ⟨htidy, hops, hcompleted⟩ := updateOperationStatus_spec h status hmeets
    have hgrown : Grown s [] (updateOperationStatus A inst status s) :=
      ⟨htidy, by rw [hops, append_nil], hcompleted⟩
    exact ⟨htidy, .of_grown (fun _ => rfl) hgrown nofun nofun⟩
  | reboot lists A => exact reboot_spec C h hmeets

/-! ## Runs -/

/-- A step of a run; it never stops. -/
def runStep (C : Commands) (step : RequestStep) (s : State) : Option State :=
  some (requestStep C step s)

/-- Every step of the run meets the condition in the state in which it is taken. -/
def MeetsAlong (C : Commands) (steps : List RequestStep) : Prop :=
  ∀ before step after s, steps = before ++ step :: after →
    run (runStep C) before initialState = some s → Meets C s step

/-- The start of `op` was reported, and no later step has ended it. -/
def Outstanding (C : Commands) (steps : List RequestStep) (op : Operation) : Prop :=
  Since (runStep C) (fun s step => Started C s step op)
    (fun _ step => outcome step op.inst ≠ none) initialState steps

theorem MeetsAlong.before {C : Commands} {before after : List RequestStep}
    (h : MeetsAlong C (before ++ after)) : MeetsAlong C before := by
  rintro before' step after' s rfl hs
  exact h before' step (after' ++ after) s (by simp) hs

theorem meetsAlong_nil (C : Commands) : MeetsAlong C [] := by
  rintro before step after s hsplit
  simp at hsplit

theorem MeetsAlong.snoc {steps : List RequestStep} (h : MeetsAlong C steps)
    (hlast : ∀ s, run (runStep C) steps initialState = some s → Meets C s step) :
    MeetsAlong C (steps ++ [step]) := by
  rintro before step' after s hsplit hs
  rcases eq_nil_or_concat after with rfl | ⟨after, last, rfl⟩
  · obtain ⟨rfl, hsame⟩ := append_inj' hsplit rfl
    cases hsame
    exact hlast s hs
  · rw [concat_eq_append, ← cons_append, ← append_assoc] at hsplit
    obtain ⟨rfl, -⟩ := append_inj' hsplit rfl
    exact h before step' after s rfl hs

theorem run_tidy : ∀ steps s, run (runStep C) steps initialState = some s →
    MeetsAlong C steps → Tidy s ∧ ∀ op, Outstanding C steps op → op ∈ operations s := by
  refine run_induction (fun _ => ⟨initialState_tidy, fun op h => absurd h not_since_nil⟩) ?_
  rintro steps s step _ hs ih ⟨⟩ hmeets
  obtain ⟨htidy, hout⟩ := ih hmeets.before
  obtain ⟨htidy', hstep⟩ := requestStep_spec htidy (hmeets steps step [] s rfl hs)
  refine ⟨htidy', fun op hop => ?_⟩
  obtain ⟨started, hops, hstarted⟩ := hstep.outstanding
  rw [hops]
  rcases (since_snoc hs step).mp hop with hstart | ⟨hsince, hgoes⟩
  · exact mem_append_right _ (hstarted op hstart)
  · apply mem_append_left
    exact List.mem_filter.mpr ⟨hout op hsince, by simpa using hgoes⟩

/-- When every step of a run meets the condition, each one ends the operations
that it should with one completion and without a row, and starts those that it
reports; an operation has its row from the report of its start to its end. -/
theorem runs_complete (C : Commands) (steps : List RequestStep) (hmeets : MeetsAlong C steps) :
    (∀ before step after s, steps = before ++ step :: after →
        run (runStep C) before initialState = some s → StepOk C s step (requestStep C step s)) ∧
      ∀ s, run (runStep C) steps initialState = some s →
        ∀ op, Outstanding C steps op → op ∈ operations s := by
  refine ⟨?_, fun s hs => (run_tidy steps s hs hmeets).2⟩
  rintro before step after s rfl hs
  have htidy := (run_tidy before s hs hmeets.before).1
  exact (requestStep_spec htidy (hmeets before step after s rfl hs)).2

/-- Every command is an asynchronous operation that can be restarted. -/
def restartable : Commands := ⟨fun _ => some 0, fun _ => ⟨true, none, true⟩⟩

def startCall (path : Str) : OperateCall :=
  ⟨path, ⟨true, true⟩, ⟨.ok (), true, true, true, true, true, true,
    ⟨"2022-02-02T22:22:22Z".toList, by decide⟩, true, fun _ => .ok []⟩, ⟨true, true⟩⟩

def startBoth : RequestStep :=
  .operate ⟨"key".toList, "self::controller".toList, []⟩
    [startCall "Device.Update.1.Download()".toList, startCall "Device.Update.2.Download()".toList]

def restartAll : RestartAnswers := ⟨true, .ok .restart, true, .ok (), flawless⟩

theorem runs_complete_restarted :
    let steps := [startBoth, .complete flawless 1 none, .reboot true fun _ => restartAll]
    MeetsAlong restartable steps ∧
      (∀ before step after s, steps = before ++ step :: after →
        run (runStep restartable) before initialState = some s →
          StepOk restartable s step (requestStep restartable step s)) ∧
      ∀ s, run (runStep restartable) steps initialState = some s →
        ∀ op, Outstanding restartable steps op → op ∈ operations s := by
  have hoperate : MeetsAlong restartable [startBoth] := by
    refine (meetsAlong_nil restartable).snoc fun s _ call hcall => ?_
    simp only [mem_cons, not_mem_nil, or_false] at hcall
    rcases hcall with rfl | rfl <;> exact ⟨rfl, fun _ => rfl⟩
  have hcomplete : MeetsAlong restartable [startBoth, .complete flawless 1 none] :=
    hoperate.snoc fun _ _ _ => rfl
  have hmeets : MeetsAlong restartable
      [startBoth, .complete flawless 1 none, .reboot true fun _ => restartAll] :=
    hcomplete.snoc fun _ _ _ => ⟨rfl, fun _ _ => ⟨rfl, nofun, fun _ => rfl⟩⟩
  exact ⟨hmeets, runs_complete restartable _ hmeets⟩

/-- The object of the first command was removed before the reboot. -/
def withoutFirst (inst : Nat) : RestartAnswers :=
  if inst = 1 then ⟨true, .error .commandFailure, true, .ok (), flawless⟩ else restartAll

/-- The recovery ends at the row about which it cannot decide, without an error to
anyone: the second operation is neither restarted nor completed. -/
theorem undecided_row_ends_recovery :
    let s := requestStep restartable startBoth initialState
    let s' := requestStep restartable (.reboot true withoutFirst) s
    (∀ op ∈ operations s, Started restartable initialState startBoth op) ∧
      operations s' = [⟨1, "Device.Update.1.Download()".toList, "key".toList⟩,
        ⟨2, "Device.Update.2.Download()".toList, "key".toList⟩] ∧
      s'.restarted = [] ∧ s'.completed = [] := by
  have hoperations : operations (requestStep restartable startBoth initialState) =
      [⟨1, "Device.Update.1.Download()".toList, "key".toList⟩,
        ⟨2, "Device.Update.2.Download()".toList, "key".toList⟩] := by
    decide
  refine ⟨?_, by decide⟩
  rw [hoperations]
  intro op hop
  simp only [mem_cons, not_mem_nil, or_false] at hop
  rcases hop with rfl | rfl
  · exact ⟨by decide, rfl⟩
  · exact ⟨by decide, rfl⟩

end RequestRuns
