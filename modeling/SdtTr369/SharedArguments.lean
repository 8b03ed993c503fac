import SdtTr369.RequestRuns

/-!
# The argument vector of a request

The commands of one Operate request share its argument vector, and each asynchronous
command that gets a row appends a time reference to it. What this does to the commands
after it, and to the arguments that are read back after a restart.
-/

namespace SharedArguments

open UspTypes OperationArgs RequestTable List

variable {C : Commands} {rq : OperateRequest} {call : OperateCall} {args : Args} {s : State}

/-- `DATA_MODEL_Operate` for one command of a request. -/
def invoke (C : Commands) (rq : OperateRequest) (call : OperateCall) (args : Args) (s : State) :
    Operated :=
  operate C call.answers call.path rq.commandKey rq.originator args s

/-- The state in which the next command of the request is started. -/
def settled (call : OperateCall) (o : Operated) : State :=
  if isFailure o.result then transAbort o.state else transCommit call.commit o.state

/-- A property of every command of a request, of the argument vector and of the state in
which it is invoked, as far as the transactions can be started. -/
def EveryCommand (C : Commands) (rq : OperateRequest) (P : OperateCall → Args → State → Prop) :
    List OperateCall → Args → State → Prop
  | [], _, _ => True
  | call :: calls, args, s =>
    (transStart call.start s).2 = false ∨ P call args (transStart call.start s).1 ∧
      EveryCommand C rq P calls (invoke C rq call args (transStart call.start s).1).inputArgs
        (settled call (invoke C rq call args (transStart call.start s).1))

/-- Every transaction of the request can be started. -/
def AllStart (C : Commands) (rq : OperateRequest) : List OperateCall → Args → State → Prop
  | [], _, _ => True
  | call :: calls, args, s =>
    (transStart call.start s).2 = true ∧
      AllStart C rq calls (invoke C rq call args (transStart call.start s).1).inputArgs
        (settled call (invoke C rq call args (transStart call.start s).1))

instance decidableEveryCommand {P : OperateCall → Args → State → Prop}
    [∀ call args s, Decidable (P call args s)] :
    ∀ (calls : List OperateCall) (args : Args) (s : State),
      Decidable (EveryCommand C rq P calls args s)
  | [], _, _ => isTrue trivial
  | call :: calls, args, s =>
    have : Decidable (EveryCommand C rq P calls
        (invoke C rq call args (transStart call.start s).1).inputArgs
        (settled call (invoke C rq call args (transStart call.start s).1))) :=
      decidableEveryCommand calls _ _
    inferInstanceAs (Decidable ((transStart call.start s).2 = false ∨
      P call args (transStart call.start s).1 ∧
        EveryCommand C rq P calls (invoke C rq call args (transStart call.start s).1).inputArgs
          (settled call (invoke C rq call args (transStart call.start s).1))))

theorem handleOperate_cons (calls : List OperateCall) (results : List OperResult) :
    handleOperate C rq (call :: calls) args results s =
      if (transStart call.start s).2 = true then
        handleOperate C rq calls (invoke C rq call args (transStart call.start s).1).inputArgs
          (results ++ [(invoke C rq call args (transStart call.start s).1).result])
          (settled call (invoke C rq call args (transStart call.start s).1))
      else ((transStart call.start s).1, none) := by
  rw [handleOperate]
  cases h : transStart call.start s with
  | mk s₁ started =>
    cases started with
    | true => rfl
    | false => rfl

/-! ## What a command leaves of the vector -/

/-- The vector begins with the arguments of the message, and only references follow, which
are there only if the names of the message occur once. -/
structure Extended (rq : OperateRequest) (args : Args) : Prop where
  split : ∃ refs : Args, args = rq.inputArgs ++ refs ∧ ∀ kv ∈ refs, kv.1 = savedTimeRefArgName
  valid : args ≠ rq.inputArgs → validateArguments rq.inputArgs = true

theorem extended_message (rq : OperateRequest) : Extended rq rq.inputArgs :=
  ⟨⟨[], by simp, by simp⟩, fun h => absurd rfl h⟩

variable {A : OperateAnswers} {node inst : Nat} {path key originator : Str} {s' : State}

theorem startAsync_inputArgs :
    (startAsync C A node path key originator args s).inputArgs = args ∨
      (startAsync C A node path key originator args s).inputArgs = addTimeRef A.timeRef args := by
  unfold startAsync
  split
  · exact .inl rfl
  · right
    dsimp only
    split
    · rfl
    · split <;> rfl

/-- A vector that is extended was valid. -/
theorem invoke_inputArgs :
    (invoke C rq call args s).inputArgs = args ∨ validateArguments args = true ∧
      (invoke C rq call args s).inputArgs = addTimeRef call.answers.timeRef args := by
  unfold invoke operate
  split
  · exact .inl rfl
  · split
    · exact .inl rfl
    · split
      · exact .inl rfl
      · next hvalid =>
        rw [Bool.not_eq_false] at hvalid
        split
        · exact startAsync_inputArgs.imp_right fun h => ⟨hvalid, h⟩
        · left
          unfold runSync
          split <;> rfl

theorem Extended.invoke (h : Extended rq args) :
    Extended rq (invoke C rq call args s).inputArgs := by
  rcases @invoke_inputArgs C rq call args s with hsame | ⟨hvalid, hadded⟩
  · rw [hsame]
    exact h
  · obtain ⟨refs, hrefs, hnames⟩ := h.split
    rw [hadded]
    refine ⟨⟨refs ++ [(savedTimeRefArgName, call.answers.timeRef.val)], ?_, ?_⟩, fun _ => ?_⟩
    · rw [addTimeRef, hrefs, append_assoc]
    · intro kv hkv
      rcases List.mem_append.mp hkv with hkv | hkv
      · exact hnames kv hkv
      · rw [List.mem_singleton.mp hkv]
    · rw [validateArguments_iff] at hvalid ⊢
      rw [hrefs, map_append] at hvalid
      exact hvalid.of_append_left

/-! ## The same as alone -/

/-- The same is reported, handed to the callback and left in the tables. -/
def Same (o o' : Operated) : Prop :=
  o.result = o'.result ∧ o.received = o'.received ∧ o.state = o'.state

/-- The command is dealt with as it would be alone, with the arguments of the message. -/
def AsAlone (C : Commands) (rq : OperateRequest) (call : OperateCall) (args : Args) (s : State) :
    Prop :=
  Same (invoke C rq call args s) (invoke C rq call rq.inputArgs s)

/-- A row of the command cannot be added, or its arguments cannot be persisted. -/
def StartFails (C : Commands) (rq : OperateRequest) (call : OperateCall) (node : Nat) (s : State) :
    Prop :=
  (admitAsync C call.answers node call.path rq.commandKey rq.originator s).2.isOk = false ∨
    (C.info node).canRestart = true ∧ call.answers.persistsArgs = false

/-- The command fails before its callback is called, and not for the names of its arguments. -/
def FailsEarly (C : Commands) (rq : OperateRequest) (call : OperateCall) (args : Args)
    (s : State) : Prop :=
  call.answers.checks.isOk = false ∨ match C.node call.path with
    | none => True
    | some node => (C.info node).isAsync = true ∧ validateArguments args = true ∧
        StartFails C rq call node s

/-- No command that gets as far as its callback comes after one that has a row. -/
def NotShared (C : Commands) (rq : OperateRequest) (call : OperateCall) (args : Args)
    (s : State) : Prop :=
  args = rq.inputArgs ∨ FailsEarly C rq call args s

instance (C : Commands) (rq : OperateRequest) (call : OperateCall) (args : Args) (s : State) :
    Decidable (NotShared C rq call args s) := by
  unfold NotShared FailsEarly
  cases C.node call.path <;> unfold StartFails <;> infer_instance

theorem admitAsync_error {e : Err} (h : (admitAsync C A node path key originator s).2 = .error e) :
    e ≠ .commandFailure := by
  unfold admitAsync at h
  split at h
  · cases h
    simp
  · unfold requestAdd at h
    repeat' split at h
    all_goals
      cases h
      try simp

/-- A start that fails is the same for all arguments. -/
theorem startAsync_fails (h : StartFails C rq call node s) :
    ∃ e s', e ≠ .commandFailure ∧ ∀ args, ∃ args',
      startAsync C call.answers node call.path rq.commandKey rq.originator args s =
        ⟨s', args', none, .cmdFailure call.path e⟩ := by
  unfold StartFails at h
  unfold startAsync
  cases hadm : admitAsync C call.answers node call.path rq.commandKey rq.originator s with
  | mk s₁ r =>
    rw [hadm] at h
    cases r with
    | error e => exact ⟨e, s₁, admitAsync_error (congrArg Prod.snd hadm), fun args => ⟨args, rfl⟩⟩
    | ok inst =>
      rcases h with hok | ⟨hcan, hfails⟩
      · cases hok
      · refine ⟨.internalError, s₁, by simp, fun args => ⟨addTimeRef call.answers.timeRef args, ?_⟩⟩
        simp [persistArgs, hcan, hfails]

/-- A command that is started receives its arguments with a reference. -/
theorem startAsync_starts (h : ¬ StartFails C rq call node s) (args : Args) :
    (startAsync C call.answers node call.path rq.commandKey rq.originator args s).received =
      some (addTimeRef call.answers.timeRef args) := by
  rw [StartFails, not_or, Bool.not_eq_false] at h
  unfold startAsync
  cases hadm : admitAsync C call.answers node call.path rq.commandKey rq.originator s with
  | mk s₁ r =>
    cases r with
    | error e =>
      rw [hadm] at h
      cases h.1
    | ok inst =>
      have hpersist : ∀ args, (persistArgs C call.answers node inst args s₁).isSome := by
        intro args
        unfold persistArgs
        split
        · next hcan =>
          rw [if_neg fun hfails => h.2 ⟨hcan, hfails⟩, persistOperationArgs_eq]
          rfl
        · rfl
      obtain ⟨s₂, hs₂⟩ := Option.isSome_iff_exists.mp
        (hpersist (addTimeRef call.answers.timeRef args))
      simp only [hs₂]
      split <;> rfl

theorem runSync_received (A : OperateAnswers) (path : Str) (args : Args) (s : State) :
    (runSync A path args s).received = some args := by
  unfold runSync
  split <;> rfl

/-- A command of the schema whose path passes the checks. -/
theorem invoke_checked (hchecks : call.answers.checks.isOk = true)
    (hnode : C.node call.path = some node) :
    invoke C rq call args s =
      if validateArguments args = false then
        ⟨s, args, none, .cmdFailure call.path .commandFailure⟩
      else if (C.info node).isAsync then
        startAsync C call.answers node call.path rq.commandKey rq.originator args s
      else runSync call.answers call.path args s := by
  unfold invoke operate
  cases hanswer : call.answers.checks with
  | error e =>
    rw [hanswer] at hchecks
    cases hchecks
  | ok _ => simp only [hnode]

/-- A command that comes after one that has a row is dealt with as alone just if it fails
early. -/
theorem same_iff_failsEarly (hne : args ≠ rq.inputArgs)
    (hmessage : validateArguments rq.inputArgs = true) (hchecks : call.answers.checks.isOk = true)
    (hnode : C.node call.path = some node) :
    AsAlone C rq call args s ↔ (C.info node).isAsync = true ∧ validateArguments args = true ∧
      StartFails C rq call node s := by
  rw [AsAlone, invoke_checked hchecks hnode, invoke_checked hchecks hnode]
  simp only [hmessage, Bool.true_eq_false, if_false]
  by_cases hasync : (C.info node).isAsync = true
  · simp only [hasync, if_true, true_and]
    by_cases hfails : StartFails C rq call node s
    · obtain ⟨e, s', he, hstart⟩ := startAsync_fails hfails
      obtain ⟨args₁, hargs⟩ := hstart args
      obtain ⟨args₂, hmsg⟩ := hstart rq.inputArgs
      rw [hmsg]
      cases hvalid : validateArguments args with
      | true =>
        rw [if_neg (by simp), hargs]
        exact iff_of_true ⟨rfl, rfl, rfl⟩ ⟨rfl, hfails⟩
      | false =>
        rw [if_pos rfl]
        refine iff_of_false (fun hsame => he ?_) fun h => Bool.false_ne_true h.1
        injection hsame.1 with _ herror
        exact herror.symm
    · refine iff_of_false (fun hsame => ?_) fun h => hfails h.2
      have hreceived := hsame.2.1
      rw [startAsync_starts hfails] at hreceived
      split at hreceived
      · cases hreceived
      · rw [startAsync_starts hfails, Option.some.injEq, addTimeRef, addTimeRef,
          append_left_inj] at hreceived
        exact hne hreceived
  · refine iff_of_false (fun hsame => ?_) fun h => hasync h.1
    have hreceived := hsame.2.1
    simp only [if_neg hasync] at hreceived
    rw [runSync_received] at hreceived
    split at hreceived
    · cases hreceived
    · rw [runSync_received, Option.some.injEq] at hreceived
      exact hne hreceived

theorem asAlone_iff (h : Extended rq args) : AsAlone C rq call args s ↔ NotShared C rq call args s := by
  by_cases hsame : args = rq.inputArgs
  · rw [hsame]
    exact iff_of_true ⟨rfl, rfl, rfl⟩ (.inl rfl)
  · rw [NotShared, or_iff_right hsame]
    cases hchecks : call.answers.checks.isOk with
    | false =>
      refine iff_of_true ?_ (.inl hchecks)
      unfold AsAlone invoke operate
      cases hanswer : call.answers.checks with
      | error e => exact ⟨rfl, rfl, rfl⟩
      | ok _ =>
        rw [hanswer] at hchecks
        cases hchecks
    | true =>
      cases hnode : C.node call.path with
      | none =>
        refine iff_of_true ?_ (.inr (by simp [hnode]))
        unfold AsAlone invoke operate
        cases call.answers.checks with
        | error e => exact ⟨rfl, rfl, rfl⟩
        | ok _ =>
          simp only [hnode]
          exact ⟨rfl, rfl, rfl⟩
      | some node =>
        rw [same_iff_failsEarly hsame (h.valid hsame) hchecks hnode]
        simp [FailsEarly, hchecks, hnode]

/-! ## A whole request -/

/-- Two properties that agree for every vector that the request can come to. -/
theorem everyCommand_congr {P Q : OperateCall → Args → State → Prop}
    (hcongr : ∀ call args s, Extended rq args → (P call args s ↔ Q call args s)) :
    ∀ (calls : List OperateCall) (args : Args) (s : State), Extended rq args →
      (EveryCommand C rq P calls args s ↔ EveryCommand C rq Q calls args s) := by
  intro calls
  induction calls with
  | nil => exact fun _ _ _ => Iff.rfl
  | cons call calls ih =>
    intro args s h
    exact or_congr Iff.rfl (and_congr (hcongr call args _ h) (ih _ _ h.invoke))

/-- The commands of a request when each of them is invoked with the arguments of the
message, and the state in the end. -/
def alone (C : Commands) (rq : OperateRequest) : List OperateCall → State → List Operated × State
  | [], s => ([], s)
  | call :: calls, s =>
    let o := invoke C rq call rq.inputArgs (transStart call.start s).1
    let rest := alone C rq calls (settled call o)
    (o :: rest.1, rest.2)

/-- There is the result that each command gives alone, in their order, just if every
transaction starts. -/
theorem handleOperate_alone : ∀ (calls : List OperateCall) (args : Args)
    (results : List OperResult) (s : State), EveryCommand C rq (AsAlone C rq) calls args s →
    (handleOperate C rq calls args results s = ((alone C rq calls s).2,
        some (results ++ (alone C rq calls s).1.map (·.result))) ↔ AllStart C rq calls args s) := by
  intro calls
  induction calls with
  | nil =>
    intro args results s _
    simp [handleOperate, alone, AllStart]
  | cons call calls ih =>
    intro args results s hall
    rw [handleOperate_cons]
    by_cases hstart : (transStart call.start s).2 = true
    · obtain ⟨hsame, hrest⟩ := hall.resolve_left (by simp [hstart])
      have hsettled : settled call (invoke C rq call args (transStart call.start s).1) =
          settled call (invoke C rq call rq.inputArgs (transStart call.start s).1) := by
        rw [settled, settled, hsame.1, hsame.2.2]
      rw [if_pos hstart, AllStart, and_iff_right hstart, ← ih _ (results ++
        [(invoke C rq call rq.inputArgs (transStart call.start s).1).result]) _ hrest, hsettled,
        hsame.1]
      simp [alone]
    · rw [if_neg hstart]
      exact iff_of_false (by simp) fun h => hstart h.1

/-- A request is answered by the result that each command gives alone, in their order, and
every command is dealt with as alone, if and only if the transactions start and no command
that gets as far as its callback comes after one that has a row. -/
theorem commands_as_alone_iff (C : Commands) (rq : OperateRequest) (calls : List OperateCall)
    (s : State) :
    (handleOperate C rq calls rq.inputArgs [] s =
        ((alone C rq calls s).2, some ((alone C rq calls s).1.map (·.result))) ∧
      EveryCommand C rq (AsAlone C rq) calls rq.inputArgs s) ↔
      AllStart C rq calls rq.inputArgs s ∧
        EveryCommand C rq (NotShared C rq) calls rq.inputArgs s := by
  rw [← everyCommand_congr (fun _ _ _ h => asAlone_iff h) calls _ s (extended_message rq)]
  exact and_congr_left fun hall => handleOperate_alone calls rq.inputArgs [] s hall

/-- Three objects are updated by one request. -/
def updateAll : OperateRequest :=
  ⟨"key".toList, "self::controller".toList, [("URL".toList, "http://image".toList)]⟩

def updateCalls : List OperateCall :=
  [RequestRuns.startCall "Device.Update.1.Download()".toList,
    RequestRuns.startCall "Device.Update.2.Download()".toList,
    RequestRuns.startCall "Device.Update.3.Download()".toList]

/-- The second command receives a second reference, and the third is refused for it. -/
theorem third_command_refused :
    ¬ EveryCommand RequestRuns.restartable updateAll (AsAlone RequestRuns.restartable updateAll)
      updateCalls updateAll.inputArgs initialState := by
  rw [everyCommand_congr (fun _ _ _ h => asAlone_iff h) _ _ _ (extended_message updateAll)]
  decide

/-! ## Reading the arguments back -/

theorem modifyRow_insts {f : Request → Request} (hf : ∀ r, (f r).inst = r.inst) (s : State) :
    (modifyRow inst f s).rows.map (·.inst) = s.rows.map (·.inst) := by
  simp only [modifyRow, map_map]
  refine map_congr_left fun r _ => ?_
  simp only [Function.comp]
  split
  · exact hf r
  · rfl

/-- The number that is returned for a new row is that of a row. -/
theorem requestAdd_inst (h : requestAdd A path key originator s = (s', .ok inst)) :
    inst ∈ s'.rows.map (·.inst) := by
  unfold requestAdd at h
  split at h
  · cases h
  · dsimp only at h
    iterate 4
      split at h
      · cases h
    injection h with hstate hinst
    injection hinst with hinst
    subst hstate hinst
    iterate 4 rw [modifyRow_insts (by intro r; rfl)]
    simp [logEntry]

theorem admitAsync_inst (h : admitAsync C A node path key originator s = (s', .ok inst)) :
    inst ∈ s'.rows.map (·.inst) := by
  unfold admitAsync at h
  split at h
  · cases h
  · exact requestAdd_inst h

/-- The rows with the number of a restartable command get its arguments. -/
theorem persistArgs_args (hcan : (C.info node).canRestart = true)
    (h : persistArgs C A node inst args s = some s') :
    s'.rows.map (·.inst) = s.rows.map (·.inst) ∧
      ∀ row ∈ s'.rows, row.inst = inst → row.inputArgs = persistOperationArgs args := by
  rw [persistArgs, if_pos hcan] at h
  split at h
  · cases h
  · obtain ⟨shadow, hshadow, rfl⟩ := Option.map_eq_some_iff.mp h
    refine ⟨modifyRow_insts (by intro r; rfl) s, fun row hrow hinst => ?_⟩
    obtain ⟨row', -, rfl⟩ := List.mem_map.mp hrow
    split at hinst
    · next heq =>
      rw [if_pos heq, hshadow]
    · next hne => exact absurd hinst hne

/-- A command passes all checks, gets a row and is accepted by its callback. -/
def Starts (C : Commands) (rq : OperateRequest) (call : OperateCall) (node : Nat) (args : Args)
    (s : State) : Prop :=
  call.answers.checks.isOk = true ∧ validateArguments args = true ∧
    (C.info node).isAsync = true ∧ ¬ StartFails C rq call node s ∧
    (call.answers.callback (addTimeRef call.answers.timeRef args)).isOk = true

/-- What a started command leaves in its row. -/
theorem invoke_started (hnode : C.node call.path = some node) (h : Starts C rq call node args s) :
    ∃ inst, (invoke C rq call args s).result = .reqObjPath call.path inst ∧
      (invoke C rq call args s).received = some (addTimeRef call.answers.timeRef args) ∧
      ((C.info node).canRestart = true →
        inst ∈ (invoke C rq call args s).state.rows.map (·.inst) ∧
        ∀ row ∈ (invoke C rq call args s).state.rows, row.inst = inst →
          row.inputArgs = persistOperationArgs (addTimeRef call.answers.timeRef args)) := by
  obtain ⟨hchecks, hvalid, hasync, hstarts, hcallback⟩ := h
  rw [invoke_checked hchecks hnode, if_neg (by simp [hvalid]), if_pos hasync]
  have hreceived := startAsync_starts hstarts args
  revert hreceived
  unfold startAsync
  cases hadm : admitAsync C call.answers node call.path rq.commandKey rq.originator s with
  | mk s₁ r =>
    cases r with
    | error e => exact fun h => nomatch h
    | ok inst =>
      dsimp only
      cases hpersist : persistArgs C call.answers node inst
          (addTimeRef call.answers.timeRef args) s₁ with
      | none => exact fun h => nomatch h
      | some s₂ =>
        cases hanswer : call.answers.callback (addTimeRef call.answers.timeRef args) with
        | error e =>
          rw [hanswer] at hcallback
          cases hcallback
        | ok _ =>
          refine fun hreceived => ⟨inst, rfl, hreceived, fun hcan => ?_⟩
          obtain ⟨hinsts, hargs⟩ := persistArgs_args hcan hpersist
          refine ⟨?_, hargs⟩
          dsimp only
          rw [hinsts]
          exact admitAsync_inst hadm

/-- Only a command that passes all checks is reported as started. -/
theorem starts_of_result (hnode : C.node call.path = some node)
    (h : (invoke C rq call args s).result = .reqObjPath path inst) :
    Starts C rq call node args s := by
  have hchecks : call.answers.checks.isOk = true := by
    unfold invoke operate at h
    cases hanswer : call.answers.checks with
    | error e =>
      rw [hanswer] at h
      cases h
    | ok _ => rfl
  rw [invoke_checked hchecks hnode] at h
  split at h
  · cases h
  · next hvalid =>
    rw [Bool.not_eq_false] at hvalid
    split at h
    · next hasync =>
      have hstarts : ¬ StartFails C rq call node s := by
        intro hfails
        obtain ⟨e, s', -, hstart⟩ := startAsync_fails hfails
        obtain ⟨args', hargs⟩ := hstart args
        rw [hargs] at h
        cases h
      refine ⟨hchecks, hvalid, hasync, hstarts, ?_⟩
      unfold startAsync at h
      split at h
      · cases h
      · dsimp only at h
        split at h
        · cases h
        · split at h
          · cases h
          · next hanswer => rw [hanswer]; rfl
    · unfold runSync at h
      split at h <;> cases h

/-- A row of a restartable command that was started is read back after a reboot as what the
callback was called with, in which the time is once. -/
def ReadsBack (C : Commands) (rq : OperateRequest) (call : OperateCall) (args : Args) (s : State) :
    Prop :=
  ∀ node inst, C.node call.path = some node → (C.info node).canRestart = true →
    (invoke C rq call args s).result = .reqObjPath call.path inst →
    ∃ passed, (invoke C rq call args s).received = some passed ∧
      passed.countP (·.1 = savedTimeRefArgName) = 1 ∧
      ∀ row ∈ (invoke C rq call args s).state.rows, row.inst = inst →
        (rebuilt row).inputArgs.bind readOperationArgs = some passed

/-- A restartable command that starts is the first of its request, and the arguments of the
message fit into the buffers and do not have the name of the time reference. -/
def Readable (C : Commands) (rq : OperateRequest) (call : OperateCall) (args : Args) (s : State) :
    Prop :=
  match C.node call.path with
  | none => True
  | some node => (C.info node).canRestart = true → Starts C rq call node args s →
      args = rq.inputArgs ∧ ∀ kv ∈ rq.inputArgs, Fits kv ∧ kv.1 ≠ savedTimeRefArgName

instance (C : Commands) (rq : OperateRequest) (call : OperateCall) (args : Args) (s : State) :
    Decidable (Readable C rq call args s) := by
  unfold Readable
  cases C.node call.path <;> unfold Starts StartFails <;> infer_instance

theorem rebuilt_readBack (row : Request) :
    (rebuilt row).inputArgs.bind readOperationArgs = row.inputArgs.bind readBack := by
  cases h : row.inputArgs <;> simp [rebuilt, readBack, h]

theorem fits_timeRef (now : DateTime) : Fits (savedTimeRefArgName, now.val) := by
  have hname : savedTimeRefArgName.length < maxDmPath := by decide
  exact ⟨hname, now.property.trans (by decide)⟩

/-- One time reference is in the extended vector just if the vector is that of the message
and the message has none. -/
theorem one_timeRef_iff (h : Extended rq args) (now : DateTime) :
    (addTimeRef now args).countP (·.1 = savedTimeRefArgName) = 1 ↔
      args = rq.inputArgs ∧ ∀ kv ∈ rq.inputArgs, kv.1 ≠ savedTimeRefArgName := by
  obtain ⟨refs, rfl, hnames⟩ := h.split
  have hrefs : refs.countP (·.1 = savedTimeRefArgName) = refs.length :=
    List.countP_eq_length.mpr fun kv hkv => decide_eq_true (hnames kv hkv)
  have hmessage := countP_eq_zero (p := fun kv : Str × Str => decide (kv.1 = savedTimeRefArgName))
    (l := rq.inputArgs)
  simp only [decide_eq_true_eq] at hmessage
  rw [addTimeRef, countP_append, countP_append, hrefs]
  simp only [countP_singleton, decide_true, if_true, append_right_eq_self]
  rw [← hmessage, ← length_eq_zero_iff]
  omega

theorem readsBack_iff (h : Extended rq args) :
    ReadsBack C rq call args s ↔ Readable C rq call args s := by
  unfold ReadsBack Readable
  cases hnode : C.node call.path with
  | none => exact iff_of_true (fun _ _ hsome => nomatch hsome) trivial
  | some node =>
    dsimp only
    have hreads : (persistOperationArgs (addTimeRef call.answers.timeRef args)).bind readBack =
        some (addTimeRef call.answers.timeRef args) ↔ ∀ kv ∈ args, Fits kv := by
      rw [readBack_eq_iff (by simp [addTimeRef])]
      simp [addTimeRef, or_imp, forall_and, fits_timeRef]
    constructor
    · intro hback hcan hstarts
      obtain ⟨inst, hresult, hreceived, hrow⟩ := invoke_started hnode hstarts
      obtain ⟨hinst, hargs⟩ := hrow hcan
      obtain ⟨passed, hpassed, hcount, hread⟩ := hback node inst rfl hcan hresult
      rw [hreceived, Option.some.injEq] at hpassed
      subst hpassed
      obtain ⟨hsame, hnames⟩ := (one_timeRef_iff h _).mp hcount
      obtain ⟨row, hmem, heq⟩ := List.mem_map.mp hinst
      have hrowread := hread row hmem heq
      rw [rebuilt_readBack, hargs row hmem heq, hreads] at hrowread
      exact ⟨hsame, fun kv hkv => ⟨hrowread kv (hsame ▸ hkv), hnames kv hkv⟩⟩
    · intro hreadable node' inst hnode' hcan hresult
      cases hnode'
      have hstarts := starts_of_result hnode hresult
      obtain ⟨hsame, hfits⟩ := hreadable hcan hstarts
      obtain ⟨inst', hresult', hreceived, hrow⟩ := invoke_started hnode hstarts
      rw [hresult'] at hresult
      cases hresult
      refine ⟨_, hreceived, (one_timeRef_iff h _).mpr ⟨hsame, fun kv hkv => (hfits kv hkv).2⟩, ?_⟩
      intro row hmem hinst
      rw [rebuilt_readBack, (hrow hcan).2 row hmem hinst, hreads, hsame]
      exact fun kv hkv => (hfits kv hkv).1

/-- Every restartable command of a request has its arguments back after a reboot if and only
if each one that starts is the first of the request that gets a row, and the arguments of the
message fit into the buffers and do not have the name of the time reference. -/
theorem arguments_read_back_iff (C : Commands) (rq : OperateRequest) (calls : List OperateCall)
    (s : State) :
    EveryCommand C rq (ReadsBack C rq) calls rq.inputArgs s ↔
      EveryCommand C rq (Readable C rq) calls rq.inputArgs s :=
  everyCommand_congr (fun _ _ _ h => readsBack_iff h) calls _ s (extended_message rq)

/-- The second object is updated with two time references. -/
theorem second_command_not_read_back :
    ¬ EveryCommand RequestRuns.restartable updateAll (ReadsBack RequestRuns.restartable updateAll)
      updateCalls updateAll.inputArgs initialState := by
  rw [everyCommand_congr (fun _ _ _ h => readsBack_iff h) _ _ _ (extended_message updateAll)]
  decide

end SharedArguments
