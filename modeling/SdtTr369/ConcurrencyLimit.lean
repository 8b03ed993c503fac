import SdtTr369.RequestRuns

/-!
# The limit of concurrent operations

`DEVICE_REQUEST_CountMatchingRequests` goes through the Request table until it
finds a command that is not in the schema, and gives up with `INVALID` at a row
that it cannot read. The count of both endings is compared with the limit as if
all rows had been seen. Where the rows that are seen before the first unknown
command reach the limit, the comparison is the right one, and where all requests
of a run are judged so, no command ever has more rows than its limit.
-/

namespace ConcurrencyLimit

open UspTypes RequestTable RequestRuns RunHistory List

/-! ## Counting the requests -/

/-- `INVALID` -/
def invalid : Int := -1

/-- How the table is read: whether its instances can be listed, and the command of each. -/
structure TableReads where
  listed : Bool
  readable : Nat → Bool

/-- The parameter `Command` of a row; its default is the empty string. -/
def command (s : State) (inst : Nat) : Str := ((findRow s inst).map (·.command)).getD []

/-- The loop of `DEVICE_REQUEST_CountMatchingRequests`. -/
def countLoop (C : Commands) (readable : Nat → Bool) (commandNode : Nat) (s : State) :
    List Nat → Int → Int
  | [], count => count
  | instance_ :: rest, count =>
    if readable instance_ = false then invalid
    else match C.node (command s instance_) with
      | none => count
      | some node =>
        countLoop C readable commandNode s rest (if node = commandNode then count + 1 else count)

/-- `DEVICE_REQUEST_CountMatchingRequests` -/
def countRequests (C : Commands) (R : TableReads) (commandNode : Nat) (s : State) : Int :=
  if R.listed = false then invalid
  else countLoop C R.readable commandNode s s.instances 0

/-- The rows of a command in the Request table. -/
def running (C : Commands) (node : Nat) (s : State) : Nat :=
  s.rows.countP fun r => C.node r.command = some node

def known (C : Commands) (s : State) (inst : Nat) : Bool := (C.node (command s inst)).isSome

def matching (C : Commands) (node : Nat) (s : State) (inst : Nat) : Bool :=
  C.node (command s inst) = some node

/-- Every row up to the first with an unknown command can be read. -/
def Read (C : Commands) (readable : Nat → Bool) (s : State) (instances : List Nat) : Prop :=
  ∀ before inst after, instances = before ++ inst :: after →
    (∀ i ∈ before, known C s i = true) → readable inst = true

theorem read_nil (C : Commands) (readable : Nat → Bool) (s : State) : Read C readable s [] := by
  intro before inst after hsplit
  simp at hsplit

variable {C : Commands} {readable : Nat → Bool} {inst node limit : Nat} {R : TableReads}
  {A : OperateAnswers} {path key originator : Str} {args : OperationArgs.Args}

theorem read_cons {s : State} {rest : List Nat} : Read C readable s (inst :: rest) ↔
      readable inst = true ∧ (known C s inst = true → Read C readable s rest) := by
  constructor
  · intro h
    refine ⟨h [] inst rest rfl nofun, ?_⟩
    rintro hknown before i after rfl hbefore
    exact h (inst :: before) i after rfl (List.forall_mem_cons.mpr ⟨hknown, hbefore⟩)
  · rintro ⟨hinst, hrest⟩ before i after hsplit hbefore
    cases before with
    | nil =>
      cases hsplit
      exact hinst
    | cons j before =>
      cases hsplit
      obtain ⟨hknown, hbefore⟩ := List.forall_mem_cons.mp hbefore
      exact hrest hknown before i after rfl hbefore

theorem countLoop_read {s : State} :
    ∀ {instances : List Nat} {count : Int}, Read C readable s instances →
      countLoop C readable node s instances count =
        count + ((instances.takeWhile (known C s)).countP (matching C node s) : Nat) := by
  intro instances
  induction instances with
  | nil =>
    intro count _
    simp [countLoop]
  | cons inst rest ih =>
    intro count hread
    obtain ⟨hinst, hrest⟩ := read_cons.mp hread
    cases hnode : C.node (command s inst) with
    | none => simp [countLoop, hinst, hnode, known]
    | some found =>
      have hknown : known C s inst = true := by simp [known, hnode]
      rw [countLoop, if_neg (by simp [hinst]), hnode]
      dsimp only
      rw [ih (hrest hknown), takeWhile_cons_of_pos hknown, countP_cons]
      simp only [matching, hnode, Option.some.injEq, decide_eq_true_eq]
      split <;> omega

theorem countLoop_unread {s : State} :
    ∀ {instances : List Nat} {count : Int}, ¬ Read C readable s instances →
      countLoop C readable node s instances count = invalid := by
  intro instances
  induction instances with
  | nil => exact fun h => absurd (read_nil C readable s) h
  | cons inst rest ih =>
    intro count hread
    rw [read_cons, not_and] at hread
    cases hinst : readable inst with
    | false => simp [countLoop, hinst]
    | true =>
      have hrest := hread hinst
      rw [Classical.not_imp] at hrest
      obtain ⟨hknown, hrest⟩ := hrest
      obtain ⟨found, hnode⟩ := Option.isSome_iff_exists.mp hknown
      simp only [countLoop, hinst, hnode, Bool.true_eq_false, if_false]
      exact ih hrest

/-- The table can be listed and read, and the limit is reached before the first row whose
command is unknown. -/
structure CountsUpTo (C : Commands) (R : TableReads) (node limit : Nat) (s : State) : Prop where
  listed : R.listed = true
  readable : Read C R.readable s s.instances
  reached : limit ≤ (s.instances.takeWhile (known C s)).countP (matching C node s)

/-- The count reaches the limit just where the rows that are seen do. -/
theorem countRequests_reaches {s : State} :
    countRequests C R node s ≠ invalid ∧ (limit : Int) ≤ countRequests C R node s ↔
      CountsUpTo C R node limit s := by
  unfold countRequests
  cases hlisted : R.listed with
  | false =>
    simp only [if_true]
    exact ⟨fun h => absurd rfl h.1, fun h => absurd h.listed (by simp [hlisted])⟩
  | true =>
    simp only [Bool.true_eq_false, if_false]
    by_cases hread : Read C R.readable s s.instances
    · rw [countLoop_read hread]
      constructor
      · rintro ⟨-, hle⟩
        exact ⟨hlisted, hread, by omega⟩
      · intro h
        have hreached := h.reached
        refine ⟨?_, by omega⟩
        unfold invalid
        omega
    · rw [countLoop_unread hread]
      exact ⟨fun h => absurd rfl h.1, fun h => absurd h.readable hread⟩

/-! ## The table and its instance vector -/

/-- The instances are those of the rows, in any order, and no transaction has done anything. -/
structure Settled (s : State) : Prop where
  instances : s.instances.Perm (s.rows.map (·.inst))
  nodup : s.instances.Nodup
  transaction : (s.curTransaction = none ∧ s.saved = none) ∨
    (s.curTransaction = some [] ∧ s.saved = some s.rows)

theorem Settled.of_tidy {s : State} (h : Tidy s) : Settled s :=
  ⟨h.instances ▸ List.Perm.refl _, h.nodup, h.transaction⟩

namespace Settled

variable {s : State}

theorem covered (h : Settled s) : Covered s :=
  fun _ hr => h.instances.symm.subset (mem_map_of_mem hr)

theorem opened (h : Settled s) : Settled (opened s) := ⟨h.instances, h.nodup, .inr ⟨rfl, rfl⟩⟩

theorem closed (h : Settled s) : Settled (closed s) := ⟨h.instances, h.nodup, .inl ⟨rfl, rfl⟩⟩

theorem rows_nodup (h : Settled s) : (s.rows.map (·.inst)).Nodup := h.instances.nodup_iff.mp h.nodup

theorem findRow_eq (h : Settled s) {r : Request} (hr : r ∈ s.rows) :
    findRow s r.inst = some r := by
  cases hfind : findRow s r.inst with
  | none =>
    have := List.find?_eq_none.mp hfind r hr
    simp at this
  | some found =>
    have hinst : found.inst = r.inst := by simpa using find?_some hfind
    rw [inj_on_of_nodup_map h.rows_nodup (mem_of_find?_eq_some hfind) hr hinst]

theorem command_eq (h : Settled s) {r : Request} (hr : r ∈ s.rows) :
    command s r.inst = r.command := by
  rw [command, h.findRow_eq hr]
  rfl

theorem findRow_isSome (h : Settled s) (hinst : inst ∈ s.instances) :
    ∃ r, findRow s inst = some r := by
  obtain ⟨r, hr, rfl⟩ := List.mem_map.mp (h.instances.subset hinst)
  exact ⟨r, h.findRow_eq hr⟩

/-- The rows of a command are counted by their instances. -/
theorem running_eq (h : Settled s) (C : Commands) (node : Nat) :
    running C node s = s.instances.countP (matching C node s) := by
  rw [h.instances.countP_eq, countP_map, running]
  refine countP_congr fun r hr => ?_
  simp [matching, h.command_eq hr]

/-- What the model of the operations counts is what the loop counts where it can read. -/
theorem countMatching_eq (h : Settled s) (C : Commands) (node : Nat) :
    countMatchingRequests C node s =
      (s.instances.takeWhile (known C s)).countP (matching C node s) := by
  have hnodes : ∀ inst ∈ s.instances,
      ((findRow s inst).map (·.command)).bind C.node = C.node (command s inst) := by
    intro inst hinst
    obtain ⟨r, hr⟩ := h.findRow_isSome hinst
    rw [command, hr]
    rfl
  have hmap : (s.instances.map fun inst => (findRow s inst).map (·.command)).map
      (fun command => command.bind C.node) = s.instances.map fun inst => C.node (command s inst) := by
    rw [map_map]
    exact map_congr_left hnodes
  rw [countMatchingRequests, hmap, takeWhile_map, countP_map]
  rfl

end Settled

/-- The answer about the table comes from reading it so. -/
def ReadAs (C : Commands) (A : OperateAnswers) (R : TableReads) (node : Nat) (s : State) : Prop :=
  A.counts = decide (countRequests C R node s ≠ invalid)

/-- Whether the request is refused is whether the count, `INVALID` or not, reaches the limit. -/
theorem isLimitReached_iff {s : State} (h : Settled s)
    (hlimit : (C.info node).maxConcurrency = some limit) (hread : ReadAs C A R node s) :
    isLimitReached C A node s = true ↔ CountsUpTo C R node limit s := by
  rw [isLimitReached, hlimit, Bool.and_eq_true, decide_eq_true_eq, hread, decide_eq_true_eq,
    h.countMatching_eq]
  constructor
  · rintro ⟨hcounts, hreached⟩
    have hzero : CountsUpTo C R node 0 s := countRequests_reaches.mp ⟨hcounts, ?_⟩
    · exact ⟨hzero.listed, hzero.readable, hreached⟩
    · unfold countRequests at hcounts ⊢
      split at hcounts
      · exact absurd rfl hcounts
      · next hlisted =>
        rw [if_neg hlisted]
        by_cases hall : Read C R.readable s s.instances
        · rw [countLoop_read hall]
          omega
        · exact absurd (countLoop_unread hall) hcounts
  · intro hup
    exact ⟨(countRequests_reaches.mpr hup).1, hup.reached⟩

/-- The rows that are seen are some of the rows. -/
theorem CountsUpTo.le_running {s : State} (h : CountsUpTo C R node limit s) (hsettled : Settled s) :
    limit ≤ running C node s := by
  rw [hsettled.running_eq]
  exact h.reached.trans ((takeWhile_sublist _).countP_le)

/-! ## One request -/

/-- The same commands without a limit. -/
def unlimited (C : Commands) : Commands :=
  { C with info := fun node => { C.info node with maxConcurrency := none } }

def started (o : Operated) : Bool :=
  match o.result with
  | .reqObjPath .. => true
  | _ => false

/-- An operation starts if it would without a limit and the limit is not reached. -/
theorem started_operate {s : State} (hnode : C.node path = some node) :
    started (operate C A path key originator args s) =
      (started (operate (unlimited C) A path key originator args s) &&
        !isLimitReached C A node s) := by
  have hnode' : (unlimited C).node path = some node := hnode
  have hasync : ((unlimited C).info node).isAsync = (C.info node).isAsync := rfl
  have hfree : isLimitReached (unlimited C) A node s = false := rfl
  have hpersist : ∀ inst args s, persistArgs (unlimited C) A node inst args s =
      persistArgs C A node inst args s := fun _ _ _ => rfl
  unfold operate
  cases A.checks with
  | error e => rfl
  | ok _ =>
    simp only [hnode, hnode', hasync]
    split
    · rfl
    · split
      · simp only [startAsync, admitAsync, hfree, hpersist, Bool.false_eq_true, if_false]
        cases isLimitReached C A node s with
        | true => simp [started]
        | false => simp
      · -- a synchronous operation has no row
        unfold runSync
        cases A.callback args <;> rfl

/-- An operation that would start without a limit is started as it should exactly if the
command is below its limit or the rows that are seen reach it. -/
theorem started_iff_below {s : State} (hsettled : Settled s) (hnode : C.node path = some node)
    (hlimit : (C.info node).maxConcurrency = some limit) (hread : ReadAs C A R node s)
    (hstart : started (operate (unlimited C) A path key originator args s) = true) :
    (started (operate C A path key originator args s) = true ↔ running C node s < limit) ↔
      running C node s < limit ∨ CountsUpTo C R node limit s := by
  rw [started_operate hnode, hstart, Bool.true_and, Bool.not_eq_true',
    ← Bool.not_eq_true, isLimitReached_iff hsettled hlimit hread]
  constructor
  · intro hiff
    by_cases hbelow : running C node s < limit
    · exact .inl hbelow
    · exact .inr (Classical.not_not.mp fun hnot => hbelow (hiff.mp hnot))
  · rintro (hbelow | hup)
    · refine ⟨fun _ => hbelow, fun _ hup => ?_⟩
      have := hup.le_running hsettled
      omega
    · refine ⟨fun hnot => absurd hup hnot, fun hbelow => ?_⟩
      have := hup.le_running hsettled
      omega

/-! ## Runs -/

/-- The commands of the rows, which is all that the limit depends on. -/
def commands (s : State) : List Str := s.rows.map (·.command)

/-- No command has more rows than its limit. -/
def Within (C : Commands) (s : State) : Prop :=
  ∀ node limit, (C.info node).maxConcurrency = some limit → running C node s ≤ limit

theorem running_commands (C : Commands) (node : Nat) (s : State) :
    running C node s = (commands s).countP fun c => C.node c = some node := by
  rw [commands, countP_map]
  rfl

/-- No command was added. -/
structure Shrunk (s s' : State) : Prop where
  settled : Settled s'
  commands : (commands s').Sublist (commands s)

namespace Shrunk

variable {s s' s'' : State}

theorem refl (h : Settled s) : Shrunk s s := ⟨h, List.Sublist.refl _⟩

theorem trans (h : Shrunk s s') (h' : Shrunk s' s'') : Shrunk s s'' :=
  ⟨h'.settled, h'.commands.trans h.commands⟩

theorem of_closed (h : Settled s) : Shrunk s (closed s) := ⟨h.closed, List.Sublist.refl _⟩

theorem running_le (h : Shrunk s s') (C : Commands) (node : Nat) :
    running C node s' ≤ running C node s := by
  rw [running_commands, running_commands]
  exact h.commands.countP_le

theorem within (h : Shrunk s s') (hwithin : Within C s) : Within C s' :=
  fun node limit hlimit => (h.running_le C node).trans (hwithin node limit hlimit)

end Shrunk

/-- A row of a command that was below its limit was added. -/
structure Admitted (C : Commands) (A : OperateAnswers) (path : Str) (s s' : State) : Prop where
  settled : Settled s'
  commands : commands s' = commands s ++ [path]
  below : ∃ node, C.node path = some node ∧ isLimitReached C A node (opened s) = false

theorem settled_added {s : State} (h : Settled s) {row : Request} (hfresh : row.inst ∉ s.instances) :
    Settled (transCommit ⟨true, true⟩ (added s row)) := by
  rw [transCommit_added]
  refine ⟨?_, ?_, .inl ⟨rfl, rfl⟩⟩
  · change (s.instances ++ [row.inst]).Perm ((s.rows ++ [row]).map (·.inst))
    rw [map_append]
    exact h.instances.append_right _
  · change (s.instances ++ [row.inst]).Nodup
    rw [← concat_eq_append]
    exact h.nodup.concat hfresh

/-- The state that is left after one path of an Operate request. -/
def afterCall (call : OperateCall) (o : Operated) : State :=
  if isFailure o.result then transAbort o.state else transCommit call.commit o.state

/-- One path of an Operate request adds no row, or one row of a command below its limit that
would have been started without a limit. -/
theorem afterCall_spec {s : State} (h : Settled s) {call : OperateCall} {o : Operated}
    (hrun : operate C call.answers call.path key originator args (opened s) = o) :
    Shrunk s (afterCall call o) ∨
      started o = true ∧ Admitted C call.answers call.path s (afterCall call o) := by
  unfold afterCall
  rcases operate_spec h.covered hrun with ⟨hfail, hstate⟩ | ⟨⟨outputArgs, hresult⟩, hstate⟩ |
    ⟨node, hnode, hasync, row, inst, hinst, hstate, hresult, hop, -⟩
  · left
    rw [if_pos hfail]
    rcases hstate with hstate | ⟨row, hinst, hstate⟩ <;> rw [hstate]
    · exact Shrunk.of_closed h
    · rw [transAbort_added (hinst ▸ nextInstance_fresh s)]
      exact Shrunk.of_closed h
  · left
    rw [hresult, hstate]
    change Shrunk s (transCommit call.commit (opened s))
    rw [transCommit_opened]
    exact Shrunk.of_closed h
  · have hfresh : row.inst ∉ s.instances := hinst ▸ nextInstance_fresh s
    have hstarted : started o = true := by rw [started, hresult]
    have hbelow : isLimitReached C call.answers node (opened s) = false := by
      rw [← hrun, started_operate hnode, Bool.and_eq_true] at hstarted
      simpa using hstarted.2
    rw [hresult, hstate]
    change Shrunk s (transCommit call.commit (added s row)) ∨ _
    -- a commit that is refused takes the row away again
    rcases call.commit with ⟨_ | _, _ | _⟩
    · left
      change Shrunk s (transAbort (added s row))
      rw [transAbort_added hfresh]
      exact Shrunk.of_closed h
    · left
      change Shrunk s (transAbort (added s row))
      rw [transAbort_added hfresh]
      exact Shrunk.of_closed h
    · left
      change Shrunk s (transAbort (added s row))
      rw [transAbort_added hfresh]
      exact Shrunk.of_closed h
    · refine .inr ⟨hstarted, settled_added h hfresh, ?_, node, hnode, hbelow⟩
      change (s.rows ++ [row]).map (·.command) = commands s ++ [call.path]
      rw [map_append]
      exact congrArg (fun c => commands s ++ [c]) (congrArg Operation.command hop)

/-- The request is judged as it should be: its command is below its limit, or the rows that
are seen reach it. -/
def Judged (C : Commands) (A : OperateAnswers) (path : Str) (s : State) : Prop :=
  ∀ node limit, C.node path = some node → (C.info node).maxConcurrency = some limit →
    ∃ R, ReadAs C A R node s ∧ (running C node s < limit ∨ CountsUpTo C R node limit s)

theorem Admitted.within {s s' : State} (h : Admitted C A path s s') (hsettled : Settled s)
    (hwithin : Within C s) (hjudged : Judged C A path (opened s)) : Within C s' := by
  obtain ⟨added, hadded, hbelow⟩ := h.below
  intro node limit hlimit
  rw [running_commands, h.commands, countP_append, ← running_commands]
  by_cases heq : added = node
  · subst heq
    obtain ⟨R, hread, hlt | hup⟩ := hjudged added limit hadded hlimit
    · have hlt : running C added s < limit := hlt
      simp [hadded]
      omega
    · rw [(isLimitReached_iff hsettled.opened hlimit hread).mpr hup] at hbelow
      cases hbelow
  · have hle := hwithin node limit hlimit
    simpa [hadded, heq] using hle

/-- Every path of an Operate request that would start an operation is judged as it should be,
and the database begins its transactions. -/
def CallsMeet (C : Commands) (rq : OperateRequest) : List OperateCall → OperationArgs.Args → State → Prop
  | [], _, _ => True
  | call :: calls, inputArgs, s =>
    let run := fun C => operate C call.answers call.path rq.commandKey rq.originator inputArgs (opened s)
    call.start.sqlite = true ∧
      (started (run (unlimited C)) = true → Judged C call.answers call.path (opened s)) ∧
      CallsMeet C rq calls (run C).inputArgs (afterCall call (run C))

theorem handleOperate_within {rq : OperateRequest} (calls : List OperateCall) :
    ∀ (args : OperationArgs.Args) (results : List OperResult) (s : State), Settled s → Within C s →
      CallsMeet C rq calls args s → Settled (handleOperate C rq calls args results s).1 ∧
        Within C (handleOperate C rq calls args results s).1 := by
  induction calls with
  | nil => exact fun _ _ _ h hwithin _ => ⟨h, hwithin⟩
  | cons call calls ih =>
    intro args results s h hwithin hmeets
    obtain ⟨hsqlite, hjudged, hmeets⟩ := hmeets
    unfold handleOperate
    rcases transStart_quiet h.transaction hsqlite with hstart | ⟨hstart, -⟩
    · rw [hstart]
      have hrun : operate C call.answers call.path rq.commandKey rq.originator args (opened s) = _ := rfl
      rcases afterCall_spec h hrun with hshrunk | ⟨hstarted, hadmitted⟩
      · exact ih _ _ _ hshrunk.settled (hshrunk.within hwithin) hmeets
      · obtain ⟨node, hnode, -⟩ := hadmitted.below
        rw [started_operate hnode, Bool.and_eq_true] at hstarted
        exact ih _ _ _ hadmitted.settled (hadmitted.within h hwithin (hjudged hstarted.1)) hmeets
    · rw [hstart]
      exact ⟨h.closed, (Shrunk.of_closed h).within hwithin⟩

/-! ## Steps that start nothing -/

/-- The instance of a row is put back at the end. -/
theorem undo_deletion {instances : List Nat} (hnodup : instances.Nodup) (hinst : inst ∈ instances) :
    (undoEntry (instances.filter (· ≠ inst)) (false, inst)).Perm instances := by
  have herase : instances.filter (· ≠ inst) = instances.erase inst := by
    rw [hnodup.erase_eq_filter]
    refine filter_congr fun i _ => ?_
    rw [Bool.eq_iff_iff]
    simp
  have hgone : inst ∉ instances.filter (· ≠ inst) := by simp
  rw [undoEntry, if_neg (by simp), if_neg hgone, herase]
  exact (perm_append_singleton inst _).trans (perm_cons_erase hinst).symm

/-- What a completion leaves, whatever fails after its transaction has begun. -/
theorem operationComplete_shrunk {s : State} (h : Settled s) {A : CompleteAnswers} (inst : Nat)
    (err : Option Err) (hsqlite : A.start.sqlite = true) :
    Shrunk s (operationComplete A inst err s) := by
  unfold operationComplete
  split
  · exact Shrunk.refl h
  · next hvalid =>
    have hinst : inst ∈ s.instances := by
      simp [isRequestInstanceValid] at hvalid
      exact hvalid.2
    cases findRow s inst with
    | none => exact Shrunk.refl h
    | some row =>
      dsimp only
      split
      · exact Shrunk.refl h
      · split
        · exact Shrunk.refl h
        · rcases transStart_quiet h.transaction hsqlite with hstart | ⟨hstart, -⟩
          · rw [hstart]
            cases hdeletes : A.deletes with
            | false =>
              simp only [deleteRow, Bool.false_eq_true, if_false]
              refine ⟨⟨?_, ?_, .inl ⟨rfl, rfl⟩⟩, List.Sublist.refl _⟩ <;>
                simp [transAbort, logEntry, opened, undoEntry, hinst]
              · exact h.instances
              · exact h.nodup
            | true =>
              simp only [deleteRow, if_true]
              have hrefused : Shrunk s (transAbort (logEntry false inst { opened s with
                  completed := s.completed ++ [⟨inst, row.command, readCommandKey row.commandKey, err⟩]
                  rows := s.rows.filter (·.inst ≠ inst)
                  instances := s.instances.filter (· ≠ inst) })) := by
                have hundo := undo_deletion h.nodup hinst
                exact ⟨⟨hundo.trans h.instances, hundo.nodup_iff.mpr h.nodup, .inl ⟨rfl, rfl⟩⟩,
                  List.Sublist.refl _⟩
              rcases A.commit with ⟨_ | _, _ | _⟩
              · exact hrefused
              · exact hrefused
              · exact hrefused
              · refine ⟨⟨?_, h.nodup.filter _, .inl ⟨rfl, rfl⟩⟩, ?_⟩
                · change (s.instances.filter _).Perm ((s.rows.filter _).map _)
                  refine (h.instances.filter _).trans ?_
                  rw [filter_map]
                  exact List.Perm.refl _
                · exact (filter_sublist (l := s.rows)).map _
          · rw [hstart]
            exact Shrunk.of_closed h

/-- A field that the change leaves alone. -/
theorem modifyRow_map {β : Type} (inst : Nat) (f : Request → Request) (s : State) (g : Request → β)
    (hg : ∀ r, g (f r) = g r) : (modifyRow inst f s).rows.map g = s.rows.map g := by
  rw [modifyRow, map_map]
  refine map_congr_left fun r _ => ?_
  simp only [Function.comp_apply]
  split
  · exact hg r
  · rfl

theorem updateOperationStatus_shrunk {s : State} (h : Settled s) {A : StatusAnswers} (inst : Nat)
    (status : Str) (hsqlite : A.start.sqlite = true) :
    Shrunk s (updateOperationStatus A inst status s) := by
  unfold updateOperationStatus
  split
  · exact Shrunk.refl h
  · rcases transStart_quiet h.transaction hsqlite with hstart | ⟨hstart, -⟩
    · rw [hstart]
      dsimp only
      split
      · exact ⟨h.opened, List.Sublist.refl _⟩
      · rcases A.commit with ⟨_ | _, _ | _⟩
        · exact Shrunk.of_closed h
        · exact Shrunk.of_closed h
        · exact Shrunk.of_closed h
        · refine ⟨⟨?_, h.nodup, .inl ⟨rfl, rfl⟩⟩, ?_⟩
          · change s.instances.Perm ((modifyRow inst _ s).rows.map (·.inst))
            rw [modifyRow_map inst (fun r => { r with status := status }) s _ fun _ => rfl]
            exact h.instances
          · change ((modifyRow inst _ s).rows.map (·.command)).Sublist _
            rw [modifyRow_map inst (fun r => { r with status := status }) s _ fun _ => rfl]
            exact List.Sublist.refl _
    · rw [hstart]
      exact Shrunk.of_closed h

theorem boot_shrunk {s : State} (h : Settled s) : Shrunk s (boot s) := by
  have hsaved : s.saved.getD s.rows = s.rows := by
    rcases h.transaction with ⟨-, hsaved⟩ | ⟨-, hsaved⟩ <;> rw [hsaved] <;> rfl
  have hrows : (boot s).rows = s.rows.map rebuilt := by rw [← hsaved]; rfl
  have hinst : (boot s).instances = s.rows.map (·.inst) := by
    change (boot s).rows.map (·.inst) = _
    rw [hrows, map_map]
    rfl
  refine ⟨⟨List.Perm.refl _, ?_, .inl ⟨rfl, rfl⟩⟩, ?_⟩
  · rw [hinst]
    exact h.rows_nodup
  · rw [commands, hrows, map_map]
    exact List.Sublist.refl _

theorem restartRows_shrunk {A : Nat → RestartAnswers} (instances : List Nat) :
    ∀ s, Settled s → (∀ inst ∈ instances, (A inst).complete.start.sqlite = true) →
      Shrunk s (restartRows A instances s) := by
  induction instances with
  | nil => exact fun s h _ => Shrunk.refl h
  | cons inst rest ih =>
    intro s h hsqlite
    obtain ⟨hinst, hrest⟩ := List.forall_mem_cons.mp hsqlite
    have hcomplete : ∀ err, Shrunk s (operationComplete (A inst).complete inst err s) :=
      fun err => operationComplete_shrunk h inst err hinst
    unfold restartRows
    split
    · exact Shrunk.refl h
    · cases (A inst).decides with
      | error e => exact Shrunk.refl h
      | ok decision =>
        cases decision with
        | finished err => exact (hcomplete err).trans (ih _ (hcomplete err).settled hrest)
        | restart =>
          have hrestart : Shrunk s (restartAsyncOperation (A inst) inst s) := by
            unfold restartAsyncOperation
            split
            · exact hcomplete _
            · cases (A inst).callback with
              | error e => exact hcomplete _
              | ok _ => exact ⟨⟨h.instances, h.nodup, h.transaction⟩, List.Sublist.refl _⟩
          exact hrestart.trans (ih _ hrestart.settled hrest)

/-! ## Main theorem -/

/-- The database begins every transaction, and every request is judged as it should be. -/
def StepMeets (C : Commands) (s : State) : RequestStep → Prop
  | .operate rq calls => CallsMeet C rq calls rq.inputArgs s
  | .complete A _ _ => A.start.sqlite = true
  | .status A _ _ => A.start.sqlite = true
  | .reboot _ A => ∀ inst, (A inst).complete.start.sqlite = true

theorem requestStep_within {s : State} {step : RequestStep} (h : Settled s) (hwithin : Within C s)
    (hmeets : StepMeets C s step) :
    Settled (requestStep C step s) ∧ Within C (requestStep C step s) := by
  have hshrunk : ∀ {s'}, Shrunk s s' → Settled s' ∧ Within C s' :=
    fun hs' => ⟨hs'.settled, hs'.within hwithin⟩
  cases step with
  | operate rq calls => exact handleOperate_within calls _ _ s h hwithin hmeets
  | complete A inst err => exact hshrunk (operationComplete_shrunk h inst err hmeets)
  | status A inst status => exact hshrunk (updateOperationStatus_shrunk h inst status hmeets)
  | reboot lists A =>
    refine hshrunk ((boot_shrunk h).trans ?_)
    have hboot := (boot_shrunk h).settled
    change Shrunk (boot s) (restartAsyncOperations lists A (boot s))
    unfold restartAsyncOperations
    split
    · exact restartRows_shrunk _ _ hboot fun inst _ => hmeets inst
    · exact Shrunk.refl hboot

/-- For every table, a request is judged as it should be exactly if its command is below its
limit or the rows that are seen reach it; in a run whose requests all are, no command has more
rows than its limit. -/
theorem limit_kept (C : Commands) :
    (∀ (A : OperateAnswers) (R : TableReads) (path key originator : Str) (args : OperationArgs.Args)
        (s : State) (node limit : Nat), Settled s → C.node path = some node →
        (C.info node).maxConcurrency = some limit → ReadAs C A R node s →
        started (operate (unlimited C) A path key originator args s) = true →
        ((started (operate C A path key originator args s) = true ↔ running C node s < limit) ↔
          running C node s < limit ∨ CountsUpTo C R node limit s)) ∧
      ∀ (steps : List RequestStep) (s₀ s : State), Settled s₀ → Within C s₀ →
        RunMeets (runStep C) (StepMeets C) steps s₀ → run (runStep C) steps s₀ = some s →
        Settled s ∧ Within C s := by
  refine ⟨fun A R path key originator args s node limit hsettled hnode hlimit hread hstart =>
    started_iff_below hsettled hnode hlimit hread hstart, ?_⟩
  intro steps s₀ s hsettled hwithin hmeets hrun
  refine run_keeps (I := fun s => Settled s ∧ Within C s) ?_ ⟨hsettled, hwithin⟩ hmeets hrun
  rintro s₁ step _ ⟨hs₁, hw₁⟩ hstep ⟨⟩
  exact requestStep_within hs₁ hw₁ hstep

/-- One command, of which one operation may be in progress. -/
def single : Commands where
  node := fun path => if path = "Device.Reset()".toList then some 0 else none
  info := fun _ => ⟨true, some 1, false⟩

def row (inst : Nat) (path : Str) : Request :=
  ⟨inst, path, "key".toList, "Requested".toList, "self::controller".toList, none⟩

def startReset : RequestStep :=
  .operate ⟨"key".toList, "self::controller".toList, []⟩ [startCall "Device.Reset()".toList]

def readAll : TableReads := ⟨true, fun _ => true⟩

/-- The one operation is in progress. -/
def oneRunning : State :=
  { initialState with rows := [row 1 "Device.Reset()".toList], instances := [1] }

theorem oneRunning_settled : Settled oneRunning :=
  ⟨by decide, by decide, .inl ⟨rfl, rfl⟩⟩

theorem initialState_within (C : Commands) : Within C initialState := fun _ _ _ => Nat.zero_le _

theorem startReset_meets : StepMeets single initialState startReset := by
  refine ⟨rfl, fun _ => ?_, trivial⟩
  rintro _ _ ⟨⟩ ⟨⟩
  exact ⟨readAll, rfl, .inl Nat.one_pos⟩

theorem limit_kept_single :
    ((started (operate single (startCall "Device.Reset()".toList).answers "Device.Reset()".toList
          "key".toList "self::controller".toList [] oneRunning) = true ↔ running single 0 oneRunning < 1) ↔
        running single 0 oneRunning < 1 ∨ CountsUpTo single readAll 0 1 oneRunning) ∧
      Within single (requestStep single startReset initialState) :=
  ⟨(limit_kept single).1 _ readAll _ _ _ [] oneRunning 0 1 oneRunning_settled (by decide) rfl
      rfl (by decide),
    ((limit_kept single).2 [startReset] initialState _ (Settled.of_tidy initialState_tidy)
      (initialState_within single) ⟨startReset_meets, fun _ _ => trivial⟩ rfl).2⟩

/-- The one operation is in progress; the row before it is of a command that was removed. -/
def removedFirst : State :=
  { initialState with
    rows := [row 1 "Device.Removed()".toList, row 2 "Device.Reset()".toList]
    instances := [1, 2] }

/-- The loop ends at the row of the removed command, or gives up at a row that it cannot read,
and the operation is started above its limit. -/
theorem removed_command_hides_rows :
    let s := requestStep single startReset removedFirst
    running single 0 removedFirst = 1 ∧ countRequests single ⟨true, fun _ => true⟩ 0 removedFirst = 0 ∧
      countRequests single ⟨true, fun inst => inst ≠ 1⟩ 0 removedFirst = invalid ∧
      reported single ⟨"key".toList, "self::controller".toList, []⟩
        [startCall "Device.Reset()".toList] removedFirst = [.reqObjPath "Device.Reset()".toList 3] ∧
      running single 0 s = 2 ∧ (single.info 0).maxConcurrency = some 1 := by
  decide

end ConcurrencyLimit
