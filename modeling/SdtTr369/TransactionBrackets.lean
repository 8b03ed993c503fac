import SdtTr369.CommittedTransaction

/-!
# Brackets of transactions

A run is a sequence of starts, commits, aborts, additions and deletions. The
agent has one current transaction, while the callers mean a stack of brackets:
`BracketState` keeps the stack beside the agent. Where no bracket is opened in
another one, the agent follows the stack (`flat_run_keeps_brackets`). An inner
commit ends the outer transaction.
-/

namespace TransactionBrackets

open UspTypes Schema SchemaInvariant PathCodec EffectProgram Agent InstVector DmTrans DataModel
open Option
open UndoLog PathRoundTrip HeldInstances AbortedTransaction
open CommittedTransaction

/-! ## Runs -/

inductive Command where
  | start
  | commit
  | abort
  | add (path : Str) (wantInstance : Bool) (flags : AddFlags)
  | delete (path : Str) (flags : DelFlags)
  deriving DecidableEq, Repr

/-- The agent with the brackets that its callers have open, the innermost first;
a bracket is remembered as the state in which it was opened. -/
structure BracketState where
  agent : State
  opened : List State

/-- One command. `none`: the agent stops at an assertion. A start that returns an
error opens no bracket, and the notify functions of a commit do nothing. -/
def runCommand (S : DmTree) (W : World) (c : Command) (r : BracketState) : Option BracketState :=
  match c with
  | .start => (transStart S W r.agent).map fun (result, a) =>
      match result with
      | .ok _ => ⟨a, r.agent :: r.opened⟩
      | .error _ => ⟨a, r.opened⟩
  | .commit => (transCommit S W [] r.agent).map fun (_, a) => ⟨a, r.opened.tail⟩
  | .abort => (transAbort S W r.agent).map fun (_, a) => ⟨a, r.opened.tail⟩
  | .add path wantInstance flags =>
    (addInstance S W path wantInstance flags r.agent).map fun (_, a) => ⟨a, r.opened⟩
  | .delete path flags => (deleteInstance S W path flags r.agent).map fun (_, a) => ⟨a, r.opened⟩

/-- Commits, aborts and operations happen inside a bracket. -/
def isWellBracketed : Nat → List Command → Bool
  | _, [] => true
  | depth, .start :: rest => isWellBracketed (depth + 1) rest
  | 0, _ :: _ => false
  | depth + 1, .commit :: rest | depth + 1, .abort :: rest => isWellBracketed depth rest
  | depth + 1, _ :: rest => isWellBracketed (depth + 1) rest

/-- What brackets promise of a command: an open bracket has a transaction, and the
abort of the outermost one undoes everything since its start. -/
structure Respects (S : DmTree) (c : Command) (r r' : BracketState) : Prop where
  isOpen : r'.opened ≠ [] → r'.agent.curTransaction ≠ none
  undone : c = .abort → ∀ a₀, r.opened = [a₀] →
    InstancesRestored S a₀ r'.agent ∧ r'.agent.db.rows = a₀.db.rows

/-- No command of the run stops the agent and each keeps the promise. -/
def KeepsBrackets (S : DmTree) (W : World) : BracketState → List Command → Prop
  | _, [] => True
  | r, c :: rest => ∃ r', runCommand S W c r = some r' ∧ Respects S c r r' ∧
      KeepsBrackets S W r' rest

/-- A start only with no transaction open, in a state closed under ancestors; an
abort only of a log that agrees with the start; the other commands in a bracket. -/
def Meets (S : DmTree) (c : Command) (r : BracketState) : Prop :=
  match c with
  | .start => r.opened = [] ∧ r.agent.curTransaction = none ∧ Closed r.agent
  | .abort => ∃ a₀, r.opened = [a₀] ∧ LogAgrees S a₀ (logOf r.agent)
  | _ => r.opened ≠ []

def IsFlatRun (S : DmTree) (W : World) : BracketState → List Command → Prop
  | _, [] => True
  | r, c :: rest => Meets S c r ∧ ∀ r', runCommand S W c r = some r' → IsFlatRun S W r' rest

/-- At most one bracket is open, and everything since its start is accounted for. -/
structure BracketsOk (S : DmTree) (r : BracketState) : Prop where
  ok : StateOk S r.agent
  accounted : r.opened = [] ∨ ∃ a₀ c, r.opened = [a₀] ∧ Started a₀ c ∧ Accounted S c r.agent

section Run

variable {S : DmTree} {W : World} {r : BracketState}

theorem exists_of_wp {α : Type} {m : Op α} {a : State} {Q : α → State → Prop}
    {E : Err → State → Prop} {P : State → Prop} (h : Wp False m a Q E) (hQ : ∀ x b, Q x b → P b)
    (hE : ∀ e b, E e b → P b) : ∃ x b, m a = some (x, b) ∧ P b := by
  obtain ⟨x, b, hrun⟩ := h.exists_run
  obtain ⟨hok, herr⟩ := h.of_run hrun
  refine ⟨x, b, hrun, ?_⟩
  cases x with
  | ok x => exact hQ x b (hok x rfl)
  | error e => exact hE e b (herr e rfl)

theorem started_open_log {a₀ c b : State} (h : Started a₀ c) (h' : Accounted S c b) :
    ∃ log, b.curTransaction = some log ∧ ∀ t, AgentOwned S a₀ (topNode t) →
      touching (changes S log) t = [] → (Held b t ↔ Held a₀ t) := by
  obtain ⟨log, hlog, hheld⟩ := h'.log
  rw [h.log] at hlog
  refine ⟨log, hlog, fun t ht htouch => ?_⟩
  exact (hheld t ⟨h.settled ht.settled, ht.ungrouped⟩ htouch).trans (h.held t)

/-- An operation inside a bracket. -/
theorem operation_step (h : BracketsOk S r) (hopen : r.opened ≠ []) {α : Type} {m : Op α}
    (hm : ∀ a, StateOk S a → Closed a → (a.curTransaction = none → False) →
      Keeps False m a (Accounted S a)) :
    ∃ x b, m r.agent = some (x, b) ∧ BracketsOk S ⟨b, r.opened⟩ ∧ b.curTransaction ≠ none := by
  obtain ⟨a₀, c, hopened, hstart, hacc⟩ := h.accounted.resolve_left hopen
  obtain ⟨log, hlog, -⟩ := started_open_log hstart hacc
  obtain ⟨x, b, hrun, hb⟩ := exists_of_wp (P := Accounted S r.agent)
    (hm r.agent hacc.ok hacc.closed (by simp [hlog])) (fun _ _ h => h) fun _ _ h => h
  have htrans := hacc.trans hb
  obtain ⟨log', hlog', -⟩ := started_open_log hstart htrans
  exact ⟨x, b, hrun, ⟨hb.ok, .inr ⟨a₀, c, hopened, hstart, htrans⟩⟩, by simp [hlog']⟩

/-- Every command of a flat run keeps the brackets. -/
theorem command_step (hS : SchemaOk maxDmInstanceOrder S) (h : BracketsOk S r) {c : Command}
    (hmeets : Meets S c r) :
    ∃ r', runCommand S W c r = some r' ∧ Respects S c r r' ∧ BracketsOk S r' := by
  cases c with
  | start =>
    obtain ⟨hnil, hnone, hclosed⟩ := hmeets
    have hspec := transStart_spec (T := False) (W := W) hS h.ok hnone
    obtain ⟨x, b, hrun⟩ := hspec.exists_run
    obtain ⟨hok, herr⟩ := hspec.of_run hrun
    simp only [runCommand, hrun, map_some]
    cases x with
    | ok u =>
      have hb := hok u rfl
      refine ⟨_, rfl, ⟨fun _ => ?_, by simp⟩, hb.ok h.ok, .inr ⟨r.agent, b, ?_, hb,
        Accounted.refl (hb.ok h.ok) (hb.closed hclosed)⟩⟩
      · simp [hb.log]
      · simp [hnil]
    | error e =>
      have hb := herr e rfl
      exact ⟨_, rfl, ⟨fun hopen => absurd hnil hopen, by simp⟩, hb.ok, .inl hnil⟩
  | commit =>
    obtain ⟨a₀, c, hopened, hstart, hacc⟩ := h.accounted.resolve_left hmeets
    obtain ⟨log, hlog, -⟩ := started_open_log hstart hacc
    obtain ⟨x, b, hrun, hb⟩ := exists_of_wp (P := StateOk S)
      (transCommit_spec (W := W) hS h.ok hlog) (fun _ _ h => h.ok) fun _ _ h => h.1.ok
    simp only [runCommand, hrun, map_some]
    exact ⟨_, rfl, ⟨by simp [hopened], by simp⟩, hb, .inl (by simp [hopened])⟩
  | abort =>
    obtain ⟨a₀, hopened, hagrees⟩ := hmeets
    obtain ⟨a₁, c, hopened', hstart, hacc⟩ := h.accounted.resolve_left (by simp [hopened])
    rw [hopened] at hopened'
    cases hopened'
    obtain ⟨log, hlog, hheld⟩ := started_open_log hstart hacc
    obtain ⟨x, b, hrun, hb⟩ := exists_of_wp (P := fun b => Aborted S r.agent b log)
      (transAbort_spec (W := W) hS h.ok hlog) (fun _ _ h => h) fun _ _ h => h
    simp only [runCommand, hrun, map_some]
    refine ⟨_, rfl, ⟨by simp [hopened], fun _ a₁ ha₁ => ?_⟩, hb.ok, .inl (by simp [hopened])⟩
    rw [hopened] at ha₁
    cases ha₁
    have hlogOf : logOf r.agent = log := by rw [logOf, hlog]; rfl
    obtain ⟨hiff, hdb⟩ := aborted_restores_iff hstart hacc (hlogOf.symm ▸ hb)
    exact ⟨hiff.mpr hagrees, by rw [hdb]⟩
  | add path wantInstance flags =>
    obtain ⟨x, b, hrun, hb, hcur⟩ := operation_step h hmeets fun a hok hclosed hopen =>
      addInstance_accounted (W := W) hS hok hclosed hopen path wantInstance flags
    simp only [runCommand, hrun, map_some]
    exact ⟨_, rfl, ⟨fun _ => hcur, by simp⟩, hb⟩
  | delete path flags =>
    obtain ⟨x, b, hrun, hb, hcur⟩ := operation_step h hmeets fun a hok hclosed hopen =>
      deleteInstance_accounted (W := W) hS hok hclosed hopen path flags
    simp only [runCommand, hrun, map_some]
    exact ⟨_, rfl, ⟨fun _ => hcur, by simp⟩, hb⟩

theorem keepsBrackets_of_flat (hS : SchemaOk maxDmInstanceOrder S) (commands : List Command)
    (h : BracketsOk S r) (hflat : IsFlatRun S W r commands) : KeepsBrackets S W r commands := by
  induction commands generalizing r with
  | nil => trivial
  | cons c rest ih =>
    obtain ⟨hmeets, hrest⟩ := hflat
    obtain ⟨r', hrun, hrespects, hok⟩ := command_step hS h hmeets
    exact ⟨r', hrun, hrespects, ih hok (hrest r' hrun)⟩

end Run

theorem flat_run_keeps_brackets (rs : List Registration) (hrs : ∀ r ∈ rs, WithinArrays r)
    (W : World) (a : State) (hok : StateOk (registerAll initialTree rs) a)
    (commands : List Command)
    (hflat : IsFlatRun (registerAll initialTree rs) W ⟨a, []⟩ commands) :
    KeepsBrackets (registerAll initialTree rs) W ⟨a, []⟩ commands :=
  keepsBrackets_of_flat (registered_ok hrs) commands
    ⟨hok, .inl rfl⟩ hflat

section Runs

variable {S : DmTree} {W : World} {r : BracketState}

theorem runCommand_start (h : Prog.result (transStart S W) r.agent = some (.ok ())) :
    runCommand S W .start r =
      some ⟨Prog.after (transStart S W) r.agent, r.agent :: r.opened⟩ := by
  rw [runCommand, Prog.run_eq h]
  rfl

theorem runCommand_commit {x : Except Err Unit}
    (h : Prog.result (transCommit S W []) r.agent = some x) :
    runCommand S W .commit r =
      some ⟨Prog.after (transCommit S W []) r.agent, r.opened.tail⟩ := by
  rw [runCommand, Prog.run_eq h]
  rfl

theorem runCommand_add {path : Str} {wantInstance : Bool} {flags : AddFlags}
    {x : Except Err (Option Int)}
    (h : Prog.result (addInstance S W path wantInstance flags) r.agent = some x) :
    runCommand S W (.add path wantInstance flags) r =
      some ⟨Prog.after (addInstance S W path wantInstance flags) r.agent, r.opened⟩ := by
  rw [runCommand, Prog.run_eq h]
  rfl

end Runs

theorem initialState_held (t : DmInstances) : ¬ Held initialState t := List.not_mem_nil

theorem initialState_ok (S : DmTree) : StateOk S initialState where
  held _ _ ht := absurd ht List.not_mem_nil
  nodup _ := List.nodup_nil
  entries log hlog := by cases hlog

theorem initialState_closed : Closed initialState := fun _ t ht => absurd ht (initialState_held t)

/-- An addition in a transaction of its own is undone. -/
theorem flat_run_add_abort :
    KeepsBrackets (registerAll initialTree nestedTables) quietWorld ⟨initialState, []⟩
      [.start, .add "Device.A.1".toList false {}, .abort] := by
  refine flat_run_keeps_brackets nestedTables nestedTables_within quietWorld initialState
    (initialState_ok _) _ ⟨⟨rfl, rfl, initialState_closed⟩, fun r₁ h₁ => ?_⟩
  rw [runCommand_start (by decide)] at h₁
  cases h₁
  refine ⟨by simp [Meets], fun r₂ h₂ => ?_⟩
  rw [runCommand_add (x := .ok (some 1)) (by decide +kernel)] at h₂
  cases h₂
  refine ⟨⟨initialState, rfl, fun t _ c hc => ?_⟩, fun _ _ => trivial⟩
  have hmem := (List.mem_filter.mp (List.mem_of_getLast? hc)).1
  have hinsert : c = .insert [(2, 1)] := by
    revert hmem
    generalize hlog : changes _ (logOf _) = log
    have hlog' : log = [.insert [(2, 1)]] := hlog.symm.trans (by decide +kernel)
    rw [hlog']
    exact List.mem_singleton.mp
  rw [hinsert]
  exact ⟨by simp [Change.isRemove], fun h => absurd h (initialState_held t)⟩

/-- An inner commit ends the outer transaction. -/
theorem inner_commit_breaks_brackets :
    let commands : List Command := [.start, .start, .commit, .add "Device.A.1".toList false {}, .commit]
    isWellBracketed 0 commands = true ∧
      ¬ KeepsBrackets (registerAll initialTree nestedTables) quietWorld ⟨initialState, []⟩
        commands := by
  refine ⟨by decide, ?_⟩
  rintro ⟨r₁, h₁, -, r₂, h₂, -, r₃, h₃, hrespects, -⟩
  rw [runCommand_start (by decide)] at h₁
  cases h₁
  rw [runCommand_start (by decide)] at h₂
  cases h₂
  rw [runCommand_commit (x := .ok ()) (by decide)] at h₃
  cases h₃
  exact hrespects.isOpen (by simp) (by decide)

end TransactionBrackets
