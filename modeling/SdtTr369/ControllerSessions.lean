import SdtTr369.ControllerTable
import SdtTr369.SessionIds

/-!
# The sessions of all controllers

The controllers array of `device_controller.c` with the session of each slot:
how a controller is added, how a record or a message finds its session, and
which records go out over any history of these.
-/

namespace ControllerSessions

open UspTypes EffectProgram UspRecord SarVector E2eContext SessionRuns SessionIds List
open ControllerTable (maxControllers findUnused findSlot Loaded)

/-- The fields of `controller_t` that decide about sessions. -/
structure Controller where
  inst : Nat
  enable : Bool
  endpointId : Str
  e2eSession : E2eSession
  deriving DecidableEq

/-- What the getters return for the parameters of a controller that is added.
`settings` is the first code among the periodic and retry settings, `mtps` has
for each row of the MTP table the code of deleting it, if it had to be deleted
and could not be. -/
structure ControllerRow where
  enable : Except Err Bool
  settings : Option Err
  endpointId : Except Err Str
  assignedRole : Option Err
  updateAssignedRole : Option Err
  mtps : Except Err (List (Option Err))
  sessionMode : Except Err SessionMode
  maxRecordSize : Except Err UInt32

/-- The controllers array (`none` is an unused slot), the messages handed on
and the records queued. -/
structure AgentSessions where
  controllers : List (Option Controller)
  handled : List Handled
  queued : List MtpSendItem

/-! ## Adding a controller -/

/-- The session in a slot that was overwritten with zeros. -/
def zeroedSession : E2eSession where
  mode := .require
  modeBuffered := .require
  maxRecordSize := 0
  status := .up
  currentSessionId := 0
  lastSentSequenceId := 0
  lastRecvSequenceId := 0
  receivedPayloads := SarVector.Vector.init

/-- `ProcessControllerE2ESessionAdded`. -/
def processControllerE2eSessionAdded (row : ControllerRow) : Except Err E2eSession := do
  let mode ← row.sessionMode
  let maxRecordSize ← row.maxRecordSize
  pure (addedSession mode maxRecordSize)

/-- `ValidateEndpointIdUniqueness`. -/
def isUniqueEndpointId (cs : List (Option Controller)) (inst : Nat) (endpointId : Str) : Bool :=
  cs.all fun slot => slot.all fun c => c.inst = inst || c.endpointId ≠ endpointId

/-- `ProcessControllerAdded`, from the reading of the first parameter on. -/
def loadController (cs : List (Option Controller)) (inst : Nat) (row : ControllerRow) :
    Loaded Controller :=
  match row.enable, row.settings, row.endpointId with
  | .error err, _, _ => .destroyed err
  | .ok _, some err, _ => .destroyed err
  | .ok _, none, .error err => .destroyed err
  | .ok enable, none, .ok endpointId =>
    let c : Controller := ⟨inst, enable, endpointId, zeroedSession⟩
    if !isUniqueEndpointId cs inst endpointId then .destroyed .uniqueKeyConflict
    else
      match row.assignedRole, row.updateAssignedRole, row.mtps with
      | some err, _, _ => .kept c err
      | none, some err, _ => .destroyed err
      | none, none, .error err => .destroyed err
      -- no MTP instances: the function ends with OK
      | none, none, .ok [] => .done c
      | none, none, .ok mtps =>
        match mtps.findSome? id, processControllerE2eSessionAdded row with
        | some err, _ => .destroyed err
        | none, .error err => .destroyed err
        | none, .ok session => .done { c with e2eSession := session }

/-- `ProcessControllerAdded`. -/
def processControllerAdded (inst : Nat) (row : ControllerRow) : Prog AgentSessions Err Unit :=
  fun s =>
    match findUnused s.controllers with
    | none => some (.error .resourcesExceeded, s)
    | some k =>
      let loaded := loadController s.controllers inst row
      let result := match loaded with
        | .done _ => .ok ()
        | .destroyed err => .error err
        | .kept _ err => .error err
      some (result, { s with controllers := s.controllers.set k loaded.slot })

/-! ## Finding a session -/

/-- `FindControllerByInstance`. -/
def findControllerByInstance (cs : List (Option Controller)) (inst : Nat) : Option Nat :=
  findSlot (fun c => c.inst = inst) cs

/-- `FindControllerByEndpointId`. -/
def findControllerByEndpointId (cs : List (Option Controller)) (endpointId : Str) : Option Nat :=
  findSlot (fun c => c.endpointId = endpointId) cs

/-- `FindEnabledControllerByEndpointId`. -/
def findEnabledControllerByEndpointId (cs : List (Option Controller)) (endpointId : Str) :
    Option Nat :=
  findSlot (fun c => c.enable && c.endpointId = endpointId) cs

def isEnabled (cs : List (Option Controller)) (k : Nat) : Bool :=
  (cs[k]?).any fun slot => slot.any fun c => c.enable

/-- `DEVICE_CONTROLLER_FindE2ESessionByInstance`. -/
def findE2eSessionByInstance (cs : List (Option Controller)) (inst : Nat) : Option Nat :=
  (findControllerByInstance cs inst).filter (isEnabled cs)

/-- `DEVICE_CONTROLLER_FindE2ESessionByEndpointId`. -/
def findE2eSessionByEndpointId (cs : List (Option Controller)) (endpointId : Str) : Option Nat :=
  (findControllerByEndpointId cs endpointId).filter (isEnabled cs)

/-! ## Steps of the agent -/

/-- What can happen: controllers are added (at boot or by a USP Add), deleted and
enabled, their session parameters are set, session events are handled, messages
are sent to a controller or an endpoint, and records come in. -/
inductive AgentStep where
  | add (inst : Nat) (row : ControllerRow)
  | delete (inst : Nat)
  | setEnable (inst : Nat) (enable : Bool)
  | setMode (inst : Nat) (mode : SessionMode)
  | setMaxRecordSize (inst : Nat) (size : UInt32)
  | event (inst : Nat) (event : E2eEvent)
  | send (inst : Nat) (msg : Bytes)
  | sendTo (endpointId : Str) (msg : Bytes)
  | receive (record : Record)

/-- The slot whose session a step works on, and what it does there. -/
def sessionTarget (cs : List (Option Controller)) : AgentStep → Option (Nat × SessionStep)
  | .add .. | .delete _ | .setEnable .. => none
  | .setMode inst mode => (findControllerByInstance cs inst).map (·, .setMode mode)
  | .setMaxRecordSize inst size =>
    (findControllerByInstance cs inst).map (·, .setMaxRecordSize size)
  | .event inst event => (findE2eSessionByInstance cs inst).map (·, .event event)
  | .send inst msg => (findE2eSessionByInstance cs inst).map (·, .send msg)
  | .sendTo endpointId msg => (findE2eSessionByEndpointId cs endpointId).map (·, .send msg)
  | .receive record =>
    (findEnabledControllerByEndpointId cs record.fromId).map (·, .receive record)

/-- Run a session function on the session of a slot. -/
def withSession (k : Nat) (c : Controller) (m : Act Unit) : Prog AgentSessions Err Unit := fun s =>
  (m ⟨c.endpointId, c.e2eSession, s.handled, s.queued⟩).map fun (r, w) =>
    (r, { controllers := s.controllers.set k (some { c with e2eSession := w.session })
          handled := w.handled
          queued := w.queued })

/-- The slot `k`, if it is in use. -/
def slot (cs : List (Option Controller)) (k : Nat) : Option Controller := (cs[k]?).join

/-- `QueueUspNoSessionRecord` for an endpoint without a session. -/
def queueNoSession (H : Host) (endpointId : Str) (msg : Bytes) : Prog AgentSessions Err Unit :=
  fun s =>
    (queueUspNoSessionRecord H endpointId msg ⟨endpointId, zeroedSession, s.handled, s.queued⟩).map
      fun (r, w) => (r, { s with queued := w.queued })

/-- A step that finds no session. -/
def withoutSession (H : Host) : AgentStep → Prog AgentSessions Err Unit
  | .add inst row => processControllerAdded inst row
  | .delete inst => fun s =>
    match findControllerByInstance s.controllers inst with
    | none => some (.ok (), s)
    | some k => some (.ok (), { s with controllers := s.controllers.set k none })
  | .setEnable inst enable => fun s =>
    match findControllerByInstance s.controllers inst with
    | none => none
    | some k =>
      let controllers := s.controllers.modify k (Option.map fun c => { c with enable := enable })
      some (.ok (), { s with controllers := controllers })
  | .setMode .. | .setMaxRecordSize .. => Prog.require false
  | .sendTo endpointId msg => queueNoSession H endpointId msg
  | .receive _ => Prog.fail .requestDenied
  | .event .. | .send .. => pure ()

def runAgentStep (H : Host) (step : AgentStep) : Prog AgentSessions Err Unit := fun s =>
  match sessionTarget s.controllers step with
  | none => withoutSession H step s
  | some (k, sessionStep) =>
    match slot s.controllers k with
    | none => none
    | some c => withSession k c (runStep H sessionStep) s

/-! ## Histories -/

/-- What happened: a controller was put in a slot, the session of a slot was
established (the agent took it out of `Down`, or accepted a record), a record
was queued, through the session of a slot in the mode that applied then, or
through none. -/
inductive Happened where
  | added (k : Nat)
  | established (k : Nat)
  | sent (via : Option (Nat × SessionMode)) (item : MtpSendItem)
  deriving DecidableEq

/-- The records queued. -/
def sentItems (trace : List Happened) : List MtpSendItem :=
  trace.filterMap fun e =>
    match e with
    | .sent _ item => some item
    | _ => none

theorem sentItems_append (trace more : List Happened) :
    sentItems (trace ++ more) = sentItems trace ++ sentItems more :=
  filterMap_append

theorem sentItems_map (via : Option (Nat × SessionMode)) (items : List MtpSendItem) :
    sentItems (items.map (.sent via)) = items := by
  simp [sentItems]

/-- The session of the slot was established since a controller was put there. -/
def establishedIn (trace : List Happened) (k : Nat) : Prop :=
  ∃ pre post, trace = pre ++ .established k :: post ∧ ∀ e ∈ post, e ≠ .added k

structure AgentHistory where
  world : AgentSessions
  trace : List Happened

/-- The session of a slot before and after a step, with the record accepted. -/
def establishes (before after : E2eSession) (accepted : Option SessionContextRecord) : Bool :=
  accepted.isSome || before.status = .down && after.status ≠ .down

/-- What happened in the step from `s` to `s'`. -/
def happened (s : AgentSessions) (step : AgentStep) (s' : AgentSessions) : List Happened :=
  let items := s'.queued.drop s.queued.length
  match step, sessionTarget s.controllers step with
  | .add .., _ => ((findUnused s.controllers).map Happened.added).toList
  | _, none => items.map (.sent none)
  | _, some (k, sessionStep) =>
    match slot s.controllers k, slot s'.controllers k with
    | some c, some c' =>
      let accepted := acceptedBy ⟨c.endpointId, c.e2eSession, s.handled, s.queued⟩ sessionStep
      (if establishes c.e2eSession c'.e2eSession accepted then [.established k] else []) ++
        items.map (.sent (some (k, c'.e2eSession.mode)))
    | _, _ => []

def advance (H : Host) (step : AgentStep) : Prog AgentHistory Err Unit := fun h =>
  match runAgentStep H step h.world with
  | none => none
  | some (_, s) => some (.ok (), ⟨s, h.trace ++ happened h.world step s⟩)

/-- Every session-context record sent has a valid session id and went through a
session that was established before, or in mode `Require`. -/
def RightlySent (trace : List Happened) : Prop :=
  ∀ pre via item post ctx, trace = pre ++ .sent via item :: post →
    item.pbuf.recordType = .sessionContext ctx →
    2 ≤ ctx.sessionId ∧ ∃ k mode, via = some (k, mode) ∧ (mode = .require ∨ establishedIn pre k)

/-- The session of a slot agrees with what happened. -/
structure SlotOk (trace : List Happened) (k : Nat) (c : Controller) : Prop where
  setUp : SetUp c.e2eSession
  established : c.e2eSession.status ≠ .down → establishedIn trace k

structure Orderly (h : AgentHistory) : Prop where
  slots : ∀ k c, slot h.world.controllers k = some c → SlotOk h.trace k c
  sent : RightlySent h.trace
  complete : h.world.queued = sentItems h.trace

/-! ## Traces -/

variable {c : Controller}

variable (items : List MtpSendItem)

section Traces

variable {trace more : List Happened} {k : Nat}

theorem establishedIn_append (h : establishedIn trace k) (hmore : ∀ e ∈ more, e ≠ .added k) :
    establishedIn (trace ++ more) k := by
  obtain ⟨pre, post, rfl, hpost⟩ := h
  refine ⟨pre, post ++ more, by simp, fun e he => ?_⟩
  rcases List.mem_append.mp he with he | he
  · exact hpost e he
  · exact hmore e he

theorem establishedIn_last (hmore : ∀ e ∈ more, e ≠ .added k) :
    establishedIn (trace ++ .established k :: more) k :=
  ⟨trace, more, rfl, hmore⟩

theorem SlotOk.later (h : SlotOk trace k c) (hmore : ∀ e ∈ more, e ≠ .added k) :
    SlotOk (trace ++ more) k c :=
  ⟨h.setUp, fun hup => establishedIn_append (h.established hup) hmore⟩

/-- A record that is sent rightly keeps the trace right. -/
theorem rightlySent_concat {e : Happened} (h : RightlySent trace)
    (he : ∀ via item ctx, e = .sent via item → item.pbuf.recordType = .sessionContext ctx →
      2 ≤ ctx.sessionId ∧
        ∃ k mode, via = some (k, mode) ∧ (mode = .require ∨ establishedIn trace k)) :
    RightlySent (trace ++ [e]) := by
  intro pre via item post ctx heq hctx
  rcases eq_nil_or_concat post with rfl | ⟨post, last, rfl⟩
  · obtain ⟨rfl, hlast⟩ := append_inj' heq rfl
    exact he via item ctx (by simpa using hlast) hctx
  · have heq' : trace ++ [e] = (pre ++ .sent via item :: post) ++ [last] := by
      rw [heq]
      simp
    obtain ⟨rfl, -⟩ := append_inj' heq' rfl
    exact h pre via item post ctx rfl hctx

/-- The same for all the records of one step. -/
theorem rightlySent_append {via : Option (Nat × SessionMode)}
    (h : RightlySent trace)
    (hitems : ∀ item ∈ items, ∀ ctx, item.pbuf.recordType = .sessionContext ctx →
      2 ≤ ctx.sessionId ∧
        ∃ k mode, via = some (k, mode) ∧ (mode = .require ∨ establishedIn trace k)) :
    RightlySent (trace ++ items.map (.sent via)) := by
  induction items generalizing trace with
  | nil => simpa using h
  | cons item items ih =>
    have hone : RightlySent (trace ++ [.sent via item]) := by
      refine rightlySent_concat h ?_
      rintro _ _ ctx ⟨⟩ hctx
      exact hitems item mem_cons_self ctx hctx
    have := ih hone fun x hx ctx hctx => by
      obtain ⟨hid, k, mode, hvia, hright⟩ := hitems x (mem_cons_of_mem _ hx) ctx hctx
      refine ⟨hid, k, mode, hvia, hright.imp_right fun he => ?_⟩
      exact establishedIn_append he (by simp)
    simpa using this

end Traces

/-! ## One step -/

/-- A controller whose parameters can be read gets its session set up: its role
can be read, and it has an MTP instance. -/
def Initialises (cs : List (Option Controller)) (inst : Nat) (row : ControllerRow) : Prop :=
  match row.enable, row.settings, row.endpointId with
  | .ok _, none, .ok endpointId =>
    isUniqueEndpointId cs inst endpointId = true →
      row.assignedRole = none ∧ (row.updateAssignedRole = none → row.mtps ≠ .ok [])
  | _, _, _ => True

instance (cs : List (Option Controller)) (inst : Nat) (row : ControllerRow) :
    Decidable (Initialises cs inst row) := by
  unfold Initialises
  split <;> infer_instance

def addedController : AgentStep → Option (Nat × ControllerRow)
  | .add inst row => some (inst, row)
  | _ => none

/-- What is asked of a step: an added controller has an MTP instance and a
readable role, and no session is opened behind the largest id. -/
def StepMeets (step : AgentStep) (h : AgentHistory) : Prop :=
  (∀ added ∈ addedController step, Initialises h.world.controllers added.1 added.2) ∧
  ∀ target ∈ sessionTarget h.world.controllers step,
    ∀ c ∈ slot h.world.controllers target.1, NoWrap c.e2eSession

instance (step : AgentStep) (h : AgentHistory) : Decidable (StepMeets step h) := instDecidableAnd

section Step

variable {H : Host} {h : AgentHistory}

variable {cs : List (Option Controller)} {r : Except Err Unit} {s : AgentSessions}

variable {v : Option Controller} {row : ControllerRow} {step : AgentStep}

theorem slot_set {k j : Nat} :
    slot (cs.set k v) j = if k = j ∧ k < cs.length then v else slot cs j := by
  unfold slot
  rw [getElem?_set]
  by_cases hkj : k = j
  · subst hkj
    by_cases hlt : k < cs.length
    · simp [hlt]
    · simp [hlt]
  · simp [hkj]

theorem lt_of_slot {k : Nat} (h : slot cs k = some c) : k < cs.length := by
  by_contra hge
  unfold slot at h
  rw [getElem?_eq_none (Nat.le_of_not_lt hge)] at h
  cases h

theorem addedSession_setUp (mode : SessionMode) (size : UInt32) :
    SetUp (addedSession mode size) :=
  ⟨by simp [addedSession, e2eFirstValidSessId], fun h => absurd rfl h⟩

/-- A controller that initialises is set up or not added at all. -/
theorem loadController_spec {inst : Nat} (hinit : Initialises cs inst row) :
    (∃ c mode size, loadController cs inst row = .done c ∧ c.e2eSession = addedSession mode size) ∨
      ∃ err, loadController cs inst row = .destroyed err := by
  unfold loadController
  split
  · exact .inr ⟨_, rfl⟩
  · exact .inr ⟨_, rfl⟩
  · exact .inr ⟨_, rfl⟩
  rename_i enable endpointId henable hsettings hendpoint
  by_cases hunique : isUniqueEndpointId cs inst endpointId = true
  · simp only [Initialises, henable, hsettings, hendpoint] at hinit
    obtain ⟨hrole, hmtps⟩ := hinit hunique
    simp only [hunique, hrole, Bool.not_true, Bool.false_eq_true, if_false]
    split
    · rename_i h; cases h
    · exact .inr ⟨_, rfl⟩
    · exact .inr ⟨_, rfl⟩
    · rename_i hupdate hnil
      exact absurd hnil (hmtps hupdate)
    split
    · exact .inr ⟨_, rfl⟩
    · exact .inr ⟨_, rfl⟩
    rename_i session _ hsession
    have : ∃ mode size, session = addedSession mode size := by
      unfold processControllerE2eSessionAdded at hsession
      cases hmode : row.sessionMode with
      | error e => rw [hmode] at hsession; cases hsession
      | ok mode =>
        cases hsize : row.maxRecordSize with
        | error e => rw [hmode, hsize] at hsession; cases hsession
        | ok size =>
          rw [hmode, hsize] at hsession
          cases hsession
          exact ⟨mode, size, rfl⟩
    obtain ⟨mode, size, rfl⟩ := this
    exact .inl ⟨_, mode, size, rfl, rfl⟩
  · simp only [hunique, Bool.not_false, if_true]
    exact .inr ⟨_, rfl⟩

/-- A slot that is overwritten, by nothing or by a controller that was set up. -/
theorem orderly_set {k : Nat} (ho : Orderly h)
    (hv : ∀ c, v = some c → SetUp c.e2eSession ∧ c.e2eSession.status = .down) :
    Orderly ⟨{ h.world with controllers := h.world.controllers.set k v },
      h.trace ++ [.added k]⟩ := by
  refine ⟨fun j c hc => ?_, ?_, ?_⟩
  · simp only [slot_set] at hc
    split at hc
    · obtain ⟨hset, hdown⟩ := hv c hc
      exact ⟨hset, fun hup => absurd hdown hup⟩
    · rename_i hne
      refine (ho.slots j c hc).later fun e he => ?_
      rw [List.mem_singleton.mp he]
      rintro ⟨⟩
      exact hne ⟨rfl, lt_of_slot hc⟩
  · exact rightlySent_concat ho.sent (by rintro _ _ _ ⟨⟩)
  · rw [sentItems_append, ← ho.complete]
    exact (append_nil _).symm

theorem add_orderly {inst : Nat} (ho : Orderly h)
    (hinit : Initialises h.world.controllers inst row)
    (hrun : processControllerAdded inst row h.world = some (r, s)) :
    Orderly ⟨s, h.trace ++ ((findUnused h.world.controllers).map Happened.added).toList⟩ := by
  unfold processControllerAdded at hrun
  cases hfree : findUnused h.world.controllers with
  | none =>
    rw [hfree] at hrun
    cases hrun
    simpa using ho
  | some k =>
    rw [hfree] at hrun
    rcases loadController_spec hinit with ⟨c, mode, size, hload, hc⟩ | ⟨err, hload⟩
    · rw [hload] at hrun
      cases hrun
      refine orderly_set ho ?_
      rintro c' ⟨⟩
      rw [hc]
      exact ⟨addedSession_setUp mode size, rfl⟩
    · rw [hload] at hrun
      cases hrun
      exact orderly_set ho (by rintro c' ⟨⟩)

/-- A step that leaves every session as it is and queues no session-context
record. -/
theorem orderly_plain (ho : Orderly h)
    (hslots : ∀ k c, slot s.controllers k = some c →
      ∃ c₀, slot h.world.controllers k = some c₀ ∧ c.e2eSession = c₀.e2eSession)
    (hq : s.queued = h.world.queued ++ items)
    (hitems : ∀ item ∈ items, ∀ ctx, item.pbuf.recordType ≠ .sessionContext ctx) :
    Orderly ⟨s, h.trace ++ items.map (.sent none)⟩ := by
  refine ⟨fun k c hc => ?_, ?_, ?_⟩
  · obtain ⟨c₀, hc₀, heq⟩ := hslots k c hc
    have hmore : ∀ e ∈ items.map (Happened.sent none), e ≠ .added k := by simp
    have hok := (ho.slots k c₀ hc₀).later hmore
    exact ⟨heq ▸ hok.setUp, fun hup => hok.established (heq ▸ hup)⟩
  · exact rightlySent_append items ho.sent fun item hi ctx hctx =>
      absurd hctx (hitems item hi ctx)
  · rw [sentItems_append, sentItems_map, ← ho.complete]
    exact hq

/-- A step that finds no session and adds no controller is a plain one. -/
theorem withoutSession_orderly (ho : Orderly h) (hadd : ∀ inst row, step ≠ .add inst row)
    (hrun : withoutSession H step h.world = some (r, s)) :
    Orderly ⟨s, h.trace ++ (s.queued.drop h.world.queued.length).map (.sent none)⟩ := by
  have hsame : Orderly ⟨h.world,
      h.trace ++ (h.world.queued.drop h.world.queued.length).map (.sent none)⟩ := by
    simpa using ho
  cases step with
  | add inst row => exact absurd rfl (hadd inst row)
  | delete inst =>
    simp only [withoutSession] at hrun
    split at hrun
    · cases hrun
      exact hsame
    · rename_i k _
      cases hrun
      simp only [drop_length]
      refine orderly_plain [] ho (fun j c hc => ⟨c, ?_, rfl⟩) (by simp) (by simp)
      rw [slot_set] at hc
      split at hc
      · cases hc
      · exact hc
  | setEnable inst enable =>
    simp only [withoutSession] at hrun
    split at hrun
    · cases hrun
    · rename_i k _
      cases hrun
      simp only [drop_length]
      refine orderly_plain [] ho (fun j c hc => ?_) (by simp) (by simp)
      simp only [slot, getElem?_modify] at hc ⊢
      cases hj : h.world.controllers[j]? with
      | none => simp [hj] at hc
      | some v =>
        rw [hj] at hc
        cases v with
        | none => split at hc <;> simp at hc
        | some c₀ =>
          refine ⟨c₀, rfl, ?_⟩
          split at hc <;>
          · simp at hc
            rw [← hc]
  | setMode inst mode => cases hrun
  | setMaxRecordSize inst size => cases hrun
  | event inst event => cases hrun; exact hsame
  | send inst msg => cases hrun; exact hsame
  | receive record => cases hrun; exact hsame
  | sendTo endpointId msg =>
    simp only [withoutSession, queueNoSession, Option.map_eq_some_iff] at hrun
    obtain ⟨⟨r', w⟩, hw, hs⟩ := hrun
    cases hs
    have hqueues : Keeps True (queueUspNoSessionRecord H endpointId msg)
        ⟨endpointId, zeroedSession, h.world.handled, h.world.queued⟩
        (Queues (fun item => ∀ ctx, item.pbuf.recordType ≠ .sessionContext ctx)
          ⟨endpointId, zeroedSession, h.world.handled, h.world.queued⟩) := by
      simp only [Keeps, queueUspNoSessionRecord, wp_bind, wp_require]
      split
      · exact queueBinaryMessage_queues H (by intro ctx h; cases h) _
      · trivial
    obtain ⟨items, hitems, hplain⟩ := (keeps_of_run hqueues hw).queued
    simp only at hitems
    simp only [hitems, drop_left]
    exact orderly_plain items ho (fun k c hc => ⟨c, hc, rfl⟩) rfl hplain

/-- A step on the session of a slot. -/
theorem session_orderly {k : Nat} {sessionStep : SessionStep} (ho : Orderly h)
    (htarget : sessionTarget h.world.controllers step = some (k, sessionStep))
    (hc : slot h.world.controllers k = some c) (hwrap : NoWrap c.e2eSession)
    (hrun : withSession k c (runStep H sessionStep) h.world = some (r, s)) :
    Orderly ⟨s, h.trace ++ happened h.world step s⟩ := by
  simp only [withSession, Option.map_eq_some_iff] at hrun
  obtain ⟨⟨r', w⟩, hw, hs⟩ := hrun
  cases hs
  have hok := ho.slots k c hc
  obtain ⟨hset, items, hq, hitems⟩ :=
    keeps_of_run (runStep_sends sessionStep (w := ⟨_, _, _, _⟩) hok.setUp hwrap) hw
  simp only at hq hitems
  have hslot : slot (h.world.controllers.set k (some { c with e2eSession := w.session })) k =
      some { c with e2eSession := w.session } := by
    rw [slot_set, if_pos ⟨rfl, lt_of_slot hc⟩]
  have hhappened : happened h.world step
      { controllers := h.world.controllers.set k (some { c with e2eSession := w.session })
        handled := w.handled
        queued := w.queued } =
      (if establishes c.e2eSession w.session
          (acceptedBy ⟨c.endpointId, c.e2eSession, h.world.handled, h.world.queued⟩ sessionStep)
        then [.established k] else []) ++ items.map (.sent (some (k, w.session.mode))) := by
    cases step with
    | add inst row => cases htarget
    | _ => simp only [happened, htarget, hc, hslot, hq, drop_left]
  rw [hhappened, ← append_assoc]
  generalize hest : (if establishes c.e2eSession w.session
      (acceptedBy ⟨c.endpointId, c.e2eSession, h.world.handled, h.world.queued⟩ sessionStep)
    then [Happened.established k] else []) = est
  have hestadd : ∀ e ∈ est, ∀ j, e ≠ .added j := by
    intro e he j
    rw [← hest] at he
    split at he
    · rw [List.mem_singleton.mp he]; rintro ⟨⟩
    · cases he
  have hsentadd : ∀ j, ∀ e ∈ items.map (Happened.sent (some (k, w.session.mode))),
      e ≠ .added j := by
    intro j e he
    obtain ⟨item, -, rfl⟩ := List.mem_map.mp he
    rintro ⟨⟩
  refine ⟨fun j c' hc' => ?_, ?_, ?_⟩
  · simp only [slot_set] at hc'
    split at hc'
    · rename_i hj
      obtain ⟨rfl, -⟩ := hj
      cases hc'
      refine ⟨hset, fun hup => establishedIn_append ?_ (hsentadd k)⟩
      by_cases hbefore : c.e2eSession.status = .down
      · rw [← hest, if_pos (by simp [establishes, hbefore, hup])]
        exact establishedIn_last (by simp)
      · exact establishedIn_append (hok.established hbefore) fun e he => hestadd e he k
    · exact ((ho.slots j c' hc').later fun e he => hestadd e he j).later (hsentadd j)
  · refine rightlySent_append items ?_ fun item hi ctx hctx => ?_
    · rw [← hest]
      split
      · exact rightlySent_concat ho.sent (by rintro _ _ _ ⟨⟩)
      · simpa using ho.sent
    · obtain ⟨hid, hmode⟩ := hitems item hi ctx hctx
      refine ⟨hid, k, _, rfl, hmode.imp_right fun hup => ?_⟩
      exact establishedIn_append (hok.established hup) fun e he => hestadd e he k
  · have hnone : sentItems est = [] := by
      rw [← hest]
      split <;> rfl
    rw [sentItems_append, sentItems_append, hnone, append_nil, ← ho.complete,
      sentItems_map]
    exact hq

/-- One step of the agent. -/
theorem step_orderly (step : AgentStep) (h : AgentHistory) (ho : Orderly h)
    (hmeets : StepMeets step h) : Keeps True (advance H step) h Orderly := by
  unfold Keeps Wp advance
  cases hrun : runAgentStep H step h.world with
  | none => trivial
  | some x =>
    obtain ⟨r, s⟩ := x
    show Orderly ⟨s, h.trace ++ happened h.world step s⟩
    unfold runAgentStep at hrun
    cases htarget : sessionTarget h.world.controllers step with
    | none =>
      rw [htarget] at hrun
      cases step with
      | add inst row => exact add_orderly ho (hmeets.1 _ rfl) hrun
      | _ =>
        have := withoutSession_orderly ho (by simp) hrun
        simpa only [happened, htarget] using this
    | some t =>
      obtain ⟨k, sessionStep⟩ := t
      rw [htarget] at hrun
      simp only at hrun
      cases hc : slot h.world.controllers k with
      | none => rw [hc] at hrun; cases hrun
      | some c =>
        rw [hc] at hrun
        exact session_orderly ho htarget hc (hmeets.2 _ htarget c hc) hrun

end Step

/-! ## Whole histories -/

/-- An agent without controllers. -/
def emptyHistory : AgentHistory where
  world :=
    { controllers := List.replicate maxControllers none
      handled := []
      queued := [] }
  trace := []

/-- A controller in mode `Allow`, with the given MTP rows. -/
def allowRow (mtps : List (Option Err)) : ControllerRow where
  enable := .ok true
  settings := none
  endpointId := .ok ['c']
  assignedRole := none
  updateAssignedRole := none
  mtps := .ok mtps
  sessionMode := .ok .allow
  maxRecordSize := .ok 0

/-- The controller opens a session, to which the agent answers. -/
def answeredHistory : List AgentStep :=
  [.add 1 (allowRow [none]), .send 1 [7],
    .receive (recordTo { quietHost with localEndpoint := ['c'] } ['a']
      (.sessionContext (segment 2 1 .none [8]))), .send 1 [9]]

/-- A controller is added without an MTP and then sent a message. -/
def zeroedHistory : List AgentStep := [.add 1 (allowRow []), .send 1 [7]]

end ControllerSessions
