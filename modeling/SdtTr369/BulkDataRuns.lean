import SdtTr369.BdcExec
import SdtTr369.RunHistory

/-!
# Bulk data at work

The data model thread and the sender thread take steps in any order: profiles are
added, deleted and changed, timers fire, and the sender thread takes documents and
reports how their transfers ended.
-/

namespace BulkDataRuns

open BulkData BdcExec

/-- The profiles, their timers and the sender thread. Of what has happened are kept the
number of firings, the documents handed to the sender thread, those whose transfer has
succeeded, and those whose transfer result was taken from the queue. -/
structure Bulk where
  globalEnable : Bool
  profiles : List Profile
  timers : List SyncTimer.Timer
  fired : Nat
  thread : BdcThread
  results : List (Document × Bool)
  posted : List Document
  succeeded : List Document
  notified : List Document

/-- Before the first profile is added. -/
def Bulk.init (globalEnable : Bool) : Bulk where
  globalEnable := globalEnable
  profiles := List.replicate maxProfiles { clearedProfile with profileId := invalid }
  timers := []
  fired := 0
  thread := ⟨[], List.replicate maxProfiles none⟩
  results := []
  posted := []
  succeeded := []
  notified := []

inductive Op where
  | added (A : Answers) (instance_ : Int) (row : ProfileRow)
  | deleted (instance_ : Int)
  | changeGlobalEnable (A : Answers) (value : Bool)
  | changeProfileEnable (A : Answers) (instance_ : Int) (value : Bool)
  | changeParam (A : Answers) (instance_ : Int) (change : ParamChange)
  /-- `SYNC_TIMER_Execute` finds the timer expired. -/
  | fire (A : Answers) (id : Int)
  /-- The data model thread takes a transfer result from its queue. -/
  | result (A : Answers)
  | receive (R : ReceiveAnswers)
  /-- A transfer ends, and the message about it can be sent or not. -/
  | complete (k : Nat) (success sent : Bool)

/-- The documents that wait for their transfer result. -/
def Bulk.outstanding (b : Bulk) : List Document := b.results.map (·.1) ++ held b.thread

/-- The slot that was found is worked on, if one was. -/
def Bulk.service (b : Bulk) (slot : Option Nat) (f : Serviced → Serviced) : Bulk :=
  match slot with
  | none => b
  | some k =>
    match b.profiles[k]? with
    | none => b
    | some bp =>
      let s := f ⟨bp, b.timers⟩
      { b with profiles := b.profiles.set k s.profile, timers := s.timers }

/-- The documents that a firing timer hands to the sender thread. -/
def Bulk.handedOver (b : Bulk) (A : Answers) (id : Int) : List Document :=
  match (findProfile id b.profiles).bind (b.profiles[·]?) with
  | none => []
  | some bp => (processProfile A b.globalEnable b.fired ⟨bp, b.timers⟩).2.toList

/-- `bulkdata_process_profile`, once the timer has fired. -/
def Bulk.process (b : Bulk) (A : Answers) (id : Int) : Bulk :=
  let docs := b.handedOver A id
  { b.service (findProfile id b.profiles)
      (fun s => (processProfile A b.globalEnable b.fired s).1) with
    thread := { b.thread with messages := b.thread.messages ++ docs }
    posted := b.posted ++ docs }

/-- One step; `none` where it cannot be taken or fails an assertion. Instances are
numbered from one, none is added that is there, and of an instance that cannot exist
nothing can be read. -/
def step : Op → Bulk → Option Bulk
  | .added A instance_ row, b =>
    if instance_ ≤ 0 ∨ ∃ bp ∈ b.profiles, bp.profileId = instance_ then none
    else some (b.service (findFreeProfile b.profiles) fun s =>
      processBulkDataProfileAdded A b.globalEnable instance_ row s.timers)
  | .deleted instance_, b =>
    if instance_ ≤ 0 then none
    else some (b.service (findProfile instance_ b.profiles)
      (processBulkDataProfileDeleted b.globalEnable))
  | .changeGlobalEnable A value, b =>
    if value = b.globalEnable then some b
    else
      let res := startOrStopAll A value b.profiles b.timers
      some { b with globalEnable := value, profiles := res.1, timers := res.2 }
  | .changeProfileEnable A instance_ value, b =>
    if instance_ ≤ 0 ∨ findProfile instance_ b.profiles = none then none
    else some (b.service (findProfile instance_ b.profiles)
      (notifyChangeProfileEnable A b.globalEnable value))
  | .changeParam A instance_ change, b =>
    if instance_ ≤ 0 ∨ findProfile instance_ b.profiles = none then none
    else some (b.service (findProfile instance_ b.profiles)
      (notifyChangeParam A b.globalEnable change))
  | .fire A id, b =>
    if id ≤ 0 ∧ A.protocol.isSome then none
    else (SyncTimer.fire id A.now b.timers).map fun timers =>
      { b with timers := timers, fired := b.fired + 1 }.process A id
  | .result A, b =>
    match b.results with
    | [] => none
    | (doc, success) :: results =>
      some ({ b with results := results, notified := b.notified ++ [doc] }.service
        (findProfile doc.profileId b.profiles) (notifyTransferResult A b.globalEnable success))
  | .receive R, b =>
    some { b with thread := processBdcMessageQueueSocketActivity R b.thread }
  | .complete k success sent, b =>
    (handleBdcTransferComplete k b.thread).map fun (doc, thread) =>
      { b with
        thread := thread
        succeeded := b.succeeded ++ if success then [doc] else []
        results := b.results ++ if sent then [(doc, success)] else [] }

/-! ## Work on one slot -/

variable {b b' : Bulk} {id : Int} {k : Nat} {bp : Profile} {f : Serviced → Serviced}

theorem findProfile_some (h : findProfile id b.profiles = some k) :
    ∃ bp, b.profiles[k]? = some bp ∧ bp.profileId = id := by
  obtain ⟨hlt, hid, -⟩ := List.findIdx?_eq_some_iff_getElem.mp h
  exact ⟨b.profiles[k], List.getElem?_eq_getElem hlt, of_decide_eq_true hid⟩

theorem findProfile_eq_none :
    findProfile id b.profiles = none ↔ ∀ bp ∈ b.profiles, bp.profileId ≠ id := by
  simp [findProfile, List.findIdx?_eq_none_iff]

theorem service_some (hk : b.profiles[k]? = some bp) :
    b.service (some k) f =
      { b with
        profiles := b.profiles.set k (f ⟨bp, b.timers⟩).profile
        timers := (f ⟨bp, b.timers⟩).timers } := by
  simp [Bulk.service, hk]

/-- Work on a slot changes the profiles and the timers only. -/
theorem service_others (b : Bulk) (slot : Option Nat) (f : Serviced → Serviced) :
    b.service slot f =
      { b with profiles := (b.service slot f).profiles, timers := (b.service slot f).timers } := by
  unfold Bulk.service
  split
  · rfl
  · split <;> rfl

@[simp] theorem service_globalEnable (b : Bulk) (slot : Option Nat) (f : Serviced → Serviced) :
    (b.service slot f).globalEnable = b.globalEnable := by
  rw [service_others]

@[simp] theorem service_fired (b : Bulk) (slot : Option Nat) (f : Serviced → Serviced) :
    (b.service slot f).fired = b.fired := by
  rw [service_others]

@[simp] theorem service_posted (b : Bulk) (slot : Option Nat) (f : Serviced → Serviced) :
    (b.service slot f).posted = b.posted := by
  rw [service_others]

@[simp] theorem service_succeeded (b : Bulk) (slot : Option Nat) (f : Serviced → Serviced) :
    (b.service slot f).succeeded = b.succeeded := by
  rw [service_others]

@[simp] theorem service_notified (b : Bulk) (slot : Option Nat) (f : Serviced → Serviced) :
    (b.service slot f).notified = b.notified := by
  rw [service_others]

@[simp] theorem service_outstanding (b : Bulk) (slot : Option Nat) (f : Serviced → Serviced) :
    (b.service slot f).outstanding = b.outstanding := by
  rw [service_others]
  rfl

@[simp] theorem process_fired (b : Bulk) (A : Answers) (id : Int) :
    (b.process A id).fired = b.fired := service_fired ..

/-- What the sender thread is handed goes to the end of its queue. -/
theorem process_outstanding (b : Bulk) (A : Answers) (id : Int) :
    (b.process A id).outstanding = b.outstanding ++ b.handedOver A id := by
  rw [Bulk.process, service_others]
  simp [Bulk.outstanding, held]

@[simp] theorem process_posted (b : Bulk) (A : Answers) (id : Int) :
    (b.process A id).posted = b.posted ++ b.handedOver A id := rfl

/-- No slot has the id, or the first that has it is worked on. -/
theorem service_found (b : Bulk) (id : Int) (f : Serviced → Serviced) :
    (findProfile id b.profiles = none ∧ b.service (findProfile id b.profiles) f = b) ∨
      ∃ k bp, findProfile id b.profiles = some k ∧ b.profiles[k]? = some bp ∧
        bp.profileId = id ∧ b.service (findProfile id b.profiles) f =
          { b with
            profiles := b.profiles.set k (f ⟨bp, b.timers⟩).profile
            timers := (f ⟨bp, b.timers⟩).timers } := by
  cases h : findProfile id b.profiles with
  | none => exact .inl ⟨rfl, rfl⟩
  | some k =>
    obtain ⟨bp, hk, hid⟩ := findProfile_some h
    exact .inr ⟨k, bp, rfl, hk, hid, service_some hk⟩

/-! ## A profile that reports -/

/-- All goes well at the given time. -/
def httpAnswers (now : Int) : Answers where
  now := now
  retryWait := fun _ wait _ => wait
  protocol := some .http
  ctrlParams := some ⟨⟨0, by decide⟩, "http://bdc".toList⟩
  reportMap := some []
  jsonReport := true
  queryString := some []
  post := true
  notificationsEnabled := true
  reportTimestamp := true

def enabledRow : ProfileRow where
  enable := some true
  reportingInterval := some 60
  timeReference := some 0
  retryMinimumWaitInterval := some 5
  retryIntervalMultiplier := some 2000
  retryEnable := some true

def received : Op := .receive ⟨true, true⟩

/-- The first profile is added and its first report is handed over. -/
def firstReport : List Op :=
  [.added (httpAnswers 0) 1 enabledRow, .fire (httpAnswers 60) 1, received]

end BulkDataRuns
