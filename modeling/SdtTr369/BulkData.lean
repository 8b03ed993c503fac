import SdtTr369.SyncTimer
import SdtTr369.UspTypes

/-!
# Bulk data profiles

The functions of `device_bulkdata.c` that fire, retain and resync a profile. Answers
stand for the data model, the clock and the sender thread; of a report document the
reports in it are kept. Reports and documents bear a serial number, which the code has
not: that of the firing of a timer that made them.
-/

namespace BulkData

open UspTypes SyncTimer

/-- `INVALID`. -/
def invalid : Int := -1

/-- `BULKDATA_MAX_PROFILES`. -/
def maxProfiles : Nat := 5

/-- `BULKDATA_MAX_RETAINED_FAILED_REPORTS`. -/
def maxRetainedFailedReports : Nat := 3

/-- `bdc_protocol_t`. -/
inductive BdcProtocol where
  | http
  | uspEvent
  deriving DecidableEq, Repr

/-- `report_t`. -/
structure Report where
  serial : Nat
  collectionTime : Int
  reportMap : List (Str × Str)
  deriving DecidableEq, Repr

/-- `bulkdata_profile_t`, with the retained entries of its array. -/
structure Profile where
  profileId : Int
  isEnabled : Bool
  isWorking : Bool
  reportingInterval : Int
  timeReference : Int
  retryEnable : Bool
  retryMinimumWaitInterval : Nat
  retryIntervalMultiplier : Nat
  reports : List Report
  retryCount : Nat
  deriving DecidableEq, Repr

/-- A profile slot whose bytes are all zero. -/
def clearedProfile : Profile := ⟨0, false, false, 0, 0, false, 0, 0, [], 0⟩

/-- What `Validate_NumberOfRetainedFailedReports` lets through. -/
abbrev RetainedFailedReports := { n : Int // -1 ≤ n ∧ n ≤ maxRetainedFailedReports }

/-- What is used of `profile_ctrl_params_t`. -/
structure ProfileCtrlParams where
  numRetainedFailedReports : RetainedFailedReports
  url : Str

/-- A report document for the sender thread. -/
structure Document where
  serial : Nat
  profileId : Int
  fullUrl : Str
  reports : List Report
  deriving DecidableEq, Repr

/-- What is answered from outside while one callback runs. A call that fails gives
`none`, or `false`. -/
structure Answers where
  now : Int
  /-- `RETRY_WAIT_Calculate`. -/
  retryWait : Nat → Nat → Nat → Nat
  protocol : Option BdcProtocol
  ctrlParams : Option ProfileCtrlParams
  /-- `bulkdata_calc_report_map`. -/
  reportMap : Option (List (Str × Str))
  /-- `bulkdata_generate_json_report`. -/
  jsonReport : Bool
  /-- `bulkdata_platform_get_uri_query_params`. -/
  queryString : Option Str
  /-- `BDC_EXEC_PostReportToSend`. -/
  post : Bool
  /-- `DM_EXEC_IsNotificationsEnabled`. -/
  notificationsEnabled : Bool
  /-- The parameter `ReportTimestamp` can be read. -/
  reportTimestamp : Bool

/-! ## Wait times -/

/-- The conversion of C to an `unsigned`. -/
def toUnsigned (n : Int) : Nat := (n % 2 ^ 32).toNat

/-- The conversion of an `unsigned` to an `int`. -/
def toInt (n : Nat) : Int := if n < 2 ^ 31 then n else n - 2 ^ 32

/-- `bulkdata_calc_waittime_to_next_reporting_interval`. -/
def calcWaittimeToNextReportingInterval (A : Answers) (interval timeReference : Int) : Nat :=
  let waitTime := interval - (A.now - timeReference).tmod interval
  toUnsigned (if interval < waitTime then waitTime - interval else waitTime)

/-- `bulkdata_calc_waittime_to_next_send`. -/
def calcWaittimeToNextSend (A : Answers) (bp : Profile) : Nat × Profile :=
  let waitTime := calcWaittimeToNextReportingInterval A bp.reportingInterval bp.timeReference
  if bp.retryCount ≠ 0 then
    let retryTime := A.retryWait bp.retryCount bp.retryMinimumWaitInterval bp.retryIntervalMultiplier
    if retryTime < waitTime then (retryTime, bp) else (waitTime, { bp with retryCount := 0 })
  else (waitTime, bp)

/-! ## One profile -/

/-- A profile slot that is worked on, and the timers of all. -/
structure Serviced where
  profile : Profile
  timers : List Timer

/-- The timers after a call, which are the same when it fails. -/
def Serviced.setTimers (s : Serviced) (timers : Option (List Timer)) : Bool × Serviced :=
  match timers with
  | none => (false, s)
  | some timers => (true, { s with timers := timers })

/-- `bulkdata_clear_retained_reports`. -/
def clearRetainedReports (bp : Profile) : Profile := { bp with reports := [], retryCount := 0 }

/-- `bulkdata_drop_oldest_retained_reports`. -/
def dropOldestRetainedReports (bp : Profile) (numReportsToKeep : Nat) : Profile :=
  { bp with reports := bp.reports.drop (bp.reports.length - numReportsToKeep) }

/-- `bulkdata_start_profile`. -/
def startProfile (A : Answers) (s : Serviced) : Bool × Serviced :=
  let waitTime := calcWaittimeToNextReportingInterval A s.profile.reportingInterval
    s.profile.timeReference
  s.setTimers (SyncTimer.add s.profile.profileId (A.now + toInt waitTime) s.timers)

/-- `bulkdata_stop_profile`. -/
def stopProfile (s : Serviced) : Bool × Serviced :=
  let s := { s with profile := clearRetainedReports s.profile }
  s.setTimers (SyncTimer.remove s.profile.profileId s.timers)

/-- `bulkdata_resync_profile`. -/
def resyncProfile (A : Answers) (globalEnable : Bool) (s : Serviced) : Bool × Serviced :=
  let res := calcWaittimeToNextSend A s.profile
  let s := { s with profile := res.2 }
  if globalEnable = false ∨ s.profile.isEnabled = false then (true, s)
  else s.setTimers (SyncTimer.reload s.profile.profileId (A.now + toInt res.1) s.timers)

/-- The part of `DEVICE_BULKDATA_NotifyTransferResult` before the resync. -/
def takeTransferResult (success : Bool) (bp : Profile) : Profile :=
  if success then { clearRetainedReports bp with isWorking := true }
  else { bp with
    retryCount := if bp.retryEnable then (bp.retryCount + 1) % 2 ^ 32 else bp.retryCount
    isWorking := false }

/-- `DEVICE_BULKDATA_NotifyTransferResult` for the profile it has found. -/
def notifyTransferResult (A : Answers) (globalEnable success : Bool) (s : Serviced) : Serviced :=
  (resyncProfile A globalEnable { s with profile := takeTransferResult success s.profile }).2

/-- The limit that `bulkdata_platform_get_profile_control_params` returns. -/
def numRetained (n : RetainedFailedReports) : Nat :=
  if n.val = -1 then maxRetainedFailedReports else n.val.toNat

/-- The part of `bulkdata_process_profile_http` that appends the report of the interval,
unless failed reports are retried. -/
def appendReport (A : Answers) (ctrl : ProfileCtrlParams) (serial : Nat) (bp : Profile) :
    Bool × Profile :=
  if bp.retryCount ≠ 0 then (true, bp)
  else
    let keep := numRetained ctrl.numRetainedFailedReports
    let bp := if keep < bp.reports.length then dropOldestRetainedReports bp keep else bp
    match A.reportMap with
    | none => (false, bp)
    | some map => (true, { bp with reports := bp.reports ++ [⟨serial, A.now, map⟩] })

/-- `bulkdata_schedule_sending_http_report`. -/
def scheduleSendingHttpReport (A : Answers) (ctrl : ProfileCtrlParams) (serial : Nat)
    (bp : Profile) : Option Document :=
  if ctrl.url = [] then none
  else
    match A.queryString with
    | none => none
    | some query =>
      if A.post then some ⟨serial, bp.profileId, ctrl.url ++ query, bp.reports⟩ else none

/-- `bulkdata_process_profile_http`, with the document that it has handed over. -/
def processProfileHttp (A : Answers) (globalEnable : Bool) (serial : Nat) (s : Serviced) :
    Serviced × Option Document :=
  match A.ctrlParams with
  | none => (s, none)
  | some ctrl =>
    match appendReport A ctrl serial s.profile with
    | (false, bp) => ({ s with profile := bp }, none)
    | (true, bp) =>
      if A.jsonReport = false then ({ s with profile := bp }, none)
      else
        match scheduleSendingHttpReport A ctrl serial bp with
        | some doc => ({ s with profile := bp }, some doc)
        | none => (notifyTransferResult A globalEnable false { s with profile := bp }, none)

/-- `bulkdata_process_profile_usp_event`. -/
def processProfileUspEvent (A : Answers) (globalEnable : Bool) (serial : Nat) (s : Serviced) :
    Serviced :=
  if A.notificationsEnabled = false then (resyncProfile A globalEnable s).2
  else if A.reportTimestamp = false then s
  else
    let bp := clearRetainedReports s.profile
    match A.reportMap with
    | none => { s with profile := bp }
    | some map =>
      let bp := { bp with reports := [⟨serial, A.now, map⟩] }
      if A.jsonReport = false then { s with profile := bp }
      else (resyncProfile A globalEnable { s with profile := clearRetainedReports bp }).2

/-- `bulkdata_process_profile` for the profile it has found. -/
def processProfile (A : Answers) (globalEnable : Bool) (serial : Nat) (s : Serviced) :
    Serviced × Option Document :=
  match A.protocol with
  | none => (s, none)
  | some .http => processProfileHttp A globalEnable serial s
  | some .uspEvent => (processProfileUspEvent A globalEnable serial s, none)

/-! ## Changes of a profile -/

/-- The parameters that `ProcessBulkDataProfileAdded` reads, in its order. The time
reference is never unknown any more. -/
structure ProfileRow where
  enable : Option Bool
  reportingInterval : Option Int
  timeReference : Option Int
  retryMinimumWaitInterval : Option Nat
  retryIntervalMultiplier : Option Nat
  retryEnable : Option Bool

/-- The part of `ProcessBulkDataProfileAdded` that reads the parameters. -/
def loadProfile (row : ProfileRow) (bp : Profile) : Bool × Profile :=
  match row.enable with
  | none => (false, bp)
  | some enable =>
    let bp := { bp with isEnabled := enable }
    match row.reportingInterval with
    | none => (false, bp)
    | some interval =>
      let bp := { bp with reportingInterval := interval }
      match row.timeReference with
      | none => (false, bp)
      | some base =>
        let bp := { bp with timeReference := base }
        match row.retryMinimumWaitInterval with
        | none => (false, bp)
        | some wait =>
          let bp := { bp with retryMinimumWaitInterval := wait }
          match row.retryIntervalMultiplier with
          | none => (false, bp)
          | some multiplier =>
            let bp := { bp with retryIntervalMultiplier := multiplier }
            match row.retryEnable with
            | none => (false, bp)
            | some retry => (true, { bp with retryEnable := retry })

/-- `ProcessBulkDataProfileAdded` for the free slot it has found. A slot whose
parameters cannot be read is left with profile id zero. -/
def processBulkDataProfileAdded (A : Answers) (globalEnable : Bool) (instance_ : Int)
    (row : ProfileRow) (timers : List Timer) : Serviced :=
  match loadProfile row clearedProfile with
  | (false, bp) => ⟨bp, timers⟩
  | (true, bp) =>
    let s : Serviced := ⟨{ bp with profileId := instance_, isWorking := true }, timers⟩
    if bp.isEnabled ∧ globalEnable then
      match startProfile A s with
      | (true, s) => s
      | (false, s) => { s with profile := { s.profile with profileId := invalid } }
    else s

/-- `ProcessBulkDataProfileDeleted`. -/
def processBulkDataProfileDeleted (globalEnable : Bool) (s : Serviced) : Serviced :=
  let s := if globalEnable ∧ s.profile.isEnabled then (stopProfile s).2 else s
  { s with profile := { s.profile with profileId := invalid } }

/-- `NotifyChange_BulkDataProfileEnable` for the profile it has found. -/
def notifyChangeProfileEnable (A : Answers) (globalEnable value : Bool) (s : Serviced) :
    Serviced :=
  if value = s.profile.isEnabled then s
  else
    let s := { s with profile := { s.profile with isEnabled := value } }
    if globalEnable = false then s
    else if value then (startProfile A s).2
    else (stopProfile s).2

/-- A parameter that is copied to the profile slot. The URL is not. -/
inductive ParamChange where
  | reportingInterval (value : Int)
  | timeReference (value : Int)
  | retryEnable (value : Bool)
  | retryMinimumWaitInterval (value : Nat)
  | retryIntervalMultiplier (value : Nat)
  | url

/-- `NotifyChange_BulkDataReportingInterval` and its siblings; all but two resync. -/
def notifyChangeParam (A : Answers) (globalEnable : Bool) (change : ParamChange) (s : Serviced) :
    Serviced :=
  match change with
  | .reportingInterval value =>
    (resyncProfile A globalEnable { s with profile := { s.profile with reportingInterval := value } }).2
  | .timeReference value =>
    (resyncProfile A globalEnable { s with profile := { s.profile with timeReference := value } }).2
  | .retryEnable value => { s with profile := { s.profile with retryEnable := value } }
  | .retryMinimumWaitInterval value =>
    (resyncProfile A globalEnable
      { s with profile := { s.profile with retryMinimumWaitInterval := value } }).2
  | .retryIntervalMultiplier value =>
    (resyncProfile A globalEnable
      { s with profile := { s.profile with retryIntervalMultiplier := value } }).2
  | .url => s

/-- `NotifyChange_BulkDataGlobalEnable`, which returns at the first error. -/
def startOrStopAll (A : Answers) (globalEnable : Bool) :
    List Profile → List Timer → List Profile × List Timer
  | [], timers => ([], timers)
  | bp :: rest, timers =>
    if bp.profileId = invalid ∨ bp.isEnabled = false then
      let res := startOrStopAll A globalEnable rest timers
      (bp :: res.1, res.2)
    else
      match if globalEnable then startProfile A ⟨bp, timers⟩ else stopProfile ⟨bp, timers⟩ with
      | (true, s) =>
        let res := startOrStopAll A globalEnable rest s.timers
        (s.profile :: res.1, res.2)
      | (false, s) => (s.profile :: rest, s.timers)

/-- `bulkdata_find_profile`. -/
def findProfile (profileId : Int) (profiles : List Profile) : Option Nat :=
  profiles.findIdx? (·.profileId = profileId)

/-- `bulkdata_find_free_profile`. -/
def findFreeProfile (profiles : List Profile) : Option Nat := findProfile invalid profiles

/-! ## What the functions leave of a profile -/

variable {A : Answers} {globalEnable : Bool} {s : Serviced}

@[simp] theorem setTimers_profile (timers : Option (List Timer)) :
    (s.setTimers timers).2.profile = s.profile := by
  cases timers <;> rfl

@[simp] theorem startProfile_profile : (startProfile A s).2.profile = s.profile :=
  setTimers_profile _

@[simp] theorem stopProfile_profile : (stopProfile s).2.profile = clearRetainedReports s.profile :=
  setTimers_profile _

theorem calcWaittimeToNextSend_profile (A : Answers) (bp : Profile) :
    (calcWaittimeToNextSend A bp).2 = bp ∨
      (calcWaittimeToNextSend A bp).2 = { bp with retryCount := 0 } := by
  simp only [calcWaittimeToNextSend]
  split
  · split
    · exact .inl rfl
    · exact .inr rfl
  · exact .inl rfl

theorem resyncProfile_profile :
    (resyncProfile A globalEnable s).2.profile = s.profile ∨
      (resyncProfile A globalEnable s).2.profile = { s.profile with retryCount := 0 } := by
  simp only [resyncProfile]
  split
  · exact calcWaittimeToNextSend_profile A s.profile
  · rw [setTimers_profile]
    exact calcWaittimeToNextSend_profile A s.profile

@[simp] theorem resyncProfile_profileId :
    (resyncProfile A globalEnable s).2.profile.profileId = s.profile.profileId := by
  rcases resyncProfile_profile (A := A) (s := s) with h | h <;> rw [h]

@[simp] theorem resyncProfile_isEnabled :
    (resyncProfile A globalEnable s).2.profile.isEnabled = s.profile.isEnabled := by
  rcases resyncProfile_profile (A := A) (s := s) with h | h <;> rw [h]

@[simp] theorem resyncProfile_reports :
    (resyncProfile A globalEnable s).2.profile.reports = s.profile.reports := by
  rcases resyncProfile_profile (A := A) (s := s) with h | h <;> rw [h]

variable {success : Bool} {bp : Profile}

@[simp] theorem takeTransferResult_profileId :
    (takeTransferResult success bp).profileId = bp.profileId := by
  cases success <;> rfl

@[simp] theorem takeTransferResult_isEnabled :
    (takeTransferResult success bp).isEnabled = bp.isEnabled := by
  cases success <;> rfl

@[simp] theorem takeTransferResult_reports :
    (takeTransferResult success bp).reports = if success then [] else bp.reports := by
  cases success <;> rfl

end BulkData
