import SdtTr369.RunHistory
import SdtTr369.UspTypes

/-!
# The cause of a reboot

A command that reboots the agent writes its cause, its key and its request instance to the
database, and the next boot reads them back and resets them, each inside a transaction. A
history of boots, commands, exits and restarts is told a second time without the database:
which command was accepted last since a boot committed, and which software version that
boot ran. What a boot reports is read off this account.
-/

namespace RebootInfo

open UspTypes RunHistory Option

def localReboot : Str := "LocalReboot".toList
def remoteReboot : Str := "RemoteReboot".toList
def remoteFactoryReset : Str := "RemoteFactoryReset".toList
def factoryReset : Str := "FactoryReset".toList

/-- `INVALID`. -/
def invalid : Int := -1

/-- What a buffer of `MAX_DM_SHORT_VALUE_LEN` holds before its terminator. -/
def maxShortValue : Nat := 255

/-- `exit_action_t`. -/
inductive ExitAction
  | exit
  | reboot
  | factoryReset
  deriving DecidableEq

/-- The rows of the four parameters. The request instance is kept as the number its text
spells. -/
structure Stored where
  cause : Option Str
  commandKey : Option Str
  requestInstance : Option Int
  lastSoftwareVersion : Option Str
  deriving DecidableEq

/-- An empty database. -/
def noRows : Stored := ⟨none, none, none, none⟩

/-- `DATABASE_GetParameterValue` cuts a row to the buffer, and a missing row reads as the
registered default. -/
def readRow (row : Option Str) (default : Str) : Str :=
  match row with
  | some value => value.take maxShortValue
  | none => default

namespace Stored

def readCause (db : Stored) : Str := readRow db.cause factoryReset
def readKey (db : Stored) : Str := readRow db.commandKey []
def readInstance (db : Stored) : Int := db.requestInstance.getD invalid
def readLast (db : Stored) : Str := readRow db.lastSoftwareVersion []

end Stored

/-- `reboot_info_t`. A pointer not yet set is `none`. -/
structure Info where
  cause : Option Str
  commandKey : Option Str
  requestInstance : Int
  curSoftwareVersion : Option Str
  lastSoftwareVersion : Option Str
  isFirmwareUpdated : Bool
  deriving DecidableEq

def Info.cleared : Info := ⟨none, none, 0, none, none, false⟩

/-- What one boot is answered: the accesses of `PopulateRebootInfo`, the rest of the start and
its commit. The software version is what the vendor put into the buffer. -/
structure Boot where
  getCause : Bool
  setCause : Bool
  getKey : Bool
  setKey : Bool
  getInstance : Bool
  setInstance : Bool
  getLast : Bool
  getVersion : Bool
  setLast : Bool
  rest : Bool
  commit : Bool
  version : Str
  fits : version.length ≤ maxShortValue

/-- The last part of `PopulateRebootInfo`: the software versions. -/
def populateVersions (b : Boot) (db : Stored) (info : Info) : Stored × Info :=
  if ¬ b.getLast then (db, info)
  else if ¬ b.getVersion then (db, info)
  else
    let lastValue := db.readLast
    let lastVersion := if lastValue = [] then b.version else lastValue
    let info := { info with
      curSoftwareVersion := some b.version
      lastSoftwareVersion := some lastVersion }
    if ¬ b.setLast then (db, info)
    else
      ({ db with lastSoftwareVersion := some b.version },
        { info with isFirmwareUpdated := lastValue ≠ b.version ∧ lastValue ≠ [] })

/-- The part that reads and resets the request instance. Whether the reset is stored is not
looked at. -/
def populateInstance (b : Boot) (db : Stored) (info : Info) : Stored × Info :=
  if ¬ b.getInstance then (db, info)
  else
    let info := { info with requestInstance := db.readInstance }
    let db :=
      if db.readInstance ≠ invalid ∧ b.setInstance then { db with requestInstance := some invalid }
      else db
    populateVersions b db info

/-- The part that reads and resets the command key. Whether the reset is stored is not looked
at. -/
def populateKey (b : Boot) (db : Stored) (info : Info) : Stored × Info :=
  if ¬ b.getKey then (db, info)
  else
    let info := { info with commandKey := some db.readKey }
    let db := if db.readKey ≠ [] ∧ b.setKey then { db with commandKey := some [] } else db
    populateInstance b db info

/-- `PopulateRebootInfo`, from the rows to the rows left in the transaction. -/
def populateRebootInfo (b : Boot) (db : Stored) : Stored × Info :=
  if ¬ b.getCause then (db, .cleared)
  else
    let info := { Info.cleared with cause := some db.readCause }
    if db.readCause ≠ localReboot then
      if ¬ b.setCause then (db, info)
      else populateKey b { db with cause := some localReboot } info
    else populateKey b db info

/-- `Device.Reboot()` and `Device.FactoryReset()`. -/
inductive Kind
  | reboot
  | factoryReset
  deriving DecidableEq

namespace Kind

def action : Kind → ExitAction
  | reboot => .reboot
  | factoryReset => .factoryReset

def cause : Kind → Str
  | reboot => remoteReboot
  | factoryReset => remoteFactoryReset

end Kind

/-- A command, and what its three writes and its commit are answered. -/
structure Command where
  kind : Kind
  key : Str
  setCause : Bool
  setKey : Bool
  setInstance : Bool
  commit : Bool
  deriving DecidableEq

/-- The database file, and the process: whether it runs, `scheduled_exit_action`, whether an
exit is scheduled, and `reboot_info`. -/
structure Agent where
  db : Stored
  up : Bool
  exitAction : ExitAction
  exitScheduled : Bool
  info : Info
  deriving DecidableEq

/-- `DEVICE_LOCAL_AGENT_ScheduleReboot`, with the rows of the open transaction and whether it
returned that it succeeded. -/
def scheduleReboot (c : Command) (exitAction : ExitAction) (rebootCause : Str)
    (requestInstance : Int) (a : Agent) (db : Stored) : Agent × Stored × Bool :=
  if ¬ c.setCause then (a, db, false)
  else
    let db := { db with cause := some rebootCause }
    if ¬ c.setKey then (a, db, false)
    else
      let db := { db with commandKey := some c.key }
      if ¬ c.setInstance then (a, db, false)
      else
        ({ a with exitAction := exitAction, exitScheduled := true },
          { db with requestInstance := some requestInstance }, true)

/-- `MSG_HANDLER_HandleOperate` for one of the two commands: the transaction is aborted when
the command fails, else committed, and what the commit returns is not looked at. -/
def handleOperate (c : Command) (a : Agent) : Agent :=
  match scheduleReboot c c.kind.action c.kind.cause invalid a a.db with
  | (a, _, false) => a
  | (a, db, true) => if c.commit then { a with db := db } else a

/-- The process is gone, and the database with it if it was erased. -/
def Agent.down (erased : Bool) (a : Agent) : Agent :=
  ⟨if erased then noRows else a.db, false, .exit, false, .cleared⟩

/-- `DATA_MODEL_Start`: everything a boot writes is one transaction. -/
def dataModelStart (b : Boot) (a : Agent) : Agent :=
  let started := populateRebootInfo b a.db
  if b.rest ∧ b.commit then ⟨started.1, true, .exit, false, started.2⟩ else a.down false

/-- A boot that does not commit is also one that is cut short by a restart. `stop` is the
command line's. An exit or a restart may erase the database. -/
inductive Event
  | boot (b : Boot)
  | command (c : Command)
  | stop
  | exit (erased : Bool)
  | restart (erased : Bool)

def step : Event → Agent → Option Agent
  | .boot b, a => if a.up then none else some (dataModelStart b a)
  | .command c, a => if a.up then some (handleOperate c a) else none
  | .stop, a => if a.up then some { a with exitScheduled := true } else none
  | .exit erased, a => if a.up ∧ a.exitScheduled then some (a.down erased) else none
  | .restart erased, a => some (a.down erased)

/-- Before the first boot. -/
def unbooted : Agent := ⟨noRows, false, .exit, false, .cleared⟩

section Account

def Boot.Commits (b : Boot) : Prop := b.rest ∧ b.commit

def Command.Accepted (c : Command) : Prop := c.setCause ∧ c.setKey ∧ c.setInstance

instance (b : Boot) : Decidable b.Commits := inferInstanceAs (Decidable (_ ∧ _))
instance (c : Command) : Decidable c.Accepted := inferInstanceAs (Decidable (_ ∧ _))

/-- What a history comes to: the command accepted last since a boot committed, the software
version of that boot, and what it reported. On an empty database there is no such boot. -/
structure Account where
  accepted : Option (Kind × Str)
  version : Option Str
  report : Info

namespace Account

def cause (c : Account) : Str :=
  match c.accepted, c.version with
  | some (kind, _), _ => kind.cause
  | none, some _ => localReboot
  | none, none => RebootInfo.factoryReset

def key (c : Account) : Str :=
  match c.accepted with
  | some (_, key) => key.take maxShortValue
  | none => []

def action (c : Account) : ExitAction :=
  match c.accepted with
  | some (kind, _) => kind.action
  | none => .exit

/-- The version of the last boot, where it is known. -/
def lastVersion (c : Account) (version : Str) : Str :=
  match c.version with
  | some v => if v = [] then version else v
  | none => version

def reportOf (c : Account) (version : Str) : Info :=
  ⟨some c.cause, some c.key, invalid, some version, some (c.lastVersion version),
    c.lastVersion version ≠ version⟩

def step (c : Account) : Event → Account
  | .boot b => if b.Commits then ⟨none, some b.version, c.reportOf b.version⟩ else c
  | .command r => if r.Accepted then { c with accepted := some (r.kind, r.key) } else c
  | .stop => c
  | .exit erased | .restart erased => if erased then ⟨none, none, .cleared⟩ else c

end Account

def account (steps : List Event) : Account := steps.foldl Account.step ⟨none, none, .cleared⟩

end Account

section Boots

variable {a : Agent} {b : Boot} {db : Stored}

/-- Every access `PopulateRebootInfo` makes succeeds. -/
structure Boot.Succeeds (b : Boot) : Prop where
  getCause : b.getCause
  setCause : b.setCause
  getKey : b.getKey
  setKey : b.setKey
  getInstance : b.getInstance
  setInstance : b.setInstance
  getLast : b.getLast
  getVersion : b.getVersion
  setLast : b.setLast

/-- What a boot leaves for the next one. -/
structure Reset (db : Stored) (version : Str) : Prop where
  cause : db.readCause = localReboot
  key : db.readKey = []
  requestInstance : db.readInstance = invalid
  version : db.readLast = version

theorem readRow_some {value default : Str} (h : value.length ≤ maxShortValue) :
    readRow (some value) default = value := List.take_of_length_le h

theorem populateVersions_spec (db : Stored) {info : Info} (h : b.Succeeds)
    (hcause : db.readCause = localReboot)
    (hkey : db.readKey = []) (hinstance : db.readInstance = invalid) :
    Reset (populateVersions b db info).1 b.version ∧
      (populateVersions b db info).2 = { info with
        curSoftwareVersion := some b.version
        lastSoftwareVersion := some (if db.readLast = [] then b.version else db.readLast)
        isFirmwareUpdated := db.readLast ≠ b.version ∧ db.readLast ≠ [] } := by
  simp only [populateVersions, h.getLast, h.getVersion, h.setLast, not_true_eq_false, if_false]
  exact ⟨⟨hcause, hkey, hinstance, readRow_some b.fits⟩, trivial⟩

theorem populateInstance_spec (db : Stored) {info : Info} (h : b.Succeeds)
    (hcause : db.readCause = localReboot)
    (hkey : db.readKey = []) :
    Reset (populateInstance b db info).1 b.version ∧
      (populateInstance b db info).2 = { info with
        requestInstance := db.readInstance
        curSoftwareVersion := some b.version
        lastSoftwareVersion := some (if db.readLast = [] then b.version else db.readLast)
        isFirmwareUpdated := db.readLast ≠ b.version ∧ db.readLast ≠ [] } := by
  simp only [populateInstance, h.getInstance, h.setInstance, not_true_eq_false, if_false, and_true]
  by_cases hinstance : db.readInstance = invalid
  · rw [if_neg (not_not_intro hinstance)]
    exact populateVersions_spec db h hcause hkey hinstance
  · rw [if_pos hinstance]
    exact populateVersions_spec { db with requestInstance := some invalid } h hcause hkey rfl

theorem populateKey_spec (db : Stored) {info : Info} (h : b.Succeeds)
    (hcause : db.readCause = localReboot) :
    Reset (populateKey b db info).1 b.version ∧
      (populateKey b db info).2 = { info with
        commandKey := some db.readKey
        requestInstance := db.readInstance
        curSoftwareVersion := some b.version
        lastSoftwareVersion := some (if db.readLast = [] then b.version else db.readLast)
        isFirmwareUpdated := db.readLast ≠ b.version ∧ db.readLast ≠ [] } := by
  simp only [populateKey, h.getKey, h.setKey, not_true_eq_false, if_false, and_true]
  by_cases hkey : db.readKey = []
  · rw [if_neg (not_not_intro hkey)]
    exact populateInstance_spec db h hcause hkey
  · rw [if_pos hkey]
    exact populateInstance_spec { db with commandKey := some [] } h hcause rfl

/-- The boot reports what was stored and resets it. -/
theorem populateRebootInfo_spec (db : Stored) (h : b.Succeeds) :
    Reset (populateRebootInfo b db).1 b.version ∧
      (populateRebootInfo b db).2 =
        ⟨some db.readCause, some db.readKey, db.readInstance, some b.version,
          some (if db.readLast = [] then b.version else db.readLast),
          db.readLast ≠ b.version ∧ db.readLast ≠ []⟩ := by
  simp only [populateRebootInfo, h.getCause, h.setCause, not_true_eq_false, if_false]
  by_cases hcause : db.readCause = localReboot
  · rw [if_neg (not_not_intro hcause)]
    exact populateKey_spec db h hcause
  · rw [if_pos hcause]
    have hlocal : readRow (some localReboot) factoryReset = localReboot := by decide
    exact populateKey_spec { db with cause := some localReboot } h hlocal

end Boots

section Runs

variable {a a' : Agent} {c : Account}

/-- The database and the process are what the account says. -/
structure Tracks (a : Agent) (c : Account) : Prop where
  cause : a.db.readCause = c.cause
  key : a.db.readKey = c.key
  requestInstance : a.db.readInstance = invalid
  version : a.db.readLast = c.version.getD []
  action : a.up → a.exitAction = c.action
  report : a.up → a.info = c.report

/-- A boot that commits had every access succeed, and a command that succeeds is committed. -/
def Meets : Event → Prop
  | .boot b => b.Commits → b.Succeeds
  | .command c => c.Accepted → c.commit
  | _ => True

theorem tracks_unbooted : Tracks unbooted ⟨none, none, .cleared⟩ :=
  ⟨rfl, rfl, rfl, rfl, nofun, nofun⟩

/-- The row of the software version tells the last version and whether it changed. -/
theorem lastVersion_eq (h : Tracks a c) (version : Str) :
    (if a.db.readLast = [] then version else a.db.readLast) = c.lastVersion version ∧
      (a.db.readLast ≠ version ∧ a.db.readLast ≠ [] ↔ c.lastVersion version ≠ version) := by
  rw [h.version, Account.lastVersion]
  cases c.version with
  | none => simp
  | some v =>
    by_cases hv : v = []
    · simp [hv]
    · simp [hv]

theorem tracks_boot {b : Boot} (h : Tracks a c) (hcommits : b.Commits) (hb : b.Succeeds) :
    Tracks (dataModelStart b a) ⟨none, some b.version, c.reportOf b.version⟩ := by
  obtain ⟨hreset, hinfo⟩ := populateRebootInfo_spec a.db hb
  have hstart : dataModelStart b a =
      ⟨(populateRebootInfo b a.db).1, true, .exit, false, (populateRebootInfo b a.db).2⟩ :=
    if_pos hcommits
  rw [hstart]
  refine ⟨hreset.cause, hreset.key, hreset.requestInstance, hreset.version, fun _ => rfl, fun _ => ?_⟩
  obtain ⟨hlast, hupdated⟩ := lastVersion_eq h b.version
  simp only [hinfo, h.cause, h.key, h.requestInstance, hlast, hupdated, Account.reportOf]

theorem handleOperate_failed {r : Command} (h : ¬ r.Accepted) : handleOperate r a = a := by
  unfold Command.Accepted at h
  cases hcause : r.setCause <;> cases hkey : r.setKey <;> cases hinstance : r.setInstance <;>
    simp_all [handleOperate, scheduleReboot]

theorem tracks_command {r : Command} (h : Tracks a c) (haccepted : r.Accepted) (hcommit : r.commit) :
    Tracks (handleOperate r a) { c with accepted := some (r.kind, r.key) } := by
  obtain ⟨hcause, hkey, hinstance⟩ := haccepted
  have hdone : handleOperate r a = { a with
      db := { a.db with
        cause := some r.kind.cause
        commandKey := some r.key
        requestInstance := some invalid }
      exitAction := r.kind.action
      exitScheduled := true } := by
    simp [handleOperate, scheduleReboot, hcause, hkey, hinstance, hcommit]
  rw [hdone]
  have hfits : ∀ kind : Kind, kind.cause.length ≤ maxShortValue := by
    intro kind
    cases kind <;> decide
  exact ⟨readRow_some (hfits r.kind), rfl, rfl, h.version, fun _ => rfl, h.report⟩

theorem tracks_down (h : Tracks a c) (erased : Bool) :
    Tracks (a.down erased) (if erased then ⟨none, none, .cleared⟩ else c) := by
  cases erased with
  | true => exact tracks_unbooted
  | false => exact ⟨h.cause, h.key, h.requestInstance, h.version, nofun, nofun⟩

theorem tracks_step {e : Event} (h : Tracks a c) (hmeets : Meets e) (hstep : step e a = some a') :
    Tracks a' (c.step e) := by
  cases e with
  | boot b =>
    simp only [step, ite_none_left_eq_some, Option.some.injEq] at hstep
    obtain ⟨-, rfl⟩ := hstep
    by_cases hcommits : b.Commits
    · rw [Account.step, if_pos hcommits]
      exact tracks_boot h hcommits (hmeets hcommits)
    · have hdown : dataModelStart b a = a.down false := if_neg hcommits
      rw [Account.step, if_neg hcommits, hdown]
      exact tracks_down h false
  | command r =>
    simp only [step, ite_none_right_eq_some, Option.some.injEq] at hstep
    obtain ⟨-, rfl⟩ := hstep
    by_cases haccepted : r.Accepted
    · rw [Account.step, if_pos haccepted]
      exact tracks_command h haccepted (hmeets haccepted)
    · rw [Account.step, if_neg haccepted, handleOperate_failed haccepted]
      exact h
  | stop =>
    simp only [step, ite_none_right_eq_some, Option.some.injEq] at hstep
    obtain ⟨-, rfl⟩ := hstep
    exact ⟨h.cause, h.key, h.requestInstance, h.version, h.action, h.report⟩
  | exit erased =>
    simp only [step, ite_none_right_eq_some, Option.some.injEq] at hstep
    obtain ⟨-, rfl⟩ := hstep
    exact tracks_down h erased
  | restart erased =>
    obtain rfl : a.down erased = a' := by simpa [step] using hstep
    exact tracks_down h erased

theorem account_snoc (steps : List Event) (e : Event) :
    account (steps ++ [e]) = (account steps).step e := by
  simp [account]

theorem tracks_run : ∀ steps s, run step steps unbooted = some s → (∀ e ∈ steps, Meets e) →
    Tracks s (account steps) := by
  refine run_induction (fun _ => tracks_unbooted) ?_
  intro steps s e s' hrun ih hstep hmeets
  rw [account_snoc]
  have hbefore : ∀ e ∈ steps, Meets e := fun e he => hmeets e (List.mem_append_left _ he)
  exact tracks_step (ih hbefore) (hmeets e (by simp)) hstep

/-- While the agent runs it reports what the history comes to, the exit it takes is that of
the command accepted last, and a command that fails leaves everything as it was. -/
theorem reported_run {steps : List Event} {s : Agent} (hmeets : ∀ e ∈ steps, Meets e)
    (hrun : run step steps unbooted = some s) :
    (s.up → s.info = (account steps).report ∧ s.exitAction = (account steps).action) ∧
      ∀ c s', ¬ c.Accepted → step (.command c) s = some s' → s' = s := by
  have htracks := tracks_run steps s hrun hmeets
  refine ⟨fun hup => ⟨htracks.report hup, htracks.action hup⟩, ?_⟩
  intro c s' hfailed hstep
  simp only [step, ite_none_right_eq_some, Option.some.injEq] at hstep
  rw [← hstep.2, handleOperate_failed hfailed]

def booting (version : Str) (fits : version.length ≤ maxShortValue) : Event :=
  .boot ⟨true, true, true, true, true, true, true, true, true, true, true, version, fits⟩

def rebooting (key : String) : Event := .command ⟨.reboot, key.toList, true, true, true, true⟩

def updated : List Event :=
  [booting ['1'] (by decide), rebooting "k", .exit false, booting ['2'] (by decide)]

/-- A reboot by command into other software. -/
theorem reported_run_updated :
    ∃ s, run step updated unbooted = some s ∧ s.up ∧ s.info.cause = some remoteReboot ∧
      s.info.commandKey = some ['k'] ∧ s.info.isFirmwareUpdated := by
  have hsucceeds : ∀ v hv, Meets (booting v hv) := fun _ _ _ =>
    ⟨rfl, rfl, rfl, rfl, rfl, rfl, rfl, rfl, rfl⟩
  have hmeets : ∀ e ∈ updated, Meets e := by
    intro e he
    simp only [updated, List.mem_cons, List.not_mem_nil, or_false] at he
    obtain rfl | rfl | rfl | rfl := he
    · exact hsucceeds _ _
    · exact fun _ => rfl
    · trivial
    · exact hsucceeds _ _
  obtain ⟨hreport, -⟩ := (reported_run hmeets rfl).1 rfl
  refine ⟨_, rfl, rfl, ?_, ?_, ?_⟩ <;> rw [hreport] <;> decide

/-- A restart that no exit asked for is reported as the reboot of a command accepted before. -/
theorem unplanned_restart_reported :
    ∃ s, run step [booting ['1'] (by decide), rebooting "k", .restart false,
        booting ['1'] (by decide)] unbooted = some s ∧
      s.info.cause = some remoteReboot ∧ s.info.cause ≠ some localReboot ∧
      s.info.commandKey = some ['k'] :=
  ⟨_, rfl, by decide, by decide, by decide⟩

end Runs

end RebootInfo
