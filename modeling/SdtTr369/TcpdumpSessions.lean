import SdtTr369.JavaText
import SdtTr369.ReportingInterval
import SdtTr369.RunHistory

/-!
# Packet capture sessions

`TcpdumpX.java` starts a capture when its url is set. A watcher on a thread of its own waits
for the file to reach the size limit, and a timer fires after the duration. Both stop the
capture and upload the file, with what the fields of the object hold by then: the
parameters, the thread and the timer of the last session.
-/

namespace TcpdumpSessions

open UspTypes JavaText RunHistory List Option

/-! ## The parameters -/

/-- `TcpdumpBean`; `none` is `null`. -/
structure TcpdumpBean where
  enable : Option Str
  ip : Option Str
  port : Option Str
  netType : Option Str
  duration : Option Str
  url : Option Str
  fileSize : Int
  deriving DecidableEq, Repr

def initialBean : TcpdumpBean := ⟨none, none, none, none, none, none, 0⟩

def maxTcpdumpDuration : Str := "30".toList
def maxTcpdumpSize : Int := 300
def maxTcpdumpPercent : Int := 5

/-- The last segment of the path. -/
inductive Param where
  | enable
  | url
  | ip
  | port
  | duration
  | netType
  | fileSize
  | other
  deriving DecidableEq, Repr

/-- The setters of `SK_TR369_SetTcpdumpParams`; no result is a `NumberFormatException`. -/
def TcpdumpBean.store (b : TcpdumpBean) (value : Str) : Param → Option TcpdumpBean
  | .enable => some { b with enable := some value }
  | .url => some { b with url := some value }
  | .ip => some { b with ip := some value }
  | .port => some { b with port := some value }
  | .duration => some { b with duration := some (if value = [] then maxTcpdumpDuration else value) }
  | .netType => some { b with netType := some value }
  | .fileSize => (parseLong value).map fun n => { b with fileSize := n }
  | .other => some b

/-- `TextUtils.isEmpty` -/
def isEmpty (text : Option Str) : Bool := text.getD [] = []

/-- The text that `generateArgs` builds. -/
def TcpdumpBean.args (b : TcpdumpBean) : Str :=
  let text := b.netType.getD []
  let text := if isEmpty b.port then text else text ++ " port ".toList ++ b.port.getD []
  if isEmpty b.ip then text
  else (if text = [] then text else text ++ " and".toList) ++ " dst ".toList ++ b.ip.getD []

def wrapLong (n : Int) : Int := ReportingInterval.wrap 64 n

/-- `getFileSize`, with what `getFreeRom` returns where it is called. -/
def getFileSize (fileSize rom rom' : Int) : Int :=
  let size := if 0 < fileSize then fileSize else maxTcpdumpSize
  if wrapLong (size * maxTcpdumpPercent) ≤ rom then size else rom'.tdiv maxTcpdumpPercent

/-- The file has reached the limit. -/
def fileFull (fileSize length : Int) : Bool := wrapLong (fileSize * 1024 * 1024) ≤ length

/-- The delay given to `timer.schedule`; none when the duration is no number or is negative. -/
def TcpdumpBean.delay (b : TcpdumpBean) : Option Int :=
  (b.duration.bind parseInt).bind fun n => if n < 0 then none else some (n * 1000)

/-! ## Sessions -/

/-- Where the watcher of a session stands. It is dropped when its message is removed or its
looper quits before it has begun. -/
inductive Watcher where
  | waiting
  | missing
  | looping (fileSize : Int)
  | reached
  | stopped
  | uploaded
  | done
  | dropped
  deriving DecidableEq, Repr

/-- Where the timer of a session stands; `absent` is a timer without a task. -/
inductive Task where
  | unarmed
  | absent
  | scheduled (delay : Int)
  | cancelled
  | fired
  | stopped
  | removed
  | done
  deriving DecidableEq, Repr

/-- A session with the parameters at its start. The last fields are history: the sessions that
its watcher and its timer have stopped, and the urls they have uploaded to. -/
structure Session where
  bean : TcpdumpBean
  watcher : Watcher
  task : Task
  stops : List Nat
  uploads : List (Option Str)
  deriving DecidableEq, Repr

/-- The message of a watcher that has not begun is gone. -/
def Session.drop (σ : Session) : Session :=
  if σ.watcher = .waiting then { σ with watcher := .dropped } else σ

/-- The task of a cancelled timer; one that has begun goes on. -/
def Session.cancel (σ : Session) : Session :=
  match σ.task with
  | .scheduled _ => { σ with task := .cancelled }
  | _ => σ

/-- The object, the system properties, and the sessions, of which `handlerThread` and `handler`
belong to the last one. While a session is being armed `timer` still belongs to the one before. -/
structure State where
  bean : TcpdumpBean
  tcpdump : Bool
  tcpdumpArgs : Str
  sessions : List Session
  arming : Bool
  deriving DecidableEq, Repr

def initialState : State := ⟨initialBean, false, [], [], false⟩

namespace State

variable (s : State)

def modify (i : Nat) (f : Session → Session) : State :=
  { s with sessions := s.sessions.modify i f }

/-- The session that `handlerThread` and `handler` belong to. -/
def current : Nat := s.sessions.length - 1

/-- The session that `timer` belongs to; before the first it is `null`. -/
def timerOwner : Option Nat :=
  if s.arming = false then some s.current else if s.current = 0 then none else some (s.current - 1)

/-- `timer.cancel()` -/
def cancelTimer : State :=
  match s.timerOwner with
  | some i => s.modify i Session.cancel
  | none => s

end State

/-- `stopTcpdump`, called by a session. -/
def stopTcpdump (i : Nat) (s : State) : State :=
  let stopped := { s with tcpdump := false, tcpdumpArgs := [' '] }
  (stopped.modify i fun σ => { σ with stops := σ.stops ++ [s.current] }).modify s.current Session.drop

/-- `startTcpdump`, up to the timer. -/
def startTcpdump (s : State) : State :=
  { s with
    tcpdump := true
    sessions := s.sessions ++ [⟨s.bean, .waiting, .unarmed, [], []⟩]
    arming := true }

/-- `checkStart` with `generateArgs`. -/
def checkStart (s : State) : State :=
  if s.bean.enable = some ['1'] ∧ isEmpty s.bean.url = false then
    if s.bean.args = [] then { s with tcpdump := false, tcpdumpArgs := [' '] }
    else startTcpdump { s with tcpdumpArgs := s.bean.args }
  else s

/-- `SK_TR369_SetTcpdumpParams`, up to the timer of a session that it starts. -/
def setTcpdumpParams (param : Param) (value : Str) (s : State) : State :=
  match s.bean.store value param with
  | none => s
  | some bean => if param = .url then checkStart { s with bean := bean } else { s with bean := bean }

/-- The steps of a set, of the watchers and of the timers. -/
inductive Event where
  | set (param : Param) (value : Str)
  | arm
  | begin (i : Nat) (fileExists : Bool) (rom rom' : Int)
  | check (i : Nat) (length : Int)
  | watcherStop (i : Nat)
  | watcherUpload (i : Nat)
  | watcherCancel (i : Nat)
  | fire (i : Nat)
  | timerStop (i : Nat)
  | timerRemove (i : Nat)
  | timerUpload (i : Nat)
  deriving DecidableEq, Repr

def watcherAt (s : State) (i : Nat) : Option Watcher := s.sessions[i]?.map (·.watcher)

def taskAt (s : State) (i : Nat) : Option Task := s.sessions[i]?.map (·.task)

def upload (url : Option Str) (σ : Session) : Session := { σ with uploads := σ.uploads ++ [url] }

def step : Event → State → Option State
  | .set param value, s => if s.arming then none else some (setTcpdumpParams param value s)
  | .arm, s =>
    if s.arming then
      let task := match s.bean.delay with
        | some delay => Task.scheduled delay
        | none => .absent
      some { s.modify s.current (fun σ => { σ with task := task }) with arming := false }
    else none
  | .begin i fileExists rom rom', s =>
    if watcherAt s i = some .waiting then
      let watcher :=
        if fileExists then Watcher.looping (getFileSize s.bean.fileSize rom rom') else .missing
      some (s.modify i fun σ => { σ with watcher := watcher })
    else none
  | .check i length, s =>
    match watcherAt s i with
    | some (.looping fileSize) =>
      some (if fileFull fileSize length then s.modify i fun σ => { σ with watcher := .reached } else s)
    | _ => none
  | .watcherStop i, s =>
    match watcherAt s i with
    | some .missing => some ((stopTcpdump i s).modify i fun σ => { σ with watcher := .done })
    | some .reached => some ((stopTcpdump i s).modify i fun σ => { σ with watcher := .stopped })
    | _ => none
  | .watcherUpload i, s =>
    if watcherAt s i = some .stopped then
      some (s.modify i fun σ => { upload s.bean.url σ with watcher := .uploaded })
    else none
  | .watcherCancel i, s =>
    if watcherAt s i = some .uploaded then
      some (s.cancelTimer.modify i fun σ => { σ with watcher := .done })
    else none
  | .fire i, s =>
    match taskAt s i with
    | some (.scheduled _) => some (s.modify i fun σ => { σ with task := .fired })
    | _ => none
  | .timerStop i, s =>
    if taskAt s i = some .fired then
      some ((stopTcpdump i s).modify i fun σ => { σ with task := .stopped })
    else none
  | .timerRemove i, s =>
    if taskAt s i = some .stopped then
      some ((s.modify s.current Session.drop).modify i fun σ => { σ with task := .removed })
    else none
  | .timerUpload i, s =>
    if taskAt s i = some .removed then
      some (s.modify i fun σ => { upload s.bean.url σ with task := .done })
    else none

/-! ## What a session should do -/

/-- Neither the watcher nor the timer does anything any more. -/
def Session.Over (σ : Session) : Prop :=
  (σ.watcher = .done ∨ σ.watcher = .dropped) ∧
    (σ.task = .absent ∨ σ.task = .cancelled ∨ σ.task = .done)

instance (σ : Session) : Decidable σ.Over := inferInstanceAs (Decidable (_ ∧ _))

/-- A session stops itself only, and uploads to its own url only, both once; its limits are its
own; the end of its watcher or of its timer is the end of both; and the capture goes on until
it is stopped. -/
structure Right (s : State) (i : Nat) (σ : Session) : Prop where
  stops : σ.stops = [] ∨ σ.stops = [i]
  uploads : σ.uploads = [] ∨ σ.uploads = [σ.bean.url]
  size : ∀ fileSize, σ.watcher = .looping fileSize →
    ∃ rom rom', fileSize = getFileSize σ.bean.fileSize rom rom'
  delay : ∀ delay, σ.task = .scheduled delay → σ.bean.delay = some delay
  ended : σ.watcher = .done ∨ σ.task = .done → σ.Over
  once : σ.Over → σ.stops = [i] ∧ σ.uploads = [σ.bean.url]
  capturing : σ.stops = [] → s.tcpdump = true

def AllRight (s : State) : Prop := ∀ i σ, s.sessions[i]? = some σ → Right s i σ

/-- No session is started, nor its url or size changed, while another one is not over; a timer
fires only before its watcher has begun, and a watcher begins only with its file and before its
timer has fired. -/
def StepMeets (s : State) : Event → Prop
  | .set .url _ => ∀ σ ∈ s.sessions, σ.Over
  | .set .fileSize _ => ∀ σ ∈ s.sessions, σ.watcher ≠ .waiting
  | .begin i fileExists _ _ =>
    fileExists = true ∧ taskAt s i ≠ some .unarmed ∧ taskAt s i ≠ some .fired
  | .fire i => watcherAt s i = some .waiting
  | _ => True

/-! ## Sessions one after the other -/

/-- The timer can still fire, or there is none. -/
def Task.Pending (task : Task) : Prop := task = .absent ∨ ∃ delay, task = .scheduled delay

/-- How far the two threads of session `i` have come, with what they have done so far. -/
inductive Fine (i : Nat) (url : Option Str) :
    Watcher → Task → List Nat → List (Option Str) → Prop where
  | starting : Fine i url .waiting .unarmed [] []
  | waiting {task} (h : task.Pending) : Fine i url .waiting task [] []
  | looping {task} (fileSize) (h : task.Pending) : Fine i url (.looping fileSize) task [] []
  | reached {task} (h : task.Pending) : Fine i url .reached task [] []
  | stopped {task} (h : task.Pending) : Fine i url .stopped task [i] []
  | uploaded {task} (h : task.Pending) : Fine i url .uploaded task [i] [url]
  | cancelled {task} (h : task = .absent ∨ task = .cancelled) : Fine i url .done task [i] [url]
  | fired : Fine i url .waiting .fired [] []
  | timerStopped : Fine i url .dropped .stopped [i] []
  | timerRemoved : Fine i url .dropped .removed [i] []
  | timerUploaded : Fine i url .dropped .done [i] [url]

/-- What holds of a session as long as every step meets the condition. -/
structure Good (s : State) (i : Nat) (σ : Session) : Prop where
  fine : Fine i σ.bean.url σ.watcher σ.task σ.stops σ.uploads
  size : ∀ fileSize, σ.watcher = .looping fileSize →
    ∃ rom rom', fileSize = getFileSize σ.bean.fileSize rom rom'
  delay : ∀ delay, σ.task = .scheduled delay → σ.bean.delay = some delay
  last : σ.Over ∨ i = s.current
  url : σ.Over ∨ s.bean.url = σ.bean.url
  fileSize : σ.watcher = .waiting → s.bean.fileSize = σ.bean.fileSize
  unarmed : σ.task = .unarmed → s.bean = σ.bean ∧ s.arming = true
  capturing : σ.stops = [] → s.tcpdump = true

def Sound (s : State) : Prop :=
  (s.arming = true → taskAt s s.current = some .unarmed) ∧
    ∀ i σ, s.sessions[i]? = some σ → Good s i σ

variable {fileSize : Int}

namespace Fine

variable {i : Nat} {url : Option Str} {watcher : Watcher} {task : Task} {stops : List Nat}
  {uploads : List (Option Str)}

section

variable (h : Fine i url watcher task stops uploads)
include h

theorem stops_once : stops = [] ∨ stops = [i] := by
  cases h <;> simp

theorem uploads_once : uploads = [] ∨ uploads = [url] := by
  cases h <;> simp

/-- A session that is over has done everything once. -/
theorem of_over (hwatcher : watcher = .done ∨ watcher = .dropped)
    (htask : task = .absent ∨ task = .cancelled ∨ task = .done) :
    stops = [i] ∧ uploads = [url] := by
  cases h with
  | cancelled | timerUploaded => exact ⟨rfl, rfl⟩
  | timerStopped | timerRemoved => simp at htask
  | starting | waiting | looping | reached | stopped | uploaded | fired => simp at hwatcher

/-- The end of one of the two threads is the end of both. -/
theorem ended (hdone : watcher = .done ∨ task = .done) :
    (watcher = .done ∨ watcher = .dropped) ∧
      (task = .absent ∨ task = .cancelled ∨ task = .done) := by
  cases h with
  | cancelled h => exact ⟨.inl rfl, h.imp id .inl⟩
  | timerUploaded => exact ⟨.inr rfl, .inr (.inr rfl)⟩
  | waiting h | looping _ h | reached h | stopped h | uploaded h =>
    rcases h with h | ⟨delay, h⟩ <;> simp [h] at hdone
  | starting | fired | timerStopped | timerRemoved => simp at hdone

end

theorem of_unarmed (h : Fine i url watcher .unarmed stops uploads) :
    watcher = .waiting ∧ stops = [] ∧ uploads = [] := by
  cases h with
  | starting => exact ⟨rfl, rfl, rfl⟩
  | waiting h | looping _ h | reached h | stopped h | uploaded h =>
    rcases h with h | ⟨delay, h⟩ <;> cases h
  | cancelled h => rcases h with h | h <;> cases h

theorem of_waiting (h : Fine i url .waiting task stops uploads) :
    (task = .unarmed ∨ task.Pending ∨ task = .fired) ∧ stops = [] ∧ uploads = [] := by
  cases h with
  | starting => exact ⟨.inl rfl, rfl, rfl⟩
  | waiting h => exact ⟨.inr (.inl h), rfl, rfl⟩
  | fired => exact ⟨.inr (.inr rfl), rfl, rfl⟩

theorem of_dropped (h : Fine i url .dropped task stops uploads) :
    task = .stopped ∨ task = .removed ∨ task = .done := by
  cases h <;> simp

theorem of_looping (h : Fine i url (.looping fileSize) task stops uploads) :
    task.Pending ∧ stops = [] ∧ uploads = [] := by
  cases h with
  | looping _ h => exact ⟨h, rfl, rfl⟩

theorem of_reached (h : Fine i url .reached task stops uploads) :
    task.Pending ∧ stops = [] ∧ uploads = [] := by
  cases h with
  | reached h => exact ⟨h, rfl, rfl⟩

theorem of_stopped (h : Fine i url .stopped task stops uploads) :
    task.Pending ∧ stops = [i] ∧ uploads = [] := by
  cases h with
  | stopped h => exact ⟨h, rfl, rfl⟩

theorem of_uploaded (h : Fine i url .uploaded task stops uploads) :
    task.Pending ∧ stops = [i] ∧ uploads = [url] := by
  cases h with
  | uploaded h => exact ⟨h, rfl, rfl⟩

theorem not_missing : ¬ Fine i url .missing task stops uploads := nofun

theorem of_fired (h : Fine i url watcher .fired stops uploads) :
    watcher = .waiting ∧ stops = [] ∧ uploads = [] := by
  cases h with
  | fired => exact ⟨rfl, rfl, rfl⟩
  | waiting h | looping _ h | reached h | stopped h | uploaded h =>
    rcases h with h | ⟨delay, h⟩ <;> cases h
  | cancelled h => rcases h with h | h <;> cases h

theorem of_timerStopped (h : Fine i url watcher .stopped stops uploads) :
    watcher = .dropped ∧ stops = [i] ∧ uploads = [] := by
  cases h with
  | timerStopped => exact ⟨rfl, rfl, rfl⟩
  | waiting h | looping _ h | reached h | stopped h | uploaded h =>
    rcases h with h | ⟨delay, h⟩ <;> cases h
  | cancelled h => rcases h with h | h <;> cases h

theorem of_timerRemoved (h : Fine i url watcher .removed stops uploads) :
    watcher = .dropped ∧ stops = [i] ∧ uploads = [] := by
  cases h with
  | timerRemoved => exact ⟨rfl, rfl, rfl⟩
  | waiting h | looping _ h | reached h | stopped h | uploaded h =>
    rcases h with h | ⟨delay, h⟩ <;> cases h
  | cancelled h => rcases h with h | h <;> cases h

end Fine

section Sessions

variable {s s' : State} {i : Nat} {σ τ : Session}

theorem Good.right (h : Good s i σ) : Right s i σ :=
  ⟨h.fine.stops_once, h.fine.uploads_once, h.size, h.delay, h.fine.ended,
    fun hover => h.fine.of_over hover.1 hover.2, h.capturing⟩

/-- The other sessions are over, and nothing matters to them any more. -/
theorem Good.of_over (h : Good s i σ) (hover : σ.Over) : Good s' i σ where
  fine := h.fine
  size := h.size
  delay := h.delay
  last := .inl hover
  url := .inl hover
  fileSize := by
    intro hwaiting
    rcases hover.1 with hdone | hdropped
    · rw [hwaiting] at hdone
      cases hdone
    · rw [hwaiting] at hdropped
      cases hdropped
  unarmed := by
    intro hunarmed
    rcases hover.2 with htask | htask | htask <;> rw [hunarmed] at htask <;> cases htask
  capturing := by
    intro hnone
    rw [(h.fine.of_over hover.1 hover.2).1] at hnone
    cases hnone

theorem modify_at (hi : s.sessions[i]? = some σ) (f : Session → Session) :
    (s.modify i f).sessions[i]? = some (f σ) := by
  rw [State.modify, getElem?_modify_eq, hi]
  rfl

theorem modify_other (f : Session → Session) {j : Nat} (hj : j ≠ i) :
    (s.modify i f).sessions[j]? = s.sessions[j]? :=
  getElem?_modify_ne f s.sessions (Ne.symm hj)

theorem modify_length (s : State) (i : Nat) (f : Session → Session) :
    (s.modify i f).sessions.length = s.sessions.length := length_modify f _ _

section

variable (h : Sound s) (hi : s.sessions[i]? = some σ) (hwork : ¬ σ.Over)
include h hi hwork

/-- The session at work, which is the last, makes a step. -/
theorem sound_of_update (hnew : s'.sessions[i]? = some τ)
    (hothers : ∀ j, j ≠ i → s'.sessions[j]? = s.sessions[j]?)
    (hlength : s'.sessions.length = s.sessions.length) (hgood : Good s' i τ)
    (harming : s'.arming = true → τ.task = .unarmed) : Sound s' := by
  have hlast := (h.2 i σ hi).last.resolve_left hwork
  have hcurrent : s'.current = i := by rw [State.current, hlength, hlast, State.current]
  refine ⟨fun harm => ?_, fun j ρ hj => ?_⟩
  · rw [taskAt, hcurrent, hnew, map_some, harming harm]
  · by_cases hji : j = i
    · subst hji
      rw [hnew] at hj
      cases hj
      exact hgood
    · rw [hothers j hji] at hj
      have hgood' := h.2 j ρ hj
      have hne : j ≠ s.current := fun heq => hji (heq.trans hlast.symm)
      exact hgood'.of_over (hgood'.last.resolve_right hne)

theorem not_arming (htask : σ.task ≠ .unarmed) : s.arming = false := by
  have hlast := (h.2 i σ hi).last.resolve_left hwork
  cases harm : s.arming with
  | false => rfl
  | true =>
    have hcurrent := h.1 harm
    rw [taskAt, ← hlast, hi, map_some, Option.some.injEq] at hcurrent
    exact absurd hcurrent htask

/-- A step of the watcher or of the timer of the session at work. -/
theorem sound_step {f : Session → Session} (htask : σ.task ≠ .unarmed)
    (hsessions : s'.sessions = s.sessions) (hbean : s'.bean = s.bean)
    (harm : s'.arming = s.arming) (hτ : f σ = τ) (hown : τ.bean = σ.bean)
    (hfine : Fine i σ.bean.url τ.watcher τ.task τ.stops τ.uploads)
    (hsize : ∀ fileSize, τ.watcher = .looping fileSize →
      ∃ rom rom', fileSize = getFileSize σ.bean.fileSize rom rom')
    (hdelay : ∀ delay, τ.task = .scheduled delay → σ.task = .scheduled delay)
    (hwaiting : τ.watcher = .waiting → σ.watcher = .waiting) (htask' : τ.task ≠ .unarmed)
    (hcapturing : τ.stops = [] → s'.tcpdump = true) : Sound (s'.modify i f) := by
  have hgood := h.2 i σ hi
  have hbean : (s'.modify i f).bean = s.bean := hbean
  have hidle : (s'.modify i f).arming = false := harm.trans (not_arming h hi hwork htask)
  have hlength : (s'.modify i f).sessions.length = s.sessions.length := by
    rw [modify_length, hsessions]
  refine sound_of_update h hi hwork (hτ ▸ modify_at (hsessions ▸ hi) f)
    (fun j hj => by rw [modify_other f hj, hsessions]) hlength ?_ ?_
  · constructor
    · rw [hown]
      exact hfine
    · rw [hown]
      exact hsize
    · rw [hown]
      exact fun delay hscheduled => hgood.delay delay (hdelay delay hscheduled)
    · right
      rw [State.current, hlength]
      exact hgood.last.resolve_left hwork
    · right
      rw [hbean, hown]
      exact hgood.url.resolve_left hwork
    · rw [hbean, hown]
      exact fun hw => hgood.fileSize (hwaiting hw)
    · exact fun hunarmed => absurd hunarmed htask'
    · exact hcapturing
  · intro harm'
    rw [hidle] at harm'
    cases harm'

end

theorem modify_modify (s : State) (i : Nat) (f g : Session → Session) :
    (s.modify i f).modify i g = s.modify i (g ∘ f) := by
  rw [State.modify, State.modify, modify_modify_eq]
  rfl

theorem Task.Pending.ne_unarmed {task : Task} (h : task.Pending) : task ≠ .unarmed := by
  rintro rfl
  rcases h with h | ⟨delay, h⟩ <;> cases h

/-! ## Steps of the watcher -/

theorem begin_sound (h : Sound s) (hi : s.sessions[i]? = some σ) (hwatcher : σ.watcher = .waiting)
    (htask : σ.task ≠ .unarmed) (hfired : σ.task ≠ .fired) (rom rom' : Int) :
    Sound (s.modify i fun σ =>
      { σ with watcher := .looping (getFileSize s.bean.fileSize rom rom') }) := by
  have hgood := h.2 i σ hi
  have hfine := hgood.fine
  rw [hwatcher] at hfine
  obtain ⟨hpending, hstops, huploads⟩ := hfine.of_waiting
  refine sound_step h hi (by simp [Session.Over, hwatcher]) htask rfl rfl rfl rfl rfl ?_ ?_
    (fun _ hd => hd) nofun htask
    hgood.capturing
  · have hpending := (hpending.resolve_left htask).resolve_right hfired
    dsimp only
    rw [hstops, huploads]
    exact .looping _ hpending
  · rintro _ ⟨⟩
    exact ⟨rom, rom', by rw [hgood.fileSize hwatcher]⟩

theorem check_sound (h : Sound s) (hi : s.sessions[i]? = some σ)
    (hwatcher : σ.watcher = .looping fileSize) :
    Sound (s.modify i fun σ => { σ with watcher := .reached }) := by
  have hgood := h.2 i σ hi
  have hfine := hgood.fine
  rw [hwatcher] at hfine
  obtain ⟨hpending, hstops, huploads⟩ := hfine.of_looping
  refine sound_step h hi (by simp [Session.Over, hwatcher]) hpending.ne_unarmed rfl rfl rfl
    rfl rfl ?_ nofun
    (fun _ hd => hd) nofun hpending.ne_unarmed hgood.capturing
  dsimp only
  rw [hstops, huploads]
  exact .reached hpending

/-- What `stopTcpdump` leaves when it is called by the last session. -/
theorem stopTcpdump_at (hlast : i = s.current) (f : Session → Session) :
    (stopTcpdump i s).modify i f =
      { s with tcpdump := false, tcpdumpArgs := [' '] }.modify i
        (f ∘ Session.drop ∘ fun σ => { σ with stops := σ.stops ++ [i] }) := by
  subst hlast
  rw [stopTcpdump, modify_modify, modify_modify]
  rfl

section

variable (h : Sound s) (hi : s.sessions[i]? = some σ)
include h hi

/-- The session at work stops itself. -/
theorem stop_sound (hwork : ¬ σ.Over) (htask : σ.task ≠ .unarmed) {f : Session → Session}
    (hτ : f (Session.drop { σ with stops := σ.stops ++ [i] }) = τ) (hown : τ.bean = σ.bean)
    (hfine : Fine i σ.bean.url τ.watcher τ.task τ.stops τ.uploads)
    (hwatcher : τ.watcher = .stopped ∨ τ.watcher = .dropped)
    (hdelay : ∀ delay, τ.task = .scheduled delay → σ.task = .scheduled delay)
    (htask' : τ.task ≠ .unarmed) (hstops : τ.stops = [i]) :
    Sound ((stopTcpdump i s).modify i f) := by
  have hlast := (h.2 i σ hi).last.resolve_left hwork
  rw [stopTcpdump_at hlast]
  refine sound_step h hi hwork htask rfl rfl rfl hτ hown hfine ?_ hdelay ?_ htask' ?_
  · intro fileSize hlooping
    rcases hwatcher with hw | hw <;> rw [hlooping] at hw <;> cases hw
  · intro hwaiting
    rcases hwatcher with hw | hw <;> rw [hwaiting] at hw <;> cases hw
  · intro hnone
    rw [hstops] at hnone
    cases hnone

theorem watcherStop_sound (hwatcher : σ.watcher = .reached) :
    Sound ((stopTcpdump i s).modify i fun σ => { σ with watcher := .stopped }) := by
  have hfine := (h.2 i σ hi).fine
  rw [hwatcher] at hfine
  obtain ⟨hpending, hstops, huploads⟩ := hfine.of_reached
  have hdrop : Session.drop { σ with stops := σ.stops ++ [i] } = { σ with stops := [i] } := by
    rw [Session.drop, if_neg (by simp [hwatcher]), hstops]
    rfl
  refine stop_sound (τ := { σ with stops := [i], watcher := .stopped }) h hi
    (by simp [Session.Over, hwatcher]) hpending.ne_unarmed (by rw [hdrop]) rfl ?_ (.inl rfl)
    (fun _ hd => hd) hpending.ne_unarmed rfl
  dsimp only
  rw [huploads]
  exact .stopped hpending

theorem watcherUpload_sound (hwatcher : σ.watcher = .stopped) :
    Sound (s.modify i fun σ => { upload s.bean.url σ with watcher := .uploaded }) := by
  have hgood := h.2 i σ hi
  have hfine := hgood.fine
  have hwork : ¬ σ.Over := by simp [Session.Over, hwatcher]
  rw [hwatcher] at hfine
  obtain ⟨hpending, hstops, huploads⟩ := hfine.of_stopped
  refine sound_step h hi hwork hpending.ne_unarmed rfl rfl rfl rfl rfl ?_ nofun
    (fun _ hd => hd) nofun
    hpending.ne_unarmed hgood.capturing
  dsimp only [upload]
  rw [hstops, huploads, hgood.url.resolve_left hwork]
  exact .uploaded hpending

theorem watcherCancel_sound (hwatcher : σ.watcher = .uploaded) :
    Sound (s.cancelTimer.modify i fun σ => { σ with watcher := .done }) := by
  have hgood := h.2 i σ hi
  have hfine := hgood.fine
  have hwork : ¬ σ.Over := by simp [Session.Over, hwatcher]
  rw [hwatcher] at hfine
  obtain ⟨hpending, hstops, huploads⟩ := hfine.of_uploaded
  have hlast := hgood.last.resolve_left hwork
  have howner : s.timerOwner = some i := by
    rw [State.timerOwner, if_pos (not_arming h hi hwork hpending.ne_unarmed), hlast]
  have hcancel : s.cancelTimer = s.modify i Session.cancel := by
    simp only [State.cancelTimer, howner]
  rw [hcancel, modify_modify]
  have htask : (Session.cancel σ).task = .absent ∨ (Session.cancel σ).task = .cancelled := by
    rcases hpending with habsent | ⟨delay, hscheduled⟩
    · exact .inl (by simp [Session.cancel, habsent])
    · exact .inr (by simp [Session.cancel, hscheduled])
  have hsame : (Session.cancel σ).bean = σ.bean ∧ (Session.cancel σ).stops = σ.stops ∧
      (Session.cancel σ).uploads = σ.uploads := by
    unfold Session.cancel
    split <;> exact ⟨rfl, rfl, rfl⟩
  refine sound_step (τ := { Session.cancel σ with watcher := .done }) h hi hwork
    hpending.ne_unarmed rfl rfl rfl rfl hsame.1 ?_ nofun ?_ nofun ?_ ?_
  · dsimp only
    rw [hsame.2.1, hsame.2.2, hstops, huploads]
    exact .cancelled htask
  · intro delay hscheduled
    rcases htask with htask | htask <;> rw [hscheduled] at htask <;> cases htask
  · intro hunarmed
    rcases htask with htask | htask <;> rw [hunarmed] at htask <;> cases htask
  · intro hnone
    rw [hsame.2.1, hstops] at hnone
    cases hnone

/-! ## Steps of the timer -/

theorem fire_sound {delay : Int} (htask : σ.task = .scheduled delay)
    (hwatcher : σ.watcher = .waiting) : Sound (s.modify i fun σ => { σ with task := .fired }) := by
  have hgood := h.2 i σ hi
  have hfine := hgood.fine
  rw [hwatcher] at hfine
  obtain ⟨-, hstops, huploads⟩ := hfine.of_waiting
  refine sound_step h hi (by simp [Session.Over, hwatcher]) (by simp [htask]) rfl rfl rfl
    rfl rfl ?_ ?_ nofun
    (fun hw => hw) nofun hgood.capturing
  · dsimp only
    rw [hwatcher, hstops, huploads]
    exact .fired
  · intro fileSize hlooping
    dsimp only at hlooping
    rw [hwatcher] at hlooping
    cases hlooping

theorem timerStop_sound (htask : σ.task = .fired) :
    Sound ((stopTcpdump i s).modify i fun σ => { σ with task := .stopped }) := by
  have hfine := (h.2 i σ hi).fine
  rw [htask] at hfine
  obtain ⟨hwatcher, hstops, huploads⟩ := hfine.of_fired
  have hdrop : Session.drop { σ with stops := σ.stops ++ [i] } =
      { σ with stops := [i], watcher := .dropped } := by
    rw [Session.drop, if_pos hwatcher, hstops]
    rfl
  refine stop_sound (τ := { σ with stops := [i], watcher := .dropped, task := .stopped }) h hi
    (by simp [Session.Over, htask]) (by simp [htask]) (by rw [hdrop]) rfl ?_ (.inr rfl) nofun
    nofun rfl
  dsimp only
  rw [huploads]
  exact .timerStopped

theorem timerRemove_sound (htask : σ.task = .stopped) :
    Sound ((s.modify s.current Session.drop).modify i fun σ => { σ with task := .removed }) := by
  have hgood := h.2 i σ hi
  have hfine := hgood.fine
  have hwork : ¬ σ.Over := by simp [Session.Over, htask]
  rw [htask] at hfine
  obtain ⟨hwatcher, hstops, huploads⟩ := hfine.of_timerStopped
  have hdrop : Session.drop σ = σ := by rw [Session.drop, if_neg (by simp [hwatcher])]
  rw [← hgood.last.resolve_left hwork, modify_modify]
  refine sound_step (τ := { σ with task := .removed }) h hi hwork (by simp [htask]) rfl rfl rfl
    (by simp [hdrop]) rfl ?_ ?_ nofun (fun hw => hw) nofun hgood.capturing
  · dsimp only
    rw [hwatcher, hstops, huploads]
    exact .timerRemoved
  · intro fileSize hlooping
    dsimp only at hlooping
    rw [hwatcher] at hlooping
    cases hlooping

theorem timerUpload_sound (htask : σ.task = .removed) :
    Sound (s.modify i fun σ => { upload s.bean.url σ with task := .done }) := by
  have hgood := h.2 i σ hi
  have hfine := hgood.fine
  have hwork : ¬ σ.Over := by simp [Session.Over, htask]
  rw [htask] at hfine
  obtain ⟨hwatcher, hstops, huploads⟩ := hfine.of_timerRemoved
  refine sound_step h hi hwork (by simp [htask]) rfl rfl rfl rfl rfl ?_ ?_ nofun
    (fun hw => hw) nofun
    hgood.capturing
  · dsimp only [upload]
    rw [hwatcher, hstops, huploads, hgood.url.resolve_left hwork]
    exact .timerUploaded
  · intro fileSize hlooping
    dsimp only [upload] at hlooping
    rw [hwatcher] at hlooping
    cases hlooping

end

/-! ## Steps of a set -/

/-- The timer of the session that is started gets its task. -/
theorem arm_sound (h : Sound s) (harm : s.arming = true) {task : Task}
    (htask : task = match s.bean.delay with
      | some delay => Task.scheduled delay
      | none => .absent) :
    Sound { s.modify s.current (fun σ => { σ with task := task }) with arming := false } := by
  obtain ⟨σ, hi, hunarmed⟩ := map_eq_some_iff.mp (h.1 harm)
  have hgood := h.2 s.current σ hi
  obtain ⟨hbean, -⟩ := hgood.unarmed hunarmed
  have hfine := hgood.fine
  rw [hunarmed] at hfine
  obtain ⟨hwatcher, hstops, huploads⟩ := hfine.of_unarmed
  have hpending : task.Pending ∧ ∀ delay, task = .scheduled delay → s.bean.delay = some delay := by
    rw [htask]
    cases s.bean.delay with
    | none => exact ⟨.inl rfl, nofun⟩
    | some delay => exact ⟨.inr ⟨delay, rfl⟩, fun _ heq => by cases heq; rfl⟩
  have hwork : ¬ σ.Over := by simp [Session.Over, hwatcher]
  refine sound_of_update (τ := { σ with task := task }) h hi hwork (modify_at hi _)
    (fun j hj => modify_other _ hj) (modify_length s _ _) ?_ nofun
  constructor
  · dsimp only
    rw [hwatcher, hstops, huploads]
    exact .waiting hpending.1
  · exact hgood.size
  · intro delay hscheduled
    have := hpending.2 delay hscheduled
    rw [hbean] at this
    exact this
  · right
    exact congrArg (· - 1) (modify_length s _ _).symm
  · exact .inr (congrArg TcpdumpBean.url hbean)
  · exact fun _ => congrArg TcpdumpBean.fileSize hbean
  · exact fun hnot => absurd hnot hpending.1.ne_unarmed
  · exact hgood.capturing

/-- Parameters that the session at work does not depend on any more. -/
theorem bean_sound {bean : TcpdumpBean} (h : Sound s) (harm : s.arming = false)
    (hurl : (∀ σ ∈ s.sessions, σ.Over) ∨ bean.url = s.bean.url)
    (hsize : (∀ σ ∈ s.sessions, σ.watcher ≠ .waiting) ∨ bean.fileSize = s.bean.fileSize) :
    Sound { s with bean := bean } := by
  refine ⟨fun harm' => ?_, fun i σ hi => ?_⟩
  · rw [harm] at harm'
    cases harm'
  have hgood := h.2 i σ hi
  have hmem := mem_of_getElem? hi
  constructor
  · exact hgood.fine
  · exact hgood.size
  · exact hgood.delay
  · exact hgood.last
  · rcases hurl with hover | hsame
    · exact .inl (hover σ hmem)
    · exact hgood.url.imp id fun heq => hsame.trans heq
  · intro hwaiting
    rcases hsize with hnone | hsame
    · exact absurd hwaiting (hnone σ hmem)
    · exact hsame.trans (hgood.fileSize hwaiting)
  · intro hunarmed
    have harm' := (hgood.unarmed hunarmed).2
    rw [harm] at harm'
    cases harm'
  · exact hgood.capturing

theorem over_not_waiting (hover : ∀ σ ∈ s.sessions, σ.Over) :
    ∀ σ ∈ s.sessions, σ.watcher ≠ .waiting := by
  intro σ hσ hwaiting
  rcases (hover σ hσ).1 with hdone | hdropped
  · rw [hwaiting] at hdone
    cases hdone
  · rw [hwaiting] at hdropped
    cases hdropped

/-- Nothing is at work, so the properties do not matter. -/
theorem idle_sound (h : Sound s) (harm : s.arming = false) (hover : ∀ σ ∈ s.sessions, σ.Over)
    (tcpdump : Bool) (args : Str) : Sound { s with tcpdump := tcpdump, tcpdumpArgs := args } := by
  refine ⟨fun harm' => ?_, fun i σ hi => ?_⟩
  · rw [harm] at harm'
    cases harm'
  · exact (h.2 i σ hi).of_over (hover σ (mem_of_getElem? hi))

theorem start_sound (h : Sound s) (hover : ∀ σ ∈ s.sessions, σ.Over) : Sound (startTcpdump s) := by
  have hlength : (startTcpdump s).sessions.length = s.sessions.length + 1 := length_append
  have hcurrent : (startTcpdump s).current = s.sessions.length := by
    rw [State.current, hlength]
    rfl
  have hlast : (startTcpdump s).sessions[s.sessions.length]? =
      some ⟨s.bean, .waiting, .unarmed, [], []⟩ := getElem?_concat_length
  refine ⟨fun _ => ?_, fun i σ hi => ?_⟩
  · rw [taskAt, hcurrent, hlast]
    rfl
  · by_cases hnew : i = s.sessions.length
    · rw [hnew, hlast] at hi
      cases hi
      exact ⟨.starting, nofun, nofun, .inr (hnew.trans hcurrent.symm), .inr rfl, fun _ => rfl,
        fun _ => ⟨rfl, rfl⟩, fun _ => rfl⟩
    · have hlt : i < s.sessions.length := by
        have := (List.getElem?_eq_some_iff.mp hi).1
        rw [hlength] at this
        omega
      have hold : s.sessions[i]? = some σ := by
        rw [← hi]
        exact (getElem?_append_left hlt).symm
      exact (h.2 i σ hold).of_over (hover σ (mem_of_getElem? hold))

theorem checkStart_sound (h : Sound s) (harm : s.arming = false)
    (hover : ∀ σ ∈ s.sessions, σ.Over) : Sound (checkStart s) := by
  unfold checkStart
  split
  · split
    · exact idle_sound h harm hover false [' ']
    · exact start_sound (idle_sound h harm hover s.tcpdump s.bean.args) hover
  · exact h

/-- The setters leave what they do not set. -/
theorem store_url {b b' : TcpdumpBean} {value : Str} {param : Param}
    (h : b.store value param = some b') : (param ≠ .url → b'.url = b.url) ∧
      (param ≠ .fileSize → b'.fileSize = b.fileSize) := by
  cases param with
  | fileSize =>
    obtain ⟨n, -, rfl⟩ := map_eq_some_iff.mp h
    exact ⟨fun _ => rfl, fun hne => absurd rfl hne⟩
  | url =>
    cases h
    exact ⟨fun hne => absurd rfl hne, fun _ => rfl⟩
  | enable | ip | port | duration | netType | other =>
    cases h
    exact ⟨fun _ => rfl, fun _ => rfl⟩

theorem set_sound {param : Param} {value : Str} (h : Sound s) (harm : s.arming = false)
    (hmeets : StepMeets s (.set param value)) : Sound (setTcpdumpParams param value s) := by
  unfold setTcpdumpParams
  split
  · exact h
  · next bean hstore =>
    obtain ⟨hurl, hsize⟩ := store_url hstore
    split
    · next heq =>
      subst heq
      have hover : ∀ σ ∈ s.sessions, σ.Over := hmeets
      exact checkStart_sound (bean_sound h harm (.inl hover) (.inl (over_not_waiting hover)))
        harm hover
    · next hne =>
      refine bean_sound h harm (.inr (hurl hne)) ?_
      by_cases heq : param = .fileSize
      · subst heq
        exact .inl hmeets
      · exact .inr (hsize heq)

/-! ## Runs -/

theorem step_sound {event : Event} (h : Sound s) (hmeets : StepMeets s event)
    (hstep : step event s = some s') : Sound s' := by
  cases event with
  | set param value =>
    simp only [step] at hstep
    split at hstep
    · cases hstep
    · next harm =>
      cases hstep
      exact set_sound h (by simpa using harm) hmeets
  | arm =>
    simp only [step] at hstep
    split at hstep
    · next harm =>
      cases hstep
      exact arm_sound h harm rfl
    · cases hstep
  | begin i fileExists rom rom' =>
    simp only [step] at hstep
    split at hstep
    · next hwaiting =>
      cases hstep
      obtain ⟨σ, hi, hwatcher⟩ := map_eq_some_iff.mp hwaiting
      obtain ⟨hexists, hunarmed, hfired⟩ := hmeets
      rw [taskAt, hi, map_some, ne_eq, Option.some.injEq] at hunarmed hfired
      rw [if_pos hexists]
      exact begin_sound h hi hwatcher hunarmed hfired rom rom'
    · cases hstep
  | check i length =>
    simp only [step] at hstep
    split at hstep
    · next fileSize hlooping =>
      obtain ⟨σ, hi, hwatcher⟩ := map_eq_some_iff.mp hlooping
      split at hstep
      · cases hstep
        exact check_sound h hi hwatcher
      · cases hstep
        exact h
    · cases hstep
  | watcherStop i =>
    simp only [step] at hstep
    split at hstep
    · next hmissing =>
      obtain ⟨σ, hi, hwatcher⟩ := map_eq_some_iff.mp hmissing
      have hfine := (h.2 i σ hi).fine
      rw [hwatcher] at hfine
      exact absurd hfine Fine.not_missing
    · next hreached =>
      cases hstep
      obtain ⟨σ, hi, hwatcher⟩ := map_eq_some_iff.mp hreached
      exact watcherStop_sound h hi hwatcher
    · cases hstep
  | watcherUpload i =>
    simp only [step] at hstep
    split at hstep
    · next hstopped =>
      cases hstep
      obtain ⟨σ, hi, hwatcher⟩ := map_eq_some_iff.mp hstopped
      exact watcherUpload_sound h hi hwatcher
    · cases hstep
  | watcherCancel i =>
    simp only [step] at hstep
    split at hstep
    · next huploaded =>
      cases hstep
      obtain ⟨σ, hi, hwatcher⟩ := map_eq_some_iff.mp huploaded
      exact watcherCancel_sound h hi hwatcher
    · cases hstep
  | fire i =>
    simp only [step] at hstep
    split at hstep
    · next delay hscheduled =>
      cases hstep
      obtain ⟨σ, hi, htask⟩ := map_eq_some_iff.mp hscheduled
      have hwaiting : watcherAt s i = some .waiting := hmeets
      rw [watcherAt, hi, map_some, Option.some.injEq] at hwaiting
      exact fire_sound h hi htask hwaiting
    · cases hstep
  | timerStop i =>
    simp only [step] at hstep
    split at hstep
    · next hfired =>
      cases hstep
      obtain ⟨σ, hi, htask⟩ := map_eq_some_iff.mp hfired
      exact timerStop_sound h hi htask
    · cases hstep
  | timerRemove i =>
    simp only [step] at hstep
    split at hstep
    · next hstopped =>
      cases hstep
      obtain ⟨σ, hi, htask⟩ := map_eq_some_iff.mp hstopped
      exact timerRemove_sound h hi htask
    · cases hstep
  | timerUpload i =>
    simp only [step] at hstep
    split at hstep
    · next hremoved =>
      cases hstep
      obtain ⟨σ, hi, htask⟩ := map_eq_some_iff.mp hremoved
      exact timerUpload_sound h hi htask
    · cases hstep

theorem initialState_sound : Sound initialState := ⟨nofun, fun i σ hi => by simp [initialState] at hi⟩

/-! ## The end of a session -/

/-- There are steps that meet the condition and after which the session is over. -/
def Finishes (s : State) (i : Nat) : Prop :=
  ∃ rest s' σ, RunMeets step StepMeets rest s ∧ run step rest s = some s' ∧
    s'.sessions[i]? = some σ ∧ σ.Over

theorem Finishes.of_step {event : Event} (hmeets : StepMeets s event) (hstep : step event s = some s')
    (h : Finishes s' i) : Finishes s i := by
  obtain ⟨rest, t, σ, hrest, hrun, hi, hover⟩ := h
  refine ⟨event :: rest, t, σ, ⟨hmeets, fun u hu => ?_⟩, ?_, hi, hover⟩
  · rw [hstep] at hu
    cases hu
    exact hrest
  · rw [run_cons, hstep]
    exact hrun

section

variable (h : Sound s) (hi : s.sessions[i]? = some σ)
include h hi

/-- A session is over when one of its threads has come to its end. -/
theorem finishes_done (hdone : σ.watcher = .done ∨ σ.task = .done) : Finishes s i :=
  ⟨[], s, σ, trivial, rfl, hi, (h.2 i σ hi).fine.ended hdone⟩

theorem finishes_uploaded (hwatcher : σ.watcher = .uploaded) : Finishes s i := by
  have hat : watcherAt s i = some .uploaded := by rw [watcherAt, hi, map_some, hwatcher]
  have hmeets : StepMeets s (.watcherCancel i) := trivial
  have hstep : step (.watcherCancel i) s =
      some (s.cancelTimer.modify i fun σ => { σ with watcher := .done }) := if_pos hat
  refine .of_step hmeets hstep ?_
  have hlength : s.cancelTimer.sessions.length = s.sessions.length := by
    unfold State.cancelTimer
    split
    · exact modify_length s _ _
    · rfl
  obtain ⟨ρ, hρ⟩ : ∃ ρ, s.cancelTimer.sessions[i]? = some ρ := by
    have hlt := (List.getElem?_eq_some_iff.mp hi).1
    rw [← hlength] at hlt
    exact ⟨_, getElem?_eq_getElem hlt⟩
  exact finishes_done (step_sound h hmeets hstep) (modify_at hρ _) (.inl rfl)

theorem finishes_stopped (hwatcher : σ.watcher = .stopped) : Finishes s i := by
  have hat : watcherAt s i = some .stopped := by rw [watcherAt, hi, map_some, hwatcher]
  have hmeets : StepMeets s (.watcherUpload i) := trivial
  have hstep : step (.watcherUpload i) s = some (s.modify i fun σ =>
      { upload s.bean.url σ with watcher := .uploaded }) := if_pos hat
  exact .of_step hmeets hstep
    (finishes_uploaded (step_sound h hmeets hstep) (modify_at hi _) rfl)

theorem finishes_reached (hwatcher : σ.watcher = .reached) : Finishes s i := by
  have hat : watcherAt s i = some .reached := by rw [watcherAt, hi, map_some, hwatcher]
  have hmeets : StepMeets s (.watcherStop i) := trivial
  have hstep : step (.watcherStop i) s = some ((stopTcpdump i s).modify i fun σ =>
      { σ with watcher := .stopped }) := by simp only [step, hat]
  have hsound := step_sound h hmeets hstep
  have hlast := (h.2 i σ hi).last.resolve_left (by simp [Session.Over, hwatcher])
  rw [stopTcpdump_at hlast] at hsound hstep
  have hsessions : ({ s with tcpdump := false, tcpdumpArgs := [' '] } : State).sessions[i]? = some σ := hi
  exact .of_step hmeets hstep (finishes_stopped hsound (modify_at hsessions _) rfl)

theorem finishes_looping (hwatcher : σ.watcher = .looping fileSize) : Finishes s i := by
  have hat : watcherAt s i = some (.looping fileSize) := by
    rw [watcherAt, hi, map_some, hwatcher]
  have hmeets : StepMeets s (.check i (wrapLong (fileSize * 1024 * 1024))) := trivial
  have hstep : step (.check i (wrapLong (fileSize * 1024 * 1024))) s =
      some (s.modify i fun σ => { σ with watcher := .reached }) := by
    simp only [step, hat]
    rw [if_pos (by simp [fileFull])]
  exact .of_step hmeets hstep (finishes_reached (step_sound h hmeets hstep) (modify_at hi _) rfl)

theorem finishes_waiting (hwatcher : σ.watcher = .waiting) (hpending : σ.task.Pending) :
    Finishes s i := by
  have hat : watcherAt s i = some .waiting := by rw [watcherAt, hi, map_some, hwatcher]
  have hmeets : StepMeets s (.begin i true 0 0) := by
    refine ⟨rfl, ?_, ?_⟩ <;> rw [taskAt, hi, map_some] <;>
      rcases hpending with habsent | ⟨delay, hscheduled⟩ <;> simp [*]
  have hstep : step (.begin i true 0 0) s = some (s.modify i fun σ =>
      { σ with watcher := .looping (getFileSize s.bean.fileSize 0 0) }) := if_pos hat
  exact .of_step hmeets hstep (finishes_looping (step_sound h hmeets hstep) (modify_at hi _) rfl)

theorem finishes_unarmed (htask : σ.task = .unarmed) : Finishes s i := by
  have hgood := h.2 i σ hi
  have hfine := hgood.fine
  rw [htask] at hfine
  have hwatcher := hfine.of_unarmed.1
  have hlast := hgood.last.resolve_left (by simp [Session.Over, hwatcher])
  have hmeets : StepMeets s .arm := trivial
  have hstep : step .arm s = some { s.modify s.current (fun σ =>
      { σ with task := match s.bean.delay with
        | some delay => Task.scheduled delay
        | none => .absent }) with arming := false } := if_pos (hgood.unarmed htask).2
  have hsound := step_sound h hmeets hstep
  have hnew := modify_at hi fun σ => { σ with task := match s.bean.delay with
    | some delay => Task.scheduled delay
    | none => .absent }
  rw [hlast] at hnew ⊢
  refine .of_step hmeets hstep (finishes_waiting hsound hnew hwatcher ?_)
  cases s.bean.delay with
  | none => exact .inl rfl
  | some delay => exact .inr ⟨delay, rfl⟩

theorem finishes_removed (htask : σ.task = .removed) : Finishes s i := by
  have hat : taskAt s i = some .removed := by rw [taskAt, hi, map_some, htask]
  have hmeets : StepMeets s (.timerUpload i) := trivial
  have hstep : step (.timerUpload i) s = some (s.modify i fun σ =>
      { upload s.bean.url σ with task := .done }) := if_pos hat
  exact .of_step hmeets hstep
    (finishes_done (step_sound h hmeets hstep) (modify_at hi _) (.inr rfl))

theorem finishes_timerStopped (htask : σ.task = .stopped) : Finishes s i := by
  have hat : taskAt s i = some .stopped := by rw [taskAt, hi, map_some, htask]
  have hmeets : StepMeets s (.timerRemove i) := trivial
  have hstep : step (.timerRemove i) s = some ((s.modify s.current Session.drop).modify i fun σ =>
      { σ with task := .removed }) := if_pos hat
  have hsound := step_sound h hmeets hstep
  rw [← (h.2 i σ hi).last.resolve_left (by simp [Session.Over, htask]), modify_modify] at hstep hsound
  exact .of_step hmeets hstep (finishes_removed hsound (modify_at hi _) rfl)

theorem finishes_fired (htask : σ.task = .fired) : Finishes s i := by
  have hat : taskAt s i = some .fired := by rw [taskAt, hi, map_some, htask]
  have hmeets : StepMeets s (.timerStop i) := trivial
  have hstep : step (.timerStop i) s = some ((stopTcpdump i s).modify i fun σ =>
      { σ with task := .stopped }) := if_pos hat
  have hsound := step_sound h hmeets hstep
  rw [stopTcpdump_at ((h.2 i σ hi).last.resolve_left (by simp [Session.Over, htask]))] at hsound hstep
  have hsessions : ({ s with tcpdump := false, tcpdumpArgs := [' '] } : State).sessions[i]? = some σ := hi
  exact .of_step hmeets hstep (finishes_timerStopped hsound (modify_at hsessions _) rfl)

end

/-- Every session can be brought to its end. -/
theorem finishes (h : Sound s) (hi : s.sessions[i]? = some σ) : Finishes s i := by
  have hfine := (h.2 i σ hi).fine
  cases hwatcher : σ.watcher with
  | waiting =>
    rw [hwatcher] at hfine
    rcases hfine.of_waiting.1 with hunarmed | hpending | hfired
    · exact finishes_unarmed h hi hunarmed
    · exact finishes_waiting h hi hwatcher hpending
    · exact finishes_fired h hi hfired
  | missing =>
    rw [hwatcher] at hfine
    exact absurd hfine Fine.not_missing
  | looping fileSize => exact finishes_looping h hi hwatcher
  | reached => exact finishes_reached h hi hwatcher
  | stopped => exact finishes_stopped h hi hwatcher
  | uploaded => exact finishes_uploaded h hi hwatcher
  | done => exact finishes_done h hi (.inl hwatcher)
  | dropped =>
    rw [hwatcher] at hfine
    rcases hfine.of_dropped with hstopped | hremoved | hdone
    · exact finishes_timerStopped h hi hstopped
    · exact finishes_removed h hi hremoved
    · exact finishes_done h hi (.inr hdone)

/-- In every run whose steps meet the condition every session does what it should, and can be
brought to its end. -/
theorem sessions_right {steps : List Event} (hmeets : RunMeets step StepMeets steps initialState)
    (hrun : run step steps initialState = some s) :
    AllRight s ∧ ∀ i σ, s.sessions[i]? = some σ → Finishes s i := by
  have hsound : Sound s :=
    run_keeps (fun _ _ _ h hmeets hstep => step_sound h hmeets hstep) initialState_sound hmeets hrun
  exact ⟨fun i σ hi => (hsound.2 i σ hi).right, fun i σ hi => finishes hsound hi⟩

end Sessions

instance (s : State) : (event : Event) → Decidable (StepMeets s event)
  | .set .url _ => inferInstanceAs (Decidable (∀ σ ∈ s.sessions, σ.Over))
  | .set .fileSize _ => inferInstanceAs (Decidable (∀ σ ∈ s.sessions, σ.watcher ≠ .waiting))
  | .set .enable _ | .set .ip _ | .set .port _ | .set .duration _ | .set .netType _ |
    .set .other _ => isTrue trivial
  | .begin _ _ _ _ => inferInstanceAs (Decidable (_ ∧ _ ∧ _))
  | .fire i => inferInstanceAs (Decidable (watcherAt s i = some .waiting))
  | .arm | .check _ _ | .watcherStop _ | .watcherUpload _ | .watcherCancel _ | .timerStop _ |
    .timerRemove _ | .timerUpload _ => isTrue trivial

/-- The sets of a session with a size of one megabyte. -/
def start (url : Str) : List Event :=
  [.set .enable ['1'], .set .netType "any".toList, .set .duration "10".toList, .set .fileSize ['1'],
    .set .url url, .arm]

/-- The file of a session reaches its size. -/
def sizeReached (i : Nat) : List Event :=
  [.begin i true 1000 1000, .check i 0, .check i 1048576, .watcherStop i, .watcherUpload i,
    .watcherCancel i]

/-- The time of a session is over. -/
def timeOver (i : Nat) : List Event := [.fire i, .timerStop i, .timerRemove i, .timerUpload i]

/-- Two sessions one after the other. -/
def inTurn : List Event :=
  start "http://a".toList ++ sizeReached 0 ++ start "http://b".toList ++ sizeReached 1

theorem sessions_right_inTurn : ∃ s, run step inTurn initialState = some s ∧
    s.sessions.length = 2 ∧ AllRight s ∧ ∀ i σ, s.sessions[i]? = some σ → Finishes s i := by
  obtain ⟨s, hs, hlength⟩ := (Option.any_eq_true (fun s : State => s.sessions.length = 2) _).mp
    (show (run step inTurn initialState).any (fun s => s.sessions.length = 2) = true by
      decide)
  exact ⟨s, hs, of_decide_eq_true hlength, sessions_right (by decide) hs⟩

/-- The first session ends by its duration, but not its watcher; a second one is started, whose
capture lets the file grow. -/
def outlived : List Event :=
  start "http://a".toList ++ [.begin 0 true 1000 1000] ++ timeOver 0 ++
    start "http://b".toList ++ [.check 0 1048576, .watcherStop 0, .watcherUpload 0]

/-- The watcher of the first session stops the second one, and uploads its file to its url. -/
theorem watcher_outlives_session : ∃ s σ, run step outlived initialState = some s ∧
    s.sessions[0]? = some σ ∧ σ.bean.url = some "http://a".toList ∧ σ.stops = [0, 1] ∧
    σ.uploads = [some "http://a".toList, some "http://b".toList] ∧ ¬ AllRight s := by
  obtain ⟨σ, hσ, hall⟩ := (Option.any_eq_true (fun σ : Session =>
      σ.bean.url = some "http://a".toList ∧ σ.stops = [0, 1] ∧
        σ.uploads = [some "http://a".toList, some "http://b".toList]) _).mp
    (show ((run step outlived initialState).bind fun s => s.sessions[0]?).any (fun σ : Session =>
      σ.bean.url = some "http://a".toList ∧ σ.stops = [0, 1] ∧
        σ.uploads = [some "http://a".toList, some "http://b".toList]) = true by
      decide)
  obtain ⟨s, hs, hi⟩ := bind_eq_some_iff.mp hσ
  obtain ⟨hurl, hstops, huploads⟩ := of_decide_eq_true hall
  refine ⟨s, σ, hs, hi, hurl, hstops, huploads, fun hright => ?_⟩
  rcases (hright 0 σ hi).stops with hnone | hone
  · rw [hstops] at hnone
    cases hnone
  · rw [hstops] at hone
    cases hone

end TcpdumpSessions
