import SdtTr369.JavaText
import SdtTr369.RunHistory
import Mathlib.Algebra.BigOperators.Group.List.Basic

/-!
# Starting the log stream

`SK_TR369_SetLogStreamParams` of `SkyworthX.java` and `start` of `LogManager.java`. The setters
count what has been set since the last start, two for the transaction id and one for each
other parameter, and call `start` once the count is six. The thread that reads the log runs
until it is interrupted.
-/

namespace LogStream

open UspTypes RunHistory JavaText List

inductive Param where
  | enable
  | uploadUrl
  | level
  | keyword
  | period
  | transactionId
  deriving DecidableEq, Repr

/-- The fields of `LogManager` that are set. A transaction id that is `null` is empty. -/
structure Manager where
  enable : Int
  url : Str
  logLevel : Str
  keywords : Str
  interval : Int
  transactionId : Str
  deriving DecidableEq, Repr

/-- The log manager, the counter of `SkyworthX`, whether `mLogThread` is alive, and with what
the manager held each time the stream was started. -/
structure State where
  manager : Manager
  count : Nat
  streaming : Bool
  starts : List Manager
  deriving DecidableEq, Repr

def initial : State := ⟨⟨0, [], "Info".toList, [], 1, []⟩, 0, false, []⟩

def one : Str := ['1']
def zero : Str := ['0']

/-- The setter of the manager; no result is a `NumberFormatException`. -/
def Manager.store (m : Manager) (value : Str) : Param → Option Manager
  | .enable => (parseInt value).map fun n => { m with enable := n }
  | .uploadUrl => some { m with url := value }
  | .level => some { m with logLevel := value }
  | .keyword => some { m with keywords := value }
  | .period => (parseInt value).map fun n => { m with interval := n }
  | .transactionId => some { m with transactionId := value }

/-- What is added to the counter. -/
def weight (value : Str) : Param → Nat
  | .enable => if value = one then 1 else 0
  | .transactionId => 2
  | .uploadUrl | .level | .keyword | .period => 1

/-- The condition of `start`. -/
def Manager.Startable (m : Manager) : Prop :=
  m.enable = 1 ∧ m.url ≠ [] ∧ m.transactionId ≠ [] ∧ 0 < m.interval

instance (m : Manager) : Decidable m.Startable := inferInstanceAs (Decidable (_ ∧ _ ∧ _ ∧ _))

namespace State

/-- `startLog`: a thread that has been started cannot be started again. -/
def startLog (s : State) : State × Option Unit :=
  if s.streaming then (s, none)
  else ({ s with streaming := true, starts := s.starts ++ [s.manager] }, some ())

/-- `start`. -/
def start (s : State) : State × Option Unit :=
  if s.manager.Startable then s.startLog else (s, some ())

/-- `stopLog`, as far as the thread goes. -/
def stopLog (s : State) : State := { s with streaming := false }

/-- `SK_TR369_SetLogStreamParams`. No result means that it threw. -/
def setLogStreamParams (param : Param) (value : Str) (s : State) : State × Option Unit :=
  match s.manager.store value param with
  | none => (s, none)
  | some manager =>
    let s := { s with manager := manager, count := s.count + weight value param }
    match if 6 ≤ s.count then { s with count := 0 }.start else (s, some ()) with
    | (s, none) => (s, none)
    | (s, some ()) =>
      if s.streaming ∧ s.manager.enable = 0 then (s.stopLog, some ()) else (s, some ())

end State

/-- The order in which the six parameters are set, what they are set to, and whether the
stream is disabled first. -/
structure Session where
  order : List Param
  complete : order.Perm [.enable, .uploadUrl, .level, .keyword, .period, .transactionId]
  url : Str
  logLevel : Str
  keywords : Str
  period : Str
  interval : Int
  parses : parseInt period = some interval
  transactionId : Str
  disabled : Bool

namespace Session

variable (e : Session)

def value : Param → Str
  | .enable => one
  | .uploadUrl => e.url
  | .level => e.logLevel
  | .keyword => e.keywords
  | .period => e.period
  | .transactionId => e.transactionId

/-- The manager with the values of the session. -/
def values : Manager := ⟨1, e.url, e.logLevel, e.keywords, e.interval, e.transactionId⟩

def set (s : State) (param : Param) : State := (s.setLogStreamParams param (e.value param)).1

/-- The session sets some parameters, one after the other. -/
def setAll (params : List Param) (s : State) : State := params.foldl e.set s

/-- The stream is disabled, or not. -/
def prepare (s : State) : State :=
  if e.disabled then (s.setLogStreamParams .enable zero).1 else s

def step (s : State) : Option State := some (e.setAll e.order (e.prepare s))

/-- The stream is started when the last parameter is set and not before, with the values of
the session. -/
structure StartsAtLast (s : State) : Prop where
  notBefore : (e.setAll e.order.dropLast s).starts = s.starts
  atLast : (e.setAll e.order s).starts = s.starts ++ [e.values]

/-- The manager after one parameter was set. -/
def put (m : Manager) : Param → Manager
  | .enable => { m with enable := 1 }
  | .uploadUrl => { m with url := e.url }
  | .level => { m with logLevel := e.logLevel }
  | .keyword => { m with keywords := e.keywords }
  | .period => { m with interval := e.interval }
  | .transactionId => { m with transactionId := e.transactionId }

/-- The transaction id comes last and nothing has been counted; or five have been counted and
the first parameter brings them to six, with values that do not let the stream start. -/
def Counted (s : State) : Prop :=
  s.count = 0 ∧ e.order.getLast? = some .transactionId ∨
    s.count = 5 ∧ ∃ param, e.order.head? = some param ∧ param ≠ .transactionId ∧
      ¬ (e.put s.manager param).Startable

/-- The stream is not running, the values let it start, and the count is right. -/
structure OnTime (s : State) : Prop where
  stopped : s.streaming = false
  startable : e.values.Startable
  counted : e.Counted s

end Session

section Settings

variable {e : Session} {s : State} {m : Manager} {param : Param} {params : List Param}

/-- The counter is below six, and a stream that runs is enabled. -/
structure Sound (s : State) : Prop where
  count : s.count < 6
  enabled : s.streaming = true → s.manager.enable ≠ 0

theorem store_value (e : Session) (m : Manager) (param : Param) :
    m.store (e.value param) param = some (e.put m param) := by
  have hone : parseInt one = some 1 := by decide
  cases param with
  | enable => simp only [Manager.store, Session.value, Session.put, hone, Option.map_some]
  | period => simp only [Manager.store, Session.value, Session.put, e.parses, Option.map_some]
  | uploadUrl | level | keyword | transactionId => rfl

/-- The weight of a parameter in a session. -/
def cost (param : Param) : Nat := if param = .transactionId then 2 else 1

def costs (params : List Param) : Nat := (params.map cost).sum

theorem weight_value (e : Session) (param : Param) : weight (e.value param) param = cost param := by
  cases param <;> rfl

theorem put_enable (h : m.enable ≠ 0) : (e.put m param).enable ≠ 0 := by
  cases param with
  | enable => exact Int.one_ne_zero
  | uploadUrl | level | keyword | period | transactionId => exact h

/-- Below six, a set only stores and counts. -/
theorem set_quiet (hs : Sound s) (h : s.count + cost param < 6) :
    e.set s param = { s with manager := e.put s.manager param, count := s.count + cost param } := by
  have hnot : ¬ 6 ≤ s.count + cost param := by omega
  have hon : ¬ (s.streaming = true ∧ (e.put s.manager param).enable = 0) :=
    fun hoff => put_enable (hs.enabled hoff.1) hoff.2
  simp only [Session.set, State.setLogStreamParams, store_value, weight_value, if_neg hnot, if_neg hon]

/-- At six the stream is started if it can be, and the count begins again. -/
theorem set_fires (hs : Sound s) (h : 6 ≤ s.count + cost param) :
    e.set s param =
      if (e.put s.manager param).Startable ∧ s.streaming = false then
        ⟨e.put s.manager param, 0, true, s.starts ++ [e.put s.manager param]⟩
      else { s with manager := e.put s.manager param, count := 0 } := by
  have hon : ¬ (s.streaming = true ∧ (e.put s.manager param).enable = 0) :=
    fun hoff => put_enable (hs.enabled hoff.1) hoff.2
  simp only [Session.set, State.setLogStreamParams, store_value, weight_value, if_pos h, State.start]
  by_cases hstart : (e.put s.manager param).Startable
  · cases hstream : s.streaming with
    | true => simp [hstart, State.startLog]
    | false =>
      have hone : (e.put s.manager param).enable ≠ 0 := by
        rw [hstart.1]
        exact Int.one_ne_zero
      simp [hstart, State.startLog, hone]
  · have hnot : ¬ ((e.put s.manager param).Startable ∧ s.streaming = false) :=
      fun hboth => hstart hboth.1
    simp only [if_neg hstart, if_neg hnot, if_neg hon]

/-- A set keeps the state sound. -/
theorem set_sound (hs : Sound s) (param : Param) : Sound (e.set s param) := by
  by_cases h : s.count + cost param < 6
  · rw [set_quiet hs h]
    exact ⟨h, fun hon => put_enable (hs.enabled hon)⟩
  · rw [set_fires hs (Nat.le_of_not_lt h)]
    split
    · next hstart =>
      constructor
      · exact Nat.zero_lt_succ 5
      · intro _
        rw [hstart.1.1]
        exact Int.one_ne_zero
    · exact ⟨Nat.zero_lt_succ 5, fun hon => put_enable (hs.enabled hon)⟩

theorem setAll_sound (hs : Sound s) (params : List Param) : Sound (e.setAll params s) := by
  induction params generalizing s with
  | nil => exact hs
  | cons param params ih => exact ih (set_sound hs param)

theorem prepare_sound (hs : Sound s) : Sound (e.prepare s) := by
  have hzero : parseInt zero = some 0 := by decide
  have hnot : ¬ 6 ≤ s.count + weight zero .enable := Nat.not_le_of_lt hs.count
  rw [Session.prepare]
  split
  · simp only [State.setLogStreamParams, Manager.store, hzero, Option.map_some, if_neg hnot, and_true]
    split
    · exact ⟨hs.count, fun hon => by cases hon⟩
    · next hoff => exact ⟨hs.count, fun hon => absurd hon hoff⟩
  · exact hs

theorem costs_cons (param : Param) (params : List Param) :
    costs (param :: params) = cost param + costs params := by
  rw [costs, map_cons, sum_cons, costs]

theorem costs_append (before after : List Param) :
    costs (before ++ after) = costs before + costs after := by
  rw [costs, map_append, sum_append, costs, costs]

theorem cost_pos (param : Param) : 0 < cost param := by
  rw [cost]
  split <;> omega

theorem cost_le (param : Param) : cost param ≤ 2 := by
  rw [cost]
  split <;> omega

theorem costs_order (e : Session) : costs e.order = 7 := by
  rw [costs, (e.complete.map cost).sum_eq]
  rfl

def putAll (e : Session) (params : List Param) (m : Manager) : Manager := params.foldl e.put m

/-- As long as the count stays below six, nothing is started. -/
theorem setAll_quiet (hs : Sound s) (h : s.count + costs params < 6) :
    e.setAll params s =
      { s with manager := putAll e params s.manager, count := s.count + costs params } := by
  induction params generalizing s with
  | nil => rfl
  | cons param params ih =>
    rw [costs_cons] at h
    have hbelow : s.count + cost param < 6 := by omega
    have hset := set_quiet (e := e) hs hbelow
    have hsound := set_sound (e := e) hs param
    rw [Session.setAll, foldl_cons, hset]
    rw [hset] at hsound
    have hrest := ih hsound (by simp only; omega)
    rw [Session.setAll] at hrest
    rw [hrest, costs_cons, Nat.add_assoc]
    rfl

/-- The first parameter that brings the count to six. -/
theorem first_fire {c : Nat} (hc : c < 6) (h : 6 ≤ c + costs params) :
    ∃ before param after, params = before ++ param :: after ∧ c + costs before < 6 ∧
      6 ≤ c + costs before + cost param := by
  induction params generalizing c with
  | nil =>
    have hnone : costs [] = 0 := rfl
    omega
  | cons param params ih =>
    rw [costs_cons] at h
    by_cases hfire : 6 ≤ c + cost param
    · exact ⟨[], param, params, rfl, hc, hfire⟩
    · obtain ⟨before, next, after, rfl, hquiet, hnext⟩ := ih (by omega) (by omega : 6 ≤ c + cost param + _)
      refine ⟨param :: before, next, after, rfl, ?_, ?_⟩
      · rw [costs_cons]
        omega
      · rw [costs_cons]
        omega

/-- The manager holds the value of a parameter. -/
def Agrees (e : Session) (m : Manager) : Param → Prop
  | .enable => m.enable = 1
  | .uploadUrl => m.url = e.url
  | .level => m.logLevel = e.logLevel
  | .keyword => m.keywords = e.keywords
  | .period => m.interval = e.interval
  | .transactionId => m.transactionId = e.transactionId

theorem put_agrees (e : Session) (m : Manager) (param : Param) : Agrees e (e.put m param) param := by
  cases param <;> rfl

theorem put_keeps {other : Param} (h : Agrees e m param) : Agrees e (e.put m other) param := by
  cases param <;> cases other <;> first | rfl | exact h

theorem putAll_agrees (h : param ∈ params ∨ Agrees e m param) : Agrees e (putAll e params m) param := by
  induction params generalizing m with
  | nil => exact h.resolve_left (not_mem_nil)
  | cons first params ih =>
    apply ih
    cases h with
    | inl hmem =>
      cases List.mem_cons.mp hmem with
      | inl heq =>
        rw [heq]
        exact .inr (put_agrees e m first)
      | inr hrest => exact .inl hrest
    | inr hagrees => exact Or.inr (put_keeps hagrees)

/-- In whatever order the parameters are set, the manager holds the values of the session. -/
theorem putAll_order (e : Session) (m : Manager) : putAll e e.order m = e.values := by
  have hall : ∀ param, Agrees e (putAll e e.order m) param := by
    intro param
    apply putAll_agrees
    apply Or.inl
    rw [e.complete.mem_iff]
    cases param <;> decide
  have henable := hall .enable
  have hurl := hall .uploadUrl
  have hlevel := hall .level
  have hkeyword := hall .keyword
  have hperiod := hall .period
  have hid := hall .transactionId
  simp only [Agrees] at henable hurl hlevel hkeyword hperiod hid
  rw [Session.values, ← henable, ← hurl, ← hlevel, ← hkeyword, ← hperiod, ← hid]

end Settings

section Sessions

variable {e : Session} {s : State} {param : Param} {before after : List Param}

/-- What is started at six. -/
def started (m : Manager) (streaming : Bool) : List Manager :=
  if m.Startable ∧ streaming = false then [m] else []

theorem set_starts (hs : Sound s) (h : 6 ≤ s.count + cost param) :
    (e.set s param).starts = s.starts ++ started (e.put s.manager param) s.streaming ∧
      (e.set s param).count = 0 ∧ (e.set s param).manager = e.put s.manager param ∧
      (started (e.put s.manager param) s.streaming = [] →
        (e.set s param).streaming = s.streaming) := by
  rw [set_fires hs h, started]
  split
  · simp
  · simp

theorem setAll_append (e : Session) (before after : List Param) (s : State) :
    e.setAll (before ++ after) s = e.setAll after (e.setAll before s) := foldl_append

/-- The count comes to six once, at one of the parameters. -/
theorem fired_once (hs : Sound s) (hbefore : s.count + costs before < 6)
    (hparam : 6 ≤ s.count + costs before + cost param) (hafter : costs after < 6) :
    (e.setAll (before ++ param :: after) s).starts =
      s.starts ++ started (putAll e (before ++ [param]) s.manager) s.streaming := by
  have hquiet := setAll_quiet (e := e) hs hbefore
  have hsound := setAll_sound (e := e) hs before
  have hsound' := set_sound (e := e) hsound param
  have hfire : 6 ≤ (e.setAll before s).count + cost param := by
    rw [hquiet]
    exact hparam
  obtain ⟨hstarts, hcount, -⟩ := set_starts (e := e) hsound hfire
  have hbelow : (e.set (e.setAll before s) param).count + costs after < 6 := by omega
  have hrest := setAll_quiet (e := e) hsound' hbelow
  rw [setAll_append]
  have hcons : e.setAll (param :: after) (e.setAll before s) =
      e.setAll after (e.set (e.setAll before s) param) := rfl
  rw [hcons, hrest, hstarts, hquiet]
  simp only [putAll, foldl_append, foldl_cons, foldl_nil]

theorem started_singleton {m : Manager} {streaming : Bool} :
    started m streaming = [m] ↔ streaming = false ∧ m.Startable := by
  rw [started]
  split
  · next h => exact ⟨fun _ => ⟨h.2, h.1⟩, fun _ => rfl⟩
  · next h =>
    constructor
    · intro hnil
      cases hnil
    · intro hboth
      exact absurd ⟨hboth.2, hboth.1⟩ h

theorem started_nil {m : Manager} (h : started m false = []) : ¬ m.Startable := by
  intro hstart
  rw [started, if_pos ⟨hstart, rfl⟩] at h
  cases h

/-- The count comes to six at the last parameter. -/
theorem startsAtLast_of_last (hs : Sound s) (horder : e.order = before ++ [param])
    (hbefore : s.count + costs before < 6) (hparam : 6 ≤ s.count + costs before + cost param) :
    e.StartsAtLast s ↔ e.OnTime s := by
  have hfired : (e.setAll (before ++ [param]) s).starts =
      s.starts ++ started (putAll e (before ++ [param]) s.manager) s.streaming :=
    fired_once hs hbefore hparam (by decide)
  rw [← horder, putAll_order] at hfired
  have hcosts := costs_order e
  rw [horder, costs_append, costs_cons] at hcosts
  have hnil : costs [] = 0 := rfl
  have hcounted : e.Counted s := by
    left
    refine ⟨by have := cost_le param; omega, ?_⟩
    rw [horder, getLast?_concat, Option.some.injEq]
    have hcost : cost param = 2 := by
      have hle := cost_le param
      omega
    by_contra hother
    rw [cost, if_neg hother] at hcost
    omega
  constructor
  · intro h
    have hstarted := h.atLast
    rw [hfired, append_cancel_left_eq, started_singleton] at hstarted
    exact ⟨hstarted.1, hstarted.2, hcounted⟩
  · intro h
    constructor
    · rw [horder, dropLast_concat, setAll_quiet hs hbefore]
    · rw [hfired, started_singleton.mpr ⟨h.stopped, h.startable⟩]

/-- The count comes to six before the last parameter, and not again. -/
theorem not_startsAtLast (hs : Sound s) {last : Param}
    (horder : e.order = before ++ param :: (after ++ [last]))
    (hbefore : s.count + costs before < 6) (hparam : 6 ≤ s.count + costs before + cost param)
    (hafter : costs (after ++ [last]) < 6) : ¬ e.StartsAtLast s ∧ ¬ e.Counted s := by
  have hmid : costs after < 6 := by
    rw [costs_append] at hafter
    omega
  have hfired := fired_once (e := e) hs hbefore hparam hafter
  have hfired' := fired_once (e := e) hs hbefore hparam hmid
  rw [← horder] at hfired
  have hcosts := costs_order e
  rw [horder, costs_append, costs_cons] at hcosts
  constructor
  · intro h
    have hnot := h.notBefore
    have hlast := h.atLast
    rw [horder, ← cons_append, ← append_assoc, dropLast_concat, hfired'] at hnot
    rw [hfired, hnot] at hlast
    have hlength := congrArg List.length hlast
    rw [length_append, length_singleton] at hlength
    omega
  · intro h
    cases h with
    | inl hzero =>
      obtain ⟨hcount, hid⟩ := hzero
      rw [horder, ← cons_append, ← append_assoc, getLast?_concat,
        Option.some.injEq] at hid
      rw [costs_append, hid] at hcosts
      have htwo : costs [Param.transactionId] = 2 := rfl
      omega
    | inr hfive =>
      obtain ⟨hcount, first, hhead, hother, -⟩ := hfive
      have hnone : before = [] := by
        cases before with
        | nil => rfl
        | cons p before =>
          have hpos := cost_pos p
          rw [costs_cons] at hbefore
          omega
      rw [horder, hnone, nil_append, head?_cons, Option.some.injEq] at hhead
      rw [hnone, hhead, cost, if_neg hother] at hcosts
      have hnil : costs [] = 0 := rfl
      omega

/-- The count comes to six at the first parameter and again at the last. -/
theorem startsAtLast_of_first (hs : Sound s) {last : Param}
    (horder : e.order = param :: (after ++ [last])) (hcount : s.count = 5)
    (hparam : cost param = 1) : e.StartsAtLast s ↔ e.OnTime s := by
  have hother : param ≠ .transactionId := by
    intro hid
    rw [hid] at hparam
    cases hparam
  have hcosts := costs_order e
  rw [horder, costs_cons, costs_append, costs_cons] at hcosts
  have hnil : costs [] = 0 := rfl
  have hpos := cost_pos last
  obtain ⟨hstarts, hzero, hmanager, hstreaming⟩ :=
    set_starts (e := e) hs (show 6 ≤ s.count + cost param by omega)
  have hsound := set_sound (e := e) hs param
  have hbelow : (e.set s param).count + costs after < 6 := by omega
  have hquiet := setAll_quiet (e := e) hsound hbelow
  have hfired : (e.setAll (after ++ [last]) (e.set s param)).starts = (e.set s param).starts ++
      started (putAll e (after ++ [last]) (e.set s param).manager) (e.set s param).streaming :=
    fired_once hsound hbelow (by omega) (by decide)
  have hvalues : putAll e (after ++ [last]) (e.set s param).manager = e.values := by
    rw [hmanager, ← putAll_order e s.manager, horder]
    rfl
  have hall : e.setAll e.order s = e.setAll (after ++ [last]) (e.set s param) := by
    rw [horder]
    rfl
  have hdrop : (e.setAll e.order.dropLast s).starts =
      s.starts ++ started (e.put s.manager param) s.streaming := by
    rw [horder, ← cons_append, dropLast_concat, ← hstarts]
    have hcons : e.setAll (param :: after) s = e.setAll after (e.set s param) := rfl
    rw [hcons, hquiet]
  rw [hvalues, ← hall, hstarts] at hfired
  constructor
  · intro h
    have hnone := h.notBefore
    rw [hdrop, append_right_eq_self] at hnone
    have hlast := h.atLast
    rw [hfired, hnone, hstreaming hnone, append_nil, append_cancel_left_eq,
      started_singleton] at hlast
    rw [hlast.1] at hnone
    refine ⟨hlast.1, hlast.2, .inr ⟨hcount, param, ?_, hother, started_nil hnone⟩⟩
    rw [horder, head?_cons]
  · intro h
    have hnone : started (e.put s.manager param) s.streaming = [] := by
      cases h.counted with
      | inl hfresh => omega
      | inr hfive =>
        obtain ⟨-, first, hhead, -, hnot⟩ := hfive
        rw [horder, head?_cons, Option.some.injEq] at hhead
        rw [hhead, started, if_neg fun hboth => hnot hboth.1]
    constructor
    · rw [hdrop, hnone, append_nil]
    · rw [hfired, hnone, hstreaming hnone, append_nil,
        started_singleton.mpr ⟨h.stopped, h.startable⟩]

/-- In a sound state, a session starts the stream at its last parameter exactly when it is on
time. -/
theorem startsAtLast_iff (hs : Sound s) : e.StartsAtLast s ↔ e.OnTime s := by
  have hcosts := costs_order e
  obtain ⟨before, param, after, horder, hbefore, hparam⟩ :=
    first_fire hs.count (show 6 ≤ s.count + costs e.order by omega)
  cases after using List.reverseRecOn with
  | nil => exact startsAtLast_of_last hs horder hbefore hparam
  | append_singleton after last =>
    by_cases hafter : costs (after ++ [last]) < 6
    · obtain ⟨hstarts, hcounted⟩ := not_startsAtLast hs horder hbefore hparam hafter
      exact ⟨fun h => absurd h hstarts, fun h => absurd h.counted hcounted⟩
    · rw [horder, costs_append, costs_cons] at hcosts
      have hpos := cost_pos param
      cases before with
      | nil =>
        have hnil : costs [] = 0 := rfl
        exact startsAtLast_of_first hs horder (by omega) (by omega)
      | cons first before =>
        have hfirst := cost_pos first
        rw [costs_cons] at hcosts
        omega

end Sessions

/-- In a run of sessions, each starts the stream once, at its last parameter and with its own
values, exactly when each finds the stream stopped and the count right, and has values that
let the stream start. -/
theorem sessions_start_iff (sessions : List Session) :
    RunMeets Session.step (fun s e => e.StartsAtLast (e.prepare s)) sessions initial ↔
      RunMeets Session.step (fun s e => e.OnTime (e.prepare s)) sessions initial := by
  have hinitial : Sound initial := ⟨by decide, fun h => by cases h⟩
  apply runMeets_congr (I := Sound) _ _ hinitial
  · intro s e hs
    exact startsAtLast_iff (prepare_sound hs)
  · intro s e s' hs _ hstep
    cases hstep
    exact setAll_sound (prepare_sound hs) e.order

/-- The period comes last. -/
def periodLast : Session where
  order := [.enable, .transactionId, .uploadUrl, .level, .keyword, .period]
  complete := by decide
  url := "https://acs/log".toList
  logLevel := "Warn".toList
  keywords := "tr369".toList
  period := "60".toList
  interval := 60
  parses := by decide
  transactionId := "a".toList
  disabled := true

/-- The transaction id comes last, after a session in which it did not. -/
def idLast : Session where
  order := [.enable, .uploadUrl, .level, .keyword, .period, .transactionId]
  complete := by decide
  url := "https://acs/log".toList
  logLevel := "Warn".toList
  keywords := "tr369".toList
  period := "60".toList
  interval := 60
  parses := by decide
  transactionId := "b".toList
  disabled := true

/-- The first session starts the stream with the period that was there before, and the second
with the transaction id of the first. -/
theorem period_last_starts_early :
    ¬ RunMeets Session.step (fun s e => e.StartsAtLast (e.prepare s)) [periodLast] initial ∧
      (run Session.step [periodLast, idLast] initial).map (·.starts) =
        some [{ periodLast.values with interval := 1 },
          { idLast.values with transactionId := "a".toList }] := by
  constructor
  · intro h
    have hearly := h.1.notBefore
    revert hearly
    decide
  · decide

end LogStream
