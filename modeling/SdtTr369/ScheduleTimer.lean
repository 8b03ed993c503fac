import SdtTr369.UspTypes
import Mathlib.Data.Int.Init

/-!
# The ScheduleTimer command

`Start_ScheduleTimer` and `ScheduleTimerThreadMain` of `device_local_agent.c`. The thread
sleeps for what is left of the delay and signals that the operation is complete. At each
restart the agent starts the command again with the arguments that were saved, the time
reference among them. Times are in seconds, and `sleep` lasts as long as it is told.
-/

namespace ScheduleTimer

open UspTypes

/-- A number stored in an `int`. -/
def toInt (n : Int) : Int := Int.bmod n 4294967296

/-- `sched_timer_input_cond_t`. -/
structure Cond where
  timeRef : Int
  delaySeconds : UInt32
  deriving DecidableEq, Repr

def invalidDelaySeconds : UInt32 := 0xFFFFFFFF

/-- `Start_ScheduleTimer`, given how the two arguments are read. The thread can be created. -/
def startScheduleTimer (delaySeconds : Except Err UInt32) (timeRef : Except Err Int) :
    Except Err Cond :=
  match delaySeconds with
  | .error _ => .error .commandFailure
  | .ok delay =>
    if delay = invalidDelaySeconds then .error .commandFailure
    else match timeRef with
      | .error _ => .error .commandFailure
      | .ok time => .ok ⟨time, delay⟩

namespace Cond

/-- The variable `delay` of `ScheduleTimerThreadMain`: an `int` is added to an `unsigned`,
and the sum is an `int` again. -/
def delay (c : Cond) (curTime : Int) : Int :=
  toInt (toInt (c.timeRef - curTime) + c.delaySeconds.toNat)

/-- The seconds that the thread sleeps. -/
def slept (c : Cond) (curTime : Int) : Nat :=
  if 0 < c.delay curTime then (c.delay curTime).toNat else 0

/-- The moment at which `ScheduleTimerThreadMain` signals the operation as complete. -/
def signalTime (c : Cond) (curTime : Int) : Int := curTime + c.slept curTime

/-- The moment for which the timer was scheduled. -/
def moment (c : Cond) : Int := c.timeRef + c.delaySeconds.toNat

end Cond

/-- A start of the agent: the clock when the thread begins, and for how long the agent runs
if it is restarted again. -/
structure Start where
  curTime : Int
  ran : Option Nat
  deriving DecidableEq, Repr

/-- The agent runs long enough for the thread to signal. -/
def completes (c : Cond) (s : Start) : Bool :=
  match s.ran with
  | none => true
  | some n => c.slept s.curTime ≤ n

/-- The starts in which the operation is restarted, the last being the one that completes it. -/
def reached (c : Cond) : List Start → List Start
  | [] => []
  | s :: starts => if completes c s then [s] else s :: reached c starts

/-- The operation is not signalled before its moment, and at once when that has passed. -/
structure Punctual (c : Cond) (starts : List Start) : Prop where
  notBefore : ∀ s ∈ reached c starts, completes c s = true → c.moment ≤ c.signalTime s.curTime
  atOnce : ∀ s ∈ reached c starts, c.moment ≤ s.curTime → c.signalTime s.curTime = s.curTime

/-- What is left of the delay fits an `int`; and if the moment has passed, what is left,
as an `int`, is not positive. -/
def InRange (c : Cond) (curTime : Int) : Prop :=
  c.moment - curTime < 2147483648 ∧
    (c.moment ≤ curTime → toInt (c.moment - curTime) ≤ 0)

instance (c : Cond) (curTime : Int) : Decidable (InRange c curTime) :=
  inferInstanceAs (Decidable (_ ∧ _))

section Remainders

variable {c : Cond} {curTime : Int} {s : Start} {starts : List Start}

/-- The narrowing of the difference does not matter in the end. -/
theorem delay_eq (c : Cond) (curTime : Int) : c.delay curTime = toInt (c.moment - curTime) := by
  have hsum : c.moment - curTime = c.timeRef - curTime + c.delaySeconds.toNat := by
    simp only [Cond.moment]
    omega
  rw [Cond.delay, hsum, toInt, toInt, Int.bmod_add_bmod, toInt]

theorem slept_eq (c : Cond) (curTime : Int) :
    (c.slept curTime : Int) = max 0 (toInt (c.moment - curTime)) := by
  rw [Cond.slept, delay_eq]
  split <;> omega

theorem toInt_of_small {n : Int} (hlow : -2147483648 ≤ n) (hhigh : n < 2147483648) :
    toInt n = n := by
  simp only [toInt, Int.bmod_def]
  split <;> omega

theorem toInt_lt (n : Int) : toInt n < 2147483648 := by
  simp only [toInt, Int.bmod_def]
  split <;> omega

/-- A start in range signals no earlier than the moment. -/
theorem InRange.notBefore (h : InRange c curTime) : c.moment ≤ c.signalTime curTime := by
  have hslept := slept_eq c curTime
  by_cases hpassed : c.moment ≤ curTime
  · simp only [Cond.signalTime]
    omega
  · have hsmall : toInt (c.moment - curTime) = c.moment - curTime := by
      apply toInt_of_small
      · omega
      · exact h.1
    simp only [Cond.signalTime]
    omega

theorem InRange.atOnce (h : InRange c curTime) (hpassed : c.moment ≤ curTime) :
    c.signalTime curTime = curTime := by
  have hslept := slept_eq c curTime
  have hnot := h.2 hpassed
  simp only [Cond.signalTime]
  omega

theorem inRange_of_signals (hnot : c.moment ≤ c.signalTime curTime)
    (honce : c.moment ≤ curTime → c.signalTime curTime = curTime) : InRange c curTime := by
  have hslept := slept_eq c curTime
  have hbound := toInt_lt (c.moment - curTime)
  simp only [Cond.signalTime] at hnot honce
  constructor
  · omega
  · intro hpassed
    have hzero := honce hpassed
    omega

theorem mem_of_mem_reached (h : s ∈ reached c starts) : s ∈ starts := by
  induction starts with
  | nil => exact h
  | cons t starts ih =>
    rw [reached] at h
    split at h
    · exact List.mem_cons.mpr (.inl (List.mem_singleton.mp h))
    · cases List.mem_cons.mp h with
      | inl heq => exact List.mem_cons.mpr (.inl heq)
      | inr hmem => exact List.mem_cons_of_mem t (ih hmem)

theorem completes_uninterrupted (c : Cond) (curTime : Int) :
    completes c ⟨curTime, none⟩ = true := rfl

end Remainders

/-- However often the agent is restarted, the operation is punctual when every start is in
range; and a start that is not interrupted is punctual only if it is. -/
theorem punctual_iff (delaySeconds : UInt32) (timeRef : Int) (c : Cond)
    (hstarted : startScheduleTimer (.ok delaySeconds) (.ok timeRef) = .ok c) :
    c = ⟨timeRef, delaySeconds⟩ ∧
      (∀ starts : List Start, (∀ s ∈ starts, InRange c s.curTime) → Punctual c starts) ∧
      ∀ curTime : Int, Punctual c [⟨curTime, none⟩] ↔ InRange c curTime := by
  have hcond : c = ⟨timeRef, delaySeconds⟩ := by
    simp only [startScheduleTimer] at hstarted
    split at hstarted
    · cases hstarted
    · cases hstarted
      rfl
  have hrun : ∀ starts : List Start, (∀ s ∈ starts, InRange c s.curTime) → Punctual c starts := by
    intro starts hrange
    constructor
    · intro s hs _
      exact (hrange s (mem_of_mem_reached hs)).notBefore
    · intro s hs hpassed
      exact (hrange s (mem_of_mem_reached hs)).atOnce hpassed
  refine ⟨hcond, hrun, ?_⟩
  intro curTime
  constructor
  · intro h
    have hmem : (⟨curTime, none⟩ : Start) ∈ reached c [⟨curTime, none⟩] := by
      rw [reached, if_pos (completes_uninterrupted c curTime)]
      exact List.mem_singleton_self _
    exact inRange_of_signals (h.notBefore _ hmem (completes_uninterrupted c curTime))
      (h.atOnce _ hmem)
  · intro h
    apply hrun
    intro s hs
    rw [List.mem_singleton.mp hs]
    exact h

/-- A timer of one hour, with a restart after ten minutes and one after two hours. -/
theorem punctual_iff_hour :
    Punctual ⟨1700000000, 3600⟩ [⟨1700000000, some 600⟩, ⟨1700007200, none⟩] :=
  (punctual_iff 3600 1700000000 ⟨1700000000, 3600⟩ rfl).2.1 _ (by decide)

/-- A delay of 2^31 seconds is accepted, and the operation completes at once. -/
theorem long_delay_fires :
    startScheduleTimer (.ok 2147483648) (.ok 1700000000) = .ok ⟨1700000000, 2147483648⟩ ∧
      ¬ Punctual ⟨1700000000, 2147483648⟩ [⟨1700000000, none⟩] := by
  constructor
  · rfl
  · intro h
    have hnot := h.notBefore ⟨1700000000, none⟩ (by decide) rfl
    revert hnot
    decide

end ScheduleTimer
