import SdtTr369.RunHistory
import Mathlib.Data.List.Perm.Basic

/-!
# The cache of system data records

`startSystemDataStatInfo` of `SystemDataStat.java` counts each sample of its
timer, clears the cache when the count exceeds the maximum and appends a record.
`getSystemDataStatInfo` formats the cache on another thread, clears it and resets
the count. The steps of the two come in any order. A record stands for the
sample it was made of, and a copy for its text.
-/

namespace SystemDataStat

open RunHistory List

/-- `MAX_CACHE_NUM` -/
def maxCacheNum : Nat := 144

/-- Where `startSystemDataStatInfo` stands; the count that was too large. -/
inductive Timer where
  | idle
  | exceeded (count : Nat)
  | cleared
  | counted
  deriving DecidableEq, Repr

/-- Where `getSystemDataStatInfo` stands, with its copy and how many records had been taken. -/
inductive Reader where
  | idle
  | formatted (copy : List Nat) (taken : Nat)
  | cleared (copy : List Nat) (taken : Nat)
  deriving DecidableEq, Repr

def Reader.copy : Reader → List Nat
  | .idle => []
  | .formatted copy _ => copy
  | .cleared copy _ => copy

/-- What cleared a record: the count that was too large, or the records taken before the copy. -/
inductive Cause where
  | overflow (count : Nat)
  | read (taken : Nat)
  deriving DecidableEq, Repr

/-- A record that was cleared and is in no copy, with how many newer ones had been taken. -/
structure Loss where
  record : Nat
  newer : Nat
  cause : Cause
  deriving DecidableEq, Repr

/-- The cache and its count, and the two threads. The last fields are history: the records that
were taken, the samples counted since the count was reset, the copies that were returned and the
records that were lost. -/
structure State where
  created : Bool
  mDataStatListMap : List Nat
  curCacheNum : Nat
  timer : Timer
  reader : Reader
  taken : Nat
  sinceReset : Nat
  returned : List (List Nat)
  lost : List Loss
  deriving DecidableEq, Repr

def initialState : State := ⟨false, [], 0, .idle, .idle, 0, 0, [], []⟩

/-- The records of the cache that are in no copy. -/
def State.unread (s : State) : List Nat := s.mDataStatListMap.filter (· ∉ s.reader.copy)

/-- `mDataStatListMap.clear()` -/
def State.clear (s : State) (cause : Cause) : State :=
  { s with
    mDataStatListMap := []
    lost := s.lost ++ s.unread.map fun record => ⟨record, s.taken - record - 1, cause⟩ }

/-- The constructor, the steps of `startSystemDataStatInfo` and those of
`getSystemDataStatInfo`. -/
inductive Event where
  | create
  | count
  | clearFull
  | resetFull
  | append
  | format
  | clear
  | reset
  deriving DecidableEq, Repr

def step : Event → State → Option State
  | .create, s => if s.created then none else some { s with created := true }
  | .count, s =>
    if s.created ∧ s.timer = .idle then
      some { s with
        curCacheNum := s.curCacheNum + 1
        sinceReset := s.sinceReset + 1
        timer := if s.curCacheNum + 1 > maxCacheNum then .exceeded (s.sinceReset + 1) else .counted }
    else none
  | .clearFull, s =>
    match s.timer with
    | .exceeded count => some { s.clear (.overflow count) with timer := .cleared }
    | _ => none
  | .resetFull, s =>
    if s.timer = .cleared then
      some { s with curCacheNum := 0, sinceReset := 0, timer := .counted }
    else none
  | .append, s =>
    if s.timer = .counted then
      some { s with
        mDataStatListMap := s.mDataStatListMap ++ [s.taken]
        taken := s.taken + 1
        timer := .idle }
    else none
  | .format, s =>
    if s.reader = .idle then
      -- without a cache the empty text is returned
      some (if s.created then { s with reader := .formatted s.mDataStatListMap s.taken } else s)
    else none
  | .clear, s =>
    match s.reader with
    | .formatted copy taken => some { s.clear (.read taken) with reader := .cleared copy taken }
    | _ => none
  | .reset, s =>
    match s.reader with
    | .cleared copy _ => some { s with
        curCacheNum := 0
        sinceReset := 0
        reader := .idle
        returned := s.returned ++ [copy] }
    | _ => none

/-! ## Where the records are -/

/-- The records that are in the cache only, in the copy of the call, returned, or lost. -/
def State.places (s : State) : List Nat :=
  s.unread ++ (s.reader.copy ++ (s.returned.flatten ++ s.lost.map Loss.record))

/-- Why a record was lost. -/
def Loss.Explained (loss : Loss) : Prop :=
  match loss.cause with
  | .overflow count => maxCacheNum < count
  | .read taken => taken ≤ loss.record

/-- Every record is in one place, and every loss is explained. -/
structure Sound (s : State) : Prop where
  places : s.places.Perm (List.range s.taken)
  counted : s.sinceReset = s.curCacheNum
  exceeded : ∀ count, s.timer = .exceeded count → maxCacheNum < count
  lost : ∀ loss ∈ s.lost, loss.Explained
  formatted : ∀ copy taken, s.reader = .formatted copy taken → taken ≤ s.taken ∧
    ∀ record ∈ s.mDataStatListMap, record ∉ copy → taken ≤ record
  cleared : ∀ copy taken, s.reader = .cleared copy taken →
    ∀ record ∈ s.mDataStatListMap, record ∉ copy

section Steps

variable {s s' : State} {event : Event}

/-- Only the records, the copy and the history matter for the places. -/
theorem places_congr (hlist : s'.mDataStatListMap = s.mDataStatListMap)
    (hcopy : s'.reader.copy = s.reader.copy) (hreturned : s'.returned = s.returned)
    (hlost : s'.lost = s.lost) : s'.places = s.places := by
  simp only [State.places, State.unread, hlist, hcopy, hreturned, hlost]

/-- What is cleared moves from the cache to the lost records. -/
theorem places_clear (s : State) (cause : Cause) : (s.clear cause).places.Perm s.places := by
  have hlost : (s.clear cause).lost.map Loss.record = s.lost.map Loss.record ++ s.unread := by
    rw [State.clear, map_append, map_map]
    congr 1
    exact map_id s.unread
  have hplaces : (s.clear cause).places =
      s.reader.copy ++ (s.returned.flatten ++ (s.lost.map Loss.record ++ s.unread)) := by
    rw [State.places, hlost]
    rfl
  rw [hplaces, State.places]
  refine List.Perm.trans ?_ perm_append_comm
  rw [append_assoc, append_assoc]

theorem record_lt (h : Sound s) {record : Nat} (hmem : record ∈ s.places) : record < s.taken :=
  List.mem_range.mp (h.places.subset hmem)

theorem copy_lt (h : Sound s) {record : Nat} (hmem : record ∈ s.reader.copy) : record < s.taken :=
  record_lt h (mem_append_right _ (mem_append_left _ hmem))

/-- A loss by a clearing is explained if what it clears is. -/
theorem clear_lost (h : Sound s) {cause : Cause}
    (hcause : ∀ record ∈ s.unread, ∀ newer, Loss.Explained ⟨record, newer, cause⟩) :
    ∀ loss ∈ (s.clear cause).lost, loss.Explained := by
  intro loss hloss
  cases List.mem_append.mp hloss with
  | inl hold => exact h.lost loss hold
  | inr hnew =>
    obtain ⟨record, hrecord, rfl⟩ := List.mem_map.mp hnew
    exact hcause record hrecord _

theorem initialState_sound : Sound initialState where
  places := List.Perm.nil
  counted := rfl
  exceeded := nofun
  lost := nofun
  formatted := nofun
  cleared := nofun

theorem append_sound (h : Sound s) (timer : Timer) (htimer : ∀ count, timer ≠ .exceeded count) :
    Sound { s with
      mDataStatListMap := s.mDataStatListMap ++ [s.taken], taken := s.taken + 1, timer := timer } where
  places := by
    have hfresh : s.taken ∉ s.reader.copy := fun hmem => Nat.lt_irrefl _ (copy_lt h hmem)
    have hunread : (s.mDataStatListMap ++ [s.taken]).filter (· ∉ s.reader.copy) =
        s.unread ++ [s.taken] := by
      rw [filter_append, State.unread]
      simp [hfresh]
    change ((s.mDataStatListMap ++ [s.taken]).filter (· ∉ s.reader.copy) ++ _).Perm _
    rw [hunread, append_assoc, range_succ]
    refine List.perm_middle.trans ?_
    exact (h.places.cons s.taken).trans (perm_append_singleton _ _).symm
  counted := h.counted
  exceeded := fun count hcount => absurd hcount (htimer count)
  lost := h.lost
  formatted := by
    intro copy taken hreader
    obtain ⟨hle, hold⟩ := h.formatted copy taken hreader
    refine ⟨Nat.le_succ_of_le hle, fun record hmem hnot => ?_⟩
    cases List.mem_append.mp hmem with
    | inl hin => exact hold record hin hnot
    | inr hnew =>
      rw [List.mem_singleton.mp hnew]
      exact hle
  cleared := by
    intro copy taken hreader record hmem hcopy
    cases List.mem_append.mp hmem with
    | inl hold => exact h.cleared copy taken hreader record hold hcopy
    | inr hnew =>
      have hlt : record < _ := copy_lt h (by rw [hreader]; exact hcopy)
      rw [List.mem_singleton.mp hnew] at hlt
      exact Nat.lt_irrefl _ hlt

theorem format_sound (h : Sound s) (hidle : s.reader = .idle) :
    Sound { s with reader := .formatted s.mDataStatListMap s.taken } where
  places := by
    have hunread : s.unread = s.mDataStatListMap := by
      rw [State.unread, hidle]
      exact List.filter_eq_self.mpr fun _ _ => by simp [Reader.copy]
    have hnone : s.mDataStatListMap.filter (· ∉ s.mDataStatListMap) = [] :=
      List.filter_eq_nil_iff.mpr fun record hmem => by simpa using hmem
    have hplaces := h.places
    rw [State.places, hunread, hidle] at hplaces
    change (s.mDataStatListMap.filter (· ∉ s.mDataStatListMap) ++ _).Perm _
    rw [hnone]
    exact hplaces
  counted := h.counted
  exceeded := h.exceeded
  lost := h.lost
  formatted := by
    rintro _ _ ⟨⟩
    exact ⟨Nat.le_refl _, fun record hmem hnot => absurd hmem hnot⟩
  cleared := nofun

theorem clearFull_sound (h : Sound s) {count : Nat} (htimer : s.timer = .exceeded count) :
    Sound { s.clear (.overflow count) with timer := .cleared } where
  places := (places_clear s _).trans h.places
  counted := h.counted
  exceeded := nofun
  lost := clear_lost h fun _ _ _ => h.exceeded count htimer
  formatted := fun copy taken hreader => ⟨(h.formatted copy taken hreader).1, nofun⟩
  cleared := fun _ _ _ => nofun

theorem clear_sound (h : Sound s) {copy : List Nat} {taken : Nat}
    (hreader : s.reader = .formatted copy taken) :
    Sound { s.clear (.read taken) with reader := .cleared copy taken } where
  places := by
    have hcopy : copy = s.reader.copy := by rw [hreader]; rfl
    have hsame : ({ s.clear (.read taken) with reader := .cleared copy taken } : State).places =
        (s.clear (.read taken)).places := places_congr rfl hcopy rfl rfl
    rw [hsame]
    exact (places_clear s (.read taken)).trans h.places
  counted := h.counted
  exceeded := h.exceeded
  lost := by
    refine clear_lost h fun record hrecord _ => ?_
    obtain ⟨hmem, hnot⟩ := List.mem_filter.mp hrecord
    rw [hreader] at hnot
    exact (h.formatted copy taken hreader).2 record hmem (of_decide_eq_true hnot)
  formatted := nofun
  cleared := fun _ _ _ => nofun

/-- The copy that is returned holds nothing that came into the cache since. -/
theorem reset_sound (h : Sound s) {copy : List Nat} {taken : Nat}
    (hreader : s.reader = .cleared copy taken) :
    Sound { s with
      curCacheNum := 0, sinceReset := 0, reader := .idle, returned := s.returned ++ [copy] } where
  places := by
    have hunread : s.unread = s.mDataStatListMap := by
      rw [State.unread, hreader]
      exact List.filter_eq_self.mpr fun record hmem =>
        decide_eq_true (h.cleared copy taken hreader record hmem)
    have hall : s.mDataStatListMap.filter (· ∉ Reader.idle.copy) = s.mDataStatListMap :=
      List.filter_eq_self.mpr fun _ _ => by simp [Reader.copy]
    have hplaces := h.places
    rw [State.places, hunread, hreader] at hplaces
    change (s.mDataStatListMap.filter (· ∉ Reader.idle.copy) ++
      ([] ++ ((s.returned ++ [copy]).flatten ++ _))).Perm _
    rw [hall, flatten_append, flatten_singleton, nil_append]
    refine (List.Perm.append_left _ ?_).trans hplaces
    rw [← append_assoc]
    exact List.perm_append_comm.append_right _
  counted := rfl
  exceeded := h.exceeded
  lost := h.lost
  formatted := nofun
  cleared := nofun

theorem count_sound (h : Sound s) {timer : Timer}
    (htimer : ∀ count, timer = .exceeded count → maxCacheNum < count) :
    Sound { s with
      curCacheNum := s.curCacheNum + 1, sinceReset := s.sinceReset + 1, timer := timer } where
  places := h.places
  counted := congrArg (· + 1) h.counted
  exceeded := htimer
  lost := h.lost
  formatted := h.formatted
  cleared := h.cleared

theorem step_sound (h : Sound s) (hstep : step event s = some s') : Sound s' := by
  cases event with
  | create =>
    simp only [step] at hstep
    split at hstep
    · cases hstep
    · cases hstep
      exact ⟨h.places, h.counted, h.exceeded, h.lost, h.formatted, h.cleared⟩
  | count =>
    simp only [step] at hstep
    split at hstep
    · cases hstep
      apply count_sound h
      intro count hcount
      split at hcount
      · cases hcount
        rw [h.counted]
        omega
      · cases hcount
    · cases hstep
  | clearFull =>
    simp only [step] at hstep
    split at hstep
    · next count htimer =>
      cases hstep
      exact clearFull_sound h htimer
    · cases hstep
  | resetFull =>
    simp only [step] at hstep
    split at hstep
    · cases hstep
      exact ⟨h.places, rfl, nofun, h.lost, h.formatted, h.cleared⟩
    · cases hstep
  | append =>
    simp only [step] at hstep
    split at hstep
    · cases hstep
      exact append_sound h .idle nofun
    · cases hstep
  | format =>
    simp only [step] at hstep
    split at hstep
    · next hidle =>
      split at hstep
      · cases hstep
        exact format_sound h hidle
      · cases hstep
        exact h
    · cases hstep
  | clear =>
    simp only [step] at hstep
    split at hstep
    · next copy taken hreader =>
      cases hstep
      exact clear_sound h hreader
    · cases hstep
  | reset =>
    simp only [step] at hstep
    split at hstep
    · next copy taken hreader =>
      cases hstep
      exact reset_sound h hreader
    · cases hstep

end Steps

theorem run_sound {steps : List Event} {s : State} (hrun : run step steps initialState = some s) :
    Sound s :=
  run_keeps (C := fun _ _ => True) (fun _ _ _ h _ hstep => step_sound h hstep) initialState_sound
    (runMeets_of_forall fun _ _ => trivial) hrun

/-! ## The count and the size of the cache -/

/-- The records of a sample that is counted and not yet appended. -/
def State.pending (s : State) : Nat :=
  match s.timer with
  | .idle => 0
  | .exceeded _ | .cleared | .counted => 1

/-- By how much the count may be above the maximum, until an overflow resets it. -/
def State.overfull (s : State) : Nat :=
  match s.timer with
  | .exceeded _ | .cleared => 1
  | .idle | .counted => 0

/-- No record is in the cache or on its way there. -/
def State.Empty (s : State) : Prop := s.mDataStatListMap = [] ∧ s.pending = 0

/-- The count is reset to less than there is: after an overflow, or during a sample. -/
def Drifts (s : State) (event : Event) : Prop := event = .resetFull ∨ event = .reset ∧ ¬ s.Empty

def Settles (s : State) (event : Event) : Prop := event = .reset ∧ s.Empty

/-- The count covers the records, and is too large only in an overflow. -/
structure InStep (s : State) : Prop where
  covers : s.mDataStatListMap.length + s.pending ≤ s.curCacheNum
  bounded : s.curCacheNum ≤ maxCacheNum + s.overfull

/-- A step that does not reset the count to less than there is keeps it in step. -/
theorem step_inStep {s s' : State} {event : Event} (h : InStep s) (hno : ¬ Drifts s event)
    (hstep : step event s = some s') : InStep s' := by
  have hcovers := h.covers
  have hbounded := h.bounded
  cases event with
  | create =>
    simp only [step] at hstep
    split at hstep
    · cases hstep
    · cases hstep
      exact ⟨hcovers, hbounded⟩
  | count =>
    simp only [step] at hstep
    split at hstep
    · next hidle =>
      simp only [State.pending, State.overfull, hidle.2] at hcovers hbounded
      cases hstep
      split
      · exact ⟨by simp only [State.pending]; omega, by simp only [State.overfull]; omega⟩
      · exact ⟨by simp only [State.pending]; omega, by simp only [State.overfull]; omega⟩
    · cases hstep
  | clearFull =>
    simp only [step] at hstep
    split at hstep
    · next count htimer =>
      simp only [State.pending, State.overfull, htimer] at hcovers hbounded
      cases hstep
      refine ⟨?_, hbounded⟩
      simp only [State.clear, State.pending, length_nil]
      omega
    · cases hstep
  | resetFull => exact absurd (.inl rfl) hno
  | append =>
    simp only [step] at hstep
    split at hstep
    · next htimer =>
      simp only [State.pending, State.overfull, htimer] at hcovers hbounded
      cases hstep
      refine ⟨?_, hbounded⟩
      simp only [State.pending, length_append, length_singleton]
      omega
    · cases hstep
  | format =>
    simp only [step] at hstep
    split at hstep
    · split at hstep
      · cases hstep
        exact ⟨hcovers, hbounded⟩
      · cases hstep
        exact h
    · cases hstep
  | clear =>
    simp only [step] at hstep
    split at hstep
    · cases hstep
      refine ⟨?_, hbounded⟩
      change 0 + s.pending ≤ s.curCacheNum
      omega
    · cases hstep
  | reset =>
    simp only [step] at hstep
    split at hstep
    · cases hstep
      have hempty : s.Empty := by
        by_contra hnot
        exact hno (.inr ⟨rfl, hnot⟩)
      refine ⟨?_, Nat.zero_le _⟩
      change s.mDataStatListMap.length + s.pending ≤ 0
      rw [hempty.1, hempty.2]
      exact Nat.le_refl _
    · cases hstep

/-- A reset of the count while there is no record brings it in step. -/
theorem settles_inStep {s s' : State} {event : Event} (hsettles : Settles s event)
    (hstep : step event s = some s') : InStep s' := by
  obtain ⟨rfl, hempty⟩ := hsettles
  simp only [step] at hstep
  split at hstep
  · cases hstep
    refine ⟨?_, Nat.zero_le _⟩
    change s.mDataStatListMap.length + s.pending ≤ 0
    rw [hempty.1, hempty.2]
    exact Nat.le_refl _
  · cases hstep

theorem InStep.length_le {s : State} (h : InStep s) : s.mDataStatListMap.length ≤ maxCacheNum := by
  have hcovers := h.covers
  have hbounded := h.bounded
  cases htimer : s.timer with
  | idle =>
    simp only [State.pending, State.overfull, htimer] at hcovers hbounded
    omega
  | exceeded count =>
    simp only [State.pending, State.overfull, htimer] at hcovers hbounded
    omega
  | cleared =>
    simp only [State.pending, State.overfull, htimer] at hcovers hbounded
    omega
  | counted =>
    simp only [State.pending, State.overfull, htimer] at hcovers hbounded
    omega

/-- The count was reset to less than there was, and not in step since. -/
def Drifted (steps : List Event) : Prop := Since step Drifts Settles initialState steps

theorem run_inStep : ∀ steps s, run step steps initialState = some s → ¬ Drifted steps → InStep s := by
  refine run_induction (fun _ => ⟨Nat.le_refl _, Nat.zero_le _⟩) ?_
  intro steps s event s' hs ih hstep hno
  rw [Drifted, since_snoc hs event, not_or, not_and, Classical.not_not] at hno
  obtain ⟨hno, hsettles⟩ := hno
  by_cases hdrifted : Drifted steps
  · exact settles_inStep (hsettles hdrifted) hstep
  · exact step_inStep (ih hdrifted) hno hstep

/-! ## Main theorem -/

/-- In every interleaving a record is returned at most once; it is in the cache, in the copy of a
call, returned or lost; it is lost to an overflow, or it came into the cache after the copy of
the call that cleared it; and the cache is within its maximum as long as the count has not drifted. -/
theorem cache_interleavings (steps : List Event) (s : State)
    (hrun : run step steps initialState = some s) :
    s.returned.flatten.Nodup ∧
      (∀ record < s.taken, record ∈ s.mDataStatListMap ∨ record ∈ s.reader.copy ∨
        record ∈ s.returned.flatten ∨ record ∈ s.lost.map Loss.record) ∧
      (∀ loss ∈ s.lost, loss.Explained) ∧
      (¬ Drifted steps → s.mDataStatListMap.length ≤ maxCacheNum) := by
  have hsound := run_sound hrun
  have hnodup : s.places.Nodup := hsound.places.nodup_iff.mpr nodup_range
  refine ⟨?_, ?_, hsound.lost, fun hno => (run_inStep steps s hrun hno).length_le⟩
  · have hreturned := (List.nodup_append.mp (List.nodup_append.mp hnodup).2.1).2.1
    exact (List.nodup_append.mp hreturned).1
  · intro record hlt
    have hmem := hsound.places.symm.subset (List.mem_range.mpr hlt)
    simp only [State.places, mem_append] at hmem
    rcases hmem with hunread | hcopy | hreturned | hlost
    · exact .inl (List.mem_filter.mp hunread).1
    · exact .inr (.inl hcopy)
    · exact .inr (.inr (.inl hreturned))
    · exact .inr (.inr (.inr hlost))

/-- One sample, and a call while the next one is taken. -/
def oneCall : List Event := [.create, .count, .append, .format, .count, .append, .clear, .reset]

theorem cache_interleavings_oneCall :
    let s : State := ⟨true, [], 0, .idle, .idle, 2, 0, [[0]], [⟨1, 0, .read 1⟩]⟩
    s.returned.flatten.Nodup ∧
      (∀ record < s.taken, record ∈ s.mDataStatListMap ∨ record ∈ s.reader.copy ∨
        record ∈ s.returned.flatten ∨ record ∈ s.lost.map Loss.record) ∧
      (∀ loss ∈ s.lost, loss.Explained) ∧
      (¬ Drifted oneCall → s.mDataStatListMap.length ≤ maxCacheNum) :=
  cache_interleavings oneCall _ rfl

def sample : List Event := [.count, .append]

def fullSample : List Event := [.count, .clearFull, .resetFull, .append]

/-- The timer alone, past its first overflow and up to the next one. -/
def samples : List Event :=
  .create :: (List.replicate maxCacheNum sample).flatten ++ fullSample ++
    (List.replicate maxCacheNum sample).flatten

/-- The overflow clears the record before, after which none was taken, and leaves the count one
less than there are records: the cache grows past its maximum. -/
theorem overflow_loses_newest :
    ∃ s, run step samples initialState = some s ∧ ⟨143, 0, .overflow 145⟩ ∈ s.lost ∧
      s.returned = [] ∧ maxCacheNum < s.mDataStatListMap.length := by
  have hrun : (run step samples initialState).any (fun s =>
      ⟨143, 0, .overflow 145⟩ ∈ s.lost ∧ s.returned = [] ∧
        maxCacheNum < s.mDataStatListMap.length) = true := by
    decide +kernel
  obtain ⟨s, hs, hall⟩ := (Option.any_eq_true _ _).mp hrun
  exact ⟨s, hs, of_decide_eq_true hall⟩

end SystemDataStat
