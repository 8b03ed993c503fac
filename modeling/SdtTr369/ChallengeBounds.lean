import SdtTr369.ControllerChallenge
import SdtTr369.RunHistory

/-!
# The bounds of the challenge arrays

The counters are as many as there were Challenge entries at start, but are indexed by
instance numbers; the challenges are as many as there may be controllers, but are kept
for endpoint ids. A run stays inside both arrays exactly as long as the numbers that it
consults are small enough and not too many endpoint ids hold a challenge.
-/

namespace ChallengeBounds

open UspTypes ControllerChallenge RunHistory List
open ControllerTable (maxControllers)

/-- Fewer endpoint ids than there are challenges hold one besides `endpointId`. -/
def Room (s : State) (endpointId : Str) : Prop :=
  ((holders s).filter (· ≠ endpointId)).length < maxControllers

section Commands

variable (L : Library)

/-- A response that is checked looks at a counter unless the entry has no lockout and the
response is the right one but not followed by a new role, or does not fit the buffer. -/
def Counted (A : Answers) (endpointId inputValue : Str) (expected : Expected) (s : State) : Prop :=
  0 < expected.lockout ∨ ∃ response, base64StringToBinary L inputValue = some response ∧
    (response = some expected.binary → Grants A endpointId s)

/-- What a command needs to stay inside the arrays, where `n` counters were made. -/
def Bounded (n : Nat) (s : State) : Op → Prop
  | .request A endpointId ref expiration =>
    expiration ≠ some none → (requestedEntry L A ref s).isOk → Room s endpointId
  | .response A endpointId challengeId inputValue =>
    ∀ k i entry expected, opened L A endpointId challengeId s = some (k, i, entry, expected) →
      Counted L A endpointId inputValue expected s → i < n
  | _ => True

/-- Why the agent stops at a command, if it does. -/
def stopOf (op : Op) (s : State) : Option Stop :=
  match execute L op s with
  | .error stop => some stop
  | .ok _ => none

/-- A command neither accesses a counter outside the table nor is left without a
challenge to fill in. -/
def Inside (s : State) (op : Op) : Prop :=
  stopOf L op s ≠ some .outsideTable ∧ stopOf L op s ≠ some .noChallenge

instance (s : State) (op : Op) : Decidable (Inside L s op) :=
  inferInstanceAs (Decidable (_ ∧ _))

end Commands

section Steps

variable {L : Library} {A : Answers} {s s' : State} {endpointId challengeId inputValue ref : Str}
  {k i n : Nat} {cc : Challenge} {entry : ChallengeEntry} {expected : Expected}

/-- With all challenges there, one of them is free or the endpoint id has its own just if
not all are held by others. -/
theorem room_iff (hlength : s.controllerChallenges.length = maxControllers) :
    Room s endpointId ↔ endpointId ∈ holders s ∨ none ∈ s.controllerChallenges := by
  have hholders : (holders s).length ≤ s.controllerChallenges.length :=
    length_filterMap_le _ _
  have hothers := length_filter_le (fun e => decide (e ≠ endpointId)) (holders s)
  rw [Room]
  constructor
  · intro hroom
    by_contra hnone
    obtain ⟨hmem, hfree⟩ := not_or.mp hnone
    have hall : (holders s).filter (fun e => decide (e ≠ endpointId)) = holders s :=
      by
      apply List.filter_eq_self.mpr
      intro e he
      have hne : e ≠ endpointId := fun heq => hmem (heq ▸ he)
      simpa using hne
    have hfull : (holders s).length = s.controllerChallenges.length := by
      apply Nat.le_antisymm hholders
      apply Nat.le_of_not_lt
      intro hlt
      obtain ⟨c, hc, hcnone⟩ := List.length_filterMap_lt_length_iff_exists.mp hlt
      rw [Option.map_eq_none_iff.mp hcnone] at hc
      exact hfree hc
    rw [hall, hfull, hlength] at hroom
    exact Nat.lt_irrefl _ hroom
  · intro h
    obtain hmem | hfree := h
    · have hlt : ((holders s).filter fun e => decide (e ≠ endpointId)).length <
          (holders s).length :=
        List.length_filter_lt_length_iff_exists.mpr ⟨endpointId, hmem, by simp⟩
      omega
    · have hlt : (holders s).length < s.controllerChallenges.length :=
        List.length_filterMap_lt_length_iff_exists.mpr ⟨none, hfree, rfl⟩
      omega

variable {expiration : Option (Option Int)}

/-- The agent stops at a request just if this is to be answered and finds no challenge. -/
theorem requestChallenge_error {stop : Stop} :
    requestChallenge L A endpointId ref expiration s = .error stop ↔
      stop = .noChallenge ∧ expiration ≠ some none ∧ (requestedEntry L A ref s).isOk ∧
        endpointId ∉ holders s ∧ none ∉ s.controllerChallenges := by
  have hexpiration : expiration.getD (some defaultRequestExpiration) = none ↔
      expiration = some none := by
    cases expiration <;> simp
  unfold requestChallenge
  split
  · next hnone => simp [hexpiration.mp hnone]
  · next hsome =>
    have hne : expiration ≠ some none := fun h => by simp [hexpiration.mpr h] at hsome
    cases hentry : requestedEntry L A ref s with
    | error err => simp [Except.isOk, Except.toBool]
    | ok entry =>
      cases hfind : s.findChallenge endpointId with
      | some found =>
        have hmem : endpointId ∈ holders s := by
          by_contra hnot
          rw [findChallenge_eq_none.mpr hnot] at hfind
          cases hfind
        have havailable : ∀ s', findAvailableChallenge A.now endpointId ref s ≠ .ok (none, s') := by
          intro s'
          unfold findAvailableChallenge
          rw [hfind]
          dsimp only
          split
          · simp
          · split <;> simp
        simp only [hmem, not_true, false_and, and_false, iff_false]
        split
        · simp
        · next h => exact absurd h (havailable _)
        · simp
      | none =>
        have hmem := findChallenge_eq_none.mp hfind
        simp only [findAvailableChallenge, hfind]
        cases hfree : s.controllerChallenges.findIdx? Option.isNone with
        | none =>
          have hnone : none ∉ s.controllerChallenges := fun h => by
            simpa using List.findIdx?_eq_none_iff.mp hfree _ h
          simp [hne, hmem, hnone, Except.isOk, Except.toBool, eq_comm]
        | some k =>
          obtain ⟨hlt, hk, -⟩ := List.findIdx?_eq_some_iff_getElem.mp hfree
          have hnone : none ∈ s.controllerChallenges := by
            rw [← Option.isNone_iff_eq_none.mp hk]
            exact getElem_mem hlt
          simp [hnone]

theorem requestChallenge_inside (hlength : s.controllerChallenges.length = maxControllers) :
    Inside L s (.request A endpointId ref expiration) ↔
      Bounded L n s (.request A endpointId ref expiration) := by
  have hstop : ∀ stop, stopOf L (.request A endpointId ref expiration) s = some stop ↔
      requestChallenge L A endpointId ref expiration s = .error stop := by
    intro stop
    rw [stopOf, execute]
    cases requestChallenge L A endpointId ref expiration s <;> simp [Except.map]
  rw [Inside, Ne, Ne, hstop, hstop, requestChallenge_error, requestChallenge_error, Bounded,
    room_iff hlength]
  by_cases hexpiration : expiration = some none
  · simp [hexpiration]
  · simp only [hexpiration, reduceCtorEq, false_and, not_false_eq_true, true_and, ne_eq,
      true_implies, not_and, not_not]
    constructor
    · intro h hentry
      by_cases hmem : endpointId ∈ holders s
      · exact .inl hmem
      · exact .inr (h hentry hmem)
    · intro h hentry hmem
      exact (h hentry).resolve_left hmem

theorem countWrong_outside {now : Int} :
    countWrong now expected i s = .error .outsideTable ↔ s.challengeTable.length ≤ i := by
  unfold countWrong
  split
  · next h => simpa using List.getElem?_eq_none_iff.mp h
  · next h =>
    obtain ⟨hlt, -⟩ := List.getElem?_eq_some_iff.mp h
    simpa using hlt

theorem grantRole_outside : grantRole A endpointId k i entry s = .error .outsideTable ↔
    Grants A endpointId s ∧ s.challengeTable.length ≤ i := by
  unfold grantRole Grants
  cases hfind : s.findController endpointId with
  | none => simp
  | some controller =>
    cases hrole : A.unreadable .role with
    | some err => simp
    | none =>
      cases hset : A.setRole with
      | false => simp
      | true => simp

/-- The check of a response leaves the table just if it looks at a counter outside. -/
theorem judgeResponse_outside :
    judgeResponse L A endpointId inputValue expected k i entry s = .error .outsideTable ↔
      Counted L A endpointId inputValue expected s ∧ s.challengeTable.length ≤ i := by
  unfold judgeResponse lockedOut Counted
  by_cases hlockout : 0 < expected.lockout
  · simp only [hlockout, if_true, true_or, true_and]
    cases hcounter : s.challengeTable[i]? with
    | none => simpa using List.getElem?_eq_none_iff.mp hcounter
    | some counter =>
      have hlt : ¬ s.challengeTable.length ≤ i := by
        obtain ⟨hlt, -⟩ := List.getElem?_eq_some_iff.mp hcounter
        omega
      simp only [hlt, iff_false]
      cases hlocked : decide (A.now < counter.lockedTime) with
      | true => simp
      | false =>
        simp only
        split
        · simp
        · split
          · simp [grantRole_outside, hlt]
          · simp [countWrong_outside, hlt]
  · simp only [hlockout, if_false, false_or]
    cases hresponse : base64StringToBinary L inputValue with
    | none => simp
    | some response =>
      by_cases hright : response = some expected.binary
      · simp [hright, grantRole_outside]
      · simp [hright, countWrong_outside]

/-- What is not checked accesses no counter. -/
theorem challengeResponse_inside_of_unopened (h : opened L A endpointId challengeId s = none) :
    challengeResponse L A endpointId challengeId inputValue s ≠ .error .outsideTable := by
  unfold opened at h
  unfold challengeResponse
  split
  · simp
  · next hopen =>
    simp only [hopen] at h
    split
    · simp
    · next href =>
      simp only [href] at h
      split
      · next hread =>
        rw [readEntry_stop hread]
        simp
      · simp
      · next hread => simp [hread] at h

theorem lockedOut_stop {now : Int} {stop : Stop} (h : lockedOut now expected i s = .error stop) :
    stop = .outsideTable := by
  unfold lockedOut at h
  split at h
  · split at h
    · cases h; rfl
    · cases h
  · cases h

theorem judgeResponse_noChallenge :
    judgeResponse L A endpointId inputValue expected k i entry s ≠ .error .noChallenge := by
  intro h
  unfold judgeResponse at h
  split at h
  · next hlocked =>
    cases h
    cases lockedOut_stop hlocked
  · cases h
  · split at h
    · cases h
    · split at h
      · unfold grantRole at h
        repeat' split at h
        all_goals cases h
      · unfold countWrong at h
        split at h <;> cases h

theorem challengeResponse_noChallenge :
    challengeResponse L A endpointId challengeId inputValue s ≠ .error .noChallenge := by
  intro h
  unfold challengeResponse at h
  split at h
  · cases h
  · split at h
    · cases h
    · split at h
      · next hread =>
        cases h
        cases readEntry_stop hread
      · cases h
      · exact judgeResponse_noChallenge h

theorem challengeResponse_inside (hlength : s.challengeTable.length = n) :
    Inside L s (.response A endpointId challengeId inputValue) ↔
      Bounded L n s (.response A endpointId challengeId inputValue) := by
  have hstop : ∀ stop, stopOf L (.response A endpointId challengeId inputValue) s = some stop ↔
      challengeResponse L A endpointId challengeId inputValue s = .error stop := by
    intro stop
    rw [stopOf, execute]
    cases challengeResponse L A endpointId challengeId inputValue s <;> simp [Except.map]
  rw [Inside, Ne, Ne, hstop, hstop, Bounded]
  simp only [challengeResponse_noChallenge, not_false_eq_true, and_true]
  cases hopened : opened L A endpointId challengeId s with
  | none => simp [challengeResponse_inside_of_unopened hopened]
  | some found =>
    obtain ⟨k, i, entry, expected⟩ := found
    rw [challengeResponse_opened hopened, judgeResponse_outside, hlength]
    constructor
    · intro h k' i' entry' expected' heq hcounted
      cases heq
      exact Nat.lt_of_not_le fun hle => h ⟨hcounted, hle⟩
    · intro h hoverrun
      exact Nat.not_lt.mpr hoverrun.2 (h k i entry expected rfl hoverrun.1)

theorem inside_iff (hchallenges : s.controllerChallenges.length = maxControllers)
    (htable : s.challengeTable.length = n) (op : Op) : Inside L s op ↔ Bounded L n s op := by
  cases op with
  | request => exact requestChallenge_inside hchallenges
  | response => exact challengeResponse_inside htable
  | addEntry | deleteEntry | setEntry | changeControllers => simp [Inside, stopOf, execute, Bounded]

/-- The arrays keep their lengths. -/
structure SameLengths (s s' : State) : Prop where
  challenges : s'.controllerChallenges.length = s.controllerChallenges.length
  table : s'.challengeTable.length = s.challengeTable.length

theorem SameLengths.refl (s : State) : SameLengths s s := ⟨rfl, rfl⟩

theorem requestChallenge_lengths {result : Except Err ChallengeOutput}
    (h : requestChallenge L A endpointId ref expiration s = .ok (result, s')) :
    SameLengths s s' := by
  obtain ⟨err, -, rfl⟩ | ⟨output, -, hrequested⟩ := requestChallenge_requested h
  · exact SameLengths.refl _
  · obtain ⟨k, x, count, -, -, rfl⟩ := hrequested.filled
    exact ⟨length_set, rfl⟩

theorem challengeResponse_lengths {result : Except Err Unit}
    (h : challengeResponse L A endpointId challengeId inputValue s = .ok (result, s')) :
    SameLengths s s' := by
  cases hopened : opened L A endpointId challengeId s with
  | none =>
    obtain ⟨-, rfl | ⟨k, cc, -, -, rfl⟩⟩ := challengeResponse_unopened hopened h
    · exact SameLengths.refl _
    · exact ⟨length_set, rfl⟩
  | some found =>
    obtain ⟨k, i, entry, expected⟩ := found
    rw [challengeResponse_opened hopened] at h
    cases judgeResponse_judged h with
    | locked | refused => exact SameLengths.refl _
    | wrong => exact ⟨rfl, length_set⟩
    | granted => exact ⟨length_set, length_set⟩

theorem step_lengths {op : Op} (h : step L op s = some s') : SameLengths s s' := by
  obtain ⟨reply, h⟩ := step_eq_some.mp h
  cases op with
  | request =>
    obtain ⟨result, -, hresult⟩ := execute_request h
    exact requestChallenge_lengths hresult
  | response =>
    obtain ⟨result, -, hresult⟩ := execute_response h
    exact challengeResponse_lengths hresult
  | addEntry i entry =>
    cases h
    split <;> exact ⟨rfl, rfl⟩
  | deleteEntry i =>
    cases h
    exact ⟨rfl, rfl⟩
  | setEntry i entry =>
    cases h
    split <;> exact ⟨rfl, rfl⟩
  | changeControllers controllers =>
    cases h
    exact ⟨rfl, rfl⟩

end Steps

/-- A run stays inside the arrays exactly as long as it consults no counter for an
instance number from the number of counters on, and gives no controller without a
challenge one while as many other endpoint ids hold one as there may be controllers. -/
theorem inside_arrays_iff (L : Library) (rows : List (Nat × ChallengeEntry))
    (controllers : List Controller) (ops : List Op) :
    RunMeets (step L) (Inside L) ops (start rows controllers) ↔
      RunMeets (step L) (Bounded L (max rows.length maxControllers)) ops
        (start rows controllers) := by
  apply runMeets_congr (I := fun s => s.controllerChallenges.length = maxControllers ∧
    s.challengeTable.length = max rows.length maxControllers)
  · intro s op hlengths
    exact inside_iff hlengths.1 hlengths.2 op
  · intro s op s' hlengths _ hstep
    have hsame := step_lengths hstep
    exact ⟨hsame.challenges.trans hlengths.1, hsame.table.trans hlengths.2⟩
  · simp [start]

/-- The path of the fifth Challenge entry. -/
def fifthChallenge : Str := "Device.LocalAgent.ControllerTrust.Challenge.5".toList

def entryWithRetries : ChallengeEntry where
  role := []
  enable := true
  value := []
  valueType := []
  instruction := []
  instructionType := []
  retries := some 3
  lockoutPeriod := 30

/-- Five entries are added after a start without any, and a wrong answer is given for the
last of them. -/
def fifthEntryRun : List Op :=
  [.addEntry 1 entryWithRetries, .addEntry 2 entryWithRetries, .addEntry 3 entryWithRetries,
    .addEntry 4 entryWithRetries, .addEntry 5 entryWithRetries,
    .request { now := 10 } ['c'] fifthChallenge none,
    .response { now := 11 } ['c'] (generateChallengeId [] 1) ['A', 'A', 'A', 'A']]

theorem fifth_entry_outside :
    ¬ RunMeets (step ⟨fun ref => if ref = fifthChallenge then some 5 else none,
        fun str => if str = ['A', 'A', 'A', 'A'] then some [0, 0, 0] else some []⟩)
      (Inside ⟨fun ref => if ref = fifthChallenge then some 5 else none,
        fun str => if str = ['A', 'A', 'A', 'A'] then some [0, 0, 0] else some []⟩)
      fifthEntryRun (start [] [⟨1, true, ['c'], []⟩]) := by
  decide

end ChallengeBounds
