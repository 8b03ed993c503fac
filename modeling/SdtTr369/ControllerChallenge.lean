import SdtTr369.ControllerTable
import Mathlib.Data.List.GetD

/-!
# Challenges of the controllers

`device_ctrust.c` lets a controller ask for a challenge and answer it to be
given another role. A challenge is kept by endpoint id in a fixed array; the wrong
answers are counted in a second array, which is made at start and indexed by the
instance number of the Challenge entry. A command that would access memory it does
not own, or that fails an assertion, stops the agent.
-/

namespace ControllerChallenge

open UspTypes DecimalText List Option
open ControllerTable (maxControllers)

/-- A row of `Device.LocalAgent.ControllerTrust.Challenge.{i}`. The text of Retries may
be no number, as its default is none. -/
structure ChallengeEntry where
  role : Str
  enable : Bool
  value : Str
  valueType : Str
  instruction : Str
  instructionType : Str
  retries : Option Nat
  lockoutPeriod : Int
  deriving DecidableEq, Repr

/-- A row of `Device.LocalAgent.Controller.{i}`. -/
structure Controller where
  inst : Nat
  enable : Bool
  endpointId : Str
  assignedRole : Str
  deriving DecidableEq, Repr

/-- `controller_challenge_t` of an active challenge. -/
structure Challenge where
  controllerEndpointId : Str
  challengeId : Str
  expiration : Int
  expireTime : Int
  challengeRef : Str
  deriving DecidableEq, Repr

/-- `challenge_table_t`. -/
structure Counter where
  retries : UInt32
  lockedTime : Int
  deriving DecidableEq, Repr

structure State where
  entries : Nat → Option ChallengeEntry
  controllers : List Controller
  controllerChallenges : List (Option Challenge)
  challengeTable : List Counter
  requestChallengeCount : UInt32

/-- What lies outside these functions: the row of the Challenge table that a path
names, and `EVP_DecodeBlock`. -/
structure Library where
  refInstance : Str → Option Nat
  decodeBlock : Str → Option (List UInt8)

inductive Param where
  | enable | instruction | instructionType | valueType | value | retries | lockoutPeriod | role
  deriving DecidableEq, Repr

/-- What a command gets to know of the clock and of the data model: the error with
which a parameter is not read, and whether the role can be set. -/
structure Answers where
  now : Int
  later : Int := now
  timeText : Str := []
  unreadable : Param → Option Err := fun _ => none
  setRole : Bool := true

structure ChallengeOutput where
  instruction : Str
  instructionType : Str
  valueType : Str
  challengeId : Str
  deriving DecidableEq, Repr

/-- Why the agent stops. -/
inductive Stop where
  | outsideTable
  | noChallenge
  | assertion
  deriving DecidableEq, Repr

def maxDmValueLen : Nat := 4096

def defaultRequestExpiration : Int := 900

/-- `initialise_challenge_table`, with what else is set up at start. -/
def start (rows : List (Nat × ChallengeEntry)) (controllers : List Controller) : State where
  entries i := rows.lookup i
  controllers := controllers
  controllerChallenges := List.replicate maxControllers none
  challengeTable := List.replicate (max rows.length maxControllers) ⟨0, 0⟩
  requestChallengeCount := 0

section Commands

variable (L : Library)

/-- `DM_ACCESS_ValidateReference`, for the Challenge table. -/
def State.validateReference (s : State) (ref : Str) : Option (Nat × ChallengeEntry) :=
  (L.refInstance ref).bind fun i => (s.entries i).map fun entry => (i, entry)

/-- `FindControllerChallengeByEndpointId`: the index of the challenge and itself. -/
def State.findChallenge (s : State) (endpointId : Str) : Option (Nat × Challenge) :=
  (s.controllerChallenges.findIdx? fun c => c.any (·.controllerEndpointId = endpointId)).bind
    fun k => (s.controllerChallenges.getD k none).map fun cc => (k, cc)

def State.setChallenge (s : State) (k : Nat) (cc : Option Challenge) : State :=
  { s with controllerChallenges := s.controllerChallenges.set k cc }

/-- `DestroyControllerChallenge`. -/
def State.destroyChallenge (s : State) (k : Nat) : State := s.setChallenge k none

/-- `FindAvailableControllerChallenge`; no index is the pointer that is left NULL. -/
def findAvailableChallenge (now : Int) (endpointId ref : Str) (s : State) :
    Except Err (Option Nat × State) :=
  match s.findChallenge endpointId with
  | some (k, cc) =>
    if 0 < cc.expiration ∧ cc.expireTime < now then .ok (some k, s.destroyChallenge k)
    else if cc.challengeRef ≠ ref then .error .invalidValue
    else .ok (some k, s)
  | none => .ok (s.controllerChallenges.findIdx? Option.isNone, s)

/-- `GenerateChallengeId`, for the counter that it has just increased. -/
def generateChallengeId (timeText : Str) (count : UInt32) : Str :=
  ['C', 'h', 'a', 'l', 'l', 'e', 'n', 'g', 'e', '-'] ++ timeText ++
    '-' :: intDigits (signedWord count)

/-- The end of `ControllerTrustRequestChallenge`, with a challenge to fill in. -/
def fillChallenge (A : Answers) (endpointId ref : Str) (expiration : Int) (k : Nat) (s : State) :
    Str × State :=
  match s.controllerChallenges.getD k none with
  | none =>
    let count := s.requestChallengeCount + 1
    let id := generateChallengeId A.timeText count
    (id, { s.setChallenge k (some ⟨endpointId, id, expiration, A.later + expiration, ref⟩) with
      requestChallengeCount := count })
  | some cc =>
    (cc.challengeId, s.setChallenge k
      (some { cc with expiration := expiration, expireTime := A.later + expiration }))

/-- The checks at the head of `ControllerTrustRequestChallenge`: the Challenge entry that
is referred to, which can be read and is enabled. -/
def requestedEntry (A : Answers) (ref : Str) (s : State) : Except Err ChallengeEntry :=
  if ref = [] then .error .invalidValue
  else match s.validateReference L ref with
    | none => .error .invalidValue
    | some (_, entry) =>
      if (A.unreadable .enable).isSome then .error .invalidValue
      else if entry.enable = false then .error .invalidValue
      else match A.unreadable .instruction with
        | some err => .error err
        | none => match A.unreadable .instructionType with
          | some err => .error err
          | none => match A.unreadable .valueType with
            | some err => .error err
            | none => .ok entry

/-- `ControllerTrustRequestChallenge`. The argument is missing, no number or a number. -/
def requestChallenge (A : Answers) (endpointId ref : Str)
    (requestExpiration : Option (Option Int)) (s : State) :
    Except Stop (Except Err ChallengeOutput × State) :=
  match requestExpiration.getD (some defaultRequestExpiration) with
  | none => .ok (.error .invalidType, s)
  | some expiration =>
    match requestedEntry L A ref s with
    | .error err => .ok (.error err, s)
    | .ok entry =>
      match findAvailableChallenge A.now endpointId ref s with
      | .error err => .ok (.error err, s)
      | .ok (none, _) => .error .noChallenge
      | .ok (some k, s) =>
        let (id, s) := fillChallenge A endpointId ref expiration k s
        .ok (.ok ⟨entry.instruction, entry.instructionType, entry.valueType, id⟩, s)

/-- `TEXT_UTILS_Base64StringToBinary` into a buffer of `MAX_DM_VALUE_LEN`; no result is
the assertion that the buffer is long enough. -/
def base64StringToBinary (str : Str) : Option (Option (List UInt8)) :=
  let stripped := str.filter fun c => c ∉ ['\n', '\r', '\t', ' ']
  if stripped.length * 3 / 4 < maxDmValueLen then some (L.decodeBlock stripped) else none

/-- The first three checks of `ControllerTrustChallengeResponse`. -/
def openChallenge (now : Int) (endpointId challengeId : Str) (s : State) :
    Except Err (Nat × Challenge) :=
  match s.findChallenge endpointId with
  | none => .error .invalidValue
  | some (k, cc) =>
    if cc.challengeId ≠ challengeId then .error .invalidValue
    else if 0 < cc.expiration ∧ cc.expireTime ≤ now then .error .invalidValue
    else .ok (k, cc)

/-- What a response is checked against. -/
structure Expected where
  binary : List UInt8
  retries : Nat
  lockout : Int
  deriving DecidableEq, Repr

/-- The parameters of the Challenge entry that are read before the check. -/
def readEntry (A : Answers) (entry : ChallengeEntry) : Except Stop (Except Err Expected) :=
  match A.unreadable .value with
  | some err => .ok (.error err)
  | none => match base64StringToBinary L entry.value with
    | none | some none => .error .assertion
    | some (some binary) => match A.unreadable .retries with
      | some err => .ok (.error err)
      | none => match entry.retries with
        | none => .ok (.error .invalidType)
        | some retries => match A.unreadable .lockoutPeriod with
          | some err => .ok (.error err)
          | none => .ok (.ok ⟨binary, retries, entry.lockoutPeriod⟩)

/-- `DEVICE_CONTROLLER_FindInstanceByEndpointId`. -/
def State.findController (s : State) (endpointId : Str) : Option Controller :=
  s.controllers.find? fun c => c.enable && c.endpointId = endpointId

/-- The set of AssignedRole in the row `inst`. -/
def State.assignRole (s : State) (inst : Nat) (role : Str) : State :=
  { s with controllers := s.controllers.map fun c =>
      if c.inst = inst then { c with assignedRole := role } else c }

def State.setCounter (s : State) (i : Nat) (counter : Counter) : State :=
  { s with challengeTable := s.challengeTable.set i counter }

/-- The branch for a wrong password. -/
def countWrong (now : Int) (expected : Expected) (i : Nat) (s : State) :
    Except Stop (Except Err Unit × State) :=
  match s.challengeTable[i]? with
  | none => .error .outsideTable
  | some counter =>
    let retries := counter.retries + 1
    .ok (.error .commandFailure, s.setCounter i
      (if expected.retries ≤ retries.toNat ∧ 0 < expected.lockout then
        ⟨retries, now + expected.lockout⟩ else { counter with retries := retries }))

/-- The rest of the function, after the right password. -/
def grantRole (A : Answers) (endpointId : Str) (k i : Nat) (entry : ChallengeEntry) (s : State) :
    Except Stop (Except Err Unit × State) :=
  match s.findController endpointId with
  | none => .ok (.error .commandFailure, s)
  | some controller =>
    if (A.unreadable .role).isSome then .ok (.error .commandFailure, s)
    else if A.setRole = false then .ok (.error .commandFailure, s)
    else if i < s.challengeTable.length then
      .ok (.ok (), ((s.assignRole controller.inst entry.role).destroyChallenge k).setCounter i ⟨0, 0⟩)
    else .error .outsideTable

/-- The lockout, which is not looked up without a LockoutPeriod. -/
def lockedOut (now : Int) (expected : Expected) (i : Nat) (s : State) : Except Stop Bool :=
  if 0 < expected.lockout then
    match s.challengeTable[i]? with
    | none => .error .outsideTable
    | some counter => .ok (now < counter.lockedTime)
  else .ok false

/-- From the lockout on. -/
def judgeResponse (A : Answers) (endpointId inputValue : Str) (expected : Expected) (k i : Nat)
    (entry : ChallengeEntry) (s : State) : Except Stop (Except Err Unit × State) :=
  match lockedOut A.now expected i s with
  | .error stop => .error stop
  | .ok true => .ok (.error .requestDenied, s)
  | .ok false =>
    match base64StringToBinary L inputValue with
    | none => .error .assertion
    | some response =>
      if response = some expected.binary then grantRole A endpointId k i entry s
      else countWrong A.now expected i s

/-- `ControllerTrustChallengeResponse`. -/
def challengeResponse (A : Answers) (endpointId challengeId inputValue : Str) (s : State) :
    Except Stop (Except Err Unit × State) :=
  match openChallenge A.now endpointId challengeId s with
  | .error err => .ok (.error err, s)
  | .ok (k, cc) =>
    match s.validateReference L cc.challengeRef with
    | none => .ok (.error .commandFailure, s.destroyChallenge k)
    | some (i, entry) =>
      match readEntry L A entry with
      | .error stop => .error stop
      | .ok (.error err) => .ok (.error err, s)
      | .ok (.ok expected) => judgeResponse L A endpointId inputValue expected k i entry s

end Commands

/-! ## Runs -/

inductive Op where
  | request (A : Answers) (endpointId ref : Str)
    (requestExpiration : Option (Option Int))
  | response (A : Answers) (endpointId challengeId inputValue : Str)
  | addEntry (inst : Nat) (entry : ChallengeEntry)
  | deleteEntry (inst : Nat)
  | setEntry (inst : Nat) (entry : ChallengeEntry)
  | changeControllers (controllers : List Controller)

/-- What a command hands back; committed changes of the tables have no answer. -/
inductive Reply where
  | requested (result : Except Err ChallengeOutput)
  | responded (result : Except Err Unit)
  | changed

def State.setEntry (s : State) (i : Nat) (entry : Option ChallengeEntry) : State :=
  { s with entries := fun j => if j = i then entry else s.entries j }

/-- A row is added under a free instance number, and a change needs its row. -/
def execute (L : Library) : Op → State → Except Stop (Reply × State)
  | .request A endpointId ref expiration, s =>
    (requestChallenge L A endpointId ref expiration s).map fun r => (.requested r.1, r.2)
  | .response A endpointId challengeId inputValue, s =>
    (challengeResponse L A endpointId challengeId inputValue s).map fun r => (.responded r.1, r.2)
  | .addEntry i entry, s =>
    .ok (.changed, if (s.entries i).isNone then s.setEntry i (some entry) else s)
  | .deleteEntry i, s => .ok (.changed, s.setEntry i none)
  | .setEntry i entry, s =>
    .ok (.changed, if (s.entries i).isSome then s.setEntry i (some entry) else s)
  | .changeControllers controllers, s => .ok (.changed, { s with controllers := controllers })

/-- A step of a run: nothing follows once the agent has stopped. -/
def step (L : Library) (op : Op) (s : State) : Option State :=
  match execute L op s with
  | .error _ => none
  | .ok (_, s) => some s

/-! ## What a command does -/

/-- The endpoint ids that hold a challenge. -/
def holders (s : State) : List Str :=
  s.controllerChallenges.filterMap fun c => c.map (·.controllerEndpointId)

/-- Nothing keeps the role from being set. -/
def Grants (A : Answers) (endpointId : Str) (s : State) : Prop :=
  (s.findController endpointId).isSome ∧ A.unreadable .role = none ∧ A.setRole = true

instance (A : Answers) (endpointId : Str) (s : State) : Decidable (Grants A endpointId s) :=
  inferInstanceAs (Decidable (_ ∧ _))

section Commands

variable (L : Library)

/-- The challenge that a response opens, with the entry that it is checked against. -/
def opened (A : Answers) (endpointId challengeId : Str) (s : State) :
    Option (Nat × Nat × ChallengeEntry × Expected) :=
  match openChallenge A.now endpointId challengeId s with
  | .error _ => none
  | .ok (k, cc) => match s.validateReference L cc.challengeRef with
    | none => none
    | some (i, entry) => match readEntry L A entry with
      | .ok (.ok expected) => some (k, i, entry, expected)
      | _ => none

/-- The counter of a Challenge entry after one more wrong answer. -/
def Counter.wrong (counter : Counter) (now : Int) (expected : Expected) : Counter :=
  if expected.retries ≤ (counter.retries + 1).toNat ∧ 0 < expected.lockout then
    ⟨counter.retries + 1, now + expected.lockout⟩
  else { counter with retries := counter.retries + 1 }

/-- The counter `i` keeps an answer away. -/
def State.Locked (s : State) (now : Int) (expected : Expected) (i : Nat) : Prop :=
  0 < expected.lockout ∧ ∃ counter ∈ s.challengeTable[i]?, now < counter.lockedTime

instance (s : State) (now : Int) (expected : Expected) (i : Nat) :
    Decidable (s.Locked now expected i) :=
  inferInstanceAs (Decidable (_ ∧ _))

/-- What a response does that is checked against `entry`. -/
inductive Judged (A : Answers) (endpointId inputValue : Str) (expected : Expected) (k i : Nat)
    (entry : ChallengeEntry) (s : State) : Except Err Unit → State → Prop where
  | locked : s.Locked A.now expected i →
      Judged A endpointId inputValue expected k i entry s (.error .requestDenied) s
  | wrong {response : Option (List UInt8)} {counter : Counter} :
      ¬ s.Locked A.now expected i → base64StringToBinary L inputValue = some response →
      response ≠ some expected.binary → s.challengeTable[i]? = some counter →
      Judged A endpointId inputValue expected k i entry s (.error .commandFailure)
        (s.setCounter i (counter.wrong A.now expected))
  | refused : ¬ s.Locked A.now expected i →
      base64StringToBinary L inputValue = some (some expected.binary) → ¬ Grants A endpointId s →
      Judged A endpointId inputValue expected k i entry s (.error .commandFailure) s
  | granted {controller : Controller} : ¬ s.Locked A.now expected i →
      base64StringToBinary L inputValue = some (some expected.binary) → Grants A endpointId s →
      s.findController endpointId = some controller → i < s.challengeTable.length →
      Judged A endpointId inputValue expected k i entry s (.ok ())
        (((s.assignRole controller.inst entry.role).destroyChallenge k).setCounter i ⟨0, 0⟩)

end Commands

section Lemmas

variable {L : Library} {A : Answers} {s s' : State} {endpointId challengeId inputValue ref : Str}
  {k i : Nat} {cc : Challenge} {entry : ChallengeEntry} {expected : Expected}

theorem findChallenge_eq_some : s.findChallenge endpointId = some (k, cc) ↔
    s.controllerChallenges[k]? = some (some cc) ∧ cc.controllerEndpointId = endpointId ∧
      ∀ j < k, ∀ c, s.controllerChallenges[j]? = some (some c) →
        c.controllerEndpointId ≠ endpointId := by
  unfold State.findChallenge
  rw [bind_eq_some_iff]
  constructor
  · intro h
    obtain ⟨k', hidx, hcc⟩ := h
    obtain ⟨cc', hget, heq⟩ := map_eq_some_iff.mp hcc
    cases heq
    obtain ⟨hlt, hholds, hfirst⟩ := List.findIdx?_eq_some_iff_getElem.mp hidx
    rw [getD_eq_getElem _ _ hlt] at hget
    rw [hget] at hholds
    refine ⟨by rw [getElem?_eq_getElem hlt, hget], by simpa using hholds, ?_⟩
    intro j hj c hc
    have hnot := hfirst j hj
    rw [getElem?_eq_getElem (hj.trans hlt), Option.some.injEq] at hc
    rw [hc] at hnot
    simpa using hnot
  · intro h
    obtain ⟨hget, hendpoint, hfirst⟩ := h
    obtain ⟨hlt, hk⟩ := List.getElem?_eq_some_iff.mp hget
    refine ⟨k, List.findIdx?_eq_some_iff_getElem.mpr ⟨hlt, ?_, ?_⟩, ?_⟩
    · rw [hk]
      simpa using hendpoint
    · intro j hj
      cases hc : s.controllerChallenges[j] with
      | none => simp
      | some c =>
        have hne := hfirst j hj c (by rw [getElem?_eq_getElem (hj.trans hlt), hc])
        simpa using hne
    · rw [getD_eq_getElem _ _ hlt, hk]
      rfl

theorem mem_holders : endpointId ∈ holders s ↔
    ∃ cc, some cc ∈ s.controllerChallenges ∧ cc.controllerEndpointId = endpointId := by
  simp [holders, mem_filterMap]

theorem findChallenge_eq_none : s.findChallenge endpointId = none ↔ endpointId ∉ holders s := by
  rw [mem_holders]
  constructor
  · intro h hholder
    obtain ⟨cc, hcc, hendpoint⟩ := hholder
    unfold State.findChallenge at h
    cases hidx : s.controllerChallenges.findIdx?
        fun c => c.any (·.controllerEndpointId = endpointId) with
    | none =>
      have hnot := List.findIdx?_eq_none_iff.mp hidx _ hcc
      simp [hendpoint] at hnot
    | some k =>
      obtain ⟨hlt, hholds, -⟩ := List.findIdx?_eq_some_iff_getElem.mp hidx
      rw [hidx, bind_some, map_eq_none_iff, getD_eq_getElem _ _ hlt] at h
      rw [h] at hholds
      cases hholds
  · intro h
    cases hfind : s.findChallenge endpointId with
    | none => rfl
    | some found =>
      obtain ⟨hget, hendpoint, -⟩ := findChallenge_eq_some.mp hfind
      exact absurd ⟨found.2, mem_of_getElem? hget, hendpoint⟩ h

theorem challengeResponse_opened
    (h : opened L A endpointId challengeId s = some (k, i, entry, expected)) :
    challengeResponse L A endpointId challengeId inputValue s =
      judgeResponse L A endpointId inputValue expected k i entry s := by
  unfold opened at h
  unfold challengeResponse
  split at h
  · cases h
  · split at h
    · cases h
    · split at h
      · next hread =>
        cases h
        simp only [hread]
      · cases h

theorem readEntry_stop {stop : Stop} (h : readEntry L A entry = .error stop) :
    stop = .assertion := by
  unfold readEntry at h
  split at h
  · cases h
  · split at h
    · cases h; rfl
    · cases h; rfl
    · split at h
      · cases h
      · split at h
        · cases h
        · split at h <;> cases h

/-- A lockout is looked up where there is one, and outside the table there is none. -/
theorem lockedOut_ok {now : Int} {locked : Bool} (h : lockedOut now expected i s = .ok locked) :
    locked = true ↔ s.Locked now expected i := by
  unfold lockedOut at h
  split at h
  · next hlockout =>
    split at h
    · cases h
    · next hcounter =>
      cases h
      simp [State.Locked, hlockout, hcounter]
  · next hlockout =>
    cases h
    simp [State.Locked, hlockout]

variable {result : Except Err Unit} {requestExpiration : Option (Option Int)}

theorem judgeResponse_judged
    (h : judgeResponse L A endpointId inputValue expected k i entry s = .ok (result, s')) :
    Judged L A endpointId inputValue expected k i entry s result s' := by
  unfold judgeResponse at h
  split at h
  · cases h
  · next hlocked =>
    cases h
    exact .locked ((lockedOut_ok hlocked).mp rfl)
  · next hlocked =>
    have hfree : ¬ s.Locked A.now expected i := by simpa using (lockedOut_ok hlocked).not
    split at h
    · cases h
    · next response hresponse =>
      split at h
      · next hright =>
        rw [hright] at hresponse
        unfold grantRole at h
        split at h
        · next hfind =>
          cases h
          exact .refused hfree hresponse (by simp [Grants, hfind])
        · next hfind =>
          split at h
          · next hrole =>
            cases h
            refine .refused hfree hresponse fun hgrants => ?_
            simp [hgrants.2.1] at hrole
          · next hrole =>
            split at h
            · next hset =>
              cases h
              exact .refused hfree hresponse (by simp [Grants, hset])
            · next hset =>
              split at h
              · next hlt =>
                cases h
                refine .granted hfree hresponse ⟨?_, ?_, ?_⟩ hfind hlt
                · rw [hfind]; rfl
                · simpa using hrole
                · simpa using hset
              · cases h
      · next hwrong =>
        unfold countWrong at h
        split at h
        · cases h
        · next hcounter =>
          cases h
          exact .wrong hfree hresponse hwrong hcounter

/-- A response that is not checked is answered with an error; it only drops a challenge
whose entry has gone. -/
theorem challengeResponse_unopened (hopened : opened L A endpointId challengeId s = none)
    (h : challengeResponse L A endpointId challengeId inputValue s = .ok (result, s')) :
    (∃ err, result = .error err) ∧ (s' = s ∨ ∃ k cc,
      s.findChallenge endpointId = some (k, cc) ∧ s.validateReference L cc.challengeRef = none ∧
        s' = s.destroyChallenge k) := by
  unfold opened at hopened
  unfold challengeResponse at h
  split at h
  · cases h
    exact ⟨⟨_, rfl⟩, .inl rfl⟩
  · next k cc hopen =>
    simp only [hopen] at hopened
    have hfind : s.findChallenge endpointId = some (k, cc) := by
      unfold openChallenge at hopen
      split at hopen
      · cases hopen
      · next hfind =>
        split at hopen
        · cases hopen
        · split at hopen
          · cases hopen
          · cases hopen
            exact hfind
    split at h
    · next href =>
      cases h
      exact ⟨⟨_, rfl⟩, .inr ⟨k, cc, hfind, href, rfl⟩⟩
    · next href =>
      simp only [href] at hopened
      split at h
      · cases h
      · cases h
        exact ⟨⟨_, rfl⟩, .inl rfl⟩
      · next hread => simp [hread] at hopened

/-- The challenge `k` is the one to be filled in for an endpoint id: its own, or a free one
if it has none. -/
def State.Fits (s : State) (endpointId : Str) (k : Nat) : Prop :=
  (∃ cc, s.findChallenge endpointId = some (k, cc)) ∨
    s.findChallenge endpointId = none ∧ s.controllerChallenges[k]? = some none

/-- What a request does that is answered. -/
structure Requested (L : Library) (A : Answers) (endpointId ref : Str)
    (requestExpiration : Option (Option Int))
    (s : State) (output : ChallengeOutput) (s' : State) : Prop where
  entry : ∃ entry, requestedEntry L A ref s = .ok entry ∧ output.instruction = entry.instruction ∧
    output.instructionType = entry.instructionType ∧ output.valueType = entry.valueType
  filled : ∃ k expiration count, s.Fits endpointId k ∧
    requestExpiration.getD (some defaultRequestExpiration) = some expiration ∧
    s' = { s.setChallenge k (some ⟨endpointId, output.challengeId, expiration,
      A.later + expiration, ref⟩) with requestChallengeCount := count }

/-- The challenge that is found is filled in for the endpoint id and the reference. -/
theorem availableChallenge_fills {now : Int} {s₁ : State}
    (h : findAvailableChallenge now endpointId ref s = .ok (some k, s₁)) (A : Answers)
    (expiration : Int) :
    s.Fits endpointId k ∧ ∃ count, (fillChallenge A endpointId ref expiration k s₁).2 =
      { s.setChallenge k (some ⟨endpointId, (fillChallenge A endpointId ref expiration k s₁).1,
        expiration, A.later + expiration, ref⟩) with requestChallengeCount := count } := by
  unfold findAvailableChallenge at h
  split at h
  · next cc hfind =>
    obtain ⟨hget, hendpoint, -⟩ := findChallenge_eq_some.mp hfind
    obtain ⟨hlt, -⟩ := List.getElem?_eq_some_iff.mp hget
    split at h
    · -- an expired challenge is dropped first
      cases h
      refine ⟨.inl ⟨cc, hfind⟩, s.requestChallengeCount + 1, ?_⟩
      have hgetD : (s.destroyChallenge k).controllerChallenges.getD k none = none := by
        simp [State.destroyChallenge, State.setChallenge, getD_eq_getElem?_getD, hlt]
      unfold fillChallenge
      rw [hgetD]
      simp [State.destroyChallenge, State.setChallenge]
    · split at h
      · cases h
      · next href =>
        cases h
        refine ⟨.inl ⟨cc, hfind⟩, s.requestChallengeCount, ?_⟩
        have hgetD : s.controllerChallenges.getD k none = some cc := by
          rw [getD_eq_getElem?_getD, hget]
          rfl
        have hsame := not_not.mp href
        unfold fillChallenge
        rw [hgetD, ← hendpoint, ← hsame]
        rfl
  · next hfind =>
    simp only [Except.ok.injEq, Prod.mk.injEq] at h
    obtain ⟨hidx, rfl⟩ := h
    obtain ⟨hlt, hfree, -⟩ := List.findIdx?_eq_some_iff_getElem.mp hidx
    have hget : s.controllerChallenges[k]? = some none := by
      rw [getElem?_eq_getElem hlt, isNone_iff_eq_none.mp hfree]
    have hgetD : s.controllerChallenges.getD k none = none := by
      rw [getD_eq_getElem?_getD, hget]
      rfl
    refine ⟨.inr ⟨hfind, hget⟩, s.requestChallengeCount + 1, ?_⟩
    unfold fillChallenge
    rw [hgetD]

theorem requestChallenge_requested {result : Except Err ChallengeOutput}
    (h : requestChallenge L A endpointId ref requestExpiration s = .ok (result, s')) :
    (∃ err, result = .error err ∧ s' = s) ∨ ∃ output, result = .ok output ∧
      Requested L A endpointId ref requestExpiration s output s' := by
  unfold requestChallenge at h
  split at h
  · cases h
    exact .inl ⟨_, rfl, rfl⟩
  · next expiration hexpiration =>
    split at h
    · cases h
      exact .inl ⟨_, rfl, rfl⟩
    · next entry hentry =>
      split at h
      · cases h
        exact .inl ⟨_, rfl, rfl⟩
      · cases h
      · next k s₁ havailable =>
        cases h
        refine .inr ⟨_, rfl, ⟨entry, hentry, rfl, rfl, rfl⟩, ?_⟩
        obtain ⟨hfits, hfilled⟩ := availableChallenge_fills havailable A expiration
        obtain ⟨count, hfilled⟩ := hfilled
        exact ⟨k, expiration, count, hfits, hexpiration, hfilled⟩

theorem step_eq_some {op : Op} :
    step L op s = some s' ↔ ∃ reply, execute L op s = .ok (reply, s') := by
  unfold step
  cases execute L op s with
  | error stop => simp
  | ok result => simp [Prod.ext_iff]

theorem execute_request {reply : Reply}
    (h : execute L (.request A endpointId ref requestExpiration) s = .ok (reply, s')) :
    ∃ result, reply = .requested result ∧
      requestChallenge L A endpointId ref requestExpiration s = .ok (result, s') := by
  rw [execute] at h
  cases hresult : requestChallenge L A endpointId ref requestExpiration s with
  | error stop =>
    rw [hresult] at h
    cases h
  | ok result =>
    rw [hresult] at h
    cases h
    exact ⟨result.1, rfl, rfl⟩

theorem execute_response {reply : Reply}
    (h : execute L (.response A endpointId challengeId inputValue) s = .ok (reply, s')) :
    ∃ result, reply = .responded result ∧
      challengeResponse L A endpointId challengeId inputValue s = .ok (result, s') := by
  rw [execute] at h
  cases hresult : challengeResponse L A endpointId challengeId inputValue s with
  | error stop =>
    rw [hresult] at h
    cases h
  | ok result =>
    rw [hresult] at h
    cases h
    exact ⟨result.1, rfl, rfl⟩

end Lemmas

end ControllerChallenge
