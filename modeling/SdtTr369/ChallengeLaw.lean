import SdtTr369.ControllerChallenge
import SdtTr369.RunHistory

/-!
# The law of the challenges

Who may be given a role by an answer, and when a Challenge entry is locked, is said by a
law of its own, which counts the wrong answers for each entry and forgets them with the
entry, with a right answer and with the end of a lockout. The code follows the law as
long as it does not come to one of the places where it forgets less, or looks less.
-/

namespace ChallengeLaw

open UspTypes ControllerChallenge RunHistory List Option
open ControllerTable (maxControllers)

/-- An outstanding challenge of a controller. -/
structure Asked where
  challengeId : Str
  inst : Nat
  expiration : Int
  expireTime : Int
  deriving DecidableEq, Repr

/-- The wrong answers for each Challenge entry, the time until which it is locked, and
the outstanding challenge of each endpoint id. -/
structure Law where
  failures : Nat → Nat
  lockedUntil : Nat → Option Int
  asked : Str → Option Asked

def Law.start : Law := ⟨fun _ => 0, fun _ => none, fun _ => none⟩

def Asked.Expired (a : Asked) (now : Int) : Prop := 0 < a.expiration ∧ a.expireTime ≤ now

instance (a : Asked) (now : Int) : Decidable (a.Expired now) :=
  inferInstanceAs (Decidable (_ ∧ _))

/-- The entry is locked at the time `now`. -/
def Law.LockedOut (l : Law) (now : Int) (i : Nat) (lockout : Int) : Prop :=
  0 < lockout ∧ ∃ t ∈ l.lockedUntil i, now < t

instance (l : Law) (now : Int) (i : Nat) (lockout : Int) : Decidable (l.LockedOut now i lockout) :=
  inferInstanceAs (Decidable (_ ∧ _))

/-- The wrong answers that still count at the time `now`: a lockout that has passed ends
the count. -/
def Law.counted (l : Law) (now : Int) (i : Nat) : Nat :=
  if ∃ t ∈ l.lockedUntil i, t ≤ now then 0 else l.failures i

/-- One more wrong answer for the entry `i`. -/
def Law.wrong (l : Law) (now : Int) (expected : Expected) (i : Nat) : Law :=
  { l with
    failures := Function.update l.failures i (l.counted now i + 1)
    lockedUntil := Function.update l.lockedUntil i
      (if expected.retries ≤ l.counted now i + 1 ∧ 0 < expected.lockout then
        some (now + expected.lockout)
      else (l.lockedUntil i).filter (now < ·)) }

/-- The count of the entry `i` starts again. -/
def Law.forget (l : Law) (i : Nat) : Law :=
  { l with
    failures := Function.update l.failures i 0
    lockedUntil := Function.update l.lockedUntil i none }

def Law.setAsked (l : Law) (endpointId : Str) (a : Option Asked) : Law :=
  { l with asked := Function.update l.asked endpointId a }

section Commands

variable (L : Library)

/-- The answer of a controller that is to be checked: its challenge is outstanding, and the
entry is there and can be read. -/
def Law.attempt (l : Law) (A : Answers) (endpointId challengeId : Str) (s : State) :
    Option (Nat × ChallengeEntry × Expected) :=
  (l.asked endpointId).bind fun a =>
    if a.challengeId = challengeId ∧ ¬ a.Expired A.now then
      (s.entries a.inst).bind fun entry =>
        match readEntry L A entry with
        | .ok (.ok expected) => some (a.inst, entry, expected)
        | _ => none
    else none

/-- What an answer means that was given in the state `s`. -/
def Law.respond (l : Law) (A : Answers) (endpointId challengeId inputValue : Str) (s : State)
    (result : Except Err Unit) : Law :=
  match l.attempt L A endpointId challengeId s with
  | none => l
  | some (i, _, expected) =>
    if l.LockedOut A.now i expected.lockout then l
    else if base64StringToBinary L inputValue = some (some expected.binary) then
      if result.isOk then (l.forget i).setAsked endpointId none else l.forget i
    else l.wrong A.now expected i

/-- How the law goes on with a command and its reply. -/
def Law.observe (l : Law) (s : State) : Op → Reply → Law
  | .request A endpointId ref requestExpiration, .requested (.ok output) =>
    l.setAsked endpointId <| (L.refInstance ref).bind fun i =>
      (requestExpiration.getD (some defaultRequestExpiration)).map fun expiration =>
        ⟨output.challengeId, i, expiration, A.later + expiration⟩
  | .response A endpointId challengeId inputValue, .responded result =>
    l.respond L A endpointId challengeId inputValue s result
  | .addEntry i _, _ => if (s.entries i).isNone then l.forget i else l
  | .deleteEntry i, _ => { l with asked := fun e => (l.asked e).filter (·.inst ≠ i) }
  | _, _ => l

/-- The agent with the law beside it. -/
structure Watched where
  state : State
  law : Law

def Watched.step (op : Op) (w : Watched) : Option Watched :=
  match execute L op w.state with
  | .error _ => none
  | .ok (reply, s) => some ⟨s, w.law.observe L w.state op reply⟩

/-! ## The property -/

/-- The role of a controller may be changed. -/
def Authorised (w : Watched) (A : Answers) (endpointId challengeId inputValue : Str) : Prop :=
  ∃ a, w.law.asked endpointId = some a ∧ a.challengeId = challengeId ∧ ¬ a.Expired A.now ∧
    ∃ entry, w.state.entries a.inst = some entry ∧ entry.enable = true ∧
      ¬ w.law.LockedOut A.now a.inst entry.lockoutPeriod ∧
      ∃ binary, base64StringToBinary L entry.value = some (some binary) ∧
        base64StringToBinary L inputValue = some (some binary)

/-- What one response does is what the law says. -/
structure Lawful (w : Watched) (A : Answers) (endpointId challengeId inputValue : Str)
    (result : Except Err Unit) (s' : State) : Prop where
  role : s'.controllers ≠ w.state.controllers →
    Authorised L w A endpointId challengeId inputValue
  only : ∀ (j : Nat) (c c' : Controller), w.state.controllers[j]? = some c →
    s'.controllers[j]? = some c' → c'.assignedRole ≠ c.assignedRole →
      (w.state.findController endpointId).map (·.inst) = some c.inst
  locked : ∀ i entry expected,
    w.law.attempt L A endpointId challengeId w.state = some (i, entry, expected) →
      (result = .error .requestDenied ↔ w.law.LockedOut A.now i expected.lockout)

/-- The counters of the entries are those of the law. -/
def Counts (w : Watched) : Prop :=
  ∀ i entry counter, w.state.entries i = some entry → w.state.challengeTable[i]? = some counter →
    counter.retries.toNat = w.law.failures i ∧
      ∀ now, 0 ≤ now → (now < counter.lockedTime ↔ ∃ t ∈ w.law.lockedUntil i, now < t)

/-- Where the code does not come to a place at which it forgets or looks less than the law:
an instance number is given to a new entry only once its counter is zero and no challenge
refers to it; a response is not given at a negative time; a right answer is followed by
the new role, and this for an enabled entry, unless there is nothing to forget; and a wrong
answer is not given after the end of a lockout, nor for an entry with a lockout but
without Retries, nor when the counter is at its end. -/
def Meets (s : State) : Op → Prop
  | .addEntry i _ => s.entries i = none →
      (∀ counter ∈ s.challengeTable[i]?, counter = ⟨0, 0⟩) ∧
        ∀ c ∈ s.controllerChallenges, ∀ cc ∈ c, L.refInstance cc.challengeRef ≠ some i
  | .response A endpointId challengeId inputValue => 0 ≤ A.now ∧
      ∀ found ∈ opened L A endpointId challengeId s,
        ¬ s.Locked A.now found.2.2.2 found.2.1 →
        if base64StringToBinary L inputValue = some (some found.2.2.2.binary) then
          if Grants A endpointId s then found.2.2.1.enable = true
          else ∀ counter ∈ s.challengeTable[found.2.1]?, counter = ⟨0, 0⟩
        else ∀ counter ∈ s.challengeTable[found.2.1]?,
          (counter.lockedTime = 0 ∨ A.now < counter.lockedTime) ∧
            counter.retries.toNat + 1 < 4294967296 ∧
            (0 < found.2.2.2.lockout → 0 < found.2.2.2.retries)
  | _ => True

instance (s : State) : (op : Op) → Decidable (Meets L s op)
  | .addEntry i _ => inferInstanceAs (Decidable (s.entries i = none → _ ∧ _))
  | .response .. => inferInstanceAs (Decidable (_ ∧ _))
  | .request .. | .deleteEntry _ | .setEntry .. | .changeControllers _ => .isTrue trivial

end Commands

/-! ## The code beside the law -/

section Follows

variable (L : Library)

/-- The outstanding challenges that are kept in the array: those whose entry is there. -/
def outstanding (s : State) (endpointId : Str) : Option Asked :=
  (s.findChallenge endpointId).bind fun found =>
    (s.validateReference L found.2.challengeRef).map fun entry =>
      ⟨found.2.challengeId, entry.1, found.2.expiration, found.2.expireTime⟩

/-- No two challenges are for one endpoint id. -/
def Unshared (s : State) : Prop :=
  ∀ (k k' : Nat) (cc cc' : Challenge), s.controllerChallenges[k]? = some (some cc) →
    s.controllerChallenges[k']? = some (some cc') →
    cc.controllerEndpointId = cc'.controllerEndpointId → k = k'

/-- A counter as the law has it. -/
structure Agrees (l : Law) (i : Nat) (counter : Counter) : Prop where
  retries : counter.retries.toNat = l.failures i
  lockedTime : counter.lockedTime = (l.lockedUntil i).getD 0
  positive : ∀ t ∈ l.lockedUntil i, 0 < t

structure Follows (w : Watched) : Prop where
  asked : w.law.asked = outstanding L w.state
  counters : ∀ i entry counter, w.state.entries i = some entry →
    w.state.challengeTable[i]? = some counter → Agrees w.law i counter
  unshared : Unshared w.state

end Follows

section Steps

variable {L : Library} {w : Watched} {s s' : State} {l : Law} {A : Answers}
  {endpointId challengeId inputValue ref : Str} {k i : Nat} {cc : Challenge}
  {entry : ChallengeEntry} {expected : Expected} {counter : Counter} {now : Int}
  {c : Option Challenge}

theorem Agrees.lockedTime_iff (h : Agrees l i counter) (hnow : 0 ≤ now) :
    now < counter.lockedTime ↔ ∃ t ∈ l.lockedUntil i, now < t := by
  rw [h.lockedTime]
  cases l.lockedUntil i with
  | none => simpa using hnow
  | some t => simp

theorem agrees_forget : Agrees (l.forget i) i ⟨0, 0⟩ :=
  ⟨by simp [Law.forget], by simp [Law.forget], by simp [Law.forget]⟩

variable {j : Nat} {result : Except Err Unit}

theorem agrees_forget_other (h : Agrees l j counter) (hne : j ≠ i) :
    Agrees (l.forget i) j counter := by
  refine ⟨?_, ?_, ?_⟩ <;> simp only [Law.forget, Function.update_of_ne hne]
  · exact h.retries
  · exact h.lockedTime
  · exact h.positive

theorem agrees_setAsked {a : Option Asked} (h : Agrees l j counter) :
    Agrees (l.setAsked endpointId a) j counter := ⟨h.retries, h.lockedTime, h.positive⟩

theorem agrees_wrong_other (h : Agrees l j counter) (hne : j ≠ i) :
    Agrees (l.wrong now expected i) j counter := by
  refine ⟨?_, ?_, ?_⟩ <;> simp only [Law.wrong, Function.update_of_ne hne]
  · exact h.retries
  · exact h.lockedTime
  · exact h.positive

/-- A wrong answer is counted as the law counts it, unless a lockout has passed. -/
theorem agrees_wrong (h : Agrees l i counter) (hnow : 0 ≤ now)
    (hpassed : counter.lockedTime = 0 ∨ now < counter.lockedTime)
    (hend : counter.retries.toNat + 1 < 4294967296) :
    Agrees (l.wrong now expected i) i (counter.wrong now expected) := by
  have hretries : (counter.retries + 1).toNat = l.failures i + 1 := by
    rw [UInt32.toNat_add, ← h.retries]
    exact Nat.mod_eq_of_lt hend
  have hcounted : l.counted now i = l.failures i := by
    rw [Law.counted, if_neg]
    intro hpast
    obtain ⟨t, ht, hle⟩ := hpast
    have hpositive := h.positive t ht
    have htime := h.lockedTime
    rw [ht, getD_some] at htime
    omega
  have hkept : (l.lockedUntil i).filter (now < ·) = l.lockedUntil i := by
    cases hlocked : l.lockedUntil i with
    | none => rfl
    | some t =>
      have hpositive := h.positive t hlocked
      have htime := h.lockedTime
      rw [hlocked, getD_some] at htime
      have hlt : now < t := by omega
      simp [hlt]
  unfold Counter.wrong
  rw [hretries]
  by_cases hlocks : expected.retries ≤ l.failures i + 1 ∧ 0 < expected.lockout
  · rw [if_pos hlocks]
    refine ⟨?_, ?_, ?_⟩ <;> simp only [Law.wrong, Function.update_self, hcounted, hlocks]
    · exact hretries
    · simp
    · simp only [and_self, if_true, mem_def, Option.some.injEq, forall_eq']
      omega
  · rw [if_neg hlocks]
    refine ⟨?_, ?_, ?_⟩ <;>
      simp only [Law.wrong, Function.update_self, hcounted, if_neg hlocks, hkept]
    · exact hretries
    · exact h.lockedTime
    · exact h.positive

theorem findChallenge_iff (hunshared : Unshared s) : s.findChallenge endpointId = some (k, cc) ↔
    s.controllerChallenges[k]? = some (some cc) ∧ cc.controllerEndpointId = endpointId := by
  rw [findChallenge_eq_some]
  constructor
  · intro h
    exact ⟨h.1, h.2.1⟩
  · intro h
    refine ⟨h.1, h.2, ?_⟩
    intro j hj c hc hendpoint
    exact absurd (hunshared j k c cc hc h.1 (hendpoint.trans h.2.symm)) (Nat.ne_of_lt hj)

/-- What a challenge in the slot `k` leaves as it is. -/
structure Refilled (s : State) (k : Nat) (c : Option Challenge) (endpointId : Str) : Prop where
  fits : s.Fits endpointId k
  own : ∀ cc, c = some cc → cc.controllerEndpointId = endpointId

section

variable (h : Refilled s k c endpointId)
include h

theorem Refilled.slot (hunshared : Unshared s) (hcc : s.controllerChallenges[j]? = some (some cc))
    (hne : j ≠ k) : cc.controllerEndpointId ≠ endpointId := by
  intro hendpoint
  have hfind := (findChallenge_iff hunshared).mpr ⟨hcc, hendpoint⟩
  obtain ⟨cc', hown⟩ | ⟨hnone, -⟩ := h.fits
  · rw [hfind] at hown
    cases hown
    exact hne rfl
  · rw [hfind] at hnone
    cases hnone

theorem Refilled.unshared (hunshared : Unshared s) : Unshared (s.setChallenge k c) := by
  intro j j' cc cc' hj hj' hendpoint
  simp only [State.setChallenge, getElem?_set] at hj hj'
  split at hj
  · next hjk =>
    subst hjk
    split at hj'
    · next hjk' => exact hjk'
    · next hjk' =>
      split at hj
      · have hown := h.own cc (Option.some.inj hj)
        exact absurd (hendpoint.symm.trans hown) (h.slot hunshared hj' (Ne.symm hjk'))
      · cases hj
  · next hjk =>
    split at hj'
    · next hjk' =>
      subst hjk'
      split at hj'
      · have hown := h.own cc' (Option.some.inj hj')
        exact absurd (hendpoint.trans hown) (h.slot hunshared hj (Ne.symm hjk))
      · cases hj'
    · exact hunshared j j' cc cc' hj hj' hendpoint

theorem Refilled.lt : k < s.controllerChallenges.length := by
  obtain ⟨cc, hown⟩ | ⟨-, hfree⟩ := h.fits
  · exact (List.getElem?_eq_some_iff.mp (findChallenge_eq_some.mp hown).1).1
  · exact (List.getElem?_eq_some_iff.mp hfree).1

/-- The slot `k` holds nothing of another endpoint id. -/
theorem Refilled.held (hcc : s.controllerChallenges[k]? = some (some cc)) :
    cc.controllerEndpointId = endpointId := by
  obtain ⟨cc', hown⟩ | ⟨-, hfree⟩ := h.fits
  · obtain ⟨hget, hendpoint, -⟩ := findChallenge_eq_some.mp hown
    rw [hcc] at hget
    cases hget
    exact hendpoint
  · rw [hcc] at hfree
    cases hfree

/-- The endpoint id gets what is put in the slot, and the others keep what they have. -/
theorem Refilled.find (hunshared : Unshared s) (e : Str) :
    (s.setChallenge k c).findChallenge e =
      if e = endpointId then c.map fun cc => (k, cc) else s.findChallenge e := by
  apply Option.ext
  intro found
  obtain ⟨j, cc⟩ := found
  rw [findChallenge_iff (h.unshared hunshared)]
  simp only [State.setChallenge, getElem?_set, h.lt, if_true]
  by_cases hj : k = j
  · subst hj
    rw [if_pos rfl, Option.some.injEq]
    by_cases he : e = endpointId
    · subst he
      rw [if_pos rfl]
      constructor
      · intro hc
        rw [hc.1]
        rfl
      · intro hc
        obtain ⟨cc', hc, heq⟩ := map_eq_some_iff.mp hc
        cases heq
        exact ⟨hc, h.own cc hc⟩
    · rw [if_neg he, findChallenge_iff hunshared]
      constructor
      · intro hc
        exact absurd (hc.2.symm.trans (h.own cc hc.1)) he
      · intro hc
        exact absurd (hc.2.symm.trans (h.held hc.1)) he
  · rw [if_neg hj]
    by_cases he : e = endpointId
    · subst he
      rw [if_pos rfl]
      constructor
      · intro hc
        exact absurd hc.2 (h.slot hunshared hc.1 (Ne.symm hj))
      · intro hc
        obtain ⟨cc', -, heq⟩ := map_eq_some_iff.mp hc
        cases heq
        exact absurd rfl hj
    · rw [if_neg he, findChallenge_iff hunshared]

end

theorem Refilled.outstanding (h : Refilled s k c endpointId) (hunshared : Unshared s) :
    outstanding L (s.setChallenge k c) = Function.update (outstanding L s) endpointId
      (c.bind fun cc => (s.validateReference L cc.challengeRef).map fun entry =>
        ⟨cc.challengeId, entry.1, cc.expiration, cc.expireTime⟩) := by
  funext e
  unfold ChallengeLaw.outstanding
  rw [h.find hunshared]
  by_cases he : e = endpointId
  · subst he
    rw [if_pos rfl, Function.update_self]
    cases c <;> rfl
  · rw [if_neg he, Function.update_of_ne he]
    rfl

theorem validateReference_eq_some : s.validateReference L ref = some (i, entry) ↔
    L.refInstance ref = some i ∧ s.entries i = some entry := by
  unfold State.validateReference
  cases L.refInstance ref with
  | none => simp
  | some j =>
    simp only [bind_some, map_eq_some_iff, Prod.mk.injEq, Option.some.injEq]
    constructor
    · intro h
      obtain ⟨entry', hentry, rfl, rfl⟩ := h
      exact ⟨rfl, hentry⟩
    · intro h
      obtain ⟨rfl, hentry⟩ := h
      exact ⟨entry, hentry, rfl, rfl⟩

/-- What a response that is checked has opened. -/
theorem opened_spec (h : opened L A endpointId challengeId s = some (k, i, entry, expected)) :
    ∃ cc, s.findChallenge endpointId = some (k, cc) ∧ cc.challengeId = challengeId ∧
      ¬ (0 < cc.expiration ∧ cc.expireTime ≤ A.now) ∧
      s.validateReference L cc.challengeRef = some (i, entry) ∧
      readEntry L A entry = .ok (.ok expected) := by
  unfold opened at h
  split at h
  · cases h
  · next k' cc hopen =>
    unfold openChallenge at hopen
    split at hopen
    · cases hopen
    · next hfind =>
      split at hopen
      · cases hopen
      · next hid =>
        split at hopen
        · cases hopen
        · next hexpired =>
          cases hopen
          split at h
          · cases h
          · next href =>
            split at h
            · next hread =>
              cases h
              exact ⟨cc, hfind, not_not.mp hid, hexpired, href, hread⟩
            · cases h

theorem readEntry_ok (h : readEntry L A entry = .ok (.ok expected)) :
    base64StringToBinary L entry.value = some (some expected.binary) ∧
      expected.lockout = entry.lockoutPeriod := by
  unfold readEntry at h
  repeat' split at h
  all_goals cases h
  exact ⟨by assumption, rfl⟩

/-- The law and the code see the same answers to be checked. -/
theorem Follows.attempt (h : Follows L w) (A : Answers) (endpointId challengeId : Str) :
    w.law.attempt L A endpointId challengeId w.state =
      (opened L A endpointId challengeId w.state).map fun found => found.2 := by
  unfold Law.attempt opened openChallenge
  rw [h.asked, outstanding]
  cases hfind : w.state.findChallenge endpointId with
  | none => rfl
  | some found =>
    obtain ⟨k, cc⟩ := found
    simp only [bind_some]
    by_cases hid : cc.challengeId = challengeId
    · by_cases hexpired : 0 < cc.expiration ∧ cc.expireTime ≤ A.now
      · cases w.state.validateReference L cc.challengeRef <;> simp [hid, hexpired, Asked.Expired]
      · simp only [hid, hexpired, ne_eq, not_true, if_false]
        cases href : w.state.validateReference L cc.challengeRef with
        | none => rfl
        | some found =>
          obtain ⟨i, entry⟩ := found
          have hentry : w.state.entries i = some entry := (validateReference_eq_some.mp href).2
          simp only [map_some, bind_some, Asked.Expired, hexpired,
            not_false_eq_true, and_self, if_true, hentry]
          cases readEntry L A entry with
          | error stop => rfl
          | ok read => cases read <;> rfl
    · cases w.state.validateReference L cc.challengeRef <;> simp [hid]

/-- An answer that is checked and does not stop the agent has a counter if the entry has a
lockout. -/
theorem judgeResponse_counter {result : Except Err Unit × State}
    (h : judgeResponse L A endpointId inputValue expected k i entry s = .ok result)
    (hlockout : 0 < expected.lockout) : ∃ counter, s.challengeTable[i]? = some counter := by
  unfold judgeResponse lockedOut at h
  rw [if_pos hlockout] at h
  cases hcounter : s.challengeTable[i]? with
  | none =>
    rw [hcounter] at h
    cases h
  | some counter => exact ⟨counter, rfl⟩

theorem Follows.locked (h : Follows L w) (hnow : 0 ≤ now) (hentry : w.state.entries i = some entry)
    (hcounter : 0 < expected.lockout → ∃ counter, w.state.challengeTable[i]? = some counter) :
    w.state.Locked now expected i ↔ w.law.LockedOut now i expected.lockout := by
  apply and_congr_right
  intro hlockout
  obtain ⟨counter, hget⟩ := hcounter hlockout
  rw [hget, ← (h.counters i entry counter hentry hget).lockedTime_iff hnow]
  simp

/-- The law follows a response that is checked. -/
theorem respond_attempt (h : l.attempt L A endpointId challengeId s = some (i, entry, expected)) :
    l.respond L A endpointId challengeId inputValue s result =
      if l.LockedOut A.now i expected.lockout then l
      else if base64StringToBinary L inputValue = some (some expected.binary) then
        if result.isOk then (l.forget i).setAsked endpointId none else l.forget i
      else l.wrong A.now expected i := by
  unfold Law.respond
  rw [h]

theorem outstanding_congr (hentries : s'.entries = s.entries)
    (hchallenges : s'.controllerChallenges = s.controllerChallenges) :
    outstanding L s' = outstanding L s := by
  funext e
  unfold outstanding State.findChallenge State.validateReference
  rw [hentries, hchallenges]

/-- Only the counter `i` is another one. -/
theorem Follows.setCounter (h : Follows L w) {l' : Law} (hasked : l'.asked = w.law.asked)
    (hi : Agrees l' i counter)
    (hother : ∀ j c, j ≠ i → Agrees w.law j c → Agrees l' j c) :
    Follows L ⟨w.state.setCounter i counter, l'⟩ := by
  refine ⟨?_, ?_, h.unshared⟩
  · rw [hasked, h.asked]
    exact (outstanding_congr rfl rfl).symm
  · intro j entry c hentry hc
    simp only [State.setCounter, getElem?_set] at hc
    split at hc
    · next hj =>
      subst hj
      split at hc
      · cases hc
        exact hi
      · cases hc
    · next hj => exact hother j c (Ne.symm hj) (h.counters j entry c hentry hc)

/-- Nothing in the slot `k` any more. -/
theorem destroyed (h : s.findChallenge endpointId = some (k, cc)) :
    Refilled s k none endpointId := ⟨.inl ⟨cc, h⟩, nofun⟩

theorem Follows.refill (h : Follows L w) (hrefilled : Refilled w.state k c endpointId) :
    Follows L ⟨w.state.setChallenge k c, w.law.setAsked endpointId (c.bind fun cc =>
      (w.state.validateReference L cc.challengeRef).map fun entry =>
        ⟨cc.challengeId, entry.1, cc.expiration, cc.expireTime⟩)⟩ := by
  refine ⟨?_, ?_, hrefilled.unshared h.unshared⟩
  · rw [hrefilled.outstanding h.unshared, ← h.asked]
    rfl
  · intro i entry counter hentry hcounter
    exact agrees_setAsked (h.counters i entry counter hentry hcounter)

theorem Follows.destroy (h : Follows L w)
    (hfind : w.state.findChallenge endpointId = some (k, cc)) :
    Follows L ⟨w.state.destroyChallenge k, w.law.setAsked endpointId none⟩ :=
  h.refill (destroyed hfind)

theorem Follows.assignRole (h : Follows L w) (inst : Nat) (role : Str) :
    Follows L ⟨w.state.assignRole inst role, w.law⟩ :=
  ⟨h.asked, h.counters, h.unshared⟩

/-- The role of another controller stays. -/
theorem assignRole_only {inst : Nat} {role : Str} {c c' : Controller}
    (hc : s.controllers[j]? = some c) (hc' : (s.assignRole inst role).controllers[j]? = some c')
    (hrole : c'.assignedRole ≠ c.assignedRole) : inst = c.inst := by
  simp only [State.assignRole, getElem?_map, hc, map_some, Option.some.injEq] at hc'
  by_contra hne
  rw [if_neg (Ne.symm hne)] at hc'
  exact hrole (hc' ▸ rfl)

/-- No role is changed where the controllers stay. -/
theorem same_only (hsame : s'.controllers = s.controllers) :
    ∀ (j : Nat) (c c' : Controller), s.controllers[j]? = some c → s'.controllers[j]? = some c' →
      c'.assignedRole ≠ c.assignedRole →
      (s.findController endpointId).map (·.inst) = some c.inst := by
  intro j c c' hc hc' hrole
  rw [hsame, hc] at hc'
  cases hc'
  exact absurd rfl hrole

theorem response_lawful (h : Follows L w)
    (hmeets : Meets L w.state (.response A endpointId challengeId inputValue))
    (hresult : challengeResponse L A endpointId challengeId inputValue w.state = .ok (result, s')) :
    Lawful L w A endpointId challengeId inputValue result s' := by
  obtain ⟨hnow, hmeets⟩ := hmeets
  have hattempt := h.attempt A endpointId challengeId
  cases hopened : opened L A endpointId challengeId w.state with
  | none =>
    rw [hopened, map_none] at hattempt
    constructor
    · intro hchanged
      obtain ⟨-, rfl | ⟨k, cc, -, -, rfl⟩⟩ := challengeResponse_unopened hopened hresult
      · exact absurd rfl hchanged
      · exact absurd rfl hchanged
    · obtain ⟨-, rfl | ⟨k, cc, -, -, rfl⟩⟩ := challengeResponse_unopened hopened hresult
      · exact same_only rfl
      · exact same_only rfl
    · intro i entry expected hsome
      rw [hattempt] at hsome
      cases hsome
  | some found =>
    obtain ⟨k, i, entry, expected⟩ := found
    rw [hopened, map_some] at hattempt
    obtain ⟨cc, hfind, hid, hexpired, href, hread⟩ := opened_spec hopened
    have hentry := (validateReference_eq_some.mp href).2
    obtain ⟨hvalue, hlockout⟩ := readEntry_ok hread
    rw [challengeResponse_opened hopened] at hresult
    have hlocked := h.locked hnow hentry (judgeResponse_counter hresult)
    have hjudged := judgeResponse_judged hresult
    constructor
    · intro hchanged
      cases hjudged with
      | locked | wrong | refused => exact absurd rfl hchanged
      | granted hfree hright hgrants hcontroller hlt =>
        have henabled := hmeets _ hopened hfree
        rw [if_pos hright, if_pos hgrants] at henabled
        refine ⟨⟨cc.challengeId, i, cc.expiration, cc.expireTime⟩, ?_, hid, hexpired, entry, hentry,
          henabled, ?_, expected.binary, hvalue, hright⟩
        · rw [h.asked, outstanding, hfind, bind_some, href]
          rfl
        · rw [← hlockout]
          exact hlocked.not.mp hfree
    · cases hjudged with
      | locked | wrong | refused => exact same_only rfl
      | granted hfree hright hgrants hcontroller hlt =>
        intro j c c' hc hc' hrole
        rw [hcontroller, map_some, assignRole_only hc hc' hrole]
    · intro i' entry' expected' hsome
      rw [hattempt] at hsome
      cases hsome
      rw [← hlocked]
      cases hjudged with
      | locked hlocked => exact iff_of_true rfl hlocked
      | wrong hfree | refused hfree | granted hfree => exact iff_of_false nofun hfree

theorem response_follows (h : Follows L w)
    (hmeets : Meets L w.state (.response A endpointId challengeId inputValue))
    (hresult : challengeResponse L A endpointId challengeId inputValue w.state = .ok (result, s')) :
    Follows L ⟨s', w.law.respond L A endpointId challengeId inputValue w.state result⟩ := by
  obtain ⟨hnow, hmeets⟩ := hmeets
  have hattempt := h.attempt A endpointId challengeId
  cases hopened : opened L A endpointId challengeId w.state with
  | none =>
    rw [hopened, map_none] at hattempt
    have hlaw : w.law.respond L A endpointId challengeId inputValue w.state result = w.law := by
      unfold Law.respond
      rw [hattempt]
    rw [hlaw]
    obtain ⟨-, rfl | ⟨k, cc, hfind, href, rfl⟩⟩ := challengeResponse_unopened hopened hresult
    · exact h
    · -- the challenge that is dropped was not outstanding any more
      have hnone : w.law.setAsked endpointId none = w.law := by
        have hasked : w.law.asked endpointId = none := by
          rw [h.asked, outstanding, hfind, bind_some, href]
          rfl
        rw [Law.setAsked, ← hasked, Function.update_eq_self]
      rw [← hnone]
      exact h.destroy hfind
  | some found =>
    obtain ⟨k, i, entry, expected⟩ := found
    rw [hopened, map_some] at hattempt
    obtain ⟨cc, hfind, hid, hexpired, href, hread⟩ := opened_spec hopened
    have hentry := (validateReference_eq_some.mp href).2
    rw [challengeResponse_opened hopened] at hresult
    have hlocked := h.locked hnow hentry (judgeResponse_counter hresult)
    rw [respond_attempt hattempt]
    cases judgeResponse_judged hresult with
    | locked hlock =>
      rw [if_pos (hlocked.mp hlock)]
      exact h
    | wrong hfree hresponse hwrong hcounter =>
      have hright : base64StringToBinary L inputValue ≠ some (some expected.binary) := by
        rw [hresponse]
        simpa using hwrong
      have hcount := hmeets _ hopened hfree
      rw [if_neg hright] at hcount
      obtain ⟨hpassed, hend, -⟩ := hcount _ hcounter
      rw [if_neg (hlocked.not.mp hfree), if_neg hright]
      exact h.setCounter rfl
        (agrees_wrong (h.counters i entry _ hentry hcounter) hnow hpassed hend)
        fun j c hj hc => agrees_wrong_other hc hj
    | refused hfree hright hgrants =>
      have hzero := hmeets _ hopened hfree
      rw [if_pos hright, if_neg hgrants] at hzero
      rw [if_neg (hlocked.not.mp hfree), if_pos hright, if_neg (by simp [Except.isOk, Except.toBool])]
      refine ⟨h.asked, ?_, h.unshared⟩
      intro j entry' c hentry' hc
      by_cases hj : j = i
      · subst hj
        rw [hzero c hc]
        exact agrees_forget
      · exact agrees_forget_other (h.counters j entry' c hentry' hc) hj
    | @granted controller hfree hright hgrants hcontroller hlt =>
      rw [if_neg (hlocked.not.mp hfree), if_pos hright]
      have hrole := h.assignRole controller.inst entry.role
      have hdestroyed := hrole.destroy hfind
      have hforget : (w.law.forget i).setAsked endpointId none =
          (w.law.setAsked endpointId none).forget i := rfl
      rw [hforget]
      exact hdestroyed.setCounter rfl agrees_forget fun j c hj hc => agrees_forget_other hc hj

theorem requestedEntry_ok (h : requestedEntry L A ref s = .ok entry) :
    ∃ i, L.refInstance ref = some i ∧ s.validateReference L ref = some (i, entry) := by
  unfold requestedEntry at h
  split at h
  · cases h
  · split at h
    · cases h
    · next i entry' href =>
      have hentry : entry' = entry := by
        repeat' split at h
        all_goals cases h
        rfl
      subst hentry
      exact ⟨i, (validateReference_eq_some.mp href).1, href⟩

theorem request_follows {requestExpiration : Option (Option Int)}
    {result : Except Err ChallengeOutput} (h : Follows L w)
    (hresult : requestChallenge L A endpointId ref requestExpiration w.state = .ok (result, s')) :
    Follows L ⟨s', w.law.observe L w.state (.request A endpointId ref requestExpiration)
      (.requested result)⟩ := by
  obtain ⟨err, rfl, rfl⟩ | ⟨output, rfl, hrequested⟩ := requestChallenge_requested hresult
  · exact h
  · obtain ⟨k, expiration, count, hfits, hexpiration, rfl⟩ := hrequested.filled
    obtain ⟨entry, hentry, -⟩ := hrequested.entry
    obtain ⟨i, hinst, href⟩ := requestedEntry_ok hentry
    have hrefilled : Refilled w.state k (some ⟨endpointId, output.challengeId, expiration,
        A.later + expiration, ref⟩) endpointId :=
      ⟨hfits, fun cc hcc => by cases hcc; rfl⟩
    have hfollows := h.refill hrefilled
    simp only [bind_some, href, map_some] at hfollows
    rw [Law.observe, hinst, bind_some, hexpiration, map_some]
    exact ⟨hfollows.asked, hfollows.counters, hfollows.unshared⟩

theorem setEntry_validate (j : Nat) (e : Option ChallengeEntry) (ref : Str) :
    (s.setEntry j e).validateReference L ref =
      if L.refInstance ref = some j then e.map fun entry => (j, entry)
      else s.validateReference L ref := by
  unfold State.validateReference State.setEntry
  cases hinst : L.refInstance ref with
  | none => simp
  | some i =>
    by_cases hij : i = j
    · simp [hij]
    · simp [hij]

theorem outstanding_setEntry (j : Nat) (e : Option ChallengeEntry) (endpointId : Str) :
    outstanding L (s.setEntry j e) endpointId =
      (s.findChallenge endpointId).bind fun found =>
        ((if L.refInstance found.2.challengeRef = some j then e.map fun entry => (j, entry)
          else s.validateReference L found.2.challengeRef)).map fun entry =>
            ⟨found.2.challengeId, entry.1, found.2.expiration, found.2.expireTime⟩ := by
  unfold outstanding
  simp only [setEntry_validate]
  rfl

theorem addEntry_follows (h : Follows L w) (hmeets : Meets L w.state (.addEntry i entry))
    (hnone : w.state.entries i = none) :
    Follows L ⟨w.state.setEntry i (some entry), w.law.forget i⟩ := by
  obtain ⟨hzero, hrefs⟩ := hmeets hnone
  refine ⟨?_, ?_, h.unshared⟩
  · change w.law.asked = outstanding L (w.state.setEntry i (some entry))
    rw [h.asked]
    funext e
    rw [outstanding_setEntry, outstanding]
    cases hfound : w.state.findChallenge e with
    | none => rfl
    | some found =>
      have hmem := mem_of_getElem? (findChallenge_eq_some.mp hfound).1
      rw [bind_some, bind_some, if_neg (hrefs _ hmem _ rfl)]
  · intro j entry' counter hentry' hcounter
    by_cases hj : j = i
    · subst hj
      rw [hzero counter hcounter]
      exact agrees_forget
    · have hold : w.state.entries j = some entry' := by
        simpa [State.setEntry, hj] using hentry'
      exact agrees_forget_other (h.counters j entry' counter hold hcounter) hj

theorem deleteEntry_follows (h : Follows L w) (i : Nat) :
    Follows L ⟨w.state.setEntry i none,
      { w.law with asked := fun e => (w.law.asked e).filter (·.inst ≠ i) }⟩ := by
  refine ⟨?_, ?_, h.unshared⟩
  · change (fun e => (w.law.asked e).filter (·.inst ≠ i)) =
      outstanding L (w.state.setEntry i none)
    rw [h.asked]
    funext e
    rw [outstanding_setEntry, outstanding]
    cases w.state.findChallenge e with
    | none => rfl
    | some found =>
      rw [bind_some, bind_some]
      cases href : w.state.validateReference L found.2.challengeRef with
      | none => split <;> rfl
      | some named =>
        obtain ⟨hinst, -⟩ := validateReference_eq_some.mp href
        rw [hinst]
        by_cases hi : named.1 = i
        · simp [hi]
        · simp [hi]
  · intro j entry counter hentry hcounter
    have hold : w.state.entries j = some entry := by
      by_cases hj : j = i
      · simp [State.setEntry, hj] at hentry
      · simpa [State.setEntry, hj] using hentry
    have hagrees := h.counters j entry counter hold hcounter
    exact ⟨hagrees.retries, hagrees.lockedTime, hagrees.positive⟩

theorem setEntry_follows (h : Follows L w) (hsome : (w.state.entries i).isSome) :
    Follows L ⟨w.state.setEntry i (some entry), w.law⟩ := by
  obtain ⟨old, hold⟩ := isSome_iff_exists.mp hsome
  refine ⟨?_, ?_, h.unshared⟩
  · change w.law.asked = outstanding L (w.state.setEntry i (some entry))
    rw [h.asked]
    funext e
    rw [outstanding_setEntry, outstanding]
    congr 1
    funext found
    split
    · next hinst =>
      rw [validateReference_eq_some.mpr ⟨hinst, hold⟩]
      rfl
    · rfl
  · intro j entry' counter hentry' hcounter
    by_cases hj : j = i
    · subst hj
      exact h.counters j old counter hold hcounter
    · have hother : w.state.entries j = some entry' := by
        simpa [State.setEntry, hj] using hentry'
      exact h.counters j entry' counter hother hcounter

theorem Watched.step_eq_some {op : Op} {w' : Watched} : w.step L op = some w' ↔
    ∃ reply, execute L op w.state = .ok (reply, w'.state) ∧
      w'.law = w.law.observe L w.state op reply := by
  unfold Watched.step
  cases execute L op w.state with
  | error stop => simp
  | ok result =>
    obtain ⟨reply, s⟩ := result
    cases w'
    simp [Watched.mk.injEq, eq_comm]

theorem step_follows {op : Op} {w' : Watched} (h : Follows L w) (hmeets : Meets L w.state op)
    (hstep : w.step L op = some w') : Follows L w' := by
  obtain ⟨reply, hexecute, hlaw⟩ := Watched.step_eq_some.mp hstep
  obtain ⟨s', l'⟩ := w'
  subst hlaw
  cases op with
  | request =>
    obtain ⟨result, rfl, hresult⟩ := execute_request hexecute
    exact request_follows h hresult
  | response =>
    obtain ⟨result, rfl, hresult⟩ := execute_response hexecute
    exact response_follows h hmeets hresult
  | addEntry i entry =>
    simp only [execute, Except.ok.injEq, Prod.mk.injEq] at hexecute
    obtain ⟨rfl, rfl⟩ := hexecute
    rw [Law.observe]
    cases hentry : w.state.entries i with
    | none =>
      simp only [isNone_none, if_true]
      exact addEntry_follows h hmeets hentry
    | some old =>
      simp only [isNone_some, Bool.false_eq_true, if_false]
      exact h
  | deleteEntry i =>
    cases hexecute
    exact deleteEntry_follows h i
  | setEntry i entry =>
    simp only [execute, Except.ok.injEq, Prod.mk.injEq] at hexecute
    obtain ⟨rfl, rfl⟩ := hexecute
    change Follows L ⟨_, w.law⟩
    split
    · next hsome => exact setEntry_follows h hsome
    · exact h
  | changeControllers controllers =>
    cases hexecute
    exact ⟨h.asked, h.counters, h.unshared⟩

theorem start_follows (rows : List (Nat × ChallengeEntry)) (controllers : List Controller) :
    Follows L ⟨start rows controllers, Law.start⟩ := by
  have hempty : ∀ (k : Nat) (cc : Challenge),
      (start rows controllers).controllerChallenges[k]? ≠ some (some cc) := by
    intro k cc hcc
    have hmem := mem_of_getElem? hcc
    simp [start] at hmem
  refine ⟨?_, ?_, ?_⟩
  · funext e
    have hnone : (start rows controllers).findChallenge e = none := by
      cases hfind : (start rows controllers).findChallenge e with
      | none => rfl
      | some found => exact absurd (findChallenge_eq_some.mp hfind).1 (hempty _ _)
    rw [outstanding, hnone]
    rfl
  · intro i entry counter _ hcounter
    have hmem := mem_of_getElem? hcounter
    cases eq_of_mem_replicate hmem
    exact ⟨rfl, rfl, nofun⟩
  · intro k k' cc cc' hcc
    exact absurd hcc (hempty k cc)

theorem Follows.counts (h : Follows L w) : Counts w := by
  intro i entry counter hentry hcounter
  have hagrees := h.counters i entry counter hentry hcounter
  exact ⟨hagrees.retries, fun now hnow => hagrees.lockedTime_iff hnow⟩

end Steps

/-- In a run that does not come to such a place the counters are those of the law, and so
is what becomes of any further response that does not come to one. -/
theorem lawful_run (L : Library) (rows : List (Nat × ChallengeEntry))
    (controllers : List Controller) (ops : List Op) (w : Watched)
    (hmeets : RunMeets (Watched.step L) (fun w op => Meets L w.state op) ops
      ⟨start rows controllers, Law.start⟩)
    (hrun : run (Watched.step L) ops ⟨start rows controllers, Law.start⟩ = some w) :
    Counts w ∧ ∀ A endpointId challengeId inputValue result s',
      Meets L w.state (.response A endpointId challengeId inputValue) →
      challengeResponse L A endpointId challengeId inputValue w.state = .ok (result, s') →
      Lawful L w A endpointId challengeId inputValue result s' := by
  have hfollows : Follows L w :=
    run_keeps (fun _ _ _ h hmeets hstep => step_follows h hmeets hstep)
      (start_follows rows controllers) hmeets hrun
  refine ⟨hfollows.counts, ?_⟩
  intro A endpointId challengeId inputValue result s' hnext hresult
  exact response_lawful hfollows hnext hresult

/-- The path of the first Challenge entry. -/
def firstChallenge : Str := "Device.LocalAgent.ControllerTrust.Challenge.1".toList

/-- Its row is named by its path, and the text of three zero bytes decoded. -/
def firstLibrary : Library where
  refInstance ref := if ref = firstChallenge then some 1 else none
  decodeBlock str := if str = ['A', 'A', 'A', 'A'] then some [0, 0, 0] else some []

/-- The right answer to it is the empty text. -/
def firstEntry : ChallengeEntry where
  role := ['r']
  enable := true
  value := []
  valueType := []
  instruction := []
  instructionType := []
  retries := some 2
  lockoutPeriod := 30

def firstWatched : Watched :=
  ⟨start [(1, firstEntry)] [⟨1, true, ['c'], []⟩], Law.start⟩

/-- A wrong answer. -/
def answeredRun : List Op :=
  [.request { now := 10 } ['c'] firstChallenge none,
    .response { now := 11 } ['c'] (generateChallengeId [] 1) ['A', 'A', 'A', 'A']]

/-- Behind it the right answer is lawful. -/
theorem lawful_run_answered : ∃ w s',
    run (Watched.step firstLibrary) answeredRun firstWatched = some w ∧ Counts w ∧
    challengeResponse firstLibrary { now := 12 } ['c'] (generateChallengeId [] 1) [] w.state =
      .ok (.ok (), s') ∧
    Lawful firstLibrary w { now := 12 } ['c'] (generateChallengeId [] 1) [] (.ok ()) s' := by
  obtain ⟨hcounts, hlawful⟩ := lawful_run firstLibrary [(1, firstEntry)] [⟨1, true, ['c'], []⟩]
    answeredRun _ (by decide) rfl
  exact ⟨_, _, rfl, hcounts, rfl, hlawful { now := 12 } ['c'] _ [] _ _ (by decide) rfl⟩

/-- The entry is disabled while its challenge is outstanding, which does not keep the
answer from giving its role. -/
theorem disabled_entry_answered : ∃ w result s',
    run (Watched.step firstLibrary) [.request { now := 10 } ['c'] firstChallenge none,
      .setEntry 1 { firstEntry with enable := false }] firstWatched = some w ∧
    challengeResponse firstLibrary { now := 11 } ['c'] (generateChallengeId [] 1) [] w.state =
      .ok (result, s') ∧
    ¬ Lawful firstLibrary w { now := 11 } ['c'] (generateChallengeId [] 1) [] result s' := by
  refine ⟨_, _, _, rfl, rfl, ?_⟩
  intro h
  obtain ⟨a, hasked, -, -, entry, hentry, henabled, -⟩ := h.role (by decide)
  cases hasked
  cases hentry
  cases henabled

end ChallengeLaw
