import SdtTr369.MqttMoves

/-!
# The USP disconnect record over MQTT

Once a USP disconnect record has been handed over, its connection is to end with the
callback that tells that it was published. The message id of the record is forgotten
as soon as another record is sent.
-/

namespace MqttDisconnect

open UspTypes UspRecord MqttClient MqttCallbacks MqttThread MqttMoves RunHistory List

/-- A send step of the MTP thread, a publish-complete callback, or a record queued by
the data model thread. -/
inductive SendOp where
  | send (A : Answers)
  | complete (A : Answers) (mid : Int)
  | queue (contentType : MtpContentType) (pbuf : Bytes) (topic : Option Str)

def SendOp.slotOp : SendOp → SlotOp
  | .send A => .updateSockSet A
  | .complete A mid => .callback A (.publish mid)
  | .queue contentType pbuf topic => .queueBinaryMessage contentType pbuf topic

def sendOp (op : SendOp) (c : Client) : Option Client := op.slotOp.apply c

/-- How far the current connection is: no disconnect record has been handed over, or
one has been with a message id and has not or has been published. -/
inductive Phase where
  | before
  | waiting (mid : Int)
  | ended (mid : Int)
  deriving DecidableEq

def Phase.after : Phase → Event → Phase
  | _, .newContext _ _ => .before
  | .before, .publish item mid =>
    if item.contentType = .disconnectRecord then .waiting mid else .before
  | .waiting mid, .publishComplete mid' => if mid' = mid then .ended mid else .waiting mid
  | p, _ => p

def phase (log : List Event) : Phase := log.foldl Phase.after .before

/-- The message id of the disconnect record. -/
def Phase.mid : Phase → Option Int
  | .before => none
  | .waiting mid | .ended mid => some mid

@[simp] theorem phase_append (log es : List Event) :
    phase (log ++ es) = es.foldl Phase.after (phase log) := foldl_append ..

/-- The send step hands a record over to `mosquitto_publish`. -/
def handsOver (A : Answers) (c : Client) : Bool :=
  c.state = .running && c.queue.head?.any fun item => (publish A item c).join.isSome

/-- After the disconnect record nothing is handed over, and its callback takes the
client out of `running`. -/
def DisconnectEnds (c : Client) (op : SendOp) : Prop :=
  phase c.log ≠ .before →
    match op with
    | .send A => handsOver A c = false
    | .complete A mid => (phase c.log).mid = some mid →
      (publishCallback A mid c).state ≠ .running
    | .queue .. => True

/-- Until the disconnect record is published, a send step finds the queue empty, or
libmosquitto does not take the record at its head. -/
def NothingFollows (c : Client) (op : SendOp) : Prop :=
  ∀ mid A, phase c.log = .waiting mid → op = .send A →
    ∀ item ∈ c.queue.head?, (publish A item c).join = none

/-- The slot remembers the disconnect record until it is published. -/
structure Remembers (c : Client) : Prop where
  waiting : ∀ mid, phase c.log = .waiting mid → c.state = .running ∧ c.disconnectMid = mid
  ended : ∀ mid, phase c.log = .ended mid → c.state ≠ .running

/-! ## States and phases -/

variable {c c' : Client} {mid : Int} {A : Answers}

theorem enableMqttClient_state (A : Answers) (h : c.state ≠ .running) :
    (enableMqttClient A c).2.state ≠ .running := by
  unfold enableMqttClient enableMosquitto
  cases A.mosquittoNew && A.intOption
  · exact h
  · simp

theorem handleMqttError_state (A : Answers) (failure : MqttFailure) (c : Client) :
    (handleMqttError A failure c).state ≠ .running := by
  unfold handleMqttError handleMqttReconnectAfterDisconnect
  split
  · split
    · apply enableMqttClient_state
      simp [takeNextParams, cleanMqttClient]
    · simp [cleanMqttClient]
  · simp [enterRetry, startRetry]

theorem retryStep_state (A : Answers) (h : c.state ≠ .running) :
    (retryStep A c).state ≠ .running := by
  have hnext : (retryAtOnce A c).state ≠ .running := by
    unfold retryAtOnce
    split
    · exact h
    · exact h
  unfold retryStep retryWhenDue
  split
  · exact handleMqttError_state A _ _
  split
  · exact enableMqttClient_state A hnext
  · exact hnext

theorem waiting_of_after {p : Phase} {e : Event} (he : ¬ IsPublish e)
    (h : p.after e = .waiting mid) : p = .waiting mid := by
  cases e
  case publish => exact absurd trivial he
  case newContext => cases h
  case publishComplete mid' =>
    cases p with
    | waiting mid₀ =>
      simp only [Phase.after] at h
      split at h
      · cases h
      · exact h
    | before | ended => exact h
  all_goals cases p <;> exact h

theorem waiting_of_foldl {es : List Event} (hes : ∀ e ∈ es, ¬ IsPublish e) {p : Phase}
    (h : es.foldl Phase.after p = .waiting mid) : p = .waiting mid := by
  induction es generalizing p with
  | nil => exact h
  | cons e es ih =>
    rw [foldl_cons] at h
    exact waiting_of_after (hes e (by simp)) (ih (fun e' he' => hes e' (mem_cons_of_mem _ he')) h)

theorem waiting_of_moves (h : Moves c c') (hwaiting : phase c'.log = .waiting mid) :
    phase c.log = .waiting mid := by
  obtain ⟨es, hlog, hes⟩ := moves_log h
  rw [hlog, phase_append] at hwaiting
  exact waiting_of_foldl hes hwaiting

/-! ## One step -/

theorem handsOver_iff :
    handsOver A c = true ↔ c.state = .running ∧
      ∃ item rest mid, c.queue = item :: rest ∧ publish A item c = some (some mid) := by
  unfold handsOver
  cases hqueue : c.queue with
  | nil => simp
  | cons item rest =>
    cases hpublish : publish A item c with
    | none => simp [hpublish]
    | some sent => cases sent <;> simp [hpublish]

theorem handsOver_eq_false (hrunning : c.state = .running) :
    handsOver A c = false ↔ ∀ item ∈ c.queue.head?, (publish A item c).join = none := by
  unfold handsOver
  cases c.queue.head? <;> simp [hrunning]

theorem publishCallback_complete (h : mid = c.disconnectMid) :
    (publishCallback A mid c).state ≠ .running := by
  have hmid : mid = (c.emit (.publishComplete mid)).disconnectMid := h
  dsimp only [publishCallback]
  rw [if_pos hmid]
  exact handleMqttError_state A _ _

/-- While the slot remembers the disconnect record, both conditions ask the same. -/
theorem disconnectEnds_iff {op : SendOp} (h : Remembers c) :
    DisconnectEnds c op ↔ NothingFollows c op := by
  cases hphase : phase c.log with
  | before => simp [DisconnectEnds, NothingFollows, hphase]
  | waiting mid =>
    cases op with
    | send A =>
      simp [DisconnectEnds, NothingFollows, hphase, handsOver_eq_false (h.waiting mid hphase).1]
    | complete A mid' =>
      simp only [DisconnectEnds, NothingFollows, hphase]
      refine iff_of_true ?_ (by simp)
      rintro - ⟨⟩
      exact publishCallback_complete (h.waiting mid hphase).2.symm
    | queue => simp [DisconnectEnds, NothingFollows]
  | ended mid =>
    have hstate := h.ended mid hphase
    have hnothing : ∀ A, handsOver A c = false := by
      intro A
      rw [Bool.eq_false_iff, ne_eq, handsOver_iff]
      exact fun hover => hstate hover.1
    cases op with
    | send A => simp [DisconnectEnds, NothingFollows, hphase, hnothing]
    | complete A mid' =>
      simp only [DisconnectEnds, NothingFollows, hphase]
      refine iff_of_true ?_ (by simp)
      rintro - -
      unfold publishCallback
      dsimp only
      split
      · exact handleMqttError_state A _ _
      · exact hstate
    | queue => simp [DisconnectEnds, NothingFollows]

theorem remembers_send (h : Remembers c) (hnothing : NothingFollows c (.send A))
    (happly : updateSockSet A c = some c') : Remembers c' := by
  by_cases hrunning : c.state = .running
  · unfold updateSockSet at happly
    rw [hrunning] at happly
    rcases sendStep_cases happly with rfl | ⟨item, rest, mid, hqueue, hpublish, rfl⟩
    · exact h
    · have hover := handsOver_iff.mpr ⟨hrunning, item, rest, mid, hqueue, hpublish⟩
      have hphase : phase c.log = .before := by
        cases hphase : phase c.log with
        | before => rfl
        | waiting mid' =>
          rw [(handsOver_eq_false hrunning).mpr (hnothing mid' A hphase rfl)] at hover
          cases hover
        | ended mid' => exact absurd hrunning (h.ended mid' hphase)
      have hsent : phase (sent item rest mid c).log =
          if item.contentType = .disconnectRecord then .waiting mid else .before := by
        simp [sent, Client.emit, hphase, Phase.after]
      constructor
      · intro mid' hwaiting
        rw [hsent] at hwaiting
        split at hwaiting
        · next hrecord =>
          cases hwaiting
          exact ⟨hrunning, if_pos hrecord⟩
        · cases hwaiting
      · intro mid' hover'
        rw [hsent] at hover'
        split at hover' <;> cases hover'
  · have hmoves : Moves c c' := by
      rcases updateSockSet_cases happly with hsends | hmoves
      · exact absurd hsends.running hrunning
      · exact moves_of_calms hmoves
    have hstate : c'.state ≠ .running := by
      unfold updateSockSet at happly
      split at happly
      · next hstate => exact absurd hstate hrunning
      · cases happly
        exact retryStep_state A hrunning
      · cases happly
        exact hrunning
    constructor
    · intro mid hwaiting
      exact absurd (h.waiting mid (waiting_of_moves hmoves hwaiting)).1 hrunning
    · exact fun _ _ => hstate

theorem remembers_complete (h : Remembers c) : Remembers (publishCallback A mid c) := by
  have hphase : phase (c.emit (.publishComplete mid)).log =
      (phase c.log).after (.publishComplete mid) := by simp [Client.emit]
  unfold publishCallback
  dsimp only
  split
  · next hmid =>
    have hstate := handleMqttError_state A .otherError (c.emit (.publishComplete mid))
    refine ⟨fun mid' hwaiting => ?_, fun _ _ => hstate⟩
    have hbefore := waiting_of_moves (moves_of_calms (handleMqttError_calm A _ _)) hwaiting
    rw [hphase] at hbefore
    have hwas := waiting_of_after (by simp [IsPublish]) hbefore
    rw [hwas, ← (h.waiting mid' hwas).2] at hbefore
    rw [hmid] at hbefore
    simp [Phase.after, Client.emit] at hbefore
  · next hmid =>
    constructor
    · intro mid' hwaiting
      rw [hphase] at hwaiting
      exact h.waiting mid' (waiting_of_after (by simp [IsPublish]) hwaiting)
    · intro mid' hover
      rw [hphase] at hover
      cases hwas : phase c.log with
      | before => rw [hwas] at hover; cases hover
      | ended mid₀ => exact h.ended mid₀ hwas
      | waiting mid₀ =>
        rw [hwas] at hover
        simp only [Phase.after] at hover
        split at hover
        · next heq =>
          have hsame := (h.waiting mid₀ hwas).2
          exact absurd (heq.trans hsame.symm) hmid
        · cases hover

theorem remembers_queue (h : Remembers c) (contentType : MtpContentType) (pbuf : Bytes)
    (topic : Option Str) : Remembers (queueBinaryMessage contentType pbuf topic c).2 := by
  have hkeep : ∀ c', phase c'.log = phase c.log → c'.state = c.state →
      c'.disconnectMid = c.disconnectMid → Remembers c' := by
    intro c' hphase hstate hmid
    constructor
    · intro mid hwaiting
      rw [hstate, hmid]
      exact h.waiting mid (hphase ▸ hwaiting)
    · intro mid hover
      rw [hstate]
      exact h.ended mid (hphase ▸ hover)
  have hqueued : ∀ p item, Phase.after p (.queued item) = p := by
    intro p item
    cases p <;> rfl
  have hsuperseded : ∀ p item, Phase.after p (.superseded item) = p := by
    intro p item
    cases p <;> rfl
  dsimp only [queueBinaryMessage]
  split
  · refine hkeep _ ?_ rfl rfl
    have hstale : (stale c.queue).foldl (fun p item => p.after (.superseded item)) (phase c.log) =
        phase c.log := foldl_fixed' (hsuperseded _) _
    rw [queueUspConnectRecord_log, phase_append, foldl_append, foldl_map, hstale,
      foldl_cons, foldl_nil, hqueued]
  split
  · exact h
  split
  · exact h
  · refine hkeep _ ?_ rfl rfl
    simp only [Client.emit, phase_append, foldl_cons, foldl_nil, hqueued]

/-- A step that meets the condition lets the slot remember the disconnect record. -/
theorem remembers_step {op : SendOp} (h : Remembers c) (hnothing : NothingFollows c op)
    (happly : sendOp op c = some c') : Remembers c' := by
  cases op with
  | send A => exact remembers_send h hnothing happly
  | complete A mid =>
    cases happly
    exact remembers_complete h
  | queue contentType pbuf topic =>
    cases happly
    exact remembers_queue h contentType pbuf topic

/-- Whatever is in the queue and in whatever order the steps come, a disconnect record
ends its connection just where no record follows it before its callback. -/
theorem disconnect_record_ends_iff {c : Client} (hphase : phase c.log = .before)
    (ops : List SendOp) :
    RunMeets sendOp DisconnectEnds ops c ↔ RunMeets sendOp NothingFollows ops c := by
  have hfirst : Remembers c := by
    constructor <;> simp [hphase]
  refine runMeets_congr (I := Remembers) (fun _ _ h => disconnectEnds_iff h) ?_ hfirst
  exact fun c op c' h hends happly => remembers_step h ((disconnectEnds_iff h).mp hends) happly

/-! ## A record behind the disconnect record -/

def disconnectRecord : SendItem := ⟨.disconnectRecord, [1], some ['c'], 0⟩

def uspRecord : SendItem := ⟨.uspMessage, [2], some ['c'], 0⟩

/-- A connected client with a queue. -/
def runningClient (queue : List SendItem) : Client :=
  { initClient with
    connParams := brokerParams .tcpip
    state := .running
    mosq := true
    responseSubscription := ⟨0, 0, some ['a'], true, 1, .subscribed⟩
    queue := queue }

theorem disconnect_record_ends_iff_running :
    RunMeets sendOp DisconnectEnds [.send smooth, .complete smooth 8]
      (runningClient [disconnectRecord, uspRecord]) ↔
    RunMeets sendOp NothingFollows [.send smooth, .complete smooth 8]
      (runningClient [disconnectRecord, uspRecord]) :=
  disconnect_record_ends_iff rfl _

/-- The record behind it is sent as well, and the callback of the disconnect record
then leaves the client connected. -/
theorem record_follows_disconnect_record :
    ¬ ∀ c ops, phase c.log = .before → RunMeets sendOp DisconnectEnds ops c := by
  intro h
  have hends := h (runningClient [disconnectRecord, uspRecord]) [.send smooth, .send smooth] rfl
  have hsent : sendOp (.send smooth) (runningClient [disconnectRecord, uspRecord]) =
      some (sent disconnectRecord [uspRecord] 8 (runningClient [disconnectRecord, uspRecord])) := rfl
  have hsecond := (hends.2 _ hsent).1 (by decide)
  exact absurd hsecond (by decide)

end MqttDisconnect
