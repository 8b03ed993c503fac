import SdtTr369.E2eContext

/-!
# Segmentation and reassembly

What the sender cuts a message into is a first record and its continuation; a
receiver whose buffer is empty puts exactly such records together again.
-/

namespace SegmentRoundTrip

open UspTypes EffectProgram UspRecord SarVector E2eContext List

/-- The records behind the first one of a message of several records: the
sequence id before them and the text they carry. -/
inductive Continuation (ctx : SessionContextRecord) :
    UInt64 → Bytes → List SessionContextRecord → Prop where
  | last {n : UInt64} {msg : Bytes} : msg ≠ [] →
      Continuation ctx n msg [segmentRecord ctx (n + 1) .complete msg]
  | next {n : UInt64} {segment rest : Bytes} {records : List SessionContextRecord} :
      segment ≠ [] → Continuation ctx (n + 1) rest records →
      Continuation ctx n (segment ++ rest)
        (segmentRecord ctx (n + 1) .inprocess segment :: records)

/-- The records of one message. -/
inductive Segmented (ctx : SessionContextRecord) (n : UInt64) :
    Bytes → List SessionContextRecord → Prop where
  | whole {msg : Bytes} : Segmented ctx n msg [segmentRecord ctx (n + 1) .none msg]
  | split {segment rest : Bytes} {records : List SessionContextRecord} :
      segment ≠ [] → Continuation ctx (n + 1) rest records →
      Segmented ctx n (segment ++ rest) (segmentRecord ctx (n + 1) .begin segment :: records)

/-! ## The sender -/

variable {k : Nat} {msg : Bytes} {w : SessionWorld} {s : E2eSession} {sar : SarState} {n : UInt64}

section Sender

variable {H : Host} {endpointId : Str} {ctx : SessionContextRecord}

/-- The queued form of a session-context record. -/
def itemOf (H : Host) (endpointId : Str) (record : SessionContextRecord) : MtpSendItem :=
  ⟨contentTypeOf record.payloadSarState, recordTo H endpointId (.sessionContext record)⟩

/-- What the turns of the loop from the byte `k` on queue. -/
def QueuedFrom (H : Host) (endpointId : Str) (ctx : SessionContextRecord) (cap : Nat)
    (msg : Bytes) (k : Nat) (w w' : SessionWorld) : Prop :=
  ∃ records, w'.queued = w.queued ++ records.map (itemOf H endpointId) ∧
    w'.session = { w.session with lastSentSequenceId := w'.session.lastSentSequenceId } ∧
    records.length * cap < msg.length - k + cap ∧
    (k = 0 → Segmented ctx w.session.lastSentSequenceId msg records) ∧
    (0 < k → Continuation ctx w.session.lastSentSequenceId (msg.drop k) records)

theorem sarStateOf_last {remaining len : Nat} (h : remaining ≤ len) :
    sarStateOf k remaining len = if k = 0 then .none else .complete := by
  simp [sarStateOf, h]

theorem sarStateOf_more {remaining len : Nat} (h : len < remaining) :
    sarStateOf k remaining len = if k = 0 then .begin else .inprocess := by
  simp [sarStateOf, show ¬ remaining ≤ len by omega]

variable {cap : Nat}

/-- The record that takes all that is left ends the message. -/
theorem queuedFrom_last (hk : k < msg.length) (h : msg.length - k ≤ cap)
    (hs : s = { w.session with lastSentSequenceId := w.session.lastSentSequenceId + 1 })
    (hsar : sar = if k = 0 then .none else .complete) :
    QueuedFrom H endpointId ctx cap msg k w
      { w with
        session := s
        queued := w.queued ++ [itemOf H endpointId
          (segmentRecord ctx (w.session.lastSentSequenceId + 1) sar (msg.drop k))] } := by
  refine ⟨[segmentRecord ctx (w.session.lastSentSequenceId + 1) sar (msg.drop k)], rfl, ?_, ?_,
    ?_, ?_⟩
  · rw [hs]
  · simp only [length_singleton]; omega
  · intro h0
    subst h0
    simp only [if_true] at hsar
    rw [hsar, drop_zero]
    exact Segmented.whole
  · intro h0
    rw [if_neg (by omega)] at hsar
    rw [hsar]
    apply Continuation.last
    intro hn
    have := congrArg List.length hn
    simp at this
    omega

/-- A record that leaves something goes before what the later turns queue. -/
theorem queuedFrom_more {w₁ w' : SessionWorld} (hcap : 0 < cap)
    (h : k + cap < msg.length)
    (hs : w₁.session =
      { w.session with lastSentSequenceId := w.session.lastSentSequenceId + 1 })
    (hq : w₁.queued = w.queued ++ [itemOf H endpointId
      (segmentRecord ctx (w.session.lastSentSequenceId + 1) sar ((msg.drop k).take cap))])
    (hsar : sar = if k = 0 then .begin else .inprocess)
    (hrest : QueuedFrom H endpointId ctx cap msg (k + cap) w₁ w') :
    QueuedFrom H endpointId ctx cap msg k w w' := by
  obtain ⟨records, hq', hs', hlen, -, hcont⟩ := hrest
  have hcont := hcont (by omega)
  rw [hs] at hcont
  have hseg : (msg.drop k).take cap ≠ [] := by
    intro hn
    have := congrArg List.length hn
    simp at this
    omega
  have htext : msg.drop k = (msg.drop k).take cap ++ msg.drop (k + cap) := by
    rw [← drop_drop, take_append_drop]
  refine ⟨segmentRecord ctx (w.session.lastSentSequenceId + 1) sar ((msg.drop k).take cap) ::
    records, ?_, ?_, ?_, ?_, ?_⟩
  · rw [hq', hq]; simp
  · rw [hs', hs]
  · rw [length_cons, Nat.add_mul]; omega
  · intro h0
    subst h0
    simp only [if_true] at hsar
    rw [drop_zero] at htext hseg
    rw [hsar, drop_zero]
    have := Segmented.split hseg hcont
    rwa [← htext] at this
  · intro h0
    rw [if_neg (by omega)] at hsar
    rw [hsar]
    have := Continuation.next hseg hcont
    rwa [← htext] at this

theorem queueSegments_spec (hcap : 0 < cap) (msg : Bytes) (turns : Nat) :
    ∀ (k : Nat) (w : SessionWorld), k < msg.length →
      Wp True (queueSegments H endpointId ctx cap msg turns k) w
        (fun _ w' => QueuedFrom H endpointId ctx cap msg k w w') (fun _ _ => True) := by
  induction turns with
  | zero =>
    intro k w hk
    simp [queueSegments]
  | succ turns ih =>
    intro k w hk
    simp only [queueSegments, wp_bind, wp_modifySession, wp_getSession, wp_ite, wp_fail]
    by_cases hfit : exceedsMaximum { w.session with
        lastSentSequenceId := w.session.lastSentSequenceId + 1 }
      (packedSize endpointId H.localEndpoint (segmentRecord ctx
        (w.session.lastSentSequenceId + 1)
        (sarStateOf k (msg.length - k) (min cap (msg.length - k)))
        ((msg.drop k).take (min cap (msg.length - k))))) = true
    · rw [if_pos hfit]
      trivial
    rw [if_neg hfit]
    refine Wp.mono (queueBinaryMessage_spec _ _ _) ?_ fun _ _ _ => trivial
    rintro _ _ rfl
    by_cases hlast : msg.length - k ≤ cap
    · -- the loop ends: the segment is the rest of the message
      rw [Nat.min_eq_right hlast, if_neg (by omega), wp_pure, sarStateOf_last (Nat.le_refl _),
        take_of_length_le (by simp)]
      exact queuedFrom_last hk hlast rfl rfl
    · rw [Nat.min_eq_left (by omega), if_pos (by omega), sarStateOf_more (by omega)]
      refine Wp.mono (ih _ _ (by omega)) (fun _ w' h' => ?_) fun _ _ _ => trivial
      exact queuedFrom_more hcap (by omega) rfl rfl rfl h'

end Sender

/-! ## The receiver -/

section Receiver

variable {H : Host} {ctx : SessionContextRecord}

/-- The records reach `E2E_CONTEXT_HandleUspRecord` one after the other; its
return code goes to the MTP layer. -/
def deliver (H : Host) (records : List Record) : Act Unit :=
  Prog.forEach records fun record => Prog.ignore (handleUspRecord H record)

/-- The identifiers of the session are ones a receiver takes. -/
structure ValidIds (ctx : SessionContextRecord) : Prop where
  session : 2 ≤ ctx.sessionId
  expected : 1 ≤ ctx.expectedId

/-- The session of the receiver is the one of the records. -/
structure Joined (ctx : SessionContextRecord) (s : E2eSession) : Prop where
  mode : s.mode ≠ .forbid
  id : s.currentSessionId = ctx.sessionId

theorem one_le_succ (h : n.toNat + (k + 1) < 2 ^ 64) : 1 ≤ n + 1 ∧ (n + 1).toNat = n.toNat + 1 := by
  have hn : (n + 1).toNat = n.toNat + 1 := by
    rw [UInt64.toNat_add, UInt64.toNat_one]
    omega
  refine ⟨?_, hn⟩
  rw [UInt64.le_iff_toNat_le, UInt64.toNat_one]
  omega

variable {segment got : Bytes}

theorem contextFault_segment (hv : ValidIds ctx) (hj : Joined ctx s) (hn : 1 ≤ n)
    (hsar : isValidE2eSarState s.receivedPayloads sar = true) :
    contextFault s (segmentRecord ctx n sar segment) = none :=
  contextFault_eq_none.mpr
    { mode := hj.mode
      session := hv.session
      sequence := hn
      expected := hv.expected
      opens := fun hne => absurd hj.id.symm hne
      sar := hsar }

theorem takeOver_joined (hj : Joined ctx s) : takeOver (segmentRecord ctx n sar segment) s =
      { s with lastRecvSequenceId := n, status := .up } := by
  simp [takeOver, segmentRecord, hj.id]

/-- A record that is a message of its own is handed on at once. -/
theorem handle_whole (hj : Joined ctx w.session) (hmsg : msg ≠ []) :
    Keeps False (handleSessionContextRecord H (segmentRecord ctx n .none msg)) w
      (fun w' => w'.handled = w.handled ++ [.direct msg] ∧
        w'.session.receivedPayloads = w.session.receivedPayloads) := by
  refine (handle_direct rfl hmsg rfl).mpr ?_
  refine keeps_mono (handleBinaryMessage_spec _ _) ?_
  rintro _ rfl
  exact ⟨rfl, by simp only [taken, takeOver_joined hj]⟩

/-- The receiver holds the text `got` of a message, up to the segment `n`. -/
structure Receiving (ctx : SessionContextRecord) (n : UInt64) (got : Bytes)
    (w : SessionWorld) : Prop where
  joined : Joined ctx w.session
  last : ∃ p, w.session.receivedPayloads.vector.getLast? = some p ∧ p.sessId = ctx.sessionId ∧
    p.seqId = n
  text : Vector.text w.session.receivedPayloads.vector = got

theorem Receiving.content (h : Receiving ctx n got w) : w.session.receivedPayloads.vector ≠ [] := by
  obtain ⟨p, hp, -⟩ := h.last
  intro hn
  rw [hn] at hp
  cases hp

theorem Receiving.append (h : Receiving ctx n got w) (segment : Bytes) (sar : SarState) :
    ∃ v, w.session.receivedPayloads.append
        (segmentOf (segmentRecord ctx (n + 1) sar segment) segment) = some v ∧
      v.vector = w.session.receivedPayloads.vector ++ [⟨ctx.sessionId, n + 1, segment⟩] := by
  apply Vector.append_eq_some
  obtain ⟨p, hp, hsess, hseq⟩ := h.last
  intro q hq
  rw [hp] at hq
  cases hq
  exact ⟨hsess, by rw [hseq]; rfl⟩

/-- A segment the vector takes is behind those that were there. -/
theorem handle_segment
    {v : SarVector.Vector} (hj : Joined ctx w.session) (hne : segment ≠ [])
    (hsar : sar = .begin ∨ sar = .inprocess)
    (happ : w.session.receivedPayloads.append
      (segmentOf (segmentRecord ctx n sar segment) segment) = some v)
    (hv : v.vector = w.session.receivedPayloads.vector ++ [⟨ctx.sessionId, n, segment⟩]) :
    Wp False (handleSessionContextRecord H (segmentRecord ctx n sar segment)) w
      (fun _ w' => w'.handled = w.handled ∧
        Receiving ctx n (Vector.text w.session.receivedPayloads.vector ++ segment) w')
      (fun _ _ => False) := by
  have hs₁ : (segmentRecord ctx n sar segment).payloadSarState ≠ .none := by
    rcases hsar with rfl | rfl <;> simp [segmentRecord]
  have hs₂ : (segmentRecord ctx n sar segment).payloadSarState ≠ .complete := by
    rcases hsar with rfl | rfl <;> simp [segmentRecord]
  refine (handle_stored (v := v) rfl hne hs₁ ?_).mpr ?_
  · rw [takeOver_joined hj]
    exact happ
  refine (store_open hs₂).mpr ⟨rfl, ?_, ?_, ?_⟩
  · simp only [taken, takeOver_joined hj]
    exact ⟨hj.mode, hj.id⟩
  · exact ⟨⟨ctx.sessionId, n, segment⟩, by simp [hv], rfl, rfl⟩
  · simp [hv]

/-- The last segment completes the message. -/
theorem handle_last (hr : Receiving ctx n got w) (hne : segment ≠ [])
    (hlen : got.length + segment.length < 2 ^ 31) :
    Keeps False (handleSessionContextRecord H (segmentRecord ctx (n + 1) .complete segment)) w
      (fun w' => w'.handled = w.handled ++ [.reassembled (got ++ segment)] ∧
        w'.session.receivedPayloads.vector = []) := by
  obtain ⟨v, happ, hv⟩ := hr.append segment .complete
  have htext : Vector.text v.vector = got ++ segment := by
    rw [hv, Vector.text_append, hr.text, Vector.text_singleton]
  have hser : v.serialize = some (got ++ segment) := by
    rw [Vector.serialize_of_fits (by rw [← Vector.length_text, htext]; simpa using hlen)]
    rw [← htext]
    apply if_neg
    show Vector.text v.vector ≠ []
    rw [htext]
    simp [hne]
  refine (handle_stored (v := v) rfl hne (by simp [segmentRecord]) ?_).mpr ?_
  · rw [takeOver_joined hr.joined]
    exact happ
  refine (store_complete rfl hser).mpr ?_
  refine keeps_mono (handleBinaryMessage_spec _ _) ?_
  rintro _ rfl
  exact ⟨rfl, rfl⟩

end Receiver

/-! ## From the sender to the receiver -/

section RoundTrip

variable {H : Host} {ctx : SessionContextRecord} {toRecord : SessionContextRecord → Record}

/-- All records but the last hand nothing on; the last one hands `msg` on and
leaves the vector empty. -/
def HandsOnLast (H : Host) (records : List Record) (msg : Bytes) (w : SessionWorld) : Prop :=
  ∃ sent last w₁, records = sent ++ [last] ∧ deliver H sent w = some (.ok (), w₁) ∧
    w₁.handled = w.handled ∧
    Keeps False (handleUspRecord H last) w₁ fun w₂ =>
      ∃ call, w₂.handled = w₁.handled ++ [call] ∧ call.pbuf = msg ∧
        w₂.session.receivedPayloads.vector = []

variable {record : Record}

theorem deliver_cons {records : List Record} {w₁ : SessionWorld} {r : Except Err Unit}
    (h : handleUspRecord H record w = some (r, w₁)) :
    deliver H (record :: records) w = deliver H records w₁ := by
  show Prog.bind (Prog.ignore (handleUspRecord H record)) _ w = _
  have hi : (Prog.ignore (handleUspRecord H record) : Act Unit) w = some (.ok (), w₁) := by
    show Prog.bind (Prog.attempt (handleUspRecord H record)) _ w = _
    simp only [Prog.bind, Prog.attempt, h, Option.map_some]
    rfl
  simp only [Prog.bind, hi]
  rfl

/-- A record that hands nothing on goes in front. -/
theorem HandsOnLast.cons {records : List Record}
    (h : Wp False (handleUspRecord H record) w
      (fun _ w₁ => w₁.handled = w.handled ∧ HandsOnLast H records msg w₁) (fun _ _ => False)) :
    HandsOnLast H (record :: records) msg w := by
  obtain ⟨r, w₁, hrun⟩ := h.exists_run
  obtain ⟨hok, herr⟩ := h.of_run hrun
  cases r with
  | error e => exact (herr e rfl).elim
  | ok u =>
    obtain ⟨hh, sent, last, w₂, hrec, hdel, hh₂, hlast⟩ := hok u rfl
    refine ⟨record :: sent, last, w₂, by rw [hrec, cons_append], ?_, by rw [hh₂, hh], hlast⟩
    rw [deliver_cons hrun, hdel]

theorem HandsOnLast.single
    (h : Keeps False (handleUspRecord H record) w fun w₂ =>
      ∃ call, w₂.handled = w.handled ++ [call] ∧ call.pbuf = msg ∧
        w₂.session.receivedPayloads.vector = []) : HandsOnLast H [record] msg w :=
  ⟨[], record, w, rfl, rfl, rfl, h⟩

/-- The receiver in the middle of a message takes the rest of it. -/
theorem continuation_handed (hto : ∀ r, (toRecord r).recordType = .sessionContext r)
    (hv : ValidIds ctx) {rest : Bytes} {records : List SessionContextRecord}
    (hc : Continuation ctx n rest records) :
    ∀ {got : Bytes} {w : SessionWorld}, Receiving ctx n got w →
      n.toNat + records.length < 2 ^ 64 → got.length + rest.length < 2 ^ 31 →
      HandsOnLast H (records.map toRecord) (got ++ rest) w := by
  induction hc with
  | last hne =>
    intro got w hr hseq hlen
    refine HandsOnLast.single ((handleUspRecord_valid (hto _) ?_).mpr ?_)
    · exact contextFault_segment hv hr.joined (one_le_succ hseq).1 (by
        simpa [isValidE2eSarState] using hr.content)
    refine keeps_mono (handle_last hr hne hlen) fun w' h' => ?_
    exact ⟨_, h'.1, rfl, h'.2⟩
  | @next n segment rest records hne hc ih =>
    intro got w hr hseq hlen
    simp only [length_cons] at hseq
    rw [map_cons]
    refine HandsOnLast.cons ((handleUspRecord_valid (hto _) ?_).mpr ?_)
    · exact contextFault_segment hv hr.joined (one_le_succ hseq).1 (by
        simpa [isValidE2eSarState] using hr.content)
    obtain ⟨v, happ, hvec⟩ := hr.append segment .inprocess
    refine (handle_segment hr.joined hne (.inr rfl) happ hvec).mono (fun _ w' h' => ?_)
      fun _ _ h => h
    have hr' := h'.2
    rw [hr.text] at hr'
    refine ⟨h'.1, ?_⟩
    rw [← append_assoc]
    apply ih hr'
    · rw [(one_le_succ hseq).2]; omega
    · simp only [length_append] at hlen ⊢; omega

/-- A receiver whose vector is empty takes the whole message. -/
theorem segmented_handed (hto : ∀ r, (toRecord r).recordType = .sessionContext r)
    (hv : ValidIds ctx) {records : List SessionContextRecord} (hs : Segmented ctx n msg records)
    (hj : Joined ctx w.session) (hempty : w.session.receivedPayloads.vector = []) (hne : msg ≠ [])
    (hseq : n.toNat + records.length < 2 ^ 64) (hlen : msg.length < 2 ^ 31) :
    HandsOnLast H (records.map toRecord) msg w := by
  cases hs with
  | whole =>
    refine HandsOnLast.single ((handleUspRecord_valid (hto _) ?_).mpr ?_)
    · exact contextFault_segment hv hj (one_le_succ hseq).1 (by
        simpa [isValidE2eSarState] using hempty)
    refine keeps_mono (handle_whole hj hne) fun w' h' => ?_
    exact ⟨_, h'.1, rfl, by rw [h'.2, hempty]⟩
  | @split segment rest records hseg hc =>
    simp only [length_cons] at hseq
    rw [map_cons]
    refine HandsOnLast.cons ((handleUspRecord_valid (hto _) ?_).mpr ?_)
    · exact contextFault_segment hv hj (one_le_succ hseq).1 (by
        simpa [isValidE2eSarState] using hempty)
    obtain ⟨v, happ, hvec⟩ := Vector.append_eq_some (v := w.session.receivedPayloads)
      (p := segmentOf (segmentRecord ctx (n + 1) .begin segment) segment) (by
        intro q hq
        rw [hempty] at hq
        cases hq)
    refine (handle_segment hj hseg (.inl rfl) happ hvec).mono (fun _ w' h' => ?_) fun _ _ h => h
    refine ⟨h'.1, ?_⟩
    have hr := h'.2
    rw [hempty] at hr
    apply continuation_handed hto hv hc hr
    · rw [(one_le_succ hseq).2]; omega
    · simpa [Vector.text] using hlen

theorem items_pbuf (records : List SessionContextRecord) (endpointId : Str) :
    (records.map (itemOf H endpointId)).map MtpSendItem.pbuf =
      records.map fun r => recordTo H endpointId (.sessionContext r) := by
  rw [map_map]
  rfl

/-- The number of records a message takes. -/
def recordCount (H : Host) (endpointId : Str) (s : E2eSession) (msg : Bytes) : Nat :=
  let cap := (payloadCapacity H endpointId s).toNat
  (msg.length + cap - 1) / cap

theorem queueUspSessionRecord_spec {endpointId : Str} (hmsg : msg ≠ []) (w : SessionWorld) :
    Wp True (queueUspSessionRecord H endpointId msg) w
      (fun _ w' => ∃ records, w'.queued = w.queued ++ records.map (itemOf H endpointId) ∧
        w'.session = { establish w.session with
          lastSentSequenceId := w'.session.lastSentSequenceId } ∧
        records.length ≤ recordCount H endpointId (establish w.session) msg ∧
        Segmented (contextOf (establish w.session)) (establish w.session).lastSentSequenceId
          msg records) (fun _ _ => True) := by
  simp only [queueUspSessionRecord, wp_bind, wp_modifySession, wp_getSession, wp_require]
  split
  · rename_i hcap
    have hpos : 0 < (payloadCapacity H endpointId (establish w.session)).toNat := by
      have := UInt32.lt_iff_toNat_lt.mp (of_decide_eq_true hcap)
      simp at this
      omega
    refine Wp.mono (queueSegments_spec hpos msg _ 0 _ (List.length_pos_iff.mpr hmsg))
      (fun _ w' h' => ?_) fun _ _ h => h
    obtain ⟨records, hq, hs, hlen, hseg, -⟩ := h'
    refine ⟨records, hq, hs, ?_, hseg rfl⟩
    rw [recordCount, Nat.le_div_iff_mul_le hpos]
    omega
  · trivial

/-- Segmentation and reassembly: the message comes out whole, once, with the
last record. The bounds on the identifiers say that none of them wraps to a
number the receiver refuses; the length is one of a C `int`. -/
theorem message_handed_once {H' : Host} {endpointId : Str} {msg : Bytes} {w w' r : SessionWorld}
    (hmsg : msg ≠ []) (hint : msg.length < 2 ^ 31)
    (hqueue : queueUspSessionRecord H endpointId msg w = some (.ok (), w'))
    (hsess : 2 ≤ (establish w.session).currentSessionId)
    (hexp : (establish w.session).lastRecvSequenceId + 1 ≠ 0)
    (hseq : (establish w.session).lastSentSequenceId.toNat +
      recordCount H endpointId (establish w.session) msg < 2 ^ 64)
    (hmode : r.session.mode ≠ .forbid)
    (hid : r.session.currentSessionId = w'.session.currentSessionId)
    (hempty : r.session.receivedPayloads.vector = []) :
    ∃ items, w'.queued = w.queued ++ items ∧
      HandsOnLast H' (items.map MtpSendItem.pbuf) msg r := by
  obtain ⟨records, hq, hs, hlen, hseg⟩ :=
    ((queueUspSessionRecord_spec hmsg w).of_run hqueue).1 () rfl
  refine ⟨records.map (itemOf H endpointId), hq, ?_⟩
  rw [items_pbuf]
  apply segmented_handed (fun _ => rfl) ⟨hsess, ?_⟩ hseg ⟨hmode, ?_⟩ hempty hmsg (by omega) hint
  · rw [UInt64.le_iff_toNat_le]
    have : (contextOf (establish w.session)).expectedId.toNat ≠ 0 := by
      intro h0
      exact hexp (UInt64.toNat_inj.mp h0)
    simp only [UInt64.toNat_one]
    omega
  · rw [hid, hs]
    rfl

end RoundTrip

/-! ## Sessions of one agent with itself -/

def openSession (mode : SessionMode) (sessionId sent recv : UInt64) (maxRecordSize : UInt32) :
    SessionWorld where
  endpointId := ['c']
  session :=
    { mode := mode
      modeBuffered := mode
      maxRecordSize := maxRecordSize
      status := .up
      currentSessionId := sessionId
      lastSentSequenceId := sent
      lastRecvSequenceId := recv
      receivedPayloads := SarVector.Vector.init }
  handled := []
  queued := []

theorem message_handed_once_600 :
    ∃ items, (Prog.after (queueUspSessionRecord quietHost ['c'] (List.replicate 600 7))
        (openSession .allow 2 5 9 512)).queued = [] ++ items ∧
      HandsOnLast quietHost (items.map MtpSendItem.pbuf) (List.replicate 600 7)
        (openSession .require 2 0 0 0) :=
  message_handed_once (by decide) (by decide +kernel) (Prog.run_eq (by decide +kernel))
    (by decide +kernel) (by decide +kernel) (by decide +kernel) (by decide) (by decide +kernel) rfl

/-- The calls a receiver makes for a one-byte message, if it could be queued. -/
def transfer (w r : SessionWorld) : Option (List Handled) :=
  match queueUspSessionRecord quietHost ['c'] [7] w with
  | some (.ok (), w') =>
    (deliver quietHost (w'.queued.map MtpSendItem.pbuf) r).map fun x => x.2.handled
  | _ => none

/-- Nothing comes out when the sequence id, the expected id or the session id of
the record is not a valid one, or when the receiver forbids sessions. -/
theorem invalid_ids_lose_message :
    transfer (openSession .allow 2 uint64Max 0 0) (openSession .allow 2 0 0 0) = some [] ∧
    transfer (openSession .allow 2 0 uint64Max 0) (openSession .allow 2 0 0 0) = some [] ∧
    transfer (openSession .allow 1 0 0 0) (openSession .allow 1 0 0 0) = some [] ∧
    transfer (openSession .allow 2 0 0 0) (openSession .forbid 2 0 0 0) = some [] := by
  decide

end SegmentRoundTrip
