import SdtTr369.EndpointId
import SdtTr369.SegmentRoundTrip

/-!
# The payload of one record

`ComputePayloadCapacity` subtracts the header of the longest record from the configured
maximum, in unsigned arithmetic. Every segment that fits the difference is packed into a
record within the maximum.
-/

namespace PayloadCapacity

open UspTypes EffectProgram UspRecord E2eContext List

/-! ## Sizes -/

variable {sar : SarState}

section Sizes

variable {m n : Nat} {u v : UInt64}

theorem uint32Size_mono (h : m ≤ n) : uint32Size m ≤ uint32Size n := by
  unfold uint32Size
  split_ifs <;> omega

theorem uint32Size_le (n : Nat) : uint32Size n ≤ 5 := by
  unfold uint32Size
  split_ifs <;> omega

theorem uint64Size_mono (h : u ≤ v) : uint64Size u ≤ uint64Size v := by
  have hle := UInt64.le_iff_toNat_le.mp h
  have hupper : u.toNat / 2 ^ 32 ≤ v.toNat / 2 ^ 32 := Nat.div_le_div_right hle
  have hsmall := uint32Size_le u.toNat
  have hlow := uint32Size_mono hle
  unfold uint64Size
  simp only
  split_ifs <;> omega

theorem uint64Size_le (v : UInt64) : uint64Size v ≤ 10 := by
  have hsmall := uint32Size_le v.toNat
  unfold uint64Size
  simp only
  split_ifs <;> omega

theorem uint64FieldSize_le (v : UInt64) : uint64FieldSize v ≤ 11 := by
  have := uint64Size_le v
  unfold uint64FieldSize
  split_ifs <;> omega

theorem le_or_one (v : UInt64) : v ≤ v ||| 1 := by
  rw [UInt64.le_iff_toNat_le, UInt64.toNat_or]
  exact Nat.left_le_or

theorem or_one_ne_zero (v : UInt64) : v ||| 1 ≠ 0 := by
  intro h
  have hone := congrArg UInt64.toNat h
  rw [UInt64.toNat_or, UInt64.toNat_one, UInt64.toNat_zero] at hone
  exact absurd (Nat.or_eq_zero_iff.mp hone).2 (by decide)

theorem uint64FieldSize_or (v : UInt64) : uint64FieldSize (v ||| 1) = 1 + uint64Size (v ||| 1) := by
  rw [uint64FieldSize, if_neg (or_one_ne_zero v)]

theorem uint64FieldSize_le_or (v : UInt64) : uint64FieldSize v ≤ 1 + uint64Size (v ||| 1) := by
  have := uint64Size_mono (le_or_one v)
  unfold uint64FieldSize
  split_ifs <;> omega

theorem sarFieldSize_le (h : sar.code ≤ 3) : sarFieldSize sar ≤ 2 := by
  have hsmall : ¬2 ^ 31 ≤ sar.code := by omega
  have hsize : uint32Size sar.code = 1 := by
    rw [uint32Size, if_pos (by omega)]
  rw [sarFieldSize, int32Size, if_neg hsmall, hsize]
  split_ifs <;> omega

end Sizes

/-! ## The longest header -/

/-- The context of a session without its payload, at its longest: the session id, the sequence
id, the expected id, the two SAR states, and the tag and length of the payload. -/
def contextHeader (s : E2eSession) (max : Nat) : Nat :=
  (1 + uint64Size (s.currentSessionId ||| 1)) + 11 +
    (1 + uint64Size ((s.lastRecvSequenceId + 1) ||| 1)) + 2 + 2 + (1 + uint32Size max)

/-- The whole record without its payload, at its longest. -/
def recordHeader (toId fromId : Str) (s : E2eSession) (max : Nat) : Nat :=
  stringFieldSize agentCurrentProtocolVersion + stringFieldSize toId + stringFieldSize fromId +
    (1 + uint32Size (contextHeader s max + max)) + contextHeader s max

section Header

variable {toId fromId : Str} {s : E2eSession} {max len : Nat}

theorem heaviest_size (s : E2eSession) (max : Nat) :
    (heaviest (contextOf s)).packedSizeWith [max] = contextHeader s max + max := by
  have hseq : uint64FieldSize uint64Max = 11 := by decide
  have hretransmit : uint64FieldSize 0 = 0 := rfl
  have hsar : sarFieldSize .begin = 2 := rfl
  simp only [heaviest, contextOf, SessionContextRecord.packedSizeWith, uint64FieldSize_or, hseq,
    hretransmit, hsar, map_cons, map_nil, sum_cons, sum_nil, contextHeader,
    delimitedSize]
  omega

/-- A context with a payload of `len` bytes. -/
theorem segment_size (hlen : len ≤ max) (n : UInt64) (hsar : sar.code ≤ 3) (segment : Bytes) :
    (segmentRecord (contextOf s) n sar segment).packedSizeWith [len] ≤ contextHeader s max + len := by
  have hsession := uint64FieldSize_le_or s.currentSessionId
  have hexpected := uint64FieldSize_le_or (s.lastRecvSequenceId + 1)
  have hsequence := uint64FieldSize_le n
  have hretransmit : uint64FieldSize 0 = 0 := rfl
  have hstate := sarFieldSize_le hsar
  have hpayload := uint32Size_mono hlen
  simp only [segmentRecord, contextOf, SessionContextRecord.packedSizeWith, hretransmit,
    map_cons, map_nil, sum_cons, sum_nil, contextHeader, delimitedSize]
  omega

/-- The header of no record is longer than the one that is subtracted. -/
theorem record_size (hlen : len ≤ max) (n : UInt64) (hsar : sar.code ≤ 3) (segment : Bytes) :
    packedSizeWith toId fromId (segmentRecord (contextOf s) n sar segment) [len] ≤
      recordHeader toId fromId s max + len := by
  have hcontext := segment_size (s := s) hlen n hsar segment
  have hprefix := uint32Size_mono (Nat.le_trans hcontext (Nat.add_le_add_left hlen _))
  simp only [packedSizeWith, recordHeader, delimitedSize]
  omega

theorem contextHeader_le (s : E2eSession) (max : Nat) : contextHeader s max ≤ 43 := by
  have hsession := uint64Size_le (s.currentSessionId ||| 1)
  have hexpected := uint64Size_le ((s.lastRecvSequenceId + 1) ||| 1)
  have hmax := uint32Size_le max
  unfold contextHeader
  omega

theorem stringFieldSize_le (text : Str) : stringFieldSize text ≤ text.length + 6 := by
  have := uint32Size_le text.length
  unfold stringFieldSize delimitedSize
  split_ifs <;> omega

theorem recordHeader_le : recordHeader toId fromId s max ≤ toId.length + fromId.length + 66 := by
  have hcontext := contextHeader_le s max
  have hto := stringFieldSize_le toId
  have hfrom := stringFieldSize_le fromId
  have hprefix := uint32Size_le (contextHeader s max + max)
  have hversion : stringFieldSize agentCurrentProtocolVersion = 5 := rfl
  unfold recordHeader
  omega

end Header

/-! ## The capacity -/

section Capacity

variable {toId fromId : Str} {s : E2eSession} {maxRecordSize : UInt32}

/-- While the longest record can be counted, its size is the header and the maximum. -/
theorem getPackedSize_eq
    (h : recordHeader toId fromId s maxRecordSize.toNat + maxRecordSize.toNat < 2 ^ 32) :
    (getPackedSize toId fromId (heaviest (contextOf s)) [maxRecordSize.toNat]).toNat =
      recordHeader toId fromId s maxRecordSize.toNat + maxRecordSize.toNat := by
  have hcontext : contextHeader s maxRecordSize.toNat + maxRecordSize.toNat < 2 ^ 32 := by
    unfold recordHeader at h
    omega
  rw [getPackedSize, heaviest_size, Nat.mod_eq_of_lt hcontext, UInt32.toNat_ofNat',
    Nat.mod_eq_of_lt] <;> unfold recordHeader at * <;> unfold delimitedSize <;> omega

/-- Otherwise the counter wraps around, and the size comes out less than the maximum. -/
theorem getPackedSize_wraps (hto : toId.length < 2 ^ 31) (hfrom : fromId.length < 256)
    (h : 2 ^ 32 ≤ recordHeader toId fromId s maxRecordSize.toNat + maxRecordSize.toNat) :
    (getPackedSize toId fromId (heaviest (contextOf s)) [maxRecordSize.toNat]).toNat <
      maxRecordSize.toNat := by
  have hheader : recordHeader toId fromId s maxRecordSize.toNat ≤ _ := recordHeader_le
  have hcontext := contextHeader_le s maxRecordSize.toNat
  have hmax := maxRecordSize.toNat_lt
  rw [getPackedSize, heaviest_size, UInt32.toNat_ofNat']
  by_cases hsmall : contextHeader s maxRecordSize.toNat + maxRecordSize.toNat < 2 ^ 32
  · rw [Nat.mod_eq_of_lt hsmall]
    unfold recordHeader at *
    unfold delimitedSize
    omega
  · have hversion : stringFieldSize agentCurrentProtocolVersion = 5 := rfl
    have hsizeTo := stringFieldSize_le toId
    have hsizeFrom := stringFieldSize_le fromId
    have hprefix := uint32Size_le
      ((contextHeader s maxRecordSize.toNat + maxRecordSize.toNat) % 2 ^ 32)
    unfold delimitedSize
    omega

theorem estimatedHeaderSize_eq
    (h : recordHeader toId fromId s maxRecordSize.toNat + maxRecordSize.toNat < 2 ^ 32) :
    (estimatedHeaderSize toId fromId (contextOf s) maxRecordSize).toNat =
      recordHeader toId fromId s maxRecordSize.toNat := by
  have hpacked := getPackedSize_eq h
  rw [estimatedHeaderSize, UInt32.toNat_sub_of_le, hpacked, Nat.add_sub_cancel]
  rw [UInt32.le_iff_toNat_le, hpacked]
  exact Nat.le_add_left _ _

theorem computePayloadCapacity_eq
    (h : recordHeader toId fromId s maxRecordSize.toNat + maxRecordSize.toNat < 2 ^ 32)
    (hle : recordHeader toId fromId s maxRecordSize.toNat ≤ maxRecordSize.toNat) :
    (computePayloadCapacity toId fromId (contextOf s) maxRecordSize).toNat =
      maxRecordSize.toNat - recordHeader toId fromId s maxRecordSize.toNat := by
  have hheader := estimatedHeaderSize_eq h
  rw [computePayloadCapacity, UInt32.toNat_sub_of_le, hheader]
  rw [UInt32.le_iff_toNat_le, hheader]
  exact hle

end Capacity

/-! ## The queued records -/

/-- A session-context record to the endpoint that is packed into at most `max` bytes. -/
def PackedWithin (H : Host) (endpointId : Str) (max : Nat) (item : MtpSendItem) : Prop :=
  ∃ ctx, item.pbuf = recordTo H endpointId (.sessionContext ctx) ∧
    packedSize endpointId H.localEndpoint ctx ≤ max

theorem sarStateOf_code (k remaining len : Nat) : (sarStateOf k remaining len).code ≤ 3 := by
  unfold sarStateOf
  split_ifs <;> decide

section Queue

variable {H : Host} {endpointId : Str} {s : E2eSession} {max cap : Nat}

theorem segment_within (hfits : recordHeader endpointId H.localEndpoint s max + cap ≤ max)
    (msg : Bytes) (k : Nat) {len : Nat} (hlen : len ≤ cap) (n : UInt64) (hsar : sar.code ≤ 3)
    (contentType : ContentType) :
    PackedWithin H endpointId max ⟨contentType, recordTo H endpointId
      (.sessionContext (segmentRecord (contextOf s) n sar ((msg.drop k).take len)))⟩ := by
  refine ⟨_, rfl, ?_⟩
  have hsegment : ((msg.drop k).take len).length ≤ len := length_take_le _ _
  have hsize : _ ≤ recordHeader endpointId H.localEndpoint s max + _ :=
    record_size (show ((msg.drop k).take len).length ≤ max by omega) n hsar
      ((msg.drop k).take len)
  have hpayload : (segmentRecord (contextOf s) n sar ((msg.drop k).take len)).payload.map
      List.length = [((msg.drop k).take len).length] := rfl
  rw [packedSize, hpayload]
  omega

/-- A segment takes at least one byte, so that the loop ends. -/
theorem queueSegments_within (hcap : 0 < cap)
    (hfits : recordHeader endpointId H.localEndpoint s max + cap ≤ max) (msg : Bytes)
    (turns : Nat) : ∀ (k : Nat) (w : SessionWorld), msg.length - k < turns →
      Keeps False (queueSegments H endpointId (contextOf s) cap msg turns k) w
        (Queues (PackedWithin H endpointId max) w) := by
  induction turns with
  | zero =>
    intro k w hturns
    exact absurd hturns (Nat.not_lt_zero _)
  | succ turns ih =>
    intro k w hturns
    have hcount : Queues (PackedWithin H endpointId max) w { w with
        session := { w.session with lastSentSequenceId := w.session.lastSentSequenceId + 1 } } :=
      ⟨rfl, rfl, rfl, [], by simp, by simp⟩
    have hwithin := segment_within hfits msg k (Nat.min_le_left cap (msg.length - k))
      (w.session.lastSentSequenceId + 1) (sarStateOf_code k (msg.length - k)
        (min cap (msg.length - k)))
      (contentTypeOf (sarStateOf k (msg.length - k) (min cap (msg.length - k))))
    simp only [Keeps, queueSegments, wp_bind, wp_modifySession, wp_getSession, wp_ite, wp_fail,
      wp_pure]
    split
    · exact hcount
    refine (queueBinaryMessage_queues H hwithin _).mono (fun _ w₁ h₁ => ?_)
      fun _ _ h₁ => hcount.trans h₁
    split
    · exact keeps_mono (ih _ w₁ (by omega)) fun w₂ h₂ => (hcount.trans h₁).trans h₂
    · exact hcount.trans h₁

end Queue

/-! ## Every message -/

theorem establish_maxRecordSize (s : E2eSession) :
    (establish s).maxRecordSize = s.maxRecordSize := by
  unfold establish
  split_ifs <;> rfl

/-- No subtraction of `ComputePayloadCapacity` goes below zero, the assertion on the capacity
holds, and what is queued is within the maximum. -/
structure Bounded (H : Host) (endpointId : Str) (msg : Bytes) (w : SessionWorld) : Prop where
  packed : w.session.maxRecordSize ≤ getPackedSize endpointId H.localEndpoint
    (heaviest (contextOf (establish w.session))) [w.session.maxRecordSize.toNat]
  header : estimatedHeaderSize endpointId H.localEndpoint (contextOf (establish w.session))
    w.session.maxRecordSize ≤ w.session.maxRecordSize
  assertion : payloadCapacity H endpointId (establish w.session) > 50
  ends : queueUspSessionRecord H endpointId msg w ≠ none
  queued : ∀ r w', queueUspSessionRecord H endpointId msg w = some (r, w') → ∃ items,
    w'.queued = w.queued ++ items ∧
      ∀ item ∈ items, PackedWithin H endpointId w.session.maxRecordSize.toNat item

/-- The longest header leaves more than 50 bytes, and the longest record can be counted. -/
structure Fits (H : Host) (endpointId : Str) (s : E2eSession) : Prop where
  room : recordHeader endpointId H.localEndpoint s s.maxRecordSize.toNat + 50 <
    s.maxRecordSize.toNat
  counted : recordHeader endpointId H.localEndpoint s s.maxRecordSize.toNat +
    s.maxRecordSize.toNat < 2 ^ 32

section Fitting

variable {H : Host} {endpointId : Str} {msg : Bytes} {w : SessionWorld}

theorem payloadCapacity_eq (h : Fits H endpointId (establish w.session)) :
    (payloadCapacity H endpointId (establish w.session)).toNat =
      w.session.maxRecordSize.toNat -
        recordHeader endpointId H.localEndpoint (establish w.session)
          w.session.maxRecordSize.toNat := by
  obtain ⟨hroom, hcounted⟩ := h
  rw [establish_maxRecordSize] at hroom hcounted
  have hpos : w.session.maxRecordSize > 0 := by
    rw [gt_iff_lt, UInt32.lt_iff_toNat_lt, UInt32.toNat_zero]
    omega
  rw [payloadCapacity, establish_maxRecordSize, if_pos hpos,
    computePayloadCapacity_eq hcounted (by omega)]

theorem keeps_within (msg : Bytes) (h : Fits H endpointId (establish w.session)) :
    Keeps False (queueUspSessionRecord H endpointId msg) w
      (Queues (PackedWithin H endpointId w.session.maxRecordSize.toNat)
        { w with session := establish w.session }) := by
  have hcapacity := payloadCapacity_eq h
  obtain ⟨hroom, -⟩ := h
  rw [establish_maxRecordSize] at hroom
  have hassert : payloadCapacity H endpointId (establish w.session) > 50 := by
    rw [gt_iff_lt, UInt32.lt_iff_toNat_lt, hcapacity]
    show 50 < _
    omega
  simp only [Keeps, queueUspSessionRecord, wp_bind, wp_modifySession, wp_getSession, wp_require]
  rw [if_pos (decide_eq_true hassert)]
  exact queueSegments_within (by omega) (by omega) msg _ 0 _ (by omega)

theorem bounded_of_fits (h : Fits H endpointId (establish w.session)) :
    Bounded H endpointId msg w := by
  have hkeeps := keeps_within msg h
  have hcapacity := payloadCapacity_eq h
  obtain ⟨hroom, hcounted⟩ := h
  rw [establish_maxRecordSize] at hroom hcounted
  refine ⟨?_, ?_, ?_, fun hnone => ?_, fun r w' hrun => ?_⟩
  · rw [UInt32.le_iff_toNat_le, getPackedSize_eq hcounted]
    exact Nat.le_add_left _ _
  · rw [UInt32.le_iff_toNat_le, estimatedHeaderSize_eq hcounted]
    omega
  · rw [gt_iff_lt, UInt32.lt_iff_toNat_lt, hcapacity]
    show 50 < _
    omega
  · rw [Keeps, Wp, hnone] at hkeeps
    exact hkeeps
  · exact (keeps_of_run hkeeps hrun).queued

end Fitting

/-- For a maximum from 512 on; the agent's id lies in a buffer of its own, and the other one
in memory. -/
theorem record_bounded_iff (H : Host) (endpointId : Str) (msg : Bytes) (w : SessionWorld)
    (hmax : 512 ≤ w.session.maxRecordSize) (hendpoint : endpointId.length < 2 ^ 31)
    (hlocal : H.localEndpoint.length < maxDmShortValueLen) :
    Bounded H endpointId msg w ↔ Fits H endpointId (establish w.session) := by
  refine ⟨fun h => ?_, bounded_of_fits⟩
  have hcounted : recordHeader endpointId H.localEndpoint (establish w.session)
      w.session.maxRecordSize.toNat + w.session.maxRecordSize.toNat < 2 ^ 32 := by
    by_contra hwraps
    have hsmall := getPackedSize_wraps (s := establish w.session) hendpoint hlocal
      (Nat.le_of_not_lt hwraps)
    have hpacked := UInt32.le_iff_toNat_le.mp h.packed
    omega
  have hheader := UInt32.le_iff_toNat_le.mp h.header
  rw [estimatedHeaderSize_eq hcounted] at hheader
  have hpos : w.session.maxRecordSize > 0 := by
    rw [gt_iff_lt, UInt32.lt_iff_toNat_lt]
    exact Nat.lt_of_lt_of_le (by decide) (UInt32.le_iff_toNat_le.mp hmax)
  have hassert := UInt32.lt_iff_toNat_lt.mp h.assertion
  rw [payloadCapacity, establish_maxRecordSize, if_pos hpos,
    computePayloadCapacity_eq hcounted hheader] at hassert
  refine ⟨?_, ?_⟩
  · rw [establish_maxRecordSize]
    change 50 < _ at hassert
    omega
  · rw [establish_maxRecordSize]
    exact hcounted

/-- Two ids of fewer than 396 characters together fit every maximum but the largest. -/
theorem fits_of_short {H : Host} {endpointId : Str} {s : E2eSession} (hmin : 512 ≤ s.maxRecordSize)
    (hmax : s.maxRecordSize.toNat + 512 ≤ 2 ^ 32)
    (hshort : endpointId.length + H.localEndpoint.length < 396) : Fits H endpointId s := by
  have hheader : recordHeader endpointId H.localEndpoint s s.maxRecordSize.toNat ≤ _ :=
    recordHeader_le
  have hmin : 512 ≤ s.maxRecordSize.toNat := UInt32.le_iff_toNat_le.mp hmin
  exact ⟨by omega, by omega⟩

open SegmentRoundTrip (openSession)

theorem record_bounded_600 :
    Bounded quietHost ['c'] (List.replicate 600 7) (openSession .allow 2 5 9 512) :=
  (record_bounded_iff _ _ _ _ (by decide) (by decide) (by decide)).mpr
    (fits_of_short (by decide) (by decide) (by decide))

/-- With an id of 430 characters the assertion fails, and with one of 500 the header is longer
than the maximum. -/
theorem long_ids_unbounded :
    ¬Bounded quietHost (List.replicate 430 'c') [7] (openSession .allow 2 5 9 512) ∧
    ¬Bounded quietHost (List.replicate 500 'c') [7] (openSession .allow 2 5 9 512) := by
  constructor
  · intro h
    exact absurd h.assertion (by decide +kernel)
  · intro h
    exact absurd h.header (by decide +kernel)

end PayloadCapacity
