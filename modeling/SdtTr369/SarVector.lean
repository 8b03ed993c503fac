import SdtTr369.UspRecord
import Mathlib.Data.List.Chain
import Mathlib.Algebra.BigOperators.Group.List.Basic

/-!
# The reassembly buffer

The SAR vector of `sar_vector.c`: the segments of the message being received.
A vector carries the proof that its segments belong together, so that what is
serialized from it is the text of consecutive segments of one session.
-/

namespace SarVector

open UspRecord

structure SarPayload where
  sessId : UInt64
  seqId : UInt64
  data : Bytes
  deriving DecidableEq, Repr

/-- The segment `b` may stand directly behind `a`. The sum wraps as `uint64_t`. -/
def Follows (a b : SarPayload) : Prop := a.sessId = b.sessId ∧ b.seqId = a.seqId + 1

instance (a b : SarPayload) : Decidable (Follows a b) := instDecidableAnd

/-- The value of a C `int` to which `n` was added up. -/
def wrapInt (n : Nat) : Int := (n : Int).bmod (2 ^ 32)

theorem wrapInt_of_lt {n : Nat} (h : n < 2 ^ 31) : wrapInt n = n := by
  unfold wrapInt
  apply Int.bmod_eq_of_le <;> omega

theorem wrapInt_of_lt_two {n : Nat} (h : n < 2 ^ 32) (hp : 0 < wrapInt n) : wrapInt n = n := by
  unfold wrapInt at *
  rw [Int.bmod_def] at *
  split at hp <;> split <;> omega

def totalLength (v : List SarPayload) : Nat := (v.map fun p => p.data.length).sum

@[simp] theorem totalLength_append (v w : List SarPayload) :
    totalLength (v ++ w) = totalLength v + totalLength w := by
  simp [totalLength]

variable (p : SarPayload)

@[simp] theorem totalLength_singleton : totalLength [p] = p.data.length := by
  simp [totalLength]

/-- `sar_vector_t`. -/
structure Vector where
  vector : List SarPayload
  sumLength : Int
  linked : vector.IsChain Follows
  sum_eq : sumLength = wrapInt (totalLength vector)
  deriving DecidableEq

namespace Vector

/-- `SAR_VECTOR_Init`, and what `SAR_VECTOR_Destroy` leaves. -/
def init : Vector where
  vector := []
  sumLength := 0
  linked := List.isChain_nil
  sum_eq := rfl

@[simp] theorem init_vector : init.vector = [] := rfl

/-- `IsValidPayload`: anything may come first, and then only the next segment. -/
def isValidPayload (v : Vector) (p : SarPayload) : Prop := ∀ q ∈ v.vector.getLast?, Follows q p

instance (v : Vector) (p : SarPayload) : Decidable (v.isValidPayload p) := by
  unfold isValidPayload
  infer_instance

variable {v : Vector}

theorem linked_append {p : SarPayload} (h : v.isValidPayload p) :
    (v.vector ++ [p]).IsChain Follows := by
  apply v.linked.append (List.isChain_singleton p)
  intro q hq r hr
  cases hr
  exact h q hq

/-- `SAR_VECTOR_Append`; `none` where the segment is refused. -/
def append (v : Vector) (p : SarPayload) : Option Vector :=
  if h : v.isValidPayload p then
    some
      { vector := v.vector ++ [p]
        sumLength := wrapInt (totalLength v.vector + p.data.length)
        linked := linked_append h
        sum_eq := by simp }
  else none

theorem append_vector {w : Vector} {p : SarPayload} (h : v.append p = some w) :
    w.vector = v.vector ++ [p] := by
  unfold append at h
  split at h
  · cases h; rfl
  · cases h

theorem append_eq_some {p : SarPayload} (h : v.isValidPayload p) :
    ∃ w, v.append p = some w ∧ w.vector = v.vector ++ [p] := by
  unfold append
  rw [dif_pos h]
  exact ⟨_, rfl, rfl⟩

theorem init_append : ∃ w, init.append p = some w ∧ w.vector = [p] :=
  append_eq_some (v := init) (by intro q hq; cases hq)

/-- The text of the segments, one after the other. -/
def text (v : List SarPayload) : Bytes := v.flatMap fun p => p.data

@[simp] theorem text_append (v w : List SarPayload) : text (v ++ w) = text v ++ text w := by
  simp [text]

@[simp] theorem text_singleton : text [p] = p.data := by
  simp [text]

theorem length_text (v : List SarPayload) : (text v).length = totalLength v := by
  simp [text, totalLength, List.length_flatMap]

/-- `SAR_VECTOR_Serialize`; `none` stands for `NULL`. The buffer has
`sum_length` bytes, so what lies beyond is not part of the message. -/
def serialize (v : Vector) : Option Bytes :=
  if v.sumLength ≤ 0 then none else some ((text v.vector).take v.sumLength.toNat)

/-- As long as the count of bytes is a C `int`, the whole text comes out. -/
theorem serialize_of_fits (h : totalLength v.vector < 2 ^ 31) :
    v.serialize = if v.vector.flatMap (fun p => p.data) = [] then none else some (text v.vector) := by
  have hs : v.sumLength = totalLength v.vector := by rw [v.sum_eq, wrapInt_of_lt h]
  unfold serialize
  rw [hs]
  by_cases ht : v.vector.flatMap (fun p => p.data) = []
  · have hz : totalLength v.vector = 0 := by
      rw [← length_text]
      simp [text, ht]
    simp [ht, hz]
  · have hp : 0 < totalLength v.vector := by
      rw [← length_text]
      exact List.length_pos_iff.mpr ht
    rw [if_neg (by omega), if_neg ht, Int.toNat_natCast, ← length_text, List.take_length]

/-- What comes out is the text, unless the count of its bytes went all the way
around and is positive again. -/
theorem serialize_eq_text {buf : Bytes} (h : v.serialize = some buf)
    (hlen : totalLength v.vector < 2 ^ 32) : buf = text v.vector := by
  unfold serialize at h
  split at h
  · cases h
  · rename_i hp
    have hs : v.sumLength = totalLength v.vector := by
      rw [v.sum_eq] at hp ⊢
      exact wrapInt_of_lt_two hlen (by omega)
    cases h
    rw [hs, Int.toNat_natCast, ← length_text, List.take_length]

end Vector

end SarVector
