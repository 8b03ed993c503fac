import SdtTr369.BulkData
import Mathlib.Data.List.ReduceOption

/-!
# The sender thread of bulk data

The functions of `bdc_exec.c` that take a document from the message queue, start its
transfer in a free connection slot and report the end of the transfer. The exit of the
thread is left out.
-/

namespace BdcExec

open BulkData

/-- The message queue and `bdc_connection`. -/
structure BdcThread where
  messages : List Document
  connections : List (Option Document)
  deriving DecidableEq

/-- What is answered while a message is taken from the queue. -/
structure ReceiveAnswers where
  /-- `recv` returns a full message. -/
  fullMessage : Bool
  /-- `StartSendingReport`. -/
  startSendingReport : Bool

/-- `FindFreeBdcConnection`. -/
def findFreeBdcConnection (t : BdcThread) : Option Nat := t.connections.findIdx? Option.isNone

/-- `ProcessBdcMessageQueueSocketActivity`. -/
def processBdcMessageQueueSocketActivity (R : ReceiveAnswers) (t : BdcThread) : BdcThread :=
  match t.messages with
  | [] => t
  | msg :: messages =>
    let t := { t with messages := messages }
    if R.fullMessage = false then t
    else
      match findFreeBdcConnection t with
      | none => t
      | some k =>
        if R.startSendingReport then { t with connections := t.connections.set k (some msg) }
        else t

/-- `HandleBdcTransferComplete`, without its message to the data model thread. -/
def handleBdcTransferComplete (k : Nat) (t : BdcThread) : Option (Document × BdcThread) :=
  match t.connections[k]? with
  | some (some bc) => some (bc, { t with connections := t.connections.set k none })
  | _ => none

/-! ## What the thread holds -/

variable {t t' : BdcThread}

/-- The documents of the thread, those in transfer first. -/
def held (t : BdcThread) : List Document := t.connections.reduceOption ++ t.messages

variable {k : Nat} {R : ReceiveAnswers}

theorem reduceOption_set_some {α : Type} {a : α} :
    ∀ {l : List (Option α)}, l[k]? = some none → ((l.set k (some a)).reduceOption).Perm
      (a :: l.reduceOption) := by
  induction k with
  | zero =>
    rintro (_ | ⟨o, l⟩) hk
    · simp at hk
    · simp only [List.getElem?_cons_zero, Option.some.injEq] at hk
      simp [hk]
  | succ k ih =>
    rintro (_ | ⟨o, l⟩) hk
    · simp at hk
    · have htail := ih (l := l) (by simpa using hk)
      cases o with
      | none => simpa using htail
      | some b => simpa using (htail.cons b).trans (List.Perm.swap a b _)

theorem reduceOption_set_none {α : Type} {a : α} :
    ∀ {l : List (Option α)}, l[k]? = some (some a) →
      l.reduceOption.Perm (a :: (l.set k none).reduceOption) := by
  induction k with
  | zero =>
    rintro (_ | ⟨o, l⟩) hk
    · simp at hk
    · simp only [List.getElem?_cons_zero, Option.some.injEq] at hk
      simp [hk]
  | succ k ih =>
    rintro (_ | ⟨o, l⟩) hk
    · simp at hk
    · have htail := ih (l := l) (by simpa using hk)
      cases o with
      | none => simpa using htail
      | some b => simpa using (htail.cons b).trans (List.Perm.swap a b _)

/-- A message is given up: it is not whole, finds no free connection slot, or its
transfer is not started. -/
def GivesUp (R : ReceiveAnswers) (t : BdcThread) : Prop :=
  R.fullMessage = false ∨ findFreeBdcConnection t = none ∨ R.startSendingReport = false

instance (R : ReceiveAnswers) (t : BdcThread) : Decidable (GivesUp R t) :=
  inferInstanceAs (Decidable (_ ∨ _ ∨ _))

theorem held_received (h : ¬ GivesUp R t) :
    (held (processBdcMessageQueueSocketActivity R t)).Perm (held t) := by
  simp only [GivesUp, not_or, Bool.not_eq_false] at h
  obtain ⟨hfull, hfree, hstart⟩ := h
  obtain ⟨k, hk⟩ := Option.ne_none_iff_exists'.mp hfree
  obtain ⟨hlt, hnone, -⟩ := List.findIdx?_eq_some_iff_getElem.mp hk
  have hslot : t.connections[k]? = some none := by
    rw [List.getElem?_eq_getElem hlt, Option.isNone_iff_eq_none.mp hnone]
  obtain ⟨messages, connections⟩ := t
  cases messages with
  | nil => rfl
  | cons msg messages =>
    have hk' : findFreeBdcConnection ⟨messages, connections⟩ = some k := hk
    simp only [processBdcMessageQueueSocketActivity, hfull, hk', hstart, held, if_true,
      Bool.true_eq_false, if_false]
    exact ((reduceOption_set_some hslot).append_right messages).trans List.perm_middle.symm

theorem given_up (h : GivesUp R t) :
    processBdcMessageQueueSocketActivity R t = { t with messages := t.messages.tail } := by
  obtain ⟨messages, connections⟩ := t
  cases messages with
  | nil => rfl
  | cons msg messages =>
    simp only [processBdcMessageQueueSocketActivity, List.tail_cons]
    rcases h with hfull | hfree | hstart
    · simp [hfull]
    · have hfree' : findFreeBdcConnection ⟨messages, connections⟩ = none := hfree
      simp [hfree']
    · cases findFreeBdcConnection ⟨messages, connections⟩ <;> simp [hstart]

theorem held_received_subset (R : ReceiveAnswers) (t : BdcThread) :
    held (processBdcMessageQueueSocketActivity R t) ⊆ held t := by
  by_cases h : GivesUp R t
  · rw [given_up h]
    exact List.append_subset.mpr ⟨List.subset_append_left _ _,
      List.Subset.trans (List.tail_subset _) (List.subset_append_right _ _)⟩
  · exact (held_received h).subset

theorem held_completed {bc : Document} (h : handleBdcTransferComplete k t = some (bc, t')) :
    (held t).Perm (bc :: held t') := by
  unfold handleBdcTransferComplete at h
  split at h
  · next hslot =>
    cases h
    exact (reduceOption_set_none hslot).append_right _
  · cases h

end BdcExec
