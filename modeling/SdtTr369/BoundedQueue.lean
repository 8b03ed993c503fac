import Mathlib.Data.List.Basic

/-!
# A bounded queue

Messages are offered at the back of a queue of bounded length and taken at its front. An
offer is accepted where fewer messages wait than the queue can hold, and is dropped
otherwise. What was accepted, in order, is what was taken and then what waits.
-/

namespace BoundedQueue

open List

variable {α : Type} {capacity : Nat}

/-- A message with the number of messages that waited when it was offered. -/
structure Offer (α : Type) where
  msg : α
  waiting : Nat
  deriving DecidableEq

def accepted (capacity : Nat) (offers : List (Offer α)) : List α :=
  (offers.filter (·.waiting < capacity)).map (·.msg)

theorem accepted_append (offers offers' : List (Offer α)) :
    accepted capacity (offers ++ offers') = accepted capacity offers ++ accepted capacity offers' := by
  simp [accepted]

variable {a : α} {e : Offer α}

theorem accepted_room {n : Nat} (h : n < capacity) : accepted capacity [⟨a, n⟩] = [a] := by
  simp [accepted, h]

theorem accepted_full {n : Nat} (h : ¬ n < capacity) : accepted capacity [⟨a, n⟩] = [] := by
  simp [accepted, h]

structure Queue (α : Type) (capacity : Nat) where
  waiting : List α
  taken : List α
  offers : List (Offer α)
  room : waiting.length ≤ capacity
  account : accepted capacity offers = taken ++ waiting

namespace Queue

def empty : Queue α capacity := ⟨[], [], [], Nat.zero_le _, rfl⟩

/-- The queue after an offer, and whether it was accepted. -/
def offer (a : α) (q : Queue α capacity) : Bool × Queue α capacity :=
  if h : q.waiting.length < capacity then
    (true,
      { waiting := q.waiting ++ [a]
        taken := q.taken
        offers := q.offers ++ [⟨a, q.waiting.length⟩]
        room := by
          rw [length_append, length_singleton]
          exact h
        account := by
          rw [accepted_append, q.account, accepted_room h, append_assoc] })
  else
    (false,
      { q with
        offers := q.offers ++ [⟨a, q.waiting.length⟩]
        account := by rw [accepted_append, q.account, accepted_full h, append_nil] })

def offerAll (as : List α) (q : Queue α capacity) : Queue α capacity :=
  as.foldl (fun q a => (q.offer a).2) q

def take (q : Queue α capacity) : Option (α × Queue α capacity) :=
  match h : q.waiting with
  | [] => none
  | a :: rest => some (a,
      { waiting := rest
        taken := q.taken ++ [a]
        offers := q.offers
        room := by
          have hroom := q.room
          rw [h, length_cons] at hroom
          exact Nat.le_of_succ_le hroom
        account := by rw [q.account, h, append_assoc, singleton_append] })

variable (q : Queue α capacity)

theorem offer_fst (a : α) : (q.offer a).1 = decide (q.waiting.length < capacity) := by
  unfold offer
  split
  · next h => exact (decide_eq_true h).symm
  · next h => exact (decide_eq_false h).symm

@[simp] theorem offer_offers (a : α) :
    (q.offer a).2.offers = q.offers ++ [⟨a, q.waiting.length⟩] := by
  unfold offer
  split <;> rfl

@[simp] theorem offer_taken (a : α) : (q.offer a).2.taken = q.taken := by
  unfold offer
  split <;> rfl

theorem offerAll_taken (as : List α) : (q.offerAll as).taken = q.taken := by
  induction as generalizing q with
  | nil => rfl
  | cons a as ih => exact (ih _).trans (offer_taken q a)

/-- The offers that have been made since are those of the messages. -/
theorem offerAll_offers (as : List α) :
    ∃ es, (q.offerAll as).offers = q.offers ++ es ∧ es.map Offer.msg = as := by
  induction as generalizing q with
  | nil => exact ⟨[], (append_nil _).symm, rfl⟩
  | cons a as ih =>
    obtain ⟨es, hoffers, hmsgs⟩ := ih (q.offer a).2
    refine ⟨⟨a, q.waiting.length⟩ :: es, ?_, congrArg _ hmsgs⟩
    change ((q.offer a).2.offerAll as).offers = _
    rw [hoffers, offer_offers, append_assoc]
    rfl

theorem take_eq_none : q.take = none ↔ q.waiting = [] := by
  unfold take
  split <;> simp_all

theorem take_eq_some {q q' : Queue α capacity} (h : q.take = some (a, q')) :
    q.waiting = a :: q'.waiting ∧ q'.taken = q.taken ++ [a] ∧ q'.offers = q.offers := by
  unfold take at h
  split at h
  · cases h
  · next hwaiting =>
    cases h
    exact ⟨hwaiting, rfl, rfl⟩

end Queue

/-! ## The latest offer of a kind -/

def latest (p : α → Bool) (offers : List (Offer α)) : Option (Offer α) :=
  (offers.filter (p ·.msg)).getLast?

variable {p : α → Bool} {offers es : List (Offer α)}

theorem latest_append : latest p (offers ++ es) = (latest p es).or (latest p offers) := by
  rw [latest, filter_append, getLast?_append]
  rfl

/-- No message of the kind is among those offered since. -/
theorem latest_other (h : (es.map Offer.msg).filter p = []) :
    latest p (offers ++ es) = latest p offers := by
  have hnone : es.filter (p ·.msg) = [] := by simpa [filter_map, Function.comp_def] using h
  rw [latest_append, latest, hnone]
  rfl

/-- Just one message of the kind is among those offered since. -/
theorem latest_single (offers : List (Offer α)) (h : (es.map Offer.msg).filter p = [a]) :
    ∃ e, latest p (offers ++ es) = some e ∧ e.msg = a := by
  rw [filter_map] at h
  obtain ⟨e, hes, hmsg⟩ := List.map_eq_singleton_iff.mp h
  refine ⟨e, ?_, hmsg⟩
  have hsame : es.filter (p ·.msg) = [e] := hes
  rw [latest_append, latest, hsame]
  rfl

/-- An accepted offer that is the latest of its kind is the last of its kind that was
taken or waits. -/
theorem latest_accepted (h : latest p offers = some e) (he : e.waiting < capacity) :
    ((accepted capacity offers).filter p).getLast? = some e.msg := by
  obtain ⟨before, hbefore⟩ := List.getLast?_eq_some_iff.mp h
  have hcommute : (accepted capacity offers).filter p =
      accepted capacity (offers.filter (p ·.msg)) := by
    simp only [accepted, filter_map, filter_filter, Function.comp_def, Bool.and_comm]
  rw [hcommute, hbefore, accepted_append]
  simp [accepted, he]

theorem latest_mem (h : latest p offers = some e) : e ∈ offers ∧ p e.msg :=
  List.mem_filter.mp (mem_of_getLast? h)

theorem latest_isSome (h : (latest p offers).isSome) (es : List (Offer α)) :
    (latest p (offers ++ es)).isSome := by
  simp [latest_append, h]

theorem latest_isSome_of_last (he : p e.msg) : (latest p (offers ++ [e])).isSome := by
  simp [latest, he]

/-- A message that is the last of its kind waits, or is the last that was taken. -/
theorem last_waits_or_taken {taken waiting : List α}
    (h : ((taken ++ waiting).filter p).getLast? = some a) :
    a ∈ waiting ∨ (taken.filter p).getLast? = some a := by
  rw [filter_append, getLast?_append, Option.or_eq_some_iff] at h
  rcases h with hwaiting | ⟨-, htaken⟩
  · exact .inl (mem_of_mem_filter (mem_of_getLast? hwaiting))
  · exact .inr htaken

end BoundedQueue
