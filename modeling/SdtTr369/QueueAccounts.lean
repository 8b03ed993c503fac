import Mathlib.Data.List.Perm.Basic

/-!
# What becomes of the entries of a queue

A queue is served at its front and joined at its back. Some entries may jump to the
front, and entries may be dropped. Every entry pushed was popped, was dropped, or waits,
and those that do not jump leave in the order in which they came.
-/

namespace QueueAccounts

open List

variable {α : Type}

structure Accounts (inOrder : α → Bool) (pushed popped dropped queue : List α) : Prop where
  perm : pushed.Perm (popped ++ dropped ++ queue)
  order : ((popped ++ queue).filter inOrder).Sublist (pushed.filter inOrder)

namespace Accounts

variable {inOrder : α → Bool} {pushed popped dropped dropped' queue : List α} {a : α}

theorem nil : Accounts inOrder ([] : List α) [] [] [] := ⟨.refl _, .refl _⟩

theorem congr (h : Accounts inOrder pushed popped dropped queue) (hperm : dropped.Perm dropped') :
    Accounts inOrder pushed popped dropped' queue where
  perm := h.perm.trans ((hperm.append_left popped).append_right queue)
  order := h.order

theorem pushBack (h : Accounts inOrder pushed popped dropped queue) (a : α) :
    Accounts inOrder (pushed ++ [a]) popped dropped (queue ++ [a]) where
  perm := by
    rw [← append_assoc]
    exact h.perm.append_right [a]
  order := by
    rw [← append_assoc, filter_append (popped ++ queue), filter_append pushed]
    exact h.order.append_right _

theorem pushFront (h : Accounts inOrder pushed popped dropped queue) (ha : inOrder a = false) :
    Accounts inOrder (pushed ++ [a]) popped dropped (a :: queue) where
  perm := by
    have hlast : (pushed ++ [a]).Perm (popped ++ dropped ++ (queue ++ [a])) := by
      rw [← append_assoc]
      exact h.perm.append_right [a]
    exact hlast.trans ((perm_append_singleton a queue).append_left _)
  order := by
    have hsame : (popped ++ a :: queue).filter inOrder = (popped ++ queue).filter inOrder := by
      simp [ha]
    have hpushed : (pushed ++ [a]).filter inOrder = pushed.filter inOrder := by simp [ha]
    rw [hsame, hpushed]
    exact h.order

theorem pop (h : Accounts inOrder pushed popped dropped (a :: queue)) :
    Accounts inOrder pushed (popped ++ [a]) dropped queue where
  perm := by
    have hmove : (popped ++ dropped ++ a :: queue).Perm (popped ++ [a] ++ dropped ++ queue) := by
      simp only [append_assoc, singleton_append]
      exact List.perm_middle.append_left popped
    exact h.perm.trans hmove
  order := by simpa using h.order

/-- Entries are dropped wherever they are. -/
theorem drop (h : Accounts inOrder pushed popped dropped queue) (stale : α → Bool) :
    Accounts inOrder pushed popped (dropped ++ queue.filter stale) (queue.filter (! stale ·)) where
  perm := by
    rw [append_assoc, append_assoc, ← append_assoc popped]
    exact h.perm.trans ((filter_append_perm stale queue).symm.append_left _)
  order := by
    have hfewer := (filter_sublist (p := (! stale ·)) (l := queue)).append_left popped
    exact (hfewer.filter inOrder).trans h.order

theorem clear (h : Accounts inOrder pushed popped dropped queue) :
    Accounts inOrder pushed popped (dropped ++ queue) [] := by
  have hall := h.drop fun _ => true
  simpa using hall

end Accounts

end QueueAccounts
