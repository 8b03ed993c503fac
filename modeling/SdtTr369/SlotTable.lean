import Mathlib.Data.List.ReduceOption
import Mathlib.Data.List.Nodup

/-!
# Arrays of slots

A fixed array holds entries in some of its slots, each with a key. Searches go from the
first slot on and take the first entry they want. An entry is replaced or removed in the
slot where its key is found first, and a new one goes into the first slot that is free.
-/

namespace SlotTable

open List Option

section Search

variable {α β : Type}

/-- The first answer a used slot gives. -/
def first (f : α → Option β) (slots : List (Option α)) : Option β := slots.findSome? (·.bind f)

@[simp] theorem first_nil (f : α → Option β) : first f [] = none := rfl

@[simp] theorem first_free (f : α → Option β) (slots : List (Option α)) :
    first f (none :: slots) = first f slots := rfl

@[simp] theorem first_used (f : α → Option β) (a : α) (slots : List (Option α)) :
    first f (some a :: slots) = (f a).or (first f slots) := by
  cases h : f a <;> simp [first, h]

end Search

variable {α β : Type} (key : α → Nat)

def find (i : Nat) (slots : List (Option α)) : Option α :=
  first (fun a => if key a = i then some a else none) slots

def replace (i : Nat) (new : Option α) : List (Option α) → List (Option α)
  | [] => []
  | none :: slots => none :: replace i new slots
  | some a :: slots => if key a = i then new :: slots else some a :: replace i new slots

/-- The array with a new entry, where a slot is free. -/
def put (a : α) : List (Option α) → Option (List (Option α))
  | [] => none
  | none :: slots => some (some a :: slots)
  | some b :: slots => (put a slots).map (some b :: ·)

def keys (slots : List (Option α)) : List Nat := slots.reduceOption.map key

variable {key} {i k : Nat} {a b : α} {new : Option α} {slots slots' : List (Option α)}
  {f : α → Option β}

@[simp] theorem find_nil : find key i [] = none := rfl

@[simp] theorem find_free : find key i (none :: slots) = find key i slots := rfl

theorem find_used : find key i (some a :: slots) = if key a = i then some a else find key i slots := by
  rw [find, first_used]
  split <;> rfl

@[simp] theorem keys_nil : keys key [] = [] := rfl

@[simp] theorem keys_free : keys key (none :: slots) = keys key slots := rfl

@[simp] theorem keys_used : keys key (some a :: slots) = key a :: keys key slots := rfl

theorem replace_free : replace key i new (none :: slots) = none :: replace key i new slots := rfl

theorem replace_used :
    replace key i new (some a :: slots) =
      if key a = i then new :: slots else some a :: replace key i new slots := rfl

@[simp] theorem put_nil : put a [] = none := rfl

@[simp] theorem put_free : put a (none :: slots) = some (some a :: slots) := rfl

@[simp] theorem put_used : put a (some b :: slots) = (put a slots).map (some b :: ·) := rfl

theorem key_of_find (h : find key i slots = some a) : key a = i := by
  induction slots with
  | nil => simp at h
  | cons o slots ih =>
    cases o with
    | none => exact ih h
    | some b =>
      rw [find_used] at h
      split at h
      · obtain rfl := Option.some.inj h
        assumption
      · exact ih h

theorem mem_of_find (h : find key i slots = some a) : a ∈ slots.reduceOption := by
  induction slots with
  | nil => simp at h
  | cons o slots ih =>
    cases o with
    | none => exact ih h
    | some b =>
      rw [find_used] at h
      rw [reduceOption_cons_of_some, mem_cons]
      split at h
      · exact .inl (Option.some.inj h).symm
      · exact .inr (ih h)

theorem mem_keys_iff : i ∈ keys key slots ↔ ∃ a, find key i slots = some a := by
  induction slots with
  | nil => simp
  | cons o slots ih =>
    cases o with
    | none => exact ih
    | some b =>
      rw [keys_used, mem_cons, ih, find_used]
      by_cases hb : key b = i
      · simp [hb]
      · simp [hb, Ne.symm hb]

theorem find_eq_none_iff : find key i slots = none ↔ i ∉ keys key slots := by
  rw [mem_keys_iff, not_exists, eq_none_iff_forall_not_mem]
  rfl

section Replace

@[simp] theorem length_replace : (replace key i new slots).length = slots.length := by
  induction slots with
  | nil => rfl
  | cons o slots ih =>
    cases o with
    | none => simpa [replace_free] using ih
    | some b =>
      rw [replace_used]
      split
      · rfl
      · simpa using ih

/-- A search that wants neither the old nor the new entry finds what it found. -/
theorem first_replace (hfind : find key i slots = some a) (ha : f a = none)
    (hnew : new.bind f = none) : first f (replace key i new slots) = first f slots := by
  induction slots with
  | nil => rfl
  | cons o slots ih =>
    cases o with
    | none => exact ih hfind
    | some b =>
      rw [find_used] at hfind
      rw [replace_used]
      split
      · rename_i hb
        obtain rfl : b = a := by simpa [hb] using hfind
        cases new with
        | none => simp [ha]
        | some c =>
          have hc : f c = none := hnew
          simp [ha, hc]
      · rename_i hb
        rw [if_neg hb] at hfind
        rw [first_used, first_used, ih hfind]

theorem keys_replace_some (hfind : find key i slots = some a) (hb : key b = i) :
    keys key (replace key i (some b) slots) = keys key slots := by
  induction slots with
  | nil => rfl
  | cons o slots ih =>
    cases o with
    | none => exact ih hfind
    | some c =>
      rw [find_used] at hfind
      rw [replace_used]
      split
      · rename_i hc
        rw [keys_used, keys_used, hb, hc]
      · rename_i hc
        rw [if_neg hc] at hfind
        rw [keys_used, keys_used, ih hfind]

theorem keys_replace_none : (keys key (replace key i none slots)).Sublist (keys key slots) := by
  induction slots with
  | nil => exact List.Sublist.refl _
  | cons o slots ih =>
    cases o with
    | none => exact ih
    | some c =>
      rw [replace_used]
      split
      · exact sublist_cons_self _ _
      · exact ih.cons_cons _

theorem find_replace_some (hfind : find key i slots = some a) (hb : key b = i) :
    find key k (replace key i (some b) slots) = if k = i then some b else find key k slots := by
  induction slots with
  | nil => simp at hfind
  | cons o slots ih =>
    cases o with
    | none => exact ih hfind
    | some c =>
      rw [find_used] at hfind
      rw [replace_used, find_used]
      by_cases hc : key c = i
      · rw [if_pos hc, find_used, hb, hc]
        by_cases hk : k = i
        · simp [hk]
        · simp [hk, Ne.symm hk]
      · rw [if_neg hc] at hfind ⊢
        rw [find_used, ih hfind]
        by_cases hk : k = i
        · subst hk
          simp [hc]
        · simp [hk]

theorem find_replace_none (hnodup : (keys key slots).Nodup) :
    find key k (replace key i none slots) = if k = i then none else find key k slots := by
  induction slots with
  | nil => split <;> rfl
  | cons o slots ih =>
    cases o with
    | none => exact ih hnodup
    | some c =>
      rw [keys_used, nodup_cons] at hnodup
      rw [replace_used, find_used]
      by_cases hc : key c = i
      · rw [if_pos hc, find_free]
        by_cases hk : k = i
        · rw [if_pos hk, hk, find_eq_none_iff, ← hc]
          exact hnodup.1
        · rw [if_neg hk, if_neg (by omega)]
      · rw [if_neg hc, find_used, ih hnodup.2]
        by_cases hk : k = i
        · subst hk
          simp [hc]
        · simp [hk]

/-- The other keys are found where they were. -/
theorem find_replace_of_ne (hk : k ≠ i) (hnew : ∀ b, new = some b → key b = i) :
    find key k (replace key i new slots) = find key k slots := by
  induction slots with
  | nil => rfl
  | cons o slots ih =>
    cases o with
    | none => exact ih
    | some c =>
      rw [replace_used]
      by_cases hc : key c = i
      · rw [if_pos hc, find_used, if_neg (by omega)]
        cases new with
        | none => rfl
        | some b => rw [find_used, hnew b rfl, if_neg (Ne.symm hk)]
      · rw [if_neg hc, find_used, find_used, ih]

end Replace

section Indices

/-- The index of a slot, where the library goes by the slot itself. -/
def indexOf (key : α → Nat) (i : Nat) (slots : List (Option α)) : Option Nat :=
  slots.findIdx? fun slot => slot.any fun a => key a = i

theorem indexOf_free : indexOf key i (none :: slots) = (indexOf key i slots).map (· + 1) := by
  simp [indexOf, findIdx?_cons]

theorem indexOf_used :
    indexOf key i (some a :: slots) = if key a = i then some 0 else (indexOf key i slots).map (· + 1) := by
  simp [indexOf, findIdx?_cons]

theorem find_eq_indexOf : find key i slots = (indexOf key i slots).bind fun n => slots[n]?.join := by
  induction slots with
  | nil => rfl
  | cons o slots ih =>
    cases o with
    | none =>
      rw [find_free, ih, indexOf_free, bind_map]
      rfl
    | some a =>
      rw [find_used, ih, indexOf_used]
      split
      · rfl
      · rw [bind_map]
        rfl

theorem find_of_indexOf {n : Nat} (h : indexOf key i slots = some n) :
    ∃ a, find key i slots = some a := by
  induction slots generalizing n with
  | nil => simp [indexOf] at h
  | cons o slots ih =>
    cases o with
    | none =>
      rw [indexOf_free, map_eq_some_iff] at h
      obtain ⟨m, hm, -⟩ := h
      exact ih hm
    | some a =>
      rw [find_used]
      by_cases ha : key a = i
      · exact ⟨a, if_pos ha⟩
      · rw [indexOf_used, if_neg ha, map_eq_some_iff] at h
        obtain ⟨m, hm, -⟩ := h
        rw [if_neg ha]
        exact ih hm

theorem set_indexOf {n : Nat} (h : indexOf key i slots = some n) :
    slots.set n new = replace key i new slots := by
  induction slots generalizing n with
  | nil => simp [indexOf] at h
  | cons o slots ih =>
    cases o with
    | none =>
      rw [indexOf_free, map_eq_some_iff] at h
      obtain ⟨m, hm, rfl⟩ := h
      rw [replace_free, ← ih hm]
      rfl
    | some a =>
      rw [indexOf_used] at h
      by_cases ha : key a = i
      · obtain rfl : 0 = n := by simpa [ha] using h
        rw [replace_used, if_pos ha]
        rfl
      · rw [if_neg ha, map_eq_some_iff] at h
        obtain ⟨m, hm, rfl⟩ := h
        rw [replace_used, if_neg ha, ← ih hm]
        rfl

theorem put_of_findIdx {n : Nat} (h : slots.findIdx? (·.isNone) = some n) :
    put a slots = some (slots.set n (some a)) := by
  induction slots generalizing n with
  | nil => simp at h
  | cons o slots ih =>
    rw [findIdx?_cons] at h
    cases o with
    | none =>
      obtain rfl : n = 0 := by simpa [eq_comm] using h
      rfl
    | some b =>
      simp only [isNone_some, Bool.false_eq_true, if_false, map_eq_some_iff] at h
      obtain ⟨m, hm, rfl⟩ := h
      rw [put_used, ih hm]
      rfl

end Indices

section Put

theorem length_put (h : put a slots = some slots') : slots'.length = slots.length := by
  induction slots generalizing slots' with
  | nil => simp at h
  | cons o slots ih =>
    cases o with
    | none =>
      obtain rfl := Option.some.inj h
      rfl
    | some b =>
      rw [put_used, map_eq_some_iff] at h
      obtain ⟨rest, hrest, rfl⟩ := h
      simpa using ih hrest

theorem first_put (h : put a slots = some slots') (ha : f a = none) :
    first f slots' = first f slots := by
  induction slots generalizing slots' with
  | nil => simp at h
  | cons o slots ih =>
    cases o with
    | none =>
      obtain rfl := Option.some.inj h
      simp [ha]
    | some b =>
      rw [put_used, map_eq_some_iff] at h
      obtain ⟨rest, hrest, rfl⟩ := h
      rw [first_used, first_used, ih hrest]

theorem keys_put (h : put a slots = some slots') :
    (keys key slots').Perm (key a :: keys key slots) := by
  induction slots generalizing slots' with
  | nil => simp at h
  | cons o slots ih =>
    cases o with
    | none =>
      obtain rfl := Option.some.inj h
      exact List.Perm.refl _
    | some b =>
      rw [put_used, map_eq_some_iff] at h
      obtain ⟨rest, hrest, rfl⟩ := h
      rw [keys_used, keys_used]
      exact ((ih hrest).cons _).trans (List.Perm.swap _ _ _)

theorem find_put (h : put a slots = some slots') (hnew : find key (key a) slots = none) :
    find key k slots' = if k = key a then some a else find key k slots := by
  induction slots generalizing slots' with
  | nil => simp at h
  | cons o slots ih =>
    cases o with
    | none =>
      obtain rfl := Option.some.inj h
      rw [find_used, find_free]
      by_cases hk : k = key a
      · simp [hk]
      · simp [hk, Ne.symm hk]
    | some b =>
      rw [put_used, map_eq_some_iff] at h
      obtain ⟨rest, hrest, rfl⟩ := h
      rw [find_used] at hnew
      by_cases hb : key b = key a
      · simp [hb] at hnew
      · rw [if_neg hb] at hnew
        rw [find_used, find_used, ih hrest hnew]
        by_cases hk : k = key a
        · subst hk
          simp [hb]
        · simp [hk]

theorem put_eq_none_iff : put a slots = none ↔ slots.any (·.isNone) = false := by
  induction slots with
  | nil => simp
  | cons o slots ih =>
    cases o with
    | none => simp
    | some b => simpa using ih

/-- Without a free slot there are as many keys as slots. -/
theorem length_keys (h : slots.any (·.isNone) = false) : (keys key slots).length = slots.length := by
  induction slots with
  | nil => rfl
  | cons o slots ih =>
    cases o with
    | none => simp at h
    | some b =>
      rw [any_cons, isNone_some, Bool.false_or] at h
      simpa using ih h

end Put

end SlotTable
