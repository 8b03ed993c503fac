import Mathlib.Algebra.Group.Int.Defs
import Mathlib.Algebra.Ring.Nat
import Mathlib.Data.List.Nodup
import Mathlib.Logic.Function.Iterate

/-!
# The vector of sync timers

All timers of `sync_timer.c`, each with its callback. `SYNC_TIMER_Execute` walks the vector
by index while the callbacks add, reload and remove timers of it.
-/

namespace TimerVector

open List Option

variable {γ : Type} [DecidableEq γ]

/-! ## The code -/

/-- What identifies a timer, `none` for a callback that is NULL. -/
abbrev Key (γ : Type) := Option γ × Int

/-- `sync_timer_t`. No timer has a callback that is NULL. -/
structure Timer (γ : Type) where
  timerCb : γ
  id : Int
  nextTimeout : Int
  enabled : Bool
  deriving DecidableEq, Repr

def Timer.key (st : Timer γ) : Key γ := (some st.timerCb, st.id)

/-- `sync_timers` and `first_sync_timer_time`. -/
structure SyncTimers (γ : Type) where
  vector : List (Timer γ)
  firstSyncTimerTime : Int
  deriving DecidableEq, Repr

/-- `END_OF_TIME`. -/
def endOfTime : Int := 2 ^ 31 - 1

/-- `SYNC_TIMER_Init`. -/
def syncTimerInit : SyncTimers γ := ⟨[], endOfTime⟩

/-- `FindSyncTimer`. -/
def findSyncTimer (k : Key γ) (vector : List (Timer γ)) : Option Nat :=
  vector.findIdx? fun st => st.key = k

/-- One turn of the loop of `UpdateFirstSyncTimerTime`. -/
def earlier (first : Int) (st : Timer γ) : Int :=
  if st.enabled = false then first
  else if st.nextTimeout < first then st.nextTimeout else first

/-- The loop of `UpdateFirstSyncTimerTime`. -/
def firstTime (vector : List (Timer γ)) : Int := vector.foldl earlier endOfTime

/-- `UpdateFirstSyncTimerTime`. -/
def updateFirstSyncTimerTime (s : SyncTimers γ) : SyncTimers γ :=
  { s with firstSyncTimerTime := firstTime s.vector }

/-- `SYNC_TIMER_Add`; `none` is an error. -/
def syncTimerAdd (k : Key γ) (callbackTime : Int) (s : SyncTimers γ) : Option (SyncTimers γ) :=
  match k.1 with
  | none => none
  | some timerCb =>
    match findSyncTimer k s.vector with
    | some _ => none
    | none => some (updateFirstSyncTimerTime
        { s with vector := s.vector ++ [⟨timerCb, k.2, callbackTime, true⟩] })

/-- `SYNC_TIMER_Reload`. -/
def syncTimerReload (k : Key γ) (callbackTime : Int) (s : SyncTimers γ) :
    Option (SyncTimers γ) :=
  (findSyncTimer k s.vector).map fun i => updateFirstSyncTimerTime { s with
    vector := s.vector.modify i fun st => { st with enabled := true, nextTimeout := callbackTime } }

/-- `SYNC_TIMER_Remove`. -/
def syncTimerRemove (k : Key γ) (s : SyncTimers γ) : Option (SyncTimers γ) :=
  (findSyncTimer k s.vector).map fun i =>
    updateFirstSyncTimerTime { s with vector := s.vector.eraseIdx i }

/-- The calls that change the timers. -/
inductive TimerOp (γ : Type) where
  | add (k : Key γ) (callbackTime : Int)
  | reload (k : Key γ) (callbackTime : Int)
  | remove (k : Key γ)
  deriving DecidableEq, Repr

/-- The callers go on after a call that fails. -/
def TimerOp.run (s : SyncTimers γ) : TimerOp γ → SyncTimers γ
  | .add k callbackTime => (syncTimerAdd k callbackTime s).getD s
  | .reload k callbackTime => (syncTimerReload k callbackTime s).getD s
  | .remove k => (syncTimerRemove k s).getD s

/-- A callback that was called, and the calls that it made. -/
structure Turn (γ : Type) where
  key : Key γ
  ops : List (TimerOp γ)
  deriving DecidableEq, Repr

/-- The loop of `SYNC_TIMER_Execute`, with the calls that the callbacks to come will make. -/
structure Walk (γ : Type) where
  i : Nat
  timers : SyncTimers γ
  script : List (List (TimerOp γ))
  turns : List (Turn γ)
  deriving DecidableEq, Repr

def disable (st : Timer γ) : Timer γ := { st with enabled := false }

def Due (curTime : Int) (st : Timer γ) : Prop := st.enabled ∧ st.nextTimeout ≤ curTime

instance (curTime : Int) (st : Timer γ) : Decidable (Due curTime st) :=
  inferInstanceAs (Decidable (_ ∧ _))

/-- The timer at the index fires. It is disabled before its callback is called. -/
def callBack (w : Walk γ) (st : Timer γ) : Walk γ where
  i := w.i + 1
  timers := (w.script.headD []).foldl TimerOp.run
    { w.timers with vector := w.timers.vector.modify w.i disable }
  script := w.script.tail
  turns := w.turns ++ [⟨st.key, w.script.headD []⟩]

/-- One turn of the loop of `SYNC_TIMER_Execute`; nothing happens behind the last timer. -/
def walkStep (curTime : Int) (w : Walk γ) : Walk γ :=
  match w.timers.vector[w.i]? with
  | none => w
  | some st => if Due curTime st then callBack w st else { w with i := w.i + 1 }

def walkStart (script : List (List (TimerOp γ))) (s : SyncTimers γ) : Walk γ := ⟨0, s, script, []⟩

/-- More turns than the loop takes: each call adds one timer at most. -/
def turnsLeft (w : Walk γ) : Nat :=
  w.timers.vector.length - w.i + (w.script.map List.length).sum

/-- The loop of `SYNC_TIMER_Execute` to its end. -/
def walk (curTime : Int) (script : List (List (TimerOp γ))) (s : SyncTimers γ) : Walk γ :=
  (walkStep curTime)^[turnsLeft (walkStart script s)] (walkStart script s)

/-- `SYNC_TIMER_Execute`, with the callbacks that it made. -/
def syncTimerExecute (curTime : Int) (script : List (List (TimerOp γ))) (s : SyncTimers γ) :
    SyncTimers γ × List (Turn γ) :=
  if curTime < s.firstSyncTimerTime then (s, [])
  else (updateFirstSyncTimerTime (walk curTime script s).timers, (walk curTime script s).turns)

/-! ## Keys -/

variable {op : TimerOp γ} {j : Nat}

section Keys

variable {k : Key γ} {v : List (Timer γ)}

def keys (v : List (Timer γ)) : List (Key γ) := v.map Timer.key

/-- What a call makes of the keys. -/
def TimerOp.onKeys (ks : List (Key γ)) : TimerOp γ → List (Key γ)
  | .add k _ => if k.1 = none ∨ k ∈ ks then ks else ks ++ [k]
  | .reload _ _ => ks
  | .remove k => ((ks.findIdx? fun k' => k' = k).map ks.eraseIdx).getD ks

theorem findSyncTimer_eq : findSyncTimer k v = (keys v).findIdx? fun k' => k' = k := by
  rw [findSyncTimer, keys, findIdx?_map]
  rfl

theorem findSyncTimer_eq_none : findSyncTimer k v = none ↔ k ∉ keys v := by
  rw [findSyncTimer_eq, findIdx?_eq_none_iff]
  simp only [decide_eq_false_iff_not]
  exact ⟨fun h hk => h k hk rfl, fun h k' hk' heq => h (heq ▸ hk')⟩

/-- The timer at the index that was found. -/
theorem findSyncTimer_some {i : Nat} (h : findSyncTimer k v = some i) :
    ∃ st, v[i]? = some st ∧ st.key = k := by
  obtain ⟨hlt, hkey, -⟩ := List.findIdx?_eq_some_iff_getElem.mp h
  exact ⟨v[i], getElem?_eq_getElem hlt, of_decide_eq_true hkey⟩

omit [DecidableEq γ] in
theorem keys_modify (v : List (Timer γ)) (i : Nat) {f : Timer γ → Timer γ}
    (hf : ∀ st, (f st).key = st.key) : keys (v.modify i f) = keys v := by
  apply ext_getElem?
  intro j
  simp only [keys, getElem?_map, getElem?_modify]
  split
  · cases v[j]? <;> simp [hf]
  · cases v[j]? <;> simp

omit [DecidableEq γ] in
theorem keys_eraseIdx (v : List (Timer γ)) (i : Nat) : keys (v.eraseIdx i) = (keys v).eraseIdx i := by
  apply ext_getElem?
  intro j
  simp only [keys, getElem?_map, getElem?_eraseIdx]
  split <;> rfl

omit [DecidableEq γ] in
@[simp] theorem update_vector (s : SyncTimers γ) :
    (updateFirstSyncTimerTime s).vector = s.vector := rfl

/-- The keys after a call depend on the keys before it only. -/
theorem run_keys (s : SyncTimers γ) (op : TimerOp γ) :
    keys (op.run s).vector = op.onKeys (keys s.vector) := by
  cases op with
  | add k t =>
    obtain ⟨cb, id⟩ := k
    cases cb with
    | none => simp [TimerOp.run, syncTimerAdd, TimerOp.onKeys]
    | some cb =>
      simp only [TimerOp.run, syncTimerAdd, TimerOp.onKeys, reduceCtorEq, false_or]
      cases hfind : findSyncTimer (some cb, id) s.vector with
      | none =>
        rw [if_neg (findSyncTimer_eq_none.mp hfind)]
        simp [keys, Timer.key]
      | some i =>
        rw [if_pos (by by_contra h; simp [findSyncTimer_eq_none.mpr h] at hfind)]
        rfl
  | reload k t =>
    simp only [TimerOp.run, syncTimerReload, TimerOp.onKeys]
    cases findSyncTimer k s.vector with
    | none => rfl
    | some i => exact keys_modify _ _ fun _ => rfl
  | remove k =>
    simp only [TimerOp.run, syncTimerRemove, TimerOp.onKeys, ← findSyncTimer_eq]
    cases findSyncTimer k s.vector with
    | none => rfl
    | some i => exact keys_eraseIdx _ _

variable {ks : List (Key γ)}

theorem onKeys_nodup (h : ks.Nodup) (op : TimerOp γ) : (op.onKeys ks).Nodup := by
  cases op with
  | add k t =>
    simp only [TimerOp.onKeys]
    split
    · exact h
    · rename_i hnew
      exact List.nodup_append.mpr ⟨h, nodup_singleton k, fun a ha b hb heq =>
        hnew (.inr (List.mem_singleton.mp hb ▸ heq ▸ ha))⟩
  | reload k t => exact h
  | remove k =>
    simp only [TimerOp.onKeys]
    cases ks.findIdx? fun k' => k' = k with
    | none => exact h
    | some i => exact h.sublist (eraseIdx_sublist ks i)

/-- A key that is not removed stays, at its own place or an earlier one. -/
theorem onKeys_keeps (hop : op ≠ .remove k) (h : ks[j]? = some k) :
    ∃ j', j' ≤ j ∧ (op.onKeys ks)[j']? = some k := by
  cases op with
  | add k' t =>
    simp only [TimerOp.onKeys]
    split
    · exact ⟨j, Nat.le_refl j, h⟩
    · rw [← getElem?_append_left (List.getElem?_eq_some_iff.mp h).1] at h
      exact ⟨j, Nat.le_refl j, h⟩
  | reload k' t => exact ⟨j, Nat.le_refl j, h⟩
  | remove k' =>
    simp only [TimerOp.onKeys]
    cases hfind : ks.findIdx? fun k'' => k'' = k' with
    | none => exact ⟨j, Nat.le_refl j, h⟩
    | some i =>
      obtain ⟨hlt, hkey, -⟩ := List.findIdx?_eq_some_iff_getElem.mp hfind
      have hij : i ≠ j := by
        rintro rfl
        rw [getElem?_eq_getElem hlt, of_decide_eq_true hkey, Option.some.injEq] at h
        exact hop (congrArg TimerOp.remove h)
      rw [map_some, getD_some]
      rcases Nat.lt_or_ge j i with hlt | hge
      · exact ⟨j, Nat.le_refl j, by rw [getElem?_eraseIdx_of_lt hlt]; exact h⟩
      · refine ⟨j - 1, by omega, ?_⟩
        rw [getElem?_eraseIdx_of_ge (by omega), Nat.sub_add_cancel (by omega)]
        exact h

/-- A key comes from its own place or a later one, unless it is added. -/
theorem onKeys_from (hop : ∀ t, op ≠ .add k t) (h : (op.onKeys ks)[j]? = some k) :
    ∃ j', j ≤ j' ∧ ks[j']? = some k := by
  cases op with
  | add k' t =>
    simp only [TimerOp.onKeys] at h
    split at h
    · exact ⟨j, Nat.le_refl j, h⟩
    · rw [getElem?_append] at h
      split at h
      · exact ⟨j, Nat.le_refl j, h⟩
      · rw [getElem?_singleton] at h
        split at h
        · cases h
          exact absurd rfl (hop t)
        · cases h
  | reload k' t => exact ⟨j, Nat.le_refl j, h⟩
  | remove k' =>
    simp only [TimerOp.onKeys] at h
    cases hfind : ks.findIdx? fun k'' => k'' = k' with
    | none =>
      rw [hfind] at h
      exact ⟨j, Nat.le_refl j, h⟩
    | some i =>
      rw [hfind, map_some, getD_some, getElem?_eraseIdx] at h
      split at h
      · exact ⟨j, Nat.le_refl j, h⟩
      · exact ⟨j + 1, Nat.le_succ j, h⟩

end Keys

/-! ## What calls do to a timer -/

section Timers

variable {k : Key γ} {s : SyncTimers γ} {st : Timer γ} {curTime : Int}

/-- The call does not remove the timer, nor put it off. -/
def TimerOp.Spares (curTime : Int) (k : Key γ) : TimerOp γ → Prop
  | .add _ _ => True
  | .reload k' t => k' = k → t ≤ curTime
  | .remove k' => k' ≠ k

/-- A spared timer stays due, at its own place or an earlier one. -/
theorem run_spares (hop : op.Spares curTime k) (hst : s.vector[j]? = some st) (hk : st.key = k)
    (hdue : Due curTime st) :
    ∃ j' st', j' ≤ j ∧ (op.run s).vector[j']? = some st' ∧ st'.key = k ∧ Due curTime st' := by
  have hkept : ∀ s' : SyncTimers γ, s'.vector[j]? = some st → ∃ j' st', j' ≤ j ∧
      s'.vector[j']? = some st' ∧ st'.key = k ∧ Due curTime st' :=
    fun s' h => ⟨j, st, Nat.le_refl j, h, hk, hdue⟩
  cases op with
  | add k' t =>
    obtain ⟨cb, id⟩ := k'
    cases cb with
    | none => exact hkept s hst
    | some cb =>
      simp only [TimerOp.run, syncTimerAdd]
      cases findSyncTimer (some cb, id) s.vector with
      | some i => exact hkept s hst
      | none =>
        refine hkept _ ?_
        have hlt := (List.getElem?_eq_some_iff.mp hst).1
        rw [getD_some, update_vector, getElem?_append_left hlt]
        exact hst
  | reload k' t =>
    simp only [TimerOp.run, syncTimerReload]
    cases hfind : findSyncTimer k' s.vector with
    | none => exact hkept s hst
    | some i =>
      obtain ⟨st', hst', hk'⟩ := findSyncTimer_some hfind
      by_cases hij : i = j
      · subst hij
        rw [hst, Option.some.injEq] at hst'
        subst hst'
        refine ⟨i, { st with enabled := true, nextTimeout := t }, Nat.le_refl i, ?_, hk, rfl, ?_⟩
        · simp [hst]
        · exact hop (hk'.symm.trans hk)
      · exact hkept _ ((getElem?_modify_ne _ _ hij).trans hst)
  | remove k' =>
    simp only [TimerOp.run, syncTimerRemove]
    cases hfind : findSyncTimer k' s.vector with
    | none => exact hkept s hst
    | some i =>
      obtain ⟨st', hst', hk'⟩ := findSyncTimer_some hfind
      have hij : i ≠ j := by
        rintro rfl
        rw [hst, Option.some.injEq] at hst'
        exact hop (hk'.symm.trans ((congrArg Timer.key hst').symm.trans hk))
      rw [map_some, getD_some, update_vector]
      rcases Nat.lt_or_ge j i with hlt | hge
      · exact ⟨j, st, Nat.le_refl j, by rw [getElem?_eraseIdx_of_lt hlt]; exact hst, hk, hdue⟩
      · refine ⟨j - 1, st, by omega, ?_, hk, hdue⟩
        rw [getElem?_eraseIdx_of_ge (by omega), Nat.sub_add_cancel (by omega)]
        exact hst

/-- The time with which a call loads the timer. -/
def TimerOp.Loads (k : Key γ) (t : Int) (op : TimerOp γ) : Prop := op = .add k t ∨ op = .reload k t

/-- A timer after a call was there before it, or has been loaded by it. -/
theorem run_from (h : st ∈ (op.run s).vector) : st ∈ s.vector ∨ op.Loads st.key st.nextTimeout := by
  cases op with
  | add k' t =>
    obtain ⟨cb, id⟩ := k'
    cases cb with
    | none => exact .inl h
    | some cb =>
      simp only [TimerOp.run, syncTimerAdd] at h
      cases hfind : findSyncTimer (some cb, id) s.vector with
      | some i =>
        rw [hfind] at h
        exact .inl h
      | none =>
        rw [hfind, getD_some, update_vector, mem_append, mem_singleton] at h
        rcases h with h | rfl
        · exact .inl h
        · exact .inr (.inl rfl)
  | reload k' t =>
    simp only [TimerOp.run, syncTimerReload] at h
    cases hfind : findSyncTimer k' s.vector with
    | none =>
      rw [hfind] at h
      exact .inl h
    | some i =>
      obtain ⟨st', hst', rfl⟩ := findSyncTimer_some hfind
      rw [hfind, map_some, getD_some, update_vector, mem_iff_getElem?] at h
      obtain ⟨j, hj⟩ := h
      by_cases hij : i = j
      · subst hij
        rw [getElem?_modify_eq, hst'] at hj
        cases hj
        exact .inr (.inr rfl)
      · exact .inl (mem_of_getElem? ((getElem?_modify_ne _ _ hij).symm.trans hj))
  | remove k' =>
    simp only [TimerOp.run, syncTimerRemove] at h
    cases hfind : findSyncTimer k' s.vector with
    | none =>
      rw [hfind] at h
      exact .inl h
    | some i =>
      rw [hfind, map_some, getD_some, update_vector] at h
      exact .inl (mem_of_mem_eraseIdx h)

/-- The timer that a call is about. -/
def TimerOp.key : TimerOp γ → Key γ
  | .add k _ => k
  | .reload k _ => k
  | .remove k => k

/-- Calls about other timers leave a timer as it is. -/
theorem run_others (hop : op.key ≠ st.key) (h : st ∈ s.vector) : st ∈ (op.run s).vector := by
  cases op with
  | add k' t =>
    obtain ⟨cb, id⟩ := k'
    cases cb with
    | none => exact h
    | some cb =>
      simp only [TimerOp.run, syncTimerAdd]
      cases findSyncTimer (some cb, id) s.vector with
      | some i => exact h
      | none => exact mem_append_left _ h
  | reload k' t =>
    simp only [TimerOp.run, syncTimerReload]
    cases hfind : findSyncTimer k' s.vector with
    | none => exact h
    | some i =>
      obtain ⟨st', hst', rfl⟩ := findSyncTimer_some hfind
      obtain ⟨j, hj⟩ := mem_iff_getElem?.mp h
      have hij : i ≠ j := by
        rintro rfl
        rw [hj, Option.some.injEq] at hst'
        exact hop (congrArg Timer.key hst'.symm)
      exact mem_of_getElem? ((getElem?_modify_ne _ _ hij).trans hj)
  | remove k' =>
    simp only [TimerOp.run, syncTimerRemove]
    cases hfind : findSyncTimer k' s.vector with
    | none => exact h
    | some i =>
      obtain ⟨st', hst', rfl⟩ := findSyncTimer_some hfind
      obtain ⟨j, hj⟩ := mem_iff_getElem?.mp h
      refine List.mem_eraseIdx_iff_getElem?.mpr ⟨j, ?_, hj⟩
      rintro rfl
      rw [hj, Option.some.injEq] at hst'
      exact hop (congrArg Timer.key hst'.symm)

end Timers

end TimerVector
