import SdtTr369.TimerVector
import Mathlib.Data.List.Infix
import Mathlib.Data.List.InsertIdx

/-!
# Timers served

What the timers of `sync_timer.c` are after any calls, and which of the due timers a call of
`SYNC_TIMER_Execute` serves. A timer is missed when a callback removes timers up to its own
place, and the vector closes up under the index of the loop.
-/

namespace TimerWalk

open TimerVector List

variable {γ : Type} [DecidableEq γ]

/-! ## Lists of calls -/

variable {ks : List (Key γ)} {j i : Nat} (v : List (Timer γ))

section Calls

variable {k : Key γ} {s : SyncTimers γ} {st : Timer γ} {curTime : Int} {ops : List (TimerOp γ)}

theorem foldl_keys (ops : List (TimerOp γ)) (s : SyncTimers γ) :
    keys (ops.foldl TimerOp.run s).vector = ops.foldl TimerOp.onKeys (keys s.vector) := by
  induction ops generalizing s with
  | nil => rfl
  | cons op ops ih => rw [foldl_cons, ih, run_keys, foldl_cons]

theorem foldl_nodup (h : ks.Nodup) (ops : List (TimerOp γ)) :
    (ops.foldl TimerOp.onKeys ks).Nodup := by
  induction ops generalizing ks with
  | nil => exact h
  | cons op ops ih => exact ih (onKeys_nodup h op)

theorem foldl_keeps (hops : ∀ op ∈ ops, op ≠ .remove k) (h : ks[j]? = some k) :
    ∃ j', j' ≤ j ∧ (ops.foldl TimerOp.onKeys ks)[j']? = some k := by
  induction ops generalizing ks j with
  | nil => exact ⟨j, Nat.le_refl j, h⟩
  | cons op ops ih =>
    obtain ⟨j₁, hle₁, h₁⟩ := onKeys_keeps (hops op mem_cons_self) h
    obtain ⟨j₂, hle₂, h₂⟩ := ih (fun op' hop' => hops op' (mem_cons_of_mem _ hop')) h₁
    exact ⟨j₂, by omega, h₂⟩

theorem foldl_keys_from (hops : ∀ op ∈ ops, ∀ t, op ≠ .add k t)
    (h : (ops.foldl TimerOp.onKeys ks)[j]? = some k) : ∃ j', j ≤ j' ∧ ks[j']? = some k := by
  induction ops generalizing ks with
  | nil => exact ⟨j, Nat.le_refl j, h⟩
  | cons op ops ih =>
    obtain ⟨j₁, hle₁, h₁⟩ := ih (fun op' hop' => hops op' (mem_cons_of_mem _ hop')) h
    obtain ⟨j₂, hle₂, h₂⟩ := onKeys_from (hops op mem_cons_self) h₁
    exact ⟨j₂, by omega, h₂⟩

theorem foldl_spares (hops : ∀ op ∈ ops, op.Spares curTime k) (hst : s.vector[j]? = some st)
    (hk : st.key = k) (hdue : Due curTime st) :
    ∃ j' st', j' ≤ j ∧ (ops.foldl TimerOp.run s).vector[j']? = some st' ∧ st'.key = k ∧
      Due curTime st' := by
  induction ops generalizing s j st with
  | nil => exact ⟨j, st, Nat.le_refl j, hst, hk, hdue⟩
  | cons op ops ih =>
    obtain ⟨j₁, st₁, hle₁, hst₁, hk₁, hdue₁⟩ :=
      run_spares (hops op mem_cons_self) hst hk hdue
    obtain ⟨j₂, st₂, hle₂, h₂⟩ :=
      ih (fun op' hop' => hops op' (mem_cons_of_mem _ hop')) hst₁ hk₁ hdue₁
    exact ⟨j₂, st₂, by omega, h₂⟩

theorem foldl_from (h : st ∈ (ops.foldl TimerOp.run s).vector) :
    st ∈ s.vector ∨ ∃ op ∈ ops, op.Loads st.key st.nextTimeout := by
  induction ops generalizing s with
  | nil => exact .inl h
  | cons op ops ih =>
    rcases ih h with h | ⟨op', hop', hloads⟩
    · rcases run_from h with h | hloads
      · exact .inl h
      · exact .inr ⟨op, mem_cons_self, hloads⟩
    · exact .inr ⟨op', mem_cons_of_mem _ hop', hloads⟩

theorem foldl_others (hops : ∀ op ∈ ops, op.key ≠ st.key) (h : st ∈ s.vector) :
    st ∈ (ops.foldl TimerOp.run s).vector := by
  induction ops generalizing s with
  | nil => exact h
  | cons op ops ih =>
    exact ih (fun op' hop' => hops op' (mem_cons_of_mem _ hop'))
      (run_others (hops op mem_cons_self) h)

/-- No timer up to the place `i` is removed. -/
def RemovesBehind (i : Nat) : List (Key γ) → List (TimerOp γ) → Prop
  | _, [] => True
  | ks, op :: ops => (∀ k, op = .remove k → k ∉ ks.take (i + 1)) ∧
      RemovesBehind i (op.onKeys ks) ops

theorem onKeys_take {op : TimerOp γ} (hi : i < ks.length)
    (h : ∀ k, op = .remove k → k ∉ ks.take (i + 1)) :
    i < (op.onKeys ks).length ∧ (op.onKeys ks).take (i + 1) = ks.take (i + 1) := by
  cases op with
  | add k t =>
    simp only [TimerOp.onKeys]
    split
    · exact ⟨hi, rfl⟩
    · rw [length_append, take_append_of_le_length hi]
      exact ⟨by omega, rfl⟩
  | reload k t => exact ⟨hi, rfl⟩
  | remove k =>
    have hkeeps := h k rfl
    simp only [TimerOp.onKeys]
    cases hfind : ks.findIdx? fun k' => k' = k with
    | none => exact ⟨hi, rfl⟩
    | some p =>
      obtain ⟨hp, hk, -⟩ := List.findIdx?_eq_some_iff_getElem.mp hfind
      have hplace : i + 1 ≤ p := by
        by_contra hle
        refine hkeeps (List.mem_take_iff_getElem.mpr ⟨p, by omega, ?_⟩)
        simpa using hk
      have hlength := length_eraseIdx_of_lt hp
      refine ⟨?_, take_eraseIdx_eq_take_of_le ks _ _ hplace⟩
      show i < (ks.eraseIdx p).length
      omega

theorem foldl_take (hi : i < ks.length) (h : RemovesBehind i ks ops) :
    (ops.foldl TimerOp.onKeys ks).take (i + 1) = ks.take (i + 1) := by
  induction ops generalizing ks with
  | nil => rfl
  | cons op ops ih =>
    obtain ⟨hlength, htake⟩ := onKeys_take hi h.1
    rw [foldl_cons, ih hlength h.2, htake]

/-- A call adds one timer at most. -/
theorem foldl_length (ops : List (TimerOp γ)) (ks : List (Key γ)) :
    (ops.foldl TimerOp.onKeys ks).length ≤ ks.length + ops.length := by
  induction ops generalizing ks with
  | nil => exact Nat.le_refl _
  | cons op ops ih =>
    have hone : (op.onKeys ks).length ≤ ks.length + 1 := by
      cases op with
      | add k t =>
        simp only [TimerOp.onKeys]
        split <;> simp
      | reload k t => exact Nat.le_succ _
      | remove k =>
        simp only [TimerOp.onKeys]
        cases ks.findIdx? fun k' => k' = k with
        | none => exact Nat.le_succ _
        | some i => exact Nat.le_succ_of_le (length_eraseIdx_le ks i)
    have := ih (op.onKeys ks)
    rw [foldl_cons, length_cons]
    omega

end Calls

/-! ## The first time -/

/-- The least of `END_OF_TIME` and the times of the enabled timers. -/
structure IsFirst (v : List (Timer γ)) (first : Int) : Prop where
  le_end : first ≤ endOfTime
  le : ∀ st ∈ v, st.enabled → first ≤ st.nextTimeout
  attained : first = endOfTime ∨ ∃ st ∈ v, st.enabled ∧ st.nextTimeout = first

omit [DecidableEq γ] in
theorem foldl_earlier (m : Int) :
    v.foldl earlier m ≤ m ∧ (∀ st ∈ v, st.enabled → v.foldl earlier m ≤ st.nextTimeout) ∧
      (v.foldl earlier m = m ∨ ∃ st ∈ v, st.enabled ∧ st.nextTimeout = v.foldl earlier m) := by
  induction v generalizing m with
  | nil => simp
  | cons st v ih =>
    obtain ⟨hle, hall, hfrom⟩ := ih (earlier m st)
    have hearlier : earlier m st ≤ m ∧ (st.enabled → earlier m st ≤ st.nextTimeout) ∧
        (earlier m st = m ∨ st.enabled ∧ st.nextTimeout = earlier m st) := by
      unfold earlier
      cases st.enabled with
      | false => simp
      | true =>
        simp only [Bool.true_eq_false, if_false, true_and, forall_const]
        split <;> omega
    obtain ⟨hm, hst, hone⟩ := hearlier
    rw [foldl_cons]
    refine ⟨by omega, fun st' hst' henabled => ?_, ?_⟩
    · rcases List.mem_cons.mp hst' with rfl | hst'
      · have := hst henabled
        omega
      · exact hall st' hst' henabled
    · rcases hfrom with heq | ⟨st', hst', h⟩
      · rw [heq]
        exact hone.imp_right fun h => ⟨st, mem_cons_self, h⟩
      · exact .inr ⟨st', mem_cons_of_mem _ hst', h⟩

omit [DecidableEq γ] in
theorem firstTime_isFirst : IsFirst v (firstTime v) :=
  let ⟨hle, hall, hfrom⟩ := foldl_earlier v endOfTime
  ⟨hle, hall, hfrom⟩

/-- The pairs of a callback and an id are unique, the first time is the right one. -/
structure TimersOk (s : SyncTimers γ) : Prop where
  unique : (keys s.vector).Nodup
  first : IsFirst s.vector s.firstSyncTimerTime

omit [DecidableEq γ] in
theorem init_ok : TimersOk (syncTimerInit (γ := γ)) where
  unique := nodup_nil
  first := firstTime_isFirst []

omit [DecidableEq γ] in
theorem update_ok {s : SyncTimers γ} (h : (keys s.vector).Nodup) :
    TimersOk (updateFirstSyncTimerTime s) :=
  ⟨h, firstTime_isFirst s.vector⟩

/-- A call that changes the vector looks for the first time again. -/
theorem run_eq (s : SyncTimers γ) (op : TimerOp γ) :
    op.run s = s ∨ ∃ s', op.run s = updateFirstSyncTimerTime s' := by
  cases op with
  | add k t =>
    obtain ⟨cb, id⟩ := k
    cases cb with
    | none => exact .inl rfl
    | some cb =>
      simp only [TimerOp.run, syncTimerAdd]
      cases findSyncTimer (some cb, id) s.vector with
      | some i => exact .inl rfl
      | none => exact .inr ⟨_, rfl⟩
  | reload k t =>
    simp only [TimerOp.run, syncTimerReload]
    cases findSyncTimer k s.vector with
    | none => exact .inl rfl
    | some i => exact .inr ⟨_, rfl⟩
  | remove k =>
    simp only [TimerOp.run, syncTimerRemove]
    cases findSyncTimer k s.vector with
    | none => exact .inl rfl
    | some i => exact .inr ⟨_, rfl⟩

theorem run_ok {s : SyncTimers γ} (h : TimersOk s) (op : TimerOp γ) : TimersOk (op.run s) := by
  have hunique : (keys (op.run s).vector).Nodup := by
    rw [run_keys]
    exact onKeys_nodup h.unique op
  rcases run_eq s op with heq | ⟨s', heq⟩
  · rwa [heq]
  · rw [heq] at hunique ⊢
    exact update_ok hunique

/-! ## The walk -/

section Walks

variable {k : Key γ} {w : Walk γ} {st : Timer γ} {curTime : Int}

/-- The three things that a turn of the loop can be. -/
theorem walkStep_cases (curTime : Int) (w : Walk γ) :
    (w.timers.vector.length ≤ w.i ∧ walkStep curTime w = w) ∨
      ∃ st, w.timers.vector[w.i]? = some st ∧
        (¬Due curTime st ∧ walkStep curTime w = { w with i := w.i + 1 } ∨
          Due curTime st ∧ walkStep curTime w = callBack w st) := by
  rw [walkStep]
  cases hst : w.timers.vector[w.i]? with
  | none => exact .inl ⟨List.getElem?_eq_none_iff.mp hst, rfl⟩
  | some st =>
    refine .inr ⟨st, rfl, ?_⟩
    by_cases hdue : Due curTime st
    · exact .inr ⟨hdue, if_pos hdue⟩
    · exact .inl ⟨hdue, if_neg hdue⟩

omit [DecidableEq γ] in
theorem keys_disable (i : Nat) : keys (v.modify i disable) = keys v :=
  keys_modify v i fun _ => rfl

theorem callBack_keys (w : Walk γ) (st : Timer γ) :
    keys (callBack w st).timers.vector =
      (w.script.headD []).foldl TimerOp.onKeys (keys w.timers.vector) := by
  rw [callBack, foldl_keys, keys_disable]

omit [DecidableEq γ] in
theorem keys_get {v : List (Timer γ)} (h : v[j]? = some st) : (keys v)[j]? = some st.key := by
  rw [TimerVector.keys, getElem?_map, h, Option.map_some]

/-- The places of the vector and the calls to come bound the turns of the loop. -/
theorem turnsLeft_step (curTime : Int) (h : w.i < w.timers.vector.length) :
    turnsLeft (walkStep curTime w) < turnsLeft w := by
  rcases walkStep_cases curTime w with ⟨hle, -⟩ | ⟨st, -, ⟨-, heq⟩ | ⟨-, heq⟩⟩
  · omega
  · rw [heq]
    simp only [turnsLeft]
    omega
  · have hlength := foldl_length (w.script.headD []) (keys w.timers.vector)
    rw [← callBack_keys w st, TimerVector.keys, TimerVector.keys, length_map, length_map] at hlength
    have hscript : (w.script.map List.length).sum =
        (w.script.headD []).length + (w.script.tail.map List.length).sum := by
      cases w.script <;> simp
    have hi : (callBack w st).i = w.i + 1 := rfl
    have htail : (callBack w st).script = w.script.tail := rfl
    rw [heq, turnsLeft, turnsLeft, hi, htail]
    omega

theorem iterate_finished (curTime : Int) (n : Nat) (w : Walk γ) (h : turnsLeft w ≤ n) :
    ((walkStep curTime)^[n] w).timers.vector.length ≤ ((walkStep curTime)^[n] w).i := by
  induction n generalizing w with
  | zero =>
    simp only [turnsLeft] at h
    simp only [Function.iterate_zero, id_eq]
    omega
  | succ n ih =>
    rw [Function.iterate_succ_apply]
    by_cases hlt : w.i < w.timers.vector.length
    · have := turnsLeft_step curTime hlt
      exact ih _ (by omega)
    · have heq : walkStep curTime w = w := by
        rcases walkStep_cases curTime w with ⟨-, heq⟩ | ⟨st, hst, -⟩
        · exact heq
        · exact absurd (List.getElem?_eq_some_iff.mp hst).1 hlt
      rw [heq, Function.iterate_fixed heq]
      omega

/-! ### Which timers are served -/

/-- No callback but its own removes the timer or puts it off. -/
def Spared (curTime : Int) (k : Key γ) (turns : List (Turn γ)) : Prop :=
  ∀ turn ∈ turns, turn.key ≠ k → ∀ op ∈ turn.ops, op.Spares curTime k

def Served (k : Key γ) (turns : List (Turn γ)) : Prop := k ∈ turns.map Turn.key

/-- The timer stands behind the index of the loop. -/
def Behind (w : Walk γ) (k : Key γ) : Prop := ∃ j, w.i < j ∧ (keys w.timers.vector)[j]? = some k

/-- The index of the loop has passed the timer. -/
def Passed (w : Walk γ) (k : Key γ) : Prop := ∃ j, j < w.i ∧ (keys w.timers.vector)[j]? = some k

/-- A turn of the loop by which a timer behind the index comes to stand at it or before. -/
def Skips (curTime : Int) (w : Walk γ) (k : Key γ) : Prop :=
  Behind w k ∧ Passed (walkStep curTime w) k

/-- A timer that is due and not passed. -/
def Waiting (curTime : Int) (k : Key γ) (w : Walk γ) : Prop :=
  ∃ j st, w.i ≤ j ∧ w.timers.vector[j]? = some st ∧ st.key = k ∧ Due curTime st

/-- The turns of a step are those before it, and perhaps one more. -/
theorem turns_step (curTime : Int) (w : Walk γ) : w.turns <+: (walkStep curTime w).turns := by
  rcases walkStep_cases curTime w with ⟨-, heq⟩ | ⟨st, -, ⟨-, heq⟩ | ⟨-, heq⟩⟩
  · rw [heq]
  · rw [heq]
  · rw [heq]
    exact prefix_append ..

variable {turns turns' : List (Turn γ)}

omit [DecidableEq γ] in
theorem Spared.of_isPrefix (h : Spared curTime k turns') (hsub : turns <+: turns') :
    Spared curTime k turns :=
  fun turn hturn => h turn (hsub.subset hturn)

omit [DecidableEq γ] in
theorem Served.of_isPrefix (h : Served k turns) (hsub : turns <+: turns') : Served k turns' :=
  map_subset _ hsub.subset h

/-- A spared timer waits until it is served, or is skipped. -/
theorem waiting_step (hspared : Spared curTime k (walkStep curTime w).turns)
    (hskip : ¬Skips curTime w k) (h : Waiting curTime k w) :
    Waiting curTime k (walkStep curTime w) ∨ Served k (walkStep curTime w).turns := by
  obtain ⟨j, st, hle, hst, hk, hdue⟩ := h
  rcases walkStep_cases curTime w with ⟨-, heq⟩ | ⟨st₀, hst₀, ⟨hnot, heq⟩ | ⟨hfires, heq⟩⟩
  · rw [heq]
    exact .inl ⟨j, st, hle, hst, hk, hdue⟩
  · have hj : j ≠ w.i := by
      rintro rfl
      rw [hst, Option.some.injEq] at hst₀
      exact hnot (hst₀ ▸ hdue)
    rw [heq]
    exact .inl ⟨j, st, by simp only; omega, hst, hk, hdue⟩
  · by_cases hown : st₀.key = k
    · right
      rw [heq, Served, callBack, map_append, mem_append]
      exact .inr (List.mem_singleton.mpr hown.symm)
    · have hj : w.i ≠ j := by
        rintro rfl
        rw [hst, Option.some.injEq] at hst₀
        exact hown (hst₀ ▸ hk)
      have hkept : (w.timers.vector.modify w.i disable)[j]? = some st :=
        (getElem?_modify_ne _ _ hj).trans hst
      have hops : ∀ op ∈ w.script.headD [], op.Spares curTime k := by
        rw [heq] at hspared
        exact hspared ⟨st₀.key, w.script.headD []⟩
          (mem_append_right _ (List.mem_singleton.mpr rfl)) hown
      obtain ⟨j', st', hle', hst', hk', hdue'⟩ :=
        foldl_spares (s := { w.timers with vector := w.timers.vector.modify w.i disable })
          hops hkept hk hdue
      by_cases hahead : w.i + 1 ≤ j'
      · rw [heq]
        exact .inl ⟨j', st', hahead, hst', hk', hdue'⟩
      · refine absurd ⟨⟨j, by omega, hk ▸ keys_get hst⟩, ?_⟩ hskip
        rw [heq]
        refine ⟨j', ?_, hk' ▸ keys_get hst'⟩
        simp only [callBack]
        omega

omit [DecidableEq γ] in
theorem place_unique (h : ks.Nodup) (hi : ks[i]? = some k) (hj : ks[j]? = some k) : i = j :=
  (getElem?_inj (List.getElem?_eq_some_iff.mp hi).1 h).mp (hi.trans hj.symm)

/-- A spared timer that was passed is not served any more. -/
theorem passed_step (hunique : (keys w.timers.vector).Nodup)
    (hspared : Spared curTime k (walkStep curTime w).turns) (hserved : ¬Served k w.turns)
    (h : Passed w k) :
    Passed (walkStep curTime w) k ∧ ¬Served k (walkStep curTime w).turns := by
  obtain ⟨j, hlt, hj⟩ := h
  rcases walkStep_cases curTime w with ⟨-, heq⟩ | ⟨st₀, hst₀, ⟨-, heq⟩ | ⟨-, heq⟩⟩
  · rw [heq]
    exact ⟨⟨j, hlt, hj⟩, hserved⟩
  · rw [heq]
    exact ⟨⟨j, Nat.lt_succ_of_lt hlt, hj⟩, hserved⟩
  · have hother : st₀.key ≠ k := by
      rintro rfl
      exact absurd (place_unique hunique hj (keys_get hst₀)) (by omega)
    have hops : ∀ op ∈ w.script.headD [], op ≠ .remove k := by
      rw [heq] at hspared
      intro op hop hremove
      have := hspared ⟨st₀.key, w.script.headD []⟩
        (mem_append_right _ (List.mem_singleton.mpr rfl)) hother op hop
      rw [hremove] at this
      exact this rfl
    obtain ⟨j', hle', hj'⟩ := foldl_keeps hops hj
    rw [heq]
    refine ⟨⟨j', Nat.lt_succ_of_le (by omega), by rw [callBack_keys]; exact hj'⟩, ?_⟩
    rw [Served, callBack, map_append, mem_append]
    rintro (hmem | hmem)
    · exact hserved hmem
    · exact hother (List.mem_singleton.mp hmem).symm

/-! ### What every walk keeps -/

/-- The timer was due when the walk began, or was loaded with a time that was due. -/
def DueBy (curTime : Int) (s : SyncTimers γ) (turns : List (Turn γ)) (k : Key γ) : Prop :=
  (∃ st ∈ s.vector, st.key = k ∧ Due curTime st) ∨
    ∃ turn ∈ turns, ∃ op ∈ turn.ops, ∃ t, t ≤ curTime ∧ op.Loads k t

/-- What a walk that began with the timers `s` has made of them. -/
structure Walked (curTime : Int) (s : SyncTimers γ) (w : Walk γ) : Prop where
  unique : (keys w.timers.vector).Nodup
  kept : keys w.timers.vector = (w.turns.flatMap Turn.ops).foldl TimerOp.onKeys (keys s.vector)
  due : ∀ st ∈ w.timers.vector, Due curTime st → DueBy curTime s w.turns st.key
  served : ∀ turns turn, turns ++ [turn] <+: w.turns → DueBy curTime s turns turn.key
  others : ∀ st ∈ s.vector, ¬Served st.key w.turns →
    (∀ turn ∈ w.turns, ∀ op ∈ turn.ops, op.key ≠ st.key) → st ∈ w.timers.vector
  once : ∀ k, (∀ turn ∈ w.turns, ∀ op ∈ turn.ops, ∀ t, op ≠ .add k t) →
    (w.turns.map Turn.key).count k ≤ 1 ∧
      (Served k w.turns → ∀ j : Nat, (keys w.timers.vector)[j]? = some k → j < w.i)

variable {s : SyncTimers γ}

theorem walked_start (h : TimersOk s) (script : List (List (TimerOp γ))) :
    Walked curTime s (walkStart script s) where
  unique := h.unique
  kept := rfl
  due st hst hdue := .inl ⟨st, hst, rfl, hdue⟩
  served turns turn hsub := by simp [walkStart] at hsub
  others st hst _ _ := hst
  once k _ := ⟨Nat.zero_le _, fun hserved => absurd hserved not_mem_nil⟩

omit [DecidableEq γ] in
theorem DueBy.mono (h : DueBy curTime s turns k) (hsub : turns <+: turns') :
    DueBy curTime s turns' k := by
  rcases h with h | ⟨turn, hturn, h⟩
  · exact .inl h
  · exact .inr ⟨turn, hsub.subset hturn, h⟩

theorem callBack_from (h : st ∈ (callBack w st₀).timers.vector) (hdue : Due curTime st) :
    st ∈ w.timers.vector ∨
      ∃ op ∈ w.script.headD [], ∃ t, t ≤ curTime ∧ op.Loads st.key t := by
  rcases foldl_from h with h | ⟨op, hop, hloads⟩
  · left
    obtain ⟨j, hj⟩ := mem_iff_getElem?.mp h
    by_cases hi : w.i = j
    · subst hi
      rw [getElem?_modify_eq] at hj
      obtain ⟨st', -, rfl⟩ := Option.map_eq_some_iff.mp hj
      exact absurd hdue.1 (by simp [disable])
    · exact mem_of_getElem? ((getElem?_modify_ne _ _ hi).symm.trans hj)
  · exact .inr ⟨op, hop, st.nextTimeout, hdue.2, hloads⟩

theorem walked_callBack {st₀ : Timer γ} (h : Walked curTime s w)
    (hst₀ : w.timers.vector[w.i]? = some st₀) (hdue₀ : Due curTime st₀) :
    Walked curTime s (callBack w st₀) where
  unique := by
    rw [callBack_keys]
    exact foldl_nodup h.unique _
  kept := by
    rw [callBack_keys, h.kept, callBack, flatMap_append, foldl_append]
    simp
  due st hst hdue := by
    rcases callBack_from hst hdue with hst | ⟨op, hop, t, ht, hloads⟩
    · exact (h.due st hst hdue).mono (prefix_append ..)
    · exact .inr ⟨⟨st₀.key, w.script.headD []⟩, mem_append_right _ mem_cons_self, op,
        hop, t, ht, hloads⟩
  served turns turn hsub := by
    rcases List.prefix_concat_iff.mp hsub with heq | hsub
    · obtain ⟨hinit, hlast⟩ := append_inj' heq rfl
      subst hinit
      cases hlast
      exact h.due st₀ (mem_of_getElem? hst₀) hdue₀
    · exact h.served turns turn hsub
  others st hst hserved hops := by
    have hserved' : ¬Served st.key w.turns :=
      fun hs => hserved (hs.of_isPrefix (prefix_append ..))
    have hmem := h.others st hst hserved' fun turn hturn =>
      hops turn (mem_append_left _ hturn)
    have hown : st₀.key ≠ st.key := by
      intro heq
      refine hserved ?_
      rw [Served, callBack, map_append, mem_append]
      exact .inr (List.mem_singleton.mpr heq.symm)
    refine foldl_others (fun op hop => ?_) ?_
    · exact hops ⟨st₀.key, w.script.headD []⟩ (mem_append_right _ mem_cons_self) op hop
    · obtain ⟨j, hj⟩ := mem_iff_getElem?.mp hmem
      have hi : w.i ≠ j := by
        rintro rfl
        rw [hj, Option.some.injEq] at hst₀
        exact hown (congrArg Timer.key hst₀.symm)
      exact mem_of_getElem? ((getElem?_modify_ne _ _ hi).trans hj)
  once k hops := by
    obtain ⟨hcount, hpassed⟩ := h.once k fun turn hturn => hops turn (mem_append_left _ hturn)
    have hplace : ∀ j : Nat, (keys (callBack w st₀).timers.vector)[j]? = some k →
        ∃ j', j ≤ j' ∧ (keys w.timers.vector)[j']? = some k := by
      intro j hj
      rw [callBack_keys] at hj
      exact foldl_keys_from (hops ⟨st₀.key, w.script.headD []⟩
        (mem_append_right _ mem_cons_self)) hj
    have hi : (callBack w st₀).i = w.i + 1 := rfl
    have hturns : (callBack w st₀).turns.map Turn.key = w.turns.map Turn.key ++ [st₀.key] := by
      rw [callBack, map_append, map_singleton]
    have hcount' : ((callBack w st₀).turns.map Turn.key).count k =
        (w.turns.map Turn.key).count k + if st₀.key = k then 1 else 0 := by
      rw [hturns, count_append, count_singleton]
      simp only [beq_iff_eq]
    by_cases hown : st₀.key = k
    · -- the timer at the index was not served before
      have hfirst : (w.turns.map Turn.key).count k = 0 := by
        refine List.count_eq_zero.mpr fun hserved => ?_
        exact absurd (hpassed hserved w.i (hown ▸ keys_get hst₀)) (Nat.lt_irrefl _)
      refine ⟨Nat.le_of_eq (by rw [hcount', hfirst, if_pos hown]), fun _ j hj => ?_⟩
      obtain ⟨j', hle, hj'⟩ := hplace j hj
      have := place_unique h.unique hj' (hown ▸ keys_get hst₀)
      omega
    · refine ⟨by rw [hcount', if_neg hown]; exact hcount, fun hserved j hj => ?_⟩
      rw [Served, hturns, mem_append, mem_singleton] at hserved
      obtain ⟨j', hle, hj'⟩ := hplace j hj
      have := hpassed (hserved.resolve_right fun heq => hown heq.symm) j' hj'
      omega

theorem walked_step (h : Walked curTime s w) : Walked curTime s (walkStep curTime w) := by
  rcases walkStep_cases curTime w with ⟨-, heq⟩ | ⟨st₀, hst₀, ⟨-, heq⟩ | ⟨hdue, heq⟩⟩
  · rwa [heq]
  · rw [heq]
    exact ⟨h.unique, h.kept, h.due, h.served, h.others, fun k hops =>
      ⟨(h.once k hops).1, fun hserved j hj => Nat.lt_succ_of_lt ((h.once k hops).2 hserved j hj)⟩⟩
  · rw [heq]
    exact walked_callBack h hst₀ hdue

theorem walked_iterate (h : TimersOk s) (script : List (List (TimerOp γ))) (n : Nat) :
    Walked curTime s ((walkStep curTime)^[n] (walkStart script s)) := by
  induction n with
  | zero => exact walked_start h script
  | succ n ih =>
    rw [Function.iterate_succ_apply']
    exact walked_step ih

end Walks

/-! ## A call of `SYNC_TIMER_Execute` -/

section Execute

variable {curTime : Int} {s : SyncTimers γ} {script : List (List (TimerOp γ))}

/-- What is asked of a call, from the timers `s` to the timers `s'`. -/
structure ExecuteRight (curTime : Int) (s s' : SyncTimers γ) (turns : List (Turn γ)) : Prop where
  serves : ∀ st ∈ s.vector, Due curTime st → Spared curTime st.key turns → Served st.key turns
  once : ∀ k, (∀ turn ∈ turns, ∀ op ∈ turn.ops, ∀ t, ¬op.Loads k t) →
    (turns.map Turn.key).count k ≤ 1
  due : ∀ before turn, before ++ [turn] <+: turns → DueBy curTime s before turn.key
  kept : keys s'.vector = (turns.flatMap Turn.ops).foldl TimerOp.onKeys (keys s.vector)
  others : ∀ st ∈ s.vector, ¬Served st.key turns →
    (∀ turn ∈ turns, ∀ op ∈ turn.ops, op.key ≠ st.key) → st ∈ s'.vector

/-- No callback moves a due timer, that no other callback removes or puts off, from behind
the index of the loop to it or before, as long as the timer was not served. -/
def NoneSkipped (curTime : Int) (script : List (List (TimerOp γ))) (s : SyncTimers γ) : Prop :=
  ∀ st ∈ s.vector, Due curTime st → Spared curTime st.key (walk curTime script s).turns →
    ∀ n, let w := (walkStep curTime)^[n] (walkStart script s)
      ¬Served st.key w.turns → ¬Skips curTime w st.key

theorem iterate_turns (curTime : Int) (w : Walk γ) (n : Nat) :
    w.turns <+: ((walkStep curTime)^[n] w).turns := by
  induction n with
  | zero => exact prefix_rfl
  | succ n ih =>
    rw [Function.iterate_succ_apply']
    exact ih.trans (turns_step curTime _)

/-- The turns after some steps are the first of all turns. -/
theorem iterate_walk (curTime : Int) (script : List (List (TimerOp γ))) (s : SyncTimers γ)
    (n : Nat) :
    ((walkStep curTime)^[n] (walkStart script s)).turns <+: (walk curTime script s).turns := by
  have hend : ∀ m, (walkStep curTime)^[turnsLeft (walkStart script s) + m] (walkStart script s) =
      walk curTime script s := by
    intro m
    have hfinished := iterate_finished curTime _ (walkStart script s) (Nat.le_refl _)
    have hfixed : walkStep curTime (walk curTime script s) = walk curTime script s := by
      rcases walkStep_cases curTime (walk curTime script s) with ⟨-, heq⟩ | ⟨st, hst, -⟩
      · exact heq
      · exact absurd (List.getElem?_eq_some_iff.mp hst).1 (Nat.not_lt.mpr hfinished)
    rw [Nat.add_comm, Function.iterate_add_apply]
    exact Function.iterate_fixed hfixed m
  rcases Nat.le_total n (turnsLeft (walkStart script s)) with hle | hge
  · obtain ⟨m, hm⟩ := Nat.exists_eq_add_of_le' hle
    rw [walk, hm, Function.iterate_add_apply]
    exact iterate_turns curTime _ m
  · obtain ⟨m, rfl⟩ := Nat.exists_eq_add_of_le hge
    rw [hend m]

theorem serves_of_noneSkipped (h : NoneSkipped curTime script s) :
    ∀ st ∈ s.vector, Due curTime st → Spared curTime st.key (walk curTime script s).turns →
      Served st.key (walk curTime script s).turns := by
  intro st hst hdue hspared
  by_contra hnot
  have hwaiting : ∀ n, Waiting curTime st.key ((walkStep curTime)^[n] (walkStart script s)) := by
    intro n
    induction n with
    | zero =>
      obtain ⟨j, hj⟩ := mem_iff_getElem?.mp hst
      exact ⟨j, st, Nat.zero_le j, hj, rfl, hdue⟩
    | succ n ih =>
      have hserved : ∀ m, ¬Served st.key ((walkStep curTime)^[m] (walkStart script s)).turns :=
        fun m hs => hnot (hs.of_isPrefix (iterate_walk curTime script s m))
      have hspared' := hspared.of_isPrefix (iterate_walk curTime script s (n + 1))
      have hserved' := hserved (n + 1)
      rw [Function.iterate_succ_apply'] at hspared' hserved' ⊢
      exact (waiting_step hspared' (h st hst hdue hspared n (hserved n)) ih).resolve_right hserved'
  obtain ⟨j, st', hle, hst', -⟩ := hwaiting (turnsLeft (walkStart script s))
  have hfinished := iterate_finished curTime _ (walkStart script s) (Nat.le_refl _)
  exact absurd (List.getElem?_eq_some_iff.mp hst').1 (by omega)

/-- In particular no callback removes a timer at or before its own place. -/
theorem noneSkipped_of_behind (hok : TimersOk s)
    (h : ∀ n, let w := (walkStep curTime)^[n] (walkStart script s)
      RemovesBehind w.i (keys w.timers.vector) (w.script.headD [])) :
    NoneSkipped curTime script s := by
  intro st _ _ _ n w _ ⟨⟨j, hlt, hj⟩, j', hle, hj'⟩
  have hwalked : Walked curTime s _ := walked_iterate hok script n
  have hunique := hwalked.unique
  have hstays : ∃ p ≤ w.i, (keys w.timers.vector)[p]? = some st.key := by
    rcases walkStep_cases curTime w with ⟨-, heq⟩ | ⟨st₀, hst₀, ⟨-, heq⟩ | ⟨-, heq⟩⟩
    · rw [heq] at hle hj'
      exact ⟨j', by omega, hj'⟩
    · rw [heq] at hle hj'
      exact ⟨j', Nat.le_of_lt_succ hle, hj'⟩
    · have hi : w.i < (keys w.timers.vector).length :=
        (List.getElem?_eq_some_iff.mp (keys_get hst₀)).1
      rw [heq] at hle hj'
      rw [callBack_keys] at hj'
      have hfront : j' < w.i + 1 := hle
      refine ⟨j', Nat.le_of_lt_succ hfront, ?_⟩
      rw [← hj', ← getElem?_take_of_lt hfront, ← foldl_take hi (h n),
        getElem?_take_of_lt hfront]
  obtain ⟨p, hp, hkey⟩ := hstays
  have := place_unique hunique hj hkey
  omega

theorem noneSkipped_of_serves (hok : TimersOk s)
    (h : ∀ st ∈ s.vector, Due curTime st → Spared curTime st.key (walk curTime script s).turns →
      Served st.key (walk curTime script s).turns) : NoneSkipped curTime script s := by
  intro st hst hdue hspared n w hserved ⟨⟨j, hlt, hj⟩, hpassed⟩
  have hspared' : ∀ m, Spared curTime st.key ((walkStep curTime)^[m] (walkStart script s)).turns :=
    fun m => hspared.of_isPrefix (iterate_walk curTime script s m)
  -- the step that passes the timer does not serve it
  have hstep : ¬Served st.key (walkStep curTime w).turns := by
    rcases walkStep_cases curTime w with ⟨-, heq⟩ | ⟨st₀, hst₀, ⟨-, heq⟩ | ⟨-, heq⟩⟩
    · rwa [heq]
    · rwa [heq]
    · have hother : st₀.key ≠ st.key := by
        intro heq'
        have := place_unique (walked_iterate hok script n).unique hj (heq' ▸ keys_get hst₀)
        omega
      rw [heq, Served, callBack, map_append, mem_append]
      rintro (hmem | hmem)
      · exact hserved hmem
      · exact hother (List.mem_singleton.mp hmem).symm
  have hafter : ∀ m, Passed ((walkStep curTime)^[m + (n + 1)] (walkStart script s)) st.key ∧
      ¬Served st.key ((walkStep curTime)^[m + (n + 1)] (walkStart script s)).turns := by
    intro m
    induction m with
    | zero =>
      rw [Nat.zero_add, Function.iterate_succ_apply']
      exact ⟨hpassed, hstep⟩
    | succ m ih =>
      have hs := hspared' (m + (n + 1) + 1)
      rw [Nat.add_right_comm m 1 (n + 1)]
      rw [Function.iterate_succ_apply'] at hs ⊢
      exact passed_step (walked_iterate hok script _).unique hs ih.2 ih.1
  have hend := (hafter (turnsLeft (walkStart script s))).2
  have hserves := h st hst hdue hspared
  rw [Nat.add_comm, Function.iterate_add_apply] at hend
  exact hend (hserves.of_isPrefix (iterate_turns curTime _ (n + 1)) )

theorem executeRight_iff (hok : TimersOk s) :
    ExecuteRight curTime s (syncTimerExecute curTime script s).1
      (syncTimerExecute curTime script s).2 ↔ NoneSkipped curTime script s := by
  rw [syncTimerExecute]
  by_cases hearly : curTime < s.firstSyncTimerTime
  · -- no timer is due yet
    have hnone : ∀ st ∈ s.vector, ¬Due curTime st := by
      intro st hst hdue
      have := hok.first.le st hst hdue.1
      have := hdue.2
      omega
    rw [if_pos hearly]
    refine iff_of_true ⟨fun st hst hdue => absurd hdue (hnone st hst), fun _ _ => Nat.zero_le _,
      fun before turn hsub => ?_, rfl, fun st hst _ _ => hst⟩
      fun st hst hdue => absurd hdue (hnone st hst)
    simp at hsub
  · rw [if_neg hearly]
    refine ⟨fun h => noneSkipped_of_serves hok h.serves, fun h => ?_⟩
    have hwalked : Walked curTime s (walk curTime script s) := walked_iterate hok script _
    refine ⟨serves_of_noneSkipped h, fun k hops => ?_, hwalked.served, hwalked.kept,
      hwalked.others⟩
    exact (hwalked.once k fun turn hturn op hop t heq =>
      hops turn hturn op hop t (.inl heq)).1

theorem syncTimerExecute_ok (hok : TimersOk s) :
    TimersOk (syncTimerExecute curTime script s).1 := by
  rw [syncTimerExecute]
  split
  · exact hok
  · exact update_ok (walked_iterate hok script _).unique

end Execute

/-! ## Runs -/

/-- The calls that are made from outside. -/
inductive Call (γ : Type) where
  | op (call : TimerOp γ)
  | execute (curTime : Int) (script : List (List (TimerOp γ)))
  deriving DecidableEq, Repr

def Call.run (s : SyncTimers γ) : Call γ → SyncTimers γ
  | .op call => call.run s
  | .execute curTime script => (syncTimerExecute curTime script s).1

theorem runs_ok (calls : List (Call γ)) {s : SyncTimers γ} (h : TimersOk s) :
    TimersOk (calls.foldl Call.run s) := by
  induction calls generalizing s with
  | nil => exact h
  | cons c calls ih =>
    refine ih ?_
    cases c with
    | op call => exact run_ok h call
    | execute curTime script => exact syncTimerExecute_ok h

/-- Two timers with the callbacks 1 and 2, both for the time 5. -/
def twoTimers : SyncTimers Nat :=
  [Call.op (.add (some 1, 0) 5), .op (.add (some 2, 0) 5)].foldl Call.run syncTimerInit

end TimerWalk
