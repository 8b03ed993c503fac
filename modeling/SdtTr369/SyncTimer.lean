import Mathlib.Data.List.Nodup

/-!
# Sync timers

The one-shot timers of `sync_timer.c` that are registered with one callback. A timer
that has fired stays registered, and can be loaded again.
-/

namespace SyncTimer

open List Option

/-- `sync_timer_t`. -/
structure Timer where
  enabled : Bool
  nextTimeout : Int
  id : Int
  deriving DecidableEq, Repr

/-- `FindSyncTimer`. -/
def findSyncTimer (id : Int) (timers : List Timer) : Option Nat := timers.findIdx? (·.id = id)

/-- `SYNC_TIMER_Add`; `none` is an error. -/
def add (id callbackTime : Int) (timers : List Timer) : Option (List Timer) :=
  match findSyncTimer id timers with
  | some _ => none
  | none => some (timers ++ [⟨true, callbackTime, id⟩])

/-- `SYNC_TIMER_Reload`. -/
def reload (id callbackTime : Int) (timers : List Timer) : Option (List Timer) :=
  (findSyncTimer id timers).map fun i =>
    timers.modify i fun st => { st with enabled := true, nextTimeout := callbackTime }

/-- `SYNC_TIMER_Remove`. -/
def remove (id : Int) (timers : List Timer) : Option (List Timer) :=
  (findSyncTimer id timers).map timers.eraseIdx

/-- `SYNC_TIMER_Execute` lets the timer fire, before it calls back. -/
def fire (id curTime : Int) (timers : List Timer) : Option (List Timer) :=
  match findSyncTimer id timers with
  | none => none
  | some i =>
    if timers[i]?.any fun st => st.enabled ∧ st.nextTimeout ≤ curTime then
      some (timers.modify i fun st => { st with enabled := false })
    else none

/-! ## Registered and armed timers -/

def Registered (id : Int) (timers : List Timer) : Prop := id ∈ timers.map (·.id)

def Armed (id : Int) (timers : List Timer) : Prop := ∃ st ∈ timers, st.id = id ∧ st.enabled

variable {id callbackTime : Int} {timers timers' : List Timer}

theorem Armed.registered (h : Armed id timers) : Registered id timers := by
  obtain ⟨st, hst, rfl, -⟩ := h
  exact List.mem_map.mpr ⟨st, hst, rfl⟩

theorem findSyncTimer_eq_none : findSyncTimer id timers = none ↔ ¬ Registered id timers := by
  simp [findSyncTimer, Registered, findIdx?_eq_none_iff]

theorem add_eq_some :
    add id callbackTime timers = some timers' ↔
      ¬ Registered id timers ∧ timers' = timers ++ [⟨true, callbackTime, id⟩] := by
  rw [← findSyncTimer_eq_none, add]
  cases findSyncTimer id timers <;> simp [eq_comm]

/-- A change of one timer that keeps its id. -/
theorem ids_modify (timers : List Timer) (i : Nat) {f : Timer → Timer} (hf : ∀ st, (f st).id = st.id) :
    (timers.modify i f).map (·.id) = timers.map (·.id) := by
  apply ext_getElem?
  intro j
  simp only [getElem?_map, getElem?_modify]
  split
  · cases timers[j]? <;> simp [hf]
  · cases timers[j]? <;> simp

theorem armed_modify_other {i : Nat} {f : Timer → Timer} {j : Int} (hf : ∀ st, (f st).id = st.id)
    (hi : ∀ st, timers[i]? = some st → st.id ≠ j) : Armed j (timers.modify i f) ↔ Armed j timers := by
  simp only [Armed, mem_iff_getElem?, getElem?_modify]
  constructor
  · rintro ⟨st, ⟨k, hk⟩, hid, hst⟩
    split at hk
    · next hki =>
      obtain ⟨st₀, hst₀, rfl⟩ := map_eq_some_iff.mp hk
      subst hki
      exact absurd ((hf st₀).symm.trans hid) (hi st₀ hst₀)
    · exact ⟨st, ⟨k, by simpa using hk⟩, hid, hst⟩
  · rintro ⟨st, ⟨k, hk⟩, hid, hst⟩
    refine ⟨st, ⟨k, ?_⟩, hid, hst⟩
    split
    · next hki =>
      subst hki
      exact absurd hid (hi st hk)
    · simpa using hk

/-- The timer at the index that was found. -/
theorem findSyncTimer_some {i : Nat} (h : findSyncTimer id timers = some i) :
    ∃ st, timers[i]? = some st ∧ st.id = id := by
  obtain ⟨hlt, hid, -⟩ := List.findIdx?_eq_some_iff_getElem.mp h
  exact ⟨timers[i], getElem?_eq_getElem hlt, of_decide_eq_true hid⟩

/-- What `SYNC_TIMER_Reload` does. -/
structure Reloaded (id : Int) (timers timers' : List Timer) : Prop where
  ids : timers'.map (·.id) = timers.map (·.id)
  armed : Armed id timers'
  others : ∀ j, j ≠ id → (Armed j timers' ↔ Armed j timers)

theorem reload_some (h : reload id callbackTime timers = some timers') :
    Reloaded id timers timers' := by
  obtain ⟨i, hi, rfl⟩ := map_eq_some_iff.mp h
  obtain ⟨st, hst, rfl⟩ := findSyncTimer_some hi
  refine ⟨ids_modify timers i fun _ => rfl, ?_, fun j hj => ?_⟩
  · refine ⟨{ st with enabled := true, nextTimeout := callbackTime }, ?_, rfl, rfl⟩
    exact mem_iff_getElem?.mpr ⟨i, by simp [hst]⟩
  · refine armed_modify_other (fun _ => rfl) fun st' hst' => ?_
    rw [hst, Option.some.injEq] at hst'
    exact hst' ▸ hj.symm

theorem reload_eq_none : reload id callbackTime timers = none ↔ ¬ Registered id timers := by
  simp [reload, findSyncTimer_eq_none]

/-- What `SYNC_TIMER_Execute` does to a timer that fires. -/
structure Fired (id : Int) (timers timers' : List Timer) : Prop where
  ids : timers'.map (·.id) = timers.map (·.id)
  registered : Registered id timers
  others : ∀ j, j ≠ id → (Armed j timers' ↔ Armed j timers)

theorem fire_some {curTime : Int} (h : fire id curTime timers = some timers') :
    Fired id timers timers' := by
  unfold fire at h
  split at h
  · cases h
  · next i hi =>
    split at h
    · cases h
      obtain ⟨st, hst, rfl⟩ := findSyncTimer_some hi
      refine ⟨ids_modify timers i fun _ => rfl, ?_, fun j hj => ?_⟩
      · exact List.mem_map.mpr ⟨st, mem_of_getElem? hst, rfl⟩
      · refine armed_modify_other (fun _ => rfl) fun st' hst' => ?_
        rw [hst, Option.some.injEq] at hst'
        exact hst' ▸ hj.symm
    · cases h

/-- What `SYNC_TIMER_Remove` does. -/
structure Removed (id : Int) (timers timers' : List Timer) : Prop where
  sublist : (timers'.map (·.id)).Sublist (timers.map (·.id))
  gone : ¬ Registered id timers'
  registered : ∀ j, j ≠ id → (Registered j timers' ↔ Registered j timers)
  armed : ∀ j, j ≠ id → (Armed j timers' ↔ Armed j timers)

theorem remove_some (hnodup : (timers.map (·.id)).Nodup) (h : remove id timers = some timers') :
    Removed id timers timers' := by
  obtain ⟨i, hi, rfl⟩ := map_eq_some_iff.mp h
  obtain ⟨st, hst, rfl⟩ := findSyncTimer_some hi
  obtain ⟨hlt, hget⟩ := List.getElem?_eq_some_iff.mp hst
  have hsplit : timers = timers.take i ++ st :: timers.drop (i + 1) := by
    rw [← hget, getElem_cons_drop, take_append_drop]
  have herase : timers.eraseIdx i = timers.take i ++ timers.drop (i + 1) := eraseIdx_eq_take_drop_succ ..
  rw [hsplit] at hnodup
  simp only [map_append, map_cons, nodup_append, nodup_cons, mem_cons] at hnodup
  have hmem : ∀ st', st' ∈ timers ↔ st' = st ∨ st' ∈ timers.eraseIdx i := by
    intro st'
    conv_lhs => rw [hsplit]
    rw [herase]
    simp only [mem_append, mem_cons]
    exact or_left_comm
  have hother : ∀ st' ∈ timers.eraseIdx i, st'.id ≠ st.id := by
    intro st' hst'
    rw [herase, mem_append] at hst'
    rcases hst' with hbefore | hafter
    · exact hnodup.2.2 st'.id (List.mem_map.mpr ⟨st', hbefore, rfl⟩) st.id (.inl rfl)
    · intro hsame
      exact hnodup.2.1.1 (hsame ▸ List.mem_map.mpr ⟨st', hafter, rfl⟩)
  refine ⟨(eraseIdx_sublist timers i).map _, ?_, fun j hj => ?_, fun j hj => ?_⟩
  · intro hregistered
    obtain ⟨st', hst', hid⟩ := List.mem_map.mp hregistered
    exact hother st' hst' hid
  · simp only [Registered, List.mem_map, hmem]
    constructor
    · rintro ⟨st', hst', hid⟩
      exact ⟨st', .inr hst', hid⟩
    · rintro ⟨st', rfl | hst', hid⟩
      · exact absurd hid.symm hj
      · exact ⟨st', hst', hid⟩
  · simp only [Armed, hmem]
    constructor
    · rintro ⟨st', hst', hid⟩
      exact ⟨st', .inr hst', hid⟩
    · rintro ⟨st', rfl | hst', hid, henabled⟩
      · exact absurd hid.symm hj
      · exact ⟨st', hst', hid, henabled⟩

theorem remove_eq_none : remove id timers = none ↔ ¬ Registered id timers := by
  simp [remove, findSyncTimer_eq_none]

/-! ## Timers that serve some ids -/

/-- All timers but that of one id are as they were. -/
structure Frame (id : Int) (timers timers' : List Timer) : Prop where
  nodup : (timers'.map (·.id)).Nodup
  registered : ∀ j, j ≠ id → (Registered j timers' ↔ Registered j timers)
  armed : ∀ j, j ≠ id → (Armed j timers' ↔ Armed j timers)

theorem Frame.refl (id : Int) (hnodup : (timers.map (·.id)).Nodup) : Frame id timers timers :=
  ⟨hnodup, fun _ _ => Iff.rfl, fun _ _ => Iff.rfl⟩

theorem Frame.trans {timers'' : List Timer} (h : Frame id timers timers')
    (h' : Frame id timers' timers'') : Frame id timers timers'' :=
  ⟨h'.nodup, fun j hj => (h'.registered j hj).trans (h.registered j hj),
    fun j hj => (h'.armed j hj).trans (h.armed j hj)⟩

theorem registered_congr (h : timers'.map (·.id) = timers.map (·.id)) (j : Int) :
    Registered j timers' ↔ Registered j timers := by
  rw [Registered, Registered, h]

theorem add_frame (hnodup : (timers.map (·.id)).Nodup) (h : add id callbackTime timers = some timers') :
    Frame id timers timers' ∧ Armed id timers' := by
  obtain ⟨hnew, rfl⟩ := add_eq_some.mp h
  refine ⟨⟨?_, fun j hj => ?_, fun j hj => ?_⟩, ⟨true, callbackTime, id⟩, by simp⟩
  · rw [map_append, nodup_append]
    refine ⟨hnodup, nodup_singleton _, fun i hi j hj => ?_⟩
    cases List.mem_singleton.mp hj
    rintro rfl
    exact hnew hi
  · simp [Registered, hj]
  · simp only [Armed, mem_append, mem_singleton]
    constructor
    · rintro ⟨st, hst | rfl, hid, henabled⟩
      · exact ⟨st, hst, hid, henabled⟩
      · exact absurd hid.symm hj
    · rintro ⟨st, hst, hid, henabled⟩
      exact ⟨st, .inl hst, hid, henabled⟩

theorem reload_frame (hnodup : (timers.map (·.id)).Nodup)
    (h : reload id callbackTime timers = some timers') : Frame id timers timers' := by
  have hreloaded := reload_some h
  exact ⟨hreloaded.ids ▸ hnodup, fun j _ => registered_congr hreloaded.ids j, hreloaded.others⟩

theorem fire_frame {curTime : Int} (hnodup : (timers.map (·.id)).Nodup)
    (h : fire id curTime timers = some timers') : Frame id timers timers' := by
  have hfired := fire_some h
  exact ⟨hfired.ids ▸ hnodup, fun j _ => registered_congr hfired.ids j, hfired.others⟩

theorem remove_frame (hnodup : (timers.map (·.id)).Nodup) (h : remove id timers = some timers') :
    Frame id timers timers' := by
  have hremoved := remove_some hnodup h
  exact ⟨hnodup.sublist hremoved.sublist, hremoved.registered, hremoved.armed⟩

/-- Just the ids that are on have a timer, and each of them has an armed timer or waits
for something else to load it. -/
structure Serves (on waiting : Int → Prop) (timers : List Timer) : Prop where
  nodup : (timers.map (·.id)).Nodup
  registered : ∀ j, Registered j timers ↔ on j
  served : ∀ j, on j → Armed j timers ∨ waiting j

variable {on on' waiting waiting' : Int → Prop}

/-- One id is dealt with, the others stay as they are. -/
theorem Serves.change (h : Serves on waiting timers) (hframe : Frame id timers timers')
    (hon : ∀ j, j ≠ id → (on' j ↔ on j)) (hwaiting : ∀ j, j ≠ id → waiting j → waiting' j)
    (hregistered : Registered id timers' ↔ on' id)
    (hserved : on' id → Armed id timers' ∨ waiting' id) : Serves on' waiting' timers' := by
  refine ⟨hframe.nodup, fun j => ?_, fun j hj => ?_⟩
  · by_cases hid : j = id
    · rw [hid]
      exact hregistered
    · rw [hframe.registered j hid, h.registered, hon j hid]
  · by_cases hid : j = id
    · rw [hid] at hj ⊢
      exact hserved hj
    · have hbefore := h.served j ((hon j hid).mp hj)
      exact hbefore.imp (hframe.armed j hid).mpr (hwaiting j hid)

theorem Serves.congr (h : Serves on waiting timers) (hon : ∀ j, on' j ↔ on j)
    (hwaiting : ∀ j, waiting j → waiting' j) : Serves on' waiting' timers :=
  ⟨h.nodup, fun j => (h.registered j).trans (hon j).symm,
    fun j hj => (h.served j ((hon j).mp hj)).imp_right (hwaiting j)⟩

/-- An id that is turned on. -/
theorem Serves.add (h : Serves on waiting timers) (hoff : ¬ on id) (callbackTime : Int) :
    ∃ timers', SyncTimer.add id callbackTime timers = some timers' ∧
      Frame id timers timers' ∧ Armed id timers' := by
  refine ⟨_, add_eq_some.mpr ⟨fun hregistered => hoff ((h.registered id).mp hregistered), rfl⟩, ?_⟩
  exact add_frame h.nodup (add_eq_some.mpr
    ⟨fun hregistered => hoff ((h.registered id).mp hregistered), rfl⟩)

/-- An id that is turned off. -/
theorem Serves.remove (h : Serves on waiting timers) (hid : on id) :
    ∃ timers', SyncTimer.remove id timers = some timers' ∧
      Frame id timers timers' ∧ ¬ Registered id timers' := by
  have hsome : SyncTimer.remove id timers ≠ none := by
    rw [ne_eq, remove_eq_none, not_not]
    exact (h.registered id).mpr hid
  obtain ⟨timers', htimers'⟩ := ne_none_iff_exists'.mp hsome
  exact ⟨timers', htimers', remove_frame h.nodup htimers', (remove_some h.nodup htimers').gone⟩

/-- A timer that is loaded again. -/
theorem reload_registered (hnodup : (timers.map (·.id)).Nodup) (hid : Registered id timers)
    (callbackTime : Int) : ∃ timers', reload id callbackTime timers = some timers' ∧
      Frame id timers timers' ∧ Armed id timers' := by
  have hsome : reload id callbackTime timers ≠ none := by
    rw [ne_eq, reload_eq_none, not_not]
    exact hid
  obtain ⟨timers', htimers'⟩ := ne_none_iff_exists'.mp hsome
  exact ⟨timers', htimers', reload_frame hnodup htimers', (reload_some htimers').armed⟩

end SyncTimer
