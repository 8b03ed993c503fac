import SdtTr369.ControllerTable
import SdtTr369.SlotTable

/-!
# The controllers array as a table of slots

The notifications of a controller's MTP change one slot of one controller. What they leave of
the MQTT connections in the array is stated without the indices of the slots.
-/

namespace ControllerTable

open SlotTable Option

/-- The MQTT client in the slot of a controller's MTP. -/
def connectionAt (slots : Slots) (c i : Nat) : Option (Option Nat) :=
  (find Controller.inst c slots).bind fun cont =>
    (find Mtp.inst i cont.mtps).map Mtp.mqttConnectionInstance

variable {slots slots' : Slots} {c c' i i' : Nat} {f : Mtp → Option Mtp}

theorem modifyController_eq (slots : Slots) (c : Nat) (f : Controller → Option Controller) :
    modifyController slots c f = (find Controller.inst c slots).bind fun cont =>
      (f cont).map fun new => replace Controller.inst c (some new) slots := by
  rw [find_eq_indexOf]
  cases h : indexOf Controller.inst c slots with
  | none =>
    have hnone : findControllerByInstance slots c = none := h
    rw [modifyController, hnone]
    rfl
  | some k =>
    have hsome : findControllerByInstance slots c = some k := h
    rw [modifyController, hsome, bind_some, bind_some]
    cases slots[k]?.join with
    | none => rfl
    | some cont =>
      rw [bind_some, bind_some]
      congr 1
      funext new
      exact set_indexOf h

theorem modifyMtp_eq (slots : Slots) (c i : Nat) (f : Mtp → Option Mtp) :
    modifyMtp slots c i f = (find Controller.inst c slots).bind fun cont =>
      (find Mtp.inst i cont.mtps).bind fun mtp => (f mtp).map fun new =>
        replace Controller.inst c
          (some { cont with mtps := replace Mtp.inst i (some new) cont.mtps }) slots := by
  rw [modifyMtp, modifyController_eq]
  congr 1
  funext cont
  rw [find_eq_indexOf]
  cases h : indexOf Mtp.inst i cont.mtps with
  | none =>
    have hnone : findControllerMtpByInstance cont.mtps i = none := h
    rw [hnone]
    rfl
  | some j =>
    have hsome : findControllerMtpByInstance cont.mtps i = some j := h
    rw [hsome, bind_some, bind_some]
    cases cont.mtps[j]?.join with
    | none => rfl
    | some mtp =>
      rw [bind_some, bind_some, Option.map_map]
      congr 1
      funext new
      exact congrArg (fun mtps => replace Controller.inst c (some { cont with mtps := mtps }) slots)
        (set_indexOf h)

variable {cont : Controller}

/-- One controller with other MTPs. -/
theorem connectionAt_replace {mtps : List (Option Mtp)}
    (hcont : find Controller.inst c slots = some cont) :
    connectionAt (replace Controller.inst c (some { cont with mtps := mtps }) slots) c' i' =
      if c' = c then (find Mtp.inst i' mtps).map Mtp.mqttConnectionInstance
      else connectionAt slots c' i' := by
  have hkey : cont.inst = c := key_of_find hcont
  rw [connectionAt, find_replace_some (b := { cont with mtps := mtps }) hcont hkey]
  split <;> rfl

/-- A change of one MTP leaves the connections of the others. -/
theorem connectionAt_modifyMtp (h : modifyMtp slots c i f = some slots')
    (hinst : ∀ mtp new, f mtp = some new → new.inst = mtp.inst) :
    ∃ mtp new, connectionAt slots c i = some mtp.mqttConnectionInstance ∧ f mtp = some new ∧
      ∀ c' i', connectionAt slots' c' i' =
        if c' = c ∧ i' = i then some new.mqttConnectionInstance else connectionAt slots c' i' := by
  rw [modifyMtp_eq, bind_eq_some_iff] at h
  obtain ⟨cont, hcont, h⟩ := h
  rw [bind_eq_some_iff] at h
  obtain ⟨mtp, hmtp, h⟩ := h
  rw [map_eq_some_iff] at h
  obtain ⟨new, hnew, rfl⟩ := h
  have hkey : new.inst = i := (hinst mtp new hnew).trans (key_of_find hmtp)
  refine ⟨mtp, new, by rw [connectionAt, hcont, bind_some, hmtp]; rfl, hnew, ?_⟩
  intro c' i'
  rw [connectionAt_replace hcont, find_replace_some hmtp hkey]
  by_cases hc : c' = c
  · subst hc
    by_cases hi : i' = i
    · simp [hi]
    · simp [hi, connectionAt, hcont]
  · simp [hc]

/-- The deletion of an MTP asserts nothing. -/
theorem notifyControllerMtpDeleted_isSome (c i : Nat) (slots : Slots) :
    ∃ slots', notifyControllerMtpDeleted c i slots = some slots' := by
  rw [notifyControllerMtpDeleted]
  cases hc : findControllerByInstance slots c with
  | none => exact ⟨slots, rfl⟩
  | some k =>
    obtain ⟨cont, hcont⟩ := find_of_indexOf hc
    dsimp only
    rw [modifyController_eq, hcont, bind_some]
    split <;> exact ⟨_, rfl⟩

theorem connectionAt_mtpDeleted (h : notifyControllerMtpDeleted c i slots = some slots')
    (hne : ¬ (c' = c ∧ i' = i)) : connectionAt slots' c' i' = connectionAt slots c' i' := by
  rw [notifyControllerMtpDeleted] at h
  split at h
  · obtain rfl := Option.some.inj h
    rfl
  · rw [modifyController_eq, bind_eq_some_iff] at h
    obtain ⟨cont, hcont, h⟩ := h
    rw [map_eq_some_iff] at h
    obtain ⟨new, hnew, rfl⟩ := h
    have hfind : new = { cont with mtps := new.mtps } ∧
        ∀ k, k ≠ i → find Mtp.inst k new.mtps = find Mtp.inst k cont.mtps := by
      cases hj : findControllerMtpByInstance cont.mtps i with
      | none =>
        rw [hj] at hnew
        obtain rfl := Option.some.inj hnew
        exact ⟨rfl, fun _ _ => rfl⟩
      | some j =>
        rw [hj] at hnew
        obtain rfl := Option.some.inj hnew
        refine ⟨rfl, fun k hk => ?_⟩
        have hset : cont.mtps.set j none = replace Mtp.inst i none cont.mtps := set_indexOf hj
        rw [hset]
        exact find_replace_of_ne hk fun b hb => by cases hb
    rw [hfind.1, connectionAt_replace hcont]
    by_cases hc : c' = c
    · subst hc
      rw [if_pos rfl, hfind.2 i' fun hi => hne ⟨rfl, hi⟩, connectionAt, hcont]
      rfl
    · rw [if_neg hc]

/-- What loads is the row, and its Reference names a client. -/
theorem loadMtp_done {E : Loading} {row : MtpRow} {mtp : Mtp}
    (h : loadMtp E slots cont row = .done mtp) :
    mtp.inst = row.inst ∧ getMqttReference E row.mqttReference = .ok mtp.mqttConnectionInstance := by
  rw [loadMtp] at h
  dsimp only at h
  split at h
  · cases h
  split at h
  · cases h
  split at h
  · cases h
  split at h
  · cases h
  split at h
  · cases h
  cases hconnection : getMqttReference E row.mqttReference with
  | error e =>
    rw [hconnection] at h
    cases h
  | ok connection =>
    rw [hconnection] at h
    dsimp only at h
    split at h
    · cases h
    · obtain rfl := Loaded.done.inj h
      exact ⟨rfl, rfl⟩

/-- An MTP that loads gets an unused slot, with the client that its Reference names. -/
theorem connectionAt_mtpAdded {E : Loading} {row : MtpRow} {mtp : Mtp}
    (hcont : find Controller.inst c slots = some cont)
    (hload : loadMtp E slots cont row = .done mtp)
    (hnew : find Mtp.inst row.inst cont.mtps = none) (hunused : (findUnused cont.mtps).isSome) :
    ∃ slots', notifyControllerMtpAdded E c row slots = some slots' ∧
      ∀ c' i', connectionAt slots' c' i' =
        if c' = c ∧ i' = row.inst then some mtp.mqttConnectionInstance
        else connectionAt slots c' i' := by
  have hinst : mtp.inst = row.inst := (loadMtp_done hload).1
  obtain ⟨j, hj⟩ := isSome_iff_exists.mp hunused
  have hfound : ∃ k, findControllerByInstance slots c = some k := by
    rw [find_eq_indexOf, bind_eq_some_iff] at hcont
    obtain ⟨k, hk, -⟩ := hcont
    exact ⟨k, hk⟩
  obtain ⟨k, hk⟩ := hfound
  have hadded : (processControllerMtpAdded E slots cont row).1 =
      { cont with mtps := cont.mtps.set j (some mtp) } := by
    rw [processControllerMtpAdded, hj]
    simp only [hload, Loaded.slot]
  refine ⟨replace Controller.inst c (some { cont with mtps := cont.mtps.set j (some mtp) }) slots,
    ?_, ?_⟩
  · rw [notifyControllerMtpAdded, hk]
    dsimp only
    rw [modifyController_eq, hcont, bind_some, map_some, hadded]
  · intro c' i'
    have hput : put mtp cont.mtps = some (cont.mtps.set j (some mtp)) := put_of_findIdx hj
    have hfree : find Mtp.inst (Mtp.inst mtp) cont.mtps = none := by rw [hinst, hnew]
    rw [connectionAt_replace hcont, find_put hput hfree, hinst]
    by_cases hc : c' = c
    · subst hc
      by_cases hi : i' = row.inst
      · simp [hi]
      · simp [hi, connectionAt, hcont]
    · simp [hc]

end ControllerTable
