import SdtTr369.AgentMtpSlots

/-!
# The slots and the clients after each commit

The slots hold the rows of the table and every enabled client was handed last what the
getters give, as long as no commit removes a disabled row, adds one that cannot be
cached, or takes a slot from a client that the getters answer from.
-/

namespace AgentMtps

open RunHistory SlotTable List Option
open ControllerTable (MtpProtocol Reference)

/-- One used slot for each row and none for any other, holding what the row stores. Every
enabled client was handed last what the getters give. -/
structure InStep (s : State) : Prop where
  running : s.stopped = false
  length : s.slots.length = maxAgentMtps
  once : (keys AgentMtp.inst s.slots).Nodup
  used : ∀ i, i ∈ keys AgentMtp.inst s.slots ↔ (s.rows i).isSome
  holding : ∀ i row mtp, s.rows i = some row → findAgentMtpByInstance i s.slots = some mtp →
    loadMtp s.clients true i row = some mtp
  handed : HandedRight s

/-- As many rows exist as there are slots. -/
def Full (s : State) : Prop :=
  ∃ instances : List Nat, instances.Nodup ∧ instances.length = maxAgentMtps ∧
    ∀ i ∈ instances, (s.rows i).isSome

/-- The getters give the same for the client of a slot with the new slot in its place. -/
def keepsComputed (i : Nat) (new : Option AgentMtp) (mtp : AgentMtp) (s : State) : Bool :=
  match mtp.mqttConnectionInstance with
  | none => true
  | some c =>
    s.clients c ≠ some true ∨ computed (replace AgentMtp.inst i new s.slots) c = computed s.slots c

def Change.meets (i : Nat) (readable : Bool) (mtp : AgentMtp) (s : State) : Change → Bool
  | .enable value => value = mtp.enable ∨ mtp.protocol = .mqtt
  | .protocol value =>
    value = mtp.protocol ∨ mtp.enable = false ∨
      keepsComputed i (some { mtp with protocol := value }) mtp s
  | .reference _ => readable
  | .responseTopic _ | .publishQos _ => true

/-- A row added can be cached and finds a slot. A row deleted is enabled, and what the getters
give for its client does not change with it, and neither does it with a change of the protocol. -/
def Op.meets (s : State) : Op → Bool
  | .added i _ readable =>
    ((s.rows i).bind (loadMtp s.clients readable i)).isSome && hasUnusedAgentMtp s.slots
  | .deleted i => (findAgentMtpByInstance i s.slots).all fun mtp =>
    mtp.enable && (mtp.protocol ≠ .mqtt || keepsComputed i none mtp s)
  | .changed i change readable => (findAgentMtpByInstance i s.slots).all fun mtp =>
    change.meets i readable mtp s

/-- Each notification of the commit meets its condition. -/
def Request.Meets (s : State) (request : Request) : Prop :=
  RunMeets notifyStep (fun s op => op.meets s) request.ops (stored request.ops s)

variable {change : Change}

section Notifications

variable {F R : Nat → Option Row} {s : State} {i : Nat} {op : Op} {row : Row}

/-- Neither the rows nor the MQTT clients change. -/
def Frames (s s' : State) : Prop := s'.rows = s.rows ∧ s'.clients = s.clients

theorem notifyAdded_frames (i : Nat) (readable : Bool) (s : State) :
    Frames s (notifyAdded i readable s) := by
  rw [notifyAdded]
  split
  · exact ⟨rfl, rfl⟩
  · split
    · exact ⟨rfl, rfl⟩
    · dsimp only
      split <;> simp [Frames]

theorem notifyDeleted_frames (i : Nat) (s : State) : Frames s (notifyDeleted i s) := by
  rw [notifyDeleted]
  split
  · exact ⟨rfl, rfl⟩
  · split
    · exact ⟨rfl, rfl⟩
    · dsimp only [setMtp]
      split <;> simp [Frames]

theorem notifyChanged_frames (i : Nat) (change : Change) (readable : Bool) (s : State) :
    Frames s (notifyChanged i change readable s) := by
  rw [notifyChanged]
  split
  · exact ⟨rfl, rfl⟩
  · cases change with
    | enable value =>
      dsimp only [notifyEnable]
      split
      · exact ⟨rfl, rfl⟩
      · split <;> simp [setMtp, Frames]
    | protocol value =>
      dsimp only [notifyProtocol]
      split
      · exact ⟨rfl, rfl⟩
      · split <;> simp [setMtp, Frames]
    | reference value =>
      dsimp only [notifyReference]
      split
      · exact ⟨rfl, rfl⟩
      · split <;> simp [setMtp, Frames]
    | responseTopic value =>
      dsimp only [notifyResponseTopic]
      split <;> simp [setMtp, Frames]
    | publishQos value =>
      dsimp only [notifyPublishQos]
      split <;> simp [setMtp, Frames]

theorem notify_frames (op : Op) (s : State) : Frames s (notify op s) := by
  simp only [notify]
  split
  · exact ⟨rfl, rfl⟩
  · cases op with
    | added i row readable => exact notifyAdded_frames i readable s
    | deleted i => exact notifyDeleted_frames i s
    | changed i change readable => exact notifyChanged_frames i change readable s

/-- What a notification reads of the rows as they are at the commit. -/
def Op.Final (clients : Nat → Option Bool) (rows : Nat → Option Row) : Op → Prop
  | .added i row _ => rows i = some row
  | .deleted _ => True
  | .changed i _ _ => ∃ row, rows i = some row ∧ (getMqttReference clients row.reference).isSome

theorem holds_changed {readable : Bool} (h : Holds s.rows R s) (hrow : R i = some row)
    (hfinal : Op.Final s.clients s.rows (.changed i change readable))
    (hmeets : (Op.changed i change readable).meets s) :
    Holds s.rows (Function.update R i (some (change.store row))) (notifyChanged i change readable s) := by
  obtain ⟨mtp, hfind, hcaches⟩ := h.cached i row hrow
  obtain ⟨final, hrows, hread⟩ := hfinal
  obtain ⟨connection, hconnection⟩ := isSome_iff_exists.mp hread
  rw [Op.meets, hfind, all_some] at hmeets
  simp only [notifyChanged, hfind]
  cases change with
  | enable value =>
    have hmqtt : value = mtp.enable ∨ mtp.protocol = .mqtt := by simpa [Change.meets] using hmeets
    exact holds_enable h hfind hcaches fun hne => hmqtt.resolve_left hne
  | protocol value =>
    have hkept : value = mtp.protocol ∨ mtp.enable = false ∨
        keepsComputed i (some { mtp with protocol := value }) mtp s := by
      simpa [Change.meets] using hmeets
    apply holds_protocol h hfind hcaches
    intro hne henable c hclient hc
    have hkept' := (hkept.resolve_left hne).resolve_left (by simp [henable])
    simpa [keepsComputed, hclient, hc] using hkept'
  | reference value =>
    obtain rfl : readable = true := hmeets
    exact holds_reference h hfind hcaches hrows hrows hconnection
  | responseTopic value => exact holds_responseTopic h hfind hcaches
  | publishQos value => exact holds_publishQos h hfind hcaches

/-- One notification follows one operation. -/
theorem holds_notify {slots : Slots} (h : Holds s.rows R s) (hvalid : op.valid s.clients slots R)
    (hfinal : op.Final s.clients s.rows) (hmeets : op.meets s) :
    Holds s.rows (op.store R) (notify op s) := by
  simp only [notify, h.running, Bool.false_eq_true, if_false]
  cases op with
  | added i row readable =>
    have hrow : s.rows i = some row := hfinal
    have hnew : R i = none := by
      simp only [Op.valid, Bool.and_eq_true, isNone_iff_eq_none] at hvalid
      exact hvalid.1
    simp only [Op.meets, hrow, bind_some, Bool.and_eq_true] at hmeets
    exact holds_added h hnew hrow hmeets.1 hmeets.2
  | deleted i =>
    obtain ⟨row, hrow⟩ := isSome_iff_exists.mp hvalid
    obtain ⟨mtp, hfind, -⟩ := h.cached i row hrow
    rw [Op.meets, hfind, all_some, Bool.and_eq_true] at hmeets
    apply holds_deleted h hfind hmeets.1
    intro hprotocol c hclient hc
    simpa [hprotocol, keepsComputed, hclient, hc] using hmeets.2
  | changed i change readable =>
    simp only [Op.valid, Bool.and_eq_true] at hvalid
    obtain ⟨row, hrow⟩ := isSome_iff_exists.mp hvalid.1
    have hstore : (Op.changed i change readable).store R =
        Function.update R i (some (change.store row)) := by
      rw [Op.store, hrow]
      rfl
    rw [hstore]
    exact holds_changed h hrow hfinal hmeets

end Notifications

section Commits

variable {clients : Nat → Option Bool} {slots : Slots} {R : Nat → Option Row} {s s' : State}
  {ops : List Op} {request : Request}

/-- The notifications of a commit, one after the other. -/
theorem holds_run (hvalid : opsValid s.clients slots R ops)
    (hfinal : ∀ op ∈ ops, op.Final s.clients s.rows) (h : Holds s.rows R s)
    (hmeets : RunMeets notifyStep (fun s op => op.meets s) ops s) (hrun : run notifyStep ops s = some s') :
    Holds s'.rows (ops.foldl Op.store R) s' ∧ s'.rows = s.rows := by
  induction ops generalizing R s with
  | nil =>
    obtain rfl := Option.some.inj hrun
    exact ⟨h, rfl⟩
  | cons op ops ih =>
    rw [opsValid, Bool.and_eq_true] at hvalid
    have hstep : Holds s.rows (op.store R) (notify op s) :=
      holds_notify h hvalid.1 (hfinal op mem_cons_self) hmeets.1
    obtain ⟨hrows, hclients⟩ := notify_frames op s
    rw [← hrows] at hstep ⊢
    rw [run_cons] at hrun
    refine ih ?_ ?_ hstep (hmeets.2 _ rfl) hrun
    · rw [hclients]
      exact hvalid.2
    · intro op' hop'
      rw [hclients, hrows]
      exact hfinal op' (mem_cons_of_mem _ hop')

variable {rows : List (Nat × Row × Bool)} {changes : List (Nat × Change × Bool)}

/-- A row that an Add has created stays as it was created. -/
theorem foldl_added {i : Nat} {row : Row}
    (hvalid : opsValid clients slots R (Request.add rows).ops) (hrow : R i = some row) :
    (Request.add rows).ops.foldl Op.store R i = some row := by
  induction rows generalizing R with
  | nil => exact hrow
  | cons x rows ih =>
    simp only [Request.ops, map_cons, opsValid, Op.valid, Bool.and_eq_true,
      isNone_iff_eq_none] at hvalid
    have hne : i ≠ x.1 := by
      rintro rfl
      simp [hvalid.1.1] at hrow
    have hkept : Op.store R (.added x.1 x.2.1 x.2.2) i = some row := by
      rw [Op.store, Function.update_of_ne hne, hrow]
    exact ih hvalid.2 hkept

theorem final_added (hvalid : opsValid clients slots R (Request.add rows).ops) :
    ∀ op ∈ (Request.add rows).ops, op.Final clients ((Request.add rows).ops.foldl Op.store R) := by
  induction rows generalizing R with
  | nil => simp [Request.ops]
  | cons x rows ih =>
    simp only [Request.ops, map_cons, opsValid, Bool.and_eq_true] at hvalid
    have hrest := ih hvalid.2
    intro op hop
    rw [Request.ops, map_cons, mem_cons] at hop
    obtain rfl | hop := hop
    · have hcreated : Op.store R (.added x.1 x.2.1 x.2.2) x.1 = some x.2.1 := Function.update_self ..
      have hvalid' : opsValid clients slots _ (Request.add rows).ops := hvalid.2
      have hkept := foldl_added hvalid' hcreated
      exact hkept
    · exact hrest op hop

/-- Every row's reference can be read. -/
def Readable (clients : Nat → Option Bool) (rows : Nat → Option Row) : Prop :=
  ∀ i row, rows i = some row → (getMqttReference clients row.reference).isSome

theorem readable_changed {i : Nat} (h : Readable clients R) (hvalid : change.valid clients) :
    Readable clients (Function.update R i ((R i).map change.store)) := by
  intro k row hk
  by_cases hki : k = i
  · subst hki
    rw [Function.update_self, map_eq_some_iff] at hk
    obtain ⟨old, hold, rfl⟩ := hk
    cases change with
    | reference value => exact hvalid
    | _ => exact h k old hold
  · rw [Function.update_of_ne hki] at hk
    exact h k row hk

/-- A Set keeps every row and leaves references that can be read. -/
theorem foldl_changed (hvalid : opsValid clients slots R (Request.set changes).ops)
    (h : Readable clients R) :
    Readable clients ((Request.set changes).ops.foldl Op.store R) ∧
      ∀ i, (R i).isSome → ((Request.set changes).ops.foldl Op.store R i).isSome := by
  induction changes generalizing R with
  | nil => exact ⟨h, fun i hi => hi⟩
  | cons x changes ih =>
    simp only [Request.ops, map_cons, opsValid, Op.valid, Bool.and_eq_true] at hvalid
    obtain ⟨hread, hsome⟩ := ih hvalid.2 (readable_changed h hvalid.1.2)
    refine ⟨hread, fun i hi => hsome i ?_⟩
    by_cases hix : i = x.1
    · simpa [Op.store, hix] using hvalid.1.1
    · rwa [Op.store, Function.update_of_ne hix]

theorem final_changed (hvalid : opsValid clients slots R (Request.set changes).ops)
    (h : Readable clients R) :
    ∀ op ∈ (Request.set changes).ops, op.Final clients ((Request.set changes).ops.foldl Op.store R) := by
  induction changes generalizing R with
  | nil => simp [Request.ops]
  | cons x changes ih =>
    simp only [Request.ops, map_cons, opsValid, Op.valid, Bool.and_eq_true] at hvalid
    have hread := readable_changed (i := x.1) h hvalid.1.2
    intro op hop
    rw [Request.ops, map_cons, mem_cons] at hop
    obtain rfl | hop := hop
    · obtain ⟨hread', hsome⟩ := foldl_changed hvalid.2 hread
      obtain ⟨row, hrow⟩ := isSome_iff_exists.mp
        (hsome x.1 (by simpa [Op.store] using hvalid.1.1))
      exact ⟨row, hrow, hread' x.1 row hrow⟩
    · exact ih hvalid.2 hread op hop

theorem final_ops (hvalid : opsValid clients slots R request.ops) (h : Readable clients R) :
    ∀ op ∈ request.ops, op.Final clients (request.ops.foldl Op.store R) := by
  cases request with
  | add rows => exact final_added hvalid
  | delete instances =>
    intro op hop
    obtain ⟨i, -, rfl⟩ := List.mem_map.mp hop
    trivial
  | set changes => exact final_changed hvalid h

theorem holds_of_inStep {F rows : Nat → Option Row} (h : InStep s) :
    Holds F s.rows { s with rows := rows } where
  running := h.running
  length := h.length
  nodup := h.once
  unused := by
    intro i hi
    apply find_eq_none_iff.mpr
    rw [h.used, hi]
    exact Bool.false_ne_true
  cached := by
    intro i row hrow
    obtain ⟨mtp, hfind⟩ := mem_keys_iff.mp ((h.used i).mpr (by rw [hrow]; rfl))
    exact ⟨mtp, hfind, (caches_loadMtp (h.holding i row mtp hrow hfind)).2⟩
  handed := h.handed

theorem inStep_of_holds (h : Holds s.rows s.rows s) : InStep s where
  running := h.running
  length := h.length
  once := h.nodup
  used := by
    intro i
    rw [mem_keys_iff]
    cases hrow : s.rows i with
    | none =>
      have hfind : find AgentMtp.inst i s.slots = none := h.unused i hrow
      simp [hfind]
    | some row =>
      obtain ⟨mtp, hfind, -⟩ := h.cached i row hrow
      simpa using ⟨mtp, hfind⟩
  holding := by
    intro i row mtp hrow hfind
    obtain ⟨mtp', hfind', hcaches⟩ := h.cached i row hrow
    obtain rfl : mtp = mtp' := by simpa [hfind] using hfind'
    have hreference : getMqttReference s.clients row.reference = some mtp.mqttConnectionInstance := by
      simpa [hrow] using hcaches.reference
    exact loadMtp_of_caches ⟨hcaches.enable, hcaches.protocol, .inl hreference,
      hcaches.responseTopic, hcaches.publishQos⟩ (key_of_find hfind)
  handed := h.handed

theorem readable_of_inStep (h : InStep s) : Readable s.clients s.rows := by
  intro i row hrow
  obtain ⟨mtp, hfind⟩ := mem_keys_iff.mp ((h.used i).mpr (by rw [hrow]; rfl))
  have hload := h.holding i row mtp hrow hfind
  rw [loadMtp, if_pos rfl, bind_eq_some_iff] at hload
  obtain ⟨protocol, -, hload⟩ := hload
  rw [map_eq_some_iff] at hload
  obtain ⟨connection, hconnection, -⟩ := hload
  rw [hconnection]
  rfl

theorem inStep_commit (h : InStep s) (hmeets : request.Meets s) (hcommit : commit request s = some s') :
    InStep s' := by
  rw [commit] at hcommit
  split at hcommit
  · rename_i hopen
    have hholds : Holds (stored request.ops s).rows s.rows (stored request.ops s) := holds_of_inStep h
    have hfinal := final_ops hopen.2 (readable_of_inStep h)
    obtain ⟨hdone, hrows⟩ := holds_run (s := stored request.ops s) hopen.2 hfinal hholds hmeets hcommit
    have hfold : request.ops.foldl Op.store s.rows = s'.rows := hrows.symm
    rw [hfold] at hdone
    exact inStep_of_holds hdone
  · cases hcommit

/-- Without an unused slot there is a row for each. -/
theorem full_of_inStep (h : InStep s) (hfull : hasUnusedAgentMtp s.slots = false) : Full s :=
  ⟨keys AgentMtp.inst s.slots, h.once, (length_keys hfull).trans h.length, fun i hi => (h.used i).mp hi⟩

/-- Commits whose notifications all meet their conditions keep slots and clients in step with
the table. -/
theorem inStep_run {requests : List Request} (h : InStep s)
    (hmeets : RunMeets commit (fun s request => request.Meets s) requests s)
    (hrun : run commit requests s = some s') :
    InStep s' ∧ (hasUnusedAgentMtp s'.slots = false → Full s') := by
  have hdone : InStep s' :=
    run_keeps (fun _ _ _ hI hC hcommit => inStep_commit hI hC hcommit) h hmeets hrun
  exact ⟨hdone, full_of_inStep hdone⟩

/-- A table without rows. -/
def empty (clients : Nat → Option Bool) : State where
  rows _ := none
  clients := clients
  slots := List.replicate maxAgentMtps none
  handed _ := (none, qosDefault)
  stopped := false

theorem inStep_empty (clients : Nat → Option Bool) : InStep (empty clients) where
  running := rfl
  length := length_replicate
  once := nodup_nil
  used := by
    intro i
    exact iff_of_false not_mem_nil Bool.false_ne_true
  holding := nofun
  handed := fun _ _ => rfl

end Commits

section Histories

instance (s : State) (request : Request) : Decidable (request.Meets s) :=
  inferInstanceAs (Decidable (RunMeets _ _ _ _))

def twoClients (n : Nat) : Option Bool := if n = 1 ∨ n = 2 then some true else none

def topicRow (enable : Bool) : Row := ⟨enable, some .mqtt, .row 1, "agent".toList, 1⟩

/-- A row that changes its client and its topic and is deleted when it has no client. -/
def moved : List Request :=
  [.add [(1, topicRow true, true)],
    .set [(1, .responseTopic "other".toList, true), (1, .reference (.row 2), true)],
    .set [(1, .enable false, true)],
    .set [(1, .enable true, true), (1, .reference .blank, true)],
    .delete [1]]

theorem inStep_run_moved : ∃ s, run commit moved (empty twoClients) = some s ∧ InStep s ∧
    (hasUnusedAgentMtp s.slots = false → Full s) := by
  have hsome : (run commit moved (empty twoClients)).isSome := by decide
  obtain ⟨s, hs⟩ := isSome_iff_exists.mp hsome
  exact ⟨s, hs, inStep_run (inStep_empty twoClients) (by decide) hs⟩

def createAndDelete (enable : Bool) : List Request := [.add [(1, topicRow enable, true)], .delete [1]]

/-- A disabled row leaves its slot behind, and without any row the next Add is refused. The
client of an enabled one keeps its topic. -/
theorem deleted_row_remains :
    (run commit ((List.replicate maxAgentMtps (createAndDelete false)).flatten)
        (empty twoClients)).map (fun s => (s.rows 1, hasUnusedAgentMtp s.slots)) =
      some (none, false) ∧
    (run commit (createAndDelete true) (empty twoClients)).map
        (fun s => (s.handed 1, computed s.slots 1)) =
      some ((some "agent".toList, 1), (none, qosDefault)) := by
  decide

end Histories

end AgentMtps
