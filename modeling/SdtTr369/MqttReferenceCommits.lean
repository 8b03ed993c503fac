import SdtTr369.MqttReferenceSteps

/-!
# References to MQTT clients in every state

Every Reference is empty or names the client that it was set to, and the slot of its row has
that client, as long as every row added is loaded and every client deleted is unpicked.
-/

namespace MqttReferences

open RunHistory ControllerTable List Option
open AgentMtps (findAgentMtpByInstance)

/-- A Reference is empty or names the client that it was set to, which is the one in the slot
of its row. -/
structure Right (s : State) : Prop where
  named : ∀ r ref, referenceOf s r = some ref →
    ref = .blank ∨ ∃ client ∈ s.clients, ref = .row client.inst ∧ client.serial = s.target r
  cached : s.stopped = false → ∀ r ref, referenceOf s r = some ref →
    connectionOf s r = some (clientOf ref)
  once : s.instances.Nodup

/-- Each notification of the commit meets its condition. -/
def Request.Meets (s : State) (request : Request) : Prop :=
  RunMeets notifyStep (fun x op => op.meets x.1) request.ops (stored request.ops s, [])

section Stored

variable {s : State} {op : Op} {ops : List Op} {r : RowId} {ref : Reference} {n : Nat}

theorem aimed_iff : Aimed s r ref ↔
    ref = .blank ∨ ∃ client ∈ s.clients, ref = .row client.inst ∧ client.serial = s.target r := by
  cases ref with
  | blank => simp [Aimed]
  | row n => simp [Aimed, eq_comm]
  | invalid => simp [Aimed]

theorem getNextInstance_gt {instances : List Nat} (h : n ∈ instances) :
    n < getNextInstance instances := by
  have hfold : ∀ (l : List Nat) (highest : Nat),
      highest ≤ l.foldl (fun highest i => if highest < i then i else highest) highest ∧
        ∀ i ∈ l, i ≤ l.foldl (fun highest i => if highest < i then i else highest) highest := by
    intro l
    induction l with
    | nil => simp
    | cons j l ih =>
      intro highest
      obtain ⟨hle, hall⟩ := ih (if highest < j then j else highest)
      have hhighest : highest ≤ if highest < j then j else highest := by
        split <;> omega
      have hj : j ≤ if highest < j then j else highest := by
        split <;> omega
      rw [foldl_cons]
      refine ⟨hhighest.trans hle, ?_⟩
      intro i hi
      rcases List.mem_cons.mp hi with rfl | hi
      · exact hj.trans hle
      · exact hall i hi
  exact Nat.lt_succ_of_le ((hfold instances 0).2 n h)

theorem store_clients (op : Op) (s : State) : (op.store s).clients = (op.storeRows s).clients := by
  rw [Op.store]
  split <;> rfl

theorem once_store (hvalid : op.valid s) (h : s.instances.Nodup) : (op.store s).instances.Nodup := by
  rw [State.instances, store_clients]
  cases op with
  | clientAdded n loads =>
    rw [Op.valid, Bool.and_eq_true] at hvalid
    have hn : n = getNextInstance s.instances := by
      have hrow := hvalid.1
      simp only [Op.validRow, Bool.and_eq_true, decide_eq_true_eq] at hrow
      exact hrow.1
    have hnew : n ∉ s.instances := by
      intro hmem
      have hlt := getNextInstance_gt hmem
      omega
    rw [Op.storeRows, map_append]
    exact List.nodup_append.mpr ⟨h, by simp, by simpa [State.instances] using hnew⟩
  | clientDeleted n => exact h.sublist (List.filter_sublist.map _)
  | _ => exact h

theorem once_stored (hvalid : opsValid ops s) (h : s.instances.Nodup) :
    (stored ops s).instances.Nodup := by
  induction ops generalizing s with
  | nil => exact h
  | cons op ops ih =>
    rw [opsValid, Bool.and_eq_true] at hvalid
    exact ih hvalid.2 (once_store hvalid.1 h)

/-- Every Reference is aimed at a client. -/
def AllAimed (s : State) : Prop := ∀ r ref, referenceOf s r = some ref → Aimed s r ref

theorem serialOf_spec (h : n ∈ s.instances) :
    ∃ client ∈ s.clients, client.inst = n ∧ client.serial = s.serialOf n := by
  obtain ⟨client, hclient, hinst⟩ := mem_instances_iff.mp h
  have hsome : (s.clients.find? (·.inst = n)).isSome := by
    rw [find?_isSome]
    exact ⟨client, hclient, by simpa using hinst⟩
  obtain ⟨found, hfound⟩ := isSome_iff_exists.mp hsome
  refine ⟨found, mem_of_find?_eq_some hfound, by simpa using find?_some hfound, ?_⟩
  rw [State.serialOf, hfound]
  rfl

theorem store_target_kept (hset : ¬ op.sets r) : (op.store s).target r = s.target r := by
  have hrows : (op.storeRows s).target = s.target := by cases op <;> rfl
  rw [Op.store]
  split
  · rename_i r' n hreference
    have hne : r ≠ r' := by
      rintro rfl
      exact hset ⟨_, hreference⟩
    exact Function.update_of_ne hne _ _
  · rw [hrows]

/-- Only a deletion takes clients away. -/
theorem mem_store_clients (hkind : op.kind ≠ .delete) {client : Client} (h : client ∈ s.clients) :
    client ∈ (op.store s).clients := by
  rw [store_clients]
  cases op with
  | clientAdded n loads => exact mem_append_left _ h
  | clientDeleted n => exact absurd rfl hkind
  | _ => exact h

theorem aimed_store_kept (hkind : op.kind ≠ .delete) (hset : ¬ op.sets r) (h : Aimed s r ref) :
    Aimed (op.store s) r ref := by
  cases ref with
  | blank => trivial
  | invalid => exact h
  | row n =>
    obtain ⟨client, hclient, hinst, hserial⟩ := h
    exact ⟨client, mem_store_clients hkind hclient, hinst, hserial.trans (store_target_kept hset).symm⟩

/-- A Reference that an operation stores is aimed at the client that it names then. -/
theorem aimed_store_set (hvalid : op.valid s) (hkind : op.kind ≠ .delete)
    (hset : op.reference = some (r, ref)) : Aimed (op.store s) r ref := by
  rw [Op.valid, Bool.and_eq_true, hset, all_some] at hvalid
  have hread := hvalid.2
  cases ref with
  | blank => trivial
  | invalid => cases hread
  | row n =>
    have hn : n ∈ s.instances := by
      by_contra hno
      simp [AgentMtps.getMqttReference, State.mqttClients, hno] at hread
    obtain ⟨client, hclient, hinst, hserial⟩ := serialOf_spec hn
    exact ⟨client, mem_store_clients hkind hclient, hinst, by simp [Op.store, hset, hserial]⟩

theorem allAimed_store (hvalid : op.valid s) (hkind : op.kind ≠ .delete) (h : AllAimed s) :
    AllAimed (op.store s) := by
  intro r ref href
  by_cases hset : op.sets r
  · obtain ⟨value, hvalue⟩ := hset
    rw [referenceOf_store_set hvalid hvalue] at href
    obtain rfl := Option.some.inj href
    exact aimed_store_set hvalid hkind hvalue
  · by_cases hremoved : op.removed = some r
    · rw [referenceOf_store_removed hremoved] at href
      cases href
    · rw [referenceOf_store_kept hset hremoved] at href
      exact aimed_store_kept hkind hset (h r ref href)

theorem allAimed_stored (hvalid : opsValid ops s) (hkind : ∀ op ∈ ops, op.kind ≠ .delete)
    (h : AllAimed s) : AllAimed (stored ops s) := by
  induction ops generalizing s with
  | nil => exact h
  | cons op ops ih =>
    rw [opsValid, Bool.and_eq_true] at hvalid
    exact ih hvalid.2 (fun op' hop' => hkind op' (mem_cons_of_mem _ hop'))
      (allAimed_store hvalid.1 (hkind op mem_cons_self) h)

theorem removed_of_kind (h : op.kind ≠ .delete) : op.removed = none := by
  cases op with
  | mtpDeleted c i => exact absurd rfl h
  | agent op =>
    cases op with
    | deleted i => exact absurd rfl h
    | _ => rfl
  | _ => rfl

theorem reference_of_kind (h : op.kind = .delete) : op.reference = none := by
  cases op with
  | agent op =>
    cases op with
    | deleted i => rfl
    | _ => cases h
  | mtpAdded c row reads => cases h
  | mtpChanged c i change reads => cases h
  | _ => rfl

theorem stored_connectionOf (ops : List Op) (s : State) (r : RowId) :
    connectionOf (stored ops s) r = connectionOf s r := by
  induction ops generalizing s with
  | nil => rfl
  | cons op ops ih => exact (ih (op.store s)).trans (store_connectionOf op s r)

theorem stored_referenceOf_kept (hset : ∀ op ∈ ops, ¬ op.sets r)
    (hremoved : ∀ op ∈ ops, op.removed ≠ some r) :
    referenceOf (stored ops s) r = referenceOf s r := by
  induction ops generalizing s with
  | nil => rfl
  | cons op ops ih =>
    have hrest := ih (s := op.store s) (fun op' hop' => hset op' (mem_cons_of_mem _ hop'))
      fun op' hop' => hremoved op' (mem_cons_of_mem _ hop')
    exact hrest.trans
      (referenceOf_store_kept (hset op mem_cons_self) (hremoved op mem_cons_self))

/-- A row that the operations delete is gone, as they add none. -/
theorem stored_referenceOf_removed (hkind : ∀ op ∈ ops, op.kind = .delete) :
    (∀ op ∈ ops, ∀ r, op.removed = some r → referenceOf (stored ops s) r = none) ∧
      ∀ r, referenceOf s r = none → referenceOf (stored ops s) r = none := by
  induction ops generalizing s with
  | nil => exact ⟨fun op hop => absurd hop not_mem_nil, fun r h => h⟩
  | cons op ops ih =>
    obtain ⟨hgone, hnone⟩ := ih (s := op.store s) fun op' hop' => hkind op' (mem_cons_of_mem _ hop')
    refine ⟨?_, ?_⟩
    · intro op' hop' r hr
      rcases List.mem_cons.mp hop' with rfl | hop'
      · exact hnone r (referenceOf_store_removed hr)
      · exact hgone op' hop' r hr
    · intro r hr
      apply hnone
      by_cases hremoved : op.removed = some r
      · exact referenceOf_store_removed hremoved
      · have hset : ¬ op.sets r := by
          rintro ⟨value, hvalue⟩
          rw [reference_of_kind (hkind op mem_cons_self)] at hvalue
          cases hvalue
        rw [referenceOf_store_kept hset hremoved, hr]

end Stored

section Runs

variable {s s' : State} {ops : List Op} {x x' : State × List Op}

/-- Nothing is notified once an assertion has failed. -/
theorem notify_stopped (h : x.1.stopped = true) (op : Op) : notify op x = x := if_pos h

theorem run_stopped (h : x.1.stopped = true) (hrun : run notifyStep ops x = some x') : x' = x := by
  induction ops with
  | nil => exact (Option.some.inj hrun).symm
  | cons op ops ih =>
    rw [run_cons, notifyStep, notify_stopped h op] at hrun
    exact ih hrun

/-- Adds and Sets: the slots follow one operation after the other, and the last one that
stores a Reference stores what the row holds in the end. -/
theorem follows_run {mid : State} (hvalid : opsValid ops mid) (hkind : ∀ op ∈ ops, op.kind ≠ .delete)
    (hrows : SameRows (stored ops mid) s) (hfollows : s.stopped = false → Follows ops s)
    (hmeets : RunMeets notifyStep (fun x op => op.meets x.1) ops (s, []))
    (hrun : run notifyStep ops (s, []) = some x) :
    x.2 = [] ∧ SameRows s x.1 ∧ (x.1.stopped = false → Follows [] x.1) := by
  induction ops generalizing s mid with
  | nil =>
    obtain rfl := Option.some.inj hrun
    exact ⟨rfl, ⟨rfl, rfl, rfl, rfl⟩, hfollows⟩
  | cons op ops ih =>
    by_cases hstop : s.stopped = true
    · obtain rfl := run_stopped (x := (s, [])) hstop hrun
      exact ⟨rfl, ⟨rfl, rfl, rfl, rfl⟩, fun h => absurd (hstop.symm.trans h) (by decide)⟩
    have hrunning : s.stopped = false := by simpa using hstop
    rw [opsValid, Bool.and_eq_true] at hvalid
    have hkept : op.kind ≠ .delete := hkind op mem_cons_self
    have hrest : ∀ op' ∈ ops, op'.kind ≠ .delete := fun op' hop' => hkind op' (mem_cons_of_mem _ hop')
    have hclient : ∀ n, op ≠ .clientDeleted n := by
      rintro n rfl
      exact hkept rfl
    have hstep : (notify op (s, [])).1.stopped = true ∨ Follows ops (notify op (s, [])).1 :=
      follows_step hrunning hmeets.1 hclient (hfollows hrunning)
      (by
        intro r ref href hlast
        have hremoved : ∀ op' ∈ ops, op'.removed ≠ some r := by
          intro op' hop'
          rw [removed_of_kind (hrest op' hop')]
          exact nofun
        rw [hrows.referenceOf]
        exact (stored_referenceOf_kept hlast hremoved).trans (referenceOf_store_set hvalid.1 href))
      (.inr fun n hn => hrest _ hn rfl)
      (by
        intro r hr
        rw [removed_of_kind hkept] at hr
        cases hr)
    obtain ⟨hsame, hcascade⟩ : SameRows s (notify op (s, [])).1 ∧ (notify op (s, [])).2 = [] :=
      notify_sameRows hclient
    have hnotify : notify op (s, []) = ((notify op (s, [])).1, []) := Prod.ext rfl hcascade
    rw [run_cons, notifyStep, bind_some, hnotify] at hrun
    have hmeets' := hmeets.2 (notify op (s, [])) rfl
    rw [hnotify] at hmeets'
    obtain ⟨hnone, hrows', hdone⟩ := ih hvalid.2 hrest (hrows.trans hsame)
      (fun hrunning' => hstep.resolve_left (by simp [hrunning'])) hmeets' hrun
    exact ⟨hnone, hsame.trans hrows', hdone⟩

theorem notify_deleted_running {op : Op} {acc : List Op} (hkind : op.kind = .delete)
    (hclient : ∀ n, op ≠ .clientDeleted n) (hrun : s.stopped = false) :
    (notify op (s, acc)).1.stopped = false := by
  cases op with
  | clientDeleted n => exact absurd rfl (hclient n)
  | agent op =>
    cases op with
    | deleted i =>
      rw [notifyAgent_of_running hrun]
      simp only [notifyAgent, AgentMtps.notify, State.agentMtpState, hrun, Bool.false_eq_true,
        if_false, AgentMtps.notifyDeleted]
      split
      · rfl
      · split
        · rfl
        · dsimp only [AgentMtps.setMtp]
          split <;> simp
    | _ => cases hkind
  | mtpDeleted c i =>
    obtain ⟨slots, hslots⟩ := notifyControllerMtpDeleted_isSome c i s.controllers
    simp [notify, hrun, notifyController, hslots]
  | _ => cases hkind

/-- Deletes: no row is added, and those emptied have their Sets to come. -/
theorem unpicking_run (hkind : ∀ op ∈ ops, op.kind = .delete) (h : Unpicking ops x)
    (hmeets : RunMeets notifyStep (fun x op => op.meets x.1) ops x)
    (hrun : run notifyStep ops x = some x') : Unpicking [] x' := by
  induction ops generalizing x with
  | nil =>
    obtain rfl := Option.some.inj hrun
    exact h
  | cons op ops ih =>
    rw [run_cons, notifyStep, bind_some] at hrun
    refine ih (fun op' hop' => hkind op' (mem_cons_of_mem _ hop')) ?_ (hmeets.2 _ rfl) hrun
    obtain ⟨s, acc⟩ := x
    by_cases hclient : ∀ n, op ≠ .clientDeleted n
    · have hdelete : op.kind = .delete := hkind op mem_cons_self
      have hrunning : s.stopped = false := h.running
      have hreference := reference_of_kind hdelete
      obtain ⟨hsame, hcascade⟩ : SameRows s (notify op (s, acc)).1 ∧ (notify op (s, acc)).2 = acc :=
        notify_sameRows hclient
      have hstays : (notify op (s, acc)).1.stopped = false :=
        notify_deleted_running hdelete hclient hrunning
      have hstep : (notify op (s, acc)).1.stopped = true ∨
          Follows (ops ++ acc) (notify op (s, acc)).1 :=
        follows_step hrunning hmeets.1 hclient h.follows
        (by
          intro r ref href
          rw [hreference] at href
          cases href)
        (.inl hreference) (h.gone op mem_cons_self)
      refine ⟨hstays, ?_, ?_, ?_, ?_⟩
      · rw [State.instances, hsame.clients]
        exact h.once
      · rw [hcascade]
        exact hstep.resolve_left (by simp [hstays])
      · intro op' hop' r hr
        rw [hsame.referenceOf]
        exact h.gone op' (mem_cons_of_mem _ hop') r hr
      · intro op' hop'
        rw [hcascade] at hop'
        obtain ⟨i, hi, hblank⟩ := h.cascade op' hop'
        exact ⟨i, hi, (hsame.referenceOf _).trans hblank⟩
    · push Not at hclient
      obtain ⟨n, rfl⟩ := hclient
      exact unpicking_clientDeleted h hmeets.1

/-- The Sets of the cascaded transaction. -/
theorem follows_cascade (hempties : Unpicks (s, ops)) (hfollows : s.stopped = false → Follows ops s)
    (hrun : run notifyStep ops (s, []) = some x) :
    SameRows s x.1 ∧ (x.1.stopped = false → Follows [] x.1) := by
  induction ops generalizing s with
  | nil =>
    obtain rfl := Option.some.inj hrun
    exact ⟨⟨rfl, rfl, rfl, rfl⟩, hfollows⟩
  | cons op ops ih =>
    by_cases hstop : s.stopped = true
    · obtain rfl := run_stopped (x := (s, [])) hstop hrun
      exact ⟨⟨rfl, rfl, rfl, rfl⟩, fun h => absurd (hstop.symm.trans h) (by decide)⟩
    have hrunning : s.stopped = false := by simpa using hstop
    obtain ⟨i, rfl, hblank⟩ := hempties op mem_cons_self
    have hclient : ∀ n, Op.agent (.changed i (.reference .blank) true) ≠ .clientDeleted n := nofun
    have hrest : ∀ n, .clientDeleted n ∉ ops := by
      intro n hn
      obtain ⟨k, hk, -⟩ := hempties _ (mem_cons_of_mem _ hn)
      cases hk
    obtain ⟨y, hy⟩ : ∃ y, notify (.agent (.changed i (.reference .blank) true)) (s, []) = y := ⟨_, rfl⟩
    have hstep : y.1.stopped = true ∨ Follows ops y.1 := by
      rw [← hy]
      refine follows_step hrunning rfl hclient (hfollows hrunning) ?_ (.inr hrest) nofun
      rintro r ref ⟨⟩ -
      exact hblank
    obtain ⟨hsame, hcascade⟩ : SameRows s y.1 ∧ y.2 = [] := hy ▸ notify_sameRows hclient
    rw [run_cons, notifyStep, bind_some, hy, show y = (y.1, []) from Prod.ext rfl hcascade] at hrun
    have hempties' : Unpicks (y.1, ops) := by
      intro op hop
      obtain ⟨k, hk, hk'⟩ := hempties op (mem_cons_of_mem _ hop)
      exact ⟨k, hk, (hsame.referenceOf _).trans hk'⟩
    obtain ⟨hrows, hdone⟩ := ih hempties'
      (fun hrunning' => hstep.resolve_left (by simp [hrunning'])) hrun
    exact ⟨hsame.trans hrows, hdone⟩

/-- What a commit of Adds or Sets starts with. -/
theorem follows_stored (h : Right s) (hrunning : s.stopped = false) (hvalid : opsValid ops s)
    (hkind : ∀ op ∈ ops, op.kind ≠ .delete) : Follows ops (stored ops s) := by
  have haimed : AllAimed (stored ops s) :=
    allAimed_stored hvalid hkind fun r ref href => aimed_iff.mpr (h.named r ref href)
  intro r ref href
  refine .inl ⟨haimed r ref href, ?_⟩
  by_cases hset : ∃ op ∈ ops, op.sets r
  · exact .inr hset
  · left
    have hkept : referenceOf (stored ops s) r = referenceOf s r := by
      apply stored_referenceOf_kept
      · exact fun op hop hsets => hset ⟨op, hop, hsets⟩
      · intro op hop
        rw [removed_of_kind (hkind op hop)]
        exact nofun
    rw [hkept] at href
    rw [stored_connectionOf]
    exact h.cached hrunning r ref href

theorem stored_client {client : Client} (h : client ∈ s.clients)
    (hkind : ∀ op ∈ ops, op.kind = .delete) :
    client ∈ (stored ops s).clients ∨ .clientDeleted client.inst ∈ ops := by
  induction ops generalizing s with
  | nil => exact .inl h
  | cons op ops ih =>
    have hrest : ∀ op' ∈ ops, op'.kind = .delete := fun op' hop' => hkind op' (mem_cons_of_mem _ hop')
    by_cases hdeleted : op = .clientDeleted client.inst
    · exact .inr (hdeleted ▸ mem_cons_self)
    · have hstays : client ∈ (op.store s).clients := by
        rw [store_clients]
        cases op with
        | clientDeleted n =>
          refine List.mem_filter.mpr ⟨h, ?_⟩
          have hne : client.inst ≠ n := by
            rintro rfl
            exact hdeleted rfl
          simpa using hne
        | clientAdded n loads => exact mem_append_left _ h
        | _ => exact h
      exact (ih hstays hrest).imp_right (mem_cons_of_mem _)

theorem stored_target (hkind : ∀ op ∈ ops, op.kind = .delete) (r : RowId) :
    (stored ops s).target r = s.target r := by
  induction ops generalizing s with
  | nil => rfl
  | cons op ops ih =>
    have hset : ¬ op.sets r := by
      rintro ⟨value, hvalue⟩
      rw [reference_of_kind (hkind op mem_cons_self)] at hvalue
      cases hvalue
    exact (ih fun op' hop' => hkind op' (mem_cons_of_mem _ hop')).trans (store_target_kept hset)

theorem stored_stopped (ops : List Op) (s : State) : (stored ops s).stopped = s.stopped := by
  induction ops generalizing s with
  | nil => rfl
  | cons op ops ih =>
    have hop : (op.store s).stopped = s.stopped := by
      have hrows : (op.storeRows s).stopped = s.stopped := by cases op <;> rfl
      rw [Op.store]
      split <;> exact hrows
    exact (ih (op.store s)).trans hop

/-- What a commit of Deletes starts with. -/
theorem unpicking_stored (h : Right s) (hrunning : s.stopped = false) (hvalid : opsValid ops s)
    (hkind : ∀ op ∈ ops, op.kind = .delete) : Unpicking ops (stored ops s, []) := by
  obtain ⟨hgone, hnone⟩ := stored_referenceOf_removed (s := s) hkind
  refine ⟨(stored_stopped ops s).trans hrunning, once_stored hvalid h.once, ?_, hgone, nofun⟩
  · intro r ref href
    have hset : ∀ op ∈ ops, ¬ op.sets r := by
      rintro op hop ⟨value, hvalue⟩
      rw [reference_of_kind (hkind op hop)] at hvalue
      cases hvalue
    have hremoved : ∀ op ∈ ops, op.removed ≠ some r := by
      intro op hop hr
      rw [hgone op hop r hr] at href
      cases href
    rw [stored_referenceOf_kept hset hremoved] at href
    rw [stored_connectionOf, h.cached hrunning r ref href, append_nil]
    rcases h.named r ref href with rfl | ⟨client, hclient, rfl, hserial⟩
    · exact .inl ⟨trivial, .inl rfl⟩
    · rcases stored_client hclient hkind with hstays | hdeleted
      · exact .inl ⟨⟨client, hstays, rfl, hserial.trans (stored_target hkind r).symm⟩, .inl rfl⟩
      · exact .inr ⟨client.inst, rfl, hdeleted, rfl⟩

theorem right_of_follows (hnamed : AllAimed s) (hfollows : s.stopped = false → Follows [] s)
    (honce : s.instances.Nodup) : Right s := by
  refine ⟨fun r ref href => aimed_iff.mp (hnamed r ref href), ?_, honce⟩
  intro hrunning r ref href
  rcases hfollows hrunning r ref href with ⟨-, hdone⟩ | ⟨n, -, hdeleted, -⟩
  · exact hdone.resolve_right fun ⟨op, hop, _⟩ => absurd hop not_mem_nil
  · exact absurd hdeleted not_mem_nil

theorem right_commit {request : Request} (h : Right s) (hmeets : request.Meets s)
    (hcommit : commit request s = some s') : Right s' := by
  rw [commit] at hcommit
  split at hcommit
  · rename_i hopen
    obtain ⟨hrunning, hkinds, hvalid⟩ := hopen
    have hkind : ∀ op ∈ request.ops, op.kind = request.kind := by simpa using hkinds
    rw [bind_eq_some_iff] at hcommit
    obtain ⟨x, hx, hcascade⟩ := hcommit
    rw [map_eq_some_iff] at hcascade
    obtain ⟨y, hy, rfl⟩ := hcascade
    by_cases hdelete : request.kind = .delete
    · have hkind' : ∀ op ∈ request.ops, op.kind = .delete := fun op hop => (hkind op hop).trans hdelete
      have hdone := unpicking_run hkind' (unpicking_stored h hrunning hvalid hkind') hmeets hx
      obtain ⟨hrows, hfollows⟩ := follows_cascade hdone.cascade (fun _ => hdone.follows) hy
      have hnamed : AllAimed x.1 := by
        intro r ref href
        rcases hdone.follows r ref href with ⟨haimed, -⟩ | ⟨n, -, hdeleted, -⟩
        · exact haimed
        · obtain ⟨i, hi, -⟩ := hdone.cascade _ hdeleted
          cases hi
      apply right_of_follows
      · intro r ref href
        rw [hrows.referenceOf] at href
        exact hrows.aimed.mpr (hnamed r ref href)
      · exact hfollows
      · rw [State.instances, hrows.clients]
        exact hdone.once
    · have hkind' : ∀ op ∈ request.ops, op.kind ≠ .delete := by
        intro op hop
        rw [hkind op hop]
        exact hdelete
      obtain ⟨hnone, hrows, hfollows⟩ := follows_run hvalid hkind' ⟨rfl, rfl, rfl, rfl⟩
        (fun _ => follows_stored h hrunning hvalid hkind') hmeets hx
      rw [hnone] at hy
      obtain rfl := Option.some.inj hy
      apply right_of_follows
      · intro r ref href
        rw [hrows.referenceOf] at href
        exact hrows.aimed.mpr (allAimed_stored hvalid hkind'
          (fun r ref href => aimed_iff.mpr (h.named r ref href)) r ref href)
      · exact hfollows
      · rw [State.instances, hrows.clients]
        exact once_stored hvalid h.once
  · cases hcommit

/-- In a run whose notifications all meet their conditions the References stay right, and no
row is refused for its Reference at the next boot. -/
theorem right_run {requests : List Request} (h : Right s)
    (hmeets : RunMeets commit (fun s request => request.Meets s) requests s)
    (hrun : run commit requests s = some s') :
    Right s' ∧ ∀ r ref, referenceOf s' r = some ref →
      (AgentMtps.getMqttReference s'.mqttClients ref).isSome := by
  have hright : Right s' :=
    run_keeps (fun _ _ _ hI hC hcommit => right_commit hI hC hcommit) h hmeets hrun
  refine ⟨hright, fun r ref href => ?_⟩
  rw [get_of_aimed (aimed_iff.mpr (hright.named r ref href))]
  rfl

/-- Tables without rows. -/
def fresh (controllers : Slots) : State where
  clients := []
  mqttClientParams := []
  agentRows _ := none
  agentMtps := List.replicate AgentMtps.maxAgentMtps none
  controllerRows _ := none
  controllers := controllers
  stopped := false
  serials := 0
  target _ := 0

theorem right_fresh (controllers : Slots) : Right (fresh controllers) := by
  have hnone : ∀ r, referenceOf (fresh controllers) r = none := by
    intro r
    cases r <;> rfl
  refine ⟨?_, ?_, nodup_nil⟩
  · intro r ref href
    rw [hnone] at href
    cases href
  · intro _ r ref href
    rw [hnone] at href
    cases href

end Runs

section Histories

instance (s : State) (request : Request) : Decidable (request.Meets s) :=
  inferInstanceAs (Decidable (RunMeets _ _ _ _))

def oneController : Slots := [some (emptyController 1)]

def agentRow (protocol : MtpProtocol) (n : Nat) : AgentMtps.Row :=
  ⟨true, some protocol, .row n, "agent".toList, 1⟩

def addClient (n : Nat) : Request := ⟨.add, [.clientAdded n true]⟩

def addMtp (n : Nat) : Request :=
  ⟨.add, [.mtpAdded 1 ⟨1, true, .mqtt, .row n, "controller".toList⟩ fun _ _ => true]⟩

/-- A client is unpicked from the agent's MTP, and the MTP is set to the one that gets its
instance. -/
def reused : List Request :=
  [addClient 1, addClient 2, ⟨.add, [.agent (.added 1 (agentRow .mqtt 2) true)]⟩, addMtp 1,
    ⟨.delete, [.clientDeleted 2]⟩, addClient 2, ⟨.set, [.agent (.changed 1 (.reference (.row 2)) true)]⟩]

theorem right_run_reused : ∃ s, run commit reused (fresh oneController) = some s ∧ Right s ∧
    ∀ r ref, referenceOf s r = some ref → (AgentMtps.getMqttReference s.mqttClients ref).isSome := by
  have hsome : (run commit reused (fresh oneController)).isSome := by decide
  obtain ⟨s, hs⟩ := isSome_iff_exists.mp hsome
  exact ⟨s, hs, right_run (right_fresh oneController) (by decide) hs⟩

/-- A client is deleted and another one gets its instance. -/
def inherited : List Request :=
  [addClient 1, ⟨.add, [.agent (.added 1 (agentRow .none 1) true)]⟩, ⟨.delete, [.clientDeleted 1]⟩,
    addClient 1]

/-- The Reference of a row without protocol comes to name the other client, and that of a
controller's MTP is emptied without its slot. -/
theorem reference_not_unpicked :
    (run commit inherited (fresh oneController)).map
        (fun s => (referenceOf s (.agent 1), s.clients, s.target (.agent 1))) =
      some (some (.row 1), [⟨1, 1⟩], 0) ∧
    (run commit [addClient 1, addMtp 1, ⟨.delete, [.clientDeleted 1]⟩] (fresh oneController)).map
        (fun s => (referenceOf s (.controller 1 1), connectionOf s (.controller 1 1))) =
      some (some .blank, some (some 1)) := by
  decide

end Histories

end MqttReferences
