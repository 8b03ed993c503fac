import SdtTr369.Addition

/-!
# What an aborted transaction restores

Every operation accounts for what it changes: a tuple that no new entry of the
log touches is held as before (`Accounted`). `DM_TRANS_Abort` replays the log
from its first entry to its last, so that the last entry for a tuple decides
(`transAbort_spec`), and an aborted transaction restores the instances exactly
when each of these last entries agrees with the start (`abort_restores_iff`).
-/

namespace AbortedTransaction

open UspTypes Schema SchemaInvariant PathCodec EffectProgram Agent InstVector DmTrans DataModel List
open UndoLog PathRoundTrip InstanceTree HeldInstances Deletion Addition

def changeOf (S : DmTree) (dt : DmTrans) : Option (Change (NodeId × Int)) :=
  match dt.op with
  | .add => some (.insert (entryInst S dt))
  | .del => some (.remove (entryInst S dt))
  | .set => none

/-- The changes of instances that a log records. -/
def changes (S : DmTree) (log : List DmTrans) : List (Change (NodeId × Int)) :=
  log.filterMap (changeOf S)

section Changes

variable {S : DmTree} {dt : DmTrans} {log : List DmTrans}

theorem changes_cons_add (h : dt.op = .add) :
    changes S (dt :: log) = .insert (entryInst S dt) :: changes S log :=
  filterMap_cons_some (by simp [changeOf, h])

theorem changes_cons_del (h : dt.op = .del) :
    changes S (dt :: log) = .remove (entryInst S dt) :: changes S log :=
  filterMap_cons_some (by simp [changeOf, h])

theorem changes_cons_set (h : dt.op = .set) : changes S (dt :: log) = changes S log :=
  filterMap_cons_none (by simp [changeOf, h])

end Changes

def logOf (a : State) : List DmTrans := a.curTransaction.getD []

theorem changes_append (S : DmTree) (log log' : List DmTrans) :
    changes S (log ++ log') = changes S log ++ changes S log' := filterMap_append ..

/-- No table below `top` leaves its instance numbers to a vendor hook. -/
def Ungrouped (S : DmTree) (top : NodeId) : Prop :=
  ∀ node < S.nodes.length, (S.node node).instanceNodes.head? = some top →
    (S.node node).registered.groupId = none

/-- The agent alone decides about the instances below `top`: they are not
refreshed from the vendor any more and the vendor numbers none of them. -/
structure AgentOwned (S : DmTree) (a : State) (top : NodeId) : Prop where
  settled : SettledAt S a top
  ungrouped : Ungrouped S top

/-- From `a` to `a'` every change of an instance was logged. -/
structure Accounted (S : DmTree) (a a' : State) : Prop where
  log : ∃ dts, a'.curTransaction = a.curTransaction.map (· ++ dts) ∧
    ∀ t, AgentOwned S a (topNode t) → touching (changes S dts) t = [] → (Held a' t ↔ Held a t)
  settled : ∀ top, SettledAt S a top → SettledAt S a' top
  saved : a'.db.saved = a.db.saved
  ok : StateOk S a'
  closed : Closed a'

section Account

variable {S : DmTree} {W : World} {T : Prop} {a a' a'' : State}

theorem AgentOwned.accounted {top : NodeId} (h : AgentOwned S a top) (h' : Accounted S a a') :
    AgentOwned S a' top := ⟨h'.settled _ h.settled, h.ungrouped⟩

theorem Accounted.trans (h : Accounted S a a') (h' : Accounted S a' a'') : Accounted S a a'' where
  log := by
    obtain ⟨dts, hlog, hheld⟩ := h.log
    obtain ⟨dts', hlog', hheld'⟩ := h'.log
    refine ⟨dts ++ dts', ?_, fun t ht htouch => ?_⟩
    · rw [hlog', hlog, Option.map_map]
      congr 1
      funext log
      exact append_assoc ..
    · rw [changes_append, touching_append, append_eq_nil_iff] at htouch
      exact (hheld' t (ht.accounted h) htouch.2).trans (hheld t ht htouch.1)
  settled top hs := h'.settled top (h.settled top hs)
  saved := h'.saved.trans h.saved
  ok := h'.ok
  closed := h'.closed

theorem accounted_quiet (hok : StateOk S a) (hclosed : Closed a) (h : Quiet S a a') :
    Accounted S a a' where
  log := ⟨[], by simp [h.log], fun t ht _ => h.held_iff ht.settled⟩
  settled := h.settled
  saved := by rw [h.db]
  ok := h.ok hok
  closed := h.closed hclosed

theorem Accounted.refl (hok : StateOk S a) (hclosed : Closed a) : Accounted S a a :=
  accounted_quiet hok hclosed (Quiet.refl S a)

theorem accounted_removes (hclosed : Closed a) (h : RemovesSome S a a') : Accounted S a a' := by
  obtain ⟨ts, ks, dts, hp, hlog⟩ := h
  refine ⟨⟨dts, hp.log, fun t ht htouch => ?_⟩, hp.settled, hp.saved, hp.ok, hp.closed hclosed⟩
  rw [hp.held t ht.settled]
  refine ⟨fun h => h.1, fun h => ⟨h, fun hmem => ?_⟩⟩
  obtain ⟨dt, hdt, hentry⟩ := List.mem_map.mp (hlog.entries t hmem)
  have hchange : Change.remove t ∈ changes S dts := by
    refine List.mem_filterMap.mpr ⟨dt, hdt, ?_⟩
    rw [changeOf, hp.dels dt hdt, hentry]
  have hno := touching_eq_nil.mp htouch _ hchange
  rw [touches_remove.mpr rfl] at hno
  cases hno

variable {R : Key → Prop} {wantInstance : Bool} {inst : DmInstances}

theorem removes_some {P : DmInstances → Prop} (h : Removes S a a' P R) : RemovesSome S a a' := by
  obtain ⟨ts, ks, dts, hp, hlog, -⟩ := h
  exact ⟨ts, ks, dts, hp, hlog⟩

theorem deleteInstance_accounted (hS : SchemaOk maxDmInstanceOrder S) (hok : StateOk S a)
    (hclosed : Closed a) (hopen : a.curTransaction = none → T) (path : Str) (flags : DelFlags) :
    Keeps T (deleteInstance S W path flags) a (Accounted S a) := by
  refine (deleteInstance_spec hS hok hopen path flags).mono (fun _ a' h => ?_) fun _ a' h => ?_
  · rcases h with h | ⟨node, inst, b, -, hb, -, h⟩
    · exact accounted_quiet hok hclosed h
    · exact (accounted_quiet hok hclosed hb).trans
        (accounted_removes (hb.closed hclosed) (removes_some h))
  · exact accounted_removes hclosed h

variable {node : NodeId} {parent : DmInstances} {n : Int}

/-- The tables whose instances the agent owns give fresh numbers. -/
theorem addsTo_not_known {b : State} {path : Str} (hclosed : Closed a)
    (h : AddsTo S a b path wantInstance node parent n)
    (howned : AgentOwned S a (topNode (parent ++ [(node, n)]))) :
    ¬ Known b (parent ++ [(node, n)]) := by
  rw [← topNodeOf_eq n] at howned
  refine h.fresh howned.settled hclosed (howned.ungrouped node h.table.lt ?_)
  rw [← (h.table.instance n).nodes]
  cases parent <;> rfl

theorem grown_accounted (hclosed : Closed a) (hparent : parent = [] ∨ Known a parent)
    (h : Grown S a a' node (parent ++ [(node, n)])) : Accounted S a a' := by
  obtain ⟨dt, hop, hentry, hlog⟩ := h.log
  refine ⟨⟨[dt], hlog, fun t _ htouch => ?_⟩, h.settled, h.saved, h.ok, ?_⟩
  · rw [h.held]
    refine ⟨fun h => h.resolve_right ?_, .inl⟩
    rintro rfl
    have hno := touching_eq_nil.mp htouch (.insert (parent ++ [(node, n)]))
      (List.mem_filterMap.mpr ⟨dt, mem_singleton_self dt, by rw [changeOf, hop, hentry]⟩)
    rw [touches_insert.mpr prefix_rfl] at hno
    cases hno
  · refine hclosed.insert (p := parent ++ [(node, n)]) ?_ h.held
    rw [dropLast_concat]
    by_cases hne : parent = []
    · exact .inl hne
    · exact .inr (hclosed.held_of_known (hparent.resolve_left hne) hne)

/-- An addition that failed leaves the tables that the agent owns alone. -/
theorem undone_accounted {b : State} {path : Str} (hclosed : Closed a)
    (h : AddsTo S a b path wantInstance node parent n)
    (hu : Undone S b a' (parent ++ [(node, n)])) : Accounted S a a' := by
  refine ⟨⟨[], ?_, fun t ht _ => ?_⟩, fun top hs => hu.settled top (h.quiet.settled top hs), ?_,
    hu.ok, ?_⟩
  · simp [hu.log, h.quiet.log]
  · rw [hu.held, h.quiet.held_iff ht.settled]
    refine ⟨fun h => h.1, fun hheld => ⟨hheld, fun hpre => ?_⟩⟩
    refine addsTo_not_known hclosed h (topNode_of_isPrefix hpre (by simp) ▸ ht) ⟨t, ?_, hpre⟩
    exact (h.quiet.held_iff ht.settled).mpr hheld
  · rw [hu.saved, h.quiet.db]
  · exact (h.quiet.closed hclosed).removeBelow hu.held

theorem addInstance_accounted (hS : SchemaOk maxDmInstanceOrder S) (hok : StateOk S a)
    (hclosed : Closed a) (hopen : a.curTransaction = none → T) (path : Str) (wantInstance : Bool)
    (flags : AddFlags) :
    Keeps T (addInstance S W path wantInstance flags) a (Accounted S a) := by
  refine (addInstance_spec hS hok hopen path wantInstance flags).mono (fun _ a' h => ?_)
    fun _ a' h => ?_
  · rcases h with ⟨-, h⟩ | ⟨node, parent, n, b, -, hadds, hg⟩
    · exact accounted_quiet hok hclosed h
    · exact (accounted_quiet hok hclosed hadds.quiet).trans
        (grown_accounted (hadds.quiet.closed hclosed) hadds.parent_known hg)
  · rcases h with h | ⟨node, parent, n, b, hadds, hu⟩
    · exact accounted_quiet hok hclosed h
    · exact undone_accounted hclosed hadds hu

theorem accounted_stored (hok : StateOk S a) (hclosed : Closed a) (h : Stored S a a' R) :
    Accounted S a a' where
  log := ⟨[], by simp [h.log], fun t _ _ => h.held t⟩
  settled := h.settled
  saved := h.saved
  ok := h.ok hok
  closed := hclosed.congr fun t => h.held t

/-- A set writes at most one row, at an instance that is held, and logs at most its own
entry. -/
structure SetTo (S : DmTree) (a a' : State) (node : NodeId) (inst : DmInstances) : Prop where
  held : inst = [] ∨ Held a inst
  stored : ∃ c, StoredOwn S a c node inst ∧ (a' = c ∨ ∃ dt, dt.op = .set ∧ a' = appendEntry dt c)

theorem setParameterValue_spec (hS : SchemaOk maxDmInstanceOrder S) (hok : StateOk S a)
    (hclosed : Closed a) (path newValue : Str) (checkWritable : Bool) :
    Wp True (setParameterValue S W path newValue checkWritable) a
      (fun _ a' => ∃ node inst b, getNodeFromPath S path = some (node, inst) ∧ Quiet S a b ∧
        SetTo S b a' node inst)
      (fun _ a' => ∃ node inst b, Quiet S a b ∧ StoredOwn S b a' node inst) := by
  have hstay : ∀ b, Quiet S a b → ∃ node inst b', Quiet S a b' ∧ StoredOwn S b' b node inst :=
    fun b hb => ⟨0, [], b, hb, _, Stored.refl S b, fun _ h => h.elim⟩
  have hsame := hstay a (Quiet.refl S a)
  unfold setParameterValue
  split
  · exact hsame
  rename_i node inst hget
  split
  · exact hsame
  rw [wp_bind]
  refine (instVectorIsExist_spec hS hok fun _ _ => trivial).mono (fun found b h => ?_)
    fun _ b h => hstay b h
  obtain ⟨hb, -, hfound⟩ := h
  split
  swap
  · exact hstay b hb
  rename_i htrue
  rw [wp_bind]
  refine (writeParameter_spec (S := S) checkWritable inst newValue).mono (fun _ c h => ?_)
    fun _ c h => ⟨node, inst, b, hb, h⟩
  have hheld : inst = [] ∨ Held b inst := by
    by_cases hne : inst = []
    · exact .inl hne
    · exact .inr ((hb.closed hclosed).held_of_known ((hfound.mp htrue).resolve_left hne) hne)
  have hset : Wp True (transAdd S W .set path (some newValue) node inst) c
      (fun _ a' => ∃ node inst b, getNodeFromPath S path = some (node, inst) ∧ Quiet S a b ∧
        SetTo S b a' node inst)
      (fun _ a' => ∃ node inst b, Quiet S a b ∧ StoredOwn S b a' node inst) := by
    refine (transAdd_spec hS (fun _ => trivial) .set path (some newValue) node inst).mono
      (fun _ a' h' => ?_) fun _ _ h => h.elim
    obtain ⟨b', -, hb', h'⟩ := h'
    rw [hb' (by simp)] at h'
    refine ⟨node, inst, b, hget, hb, hheld, c, h, ?_⟩
    rcases h' with rfl | ⟨-, rfl⟩
    · exact .inr ⟨_, rfl, rfl⟩
    · exact .inl rfl
  rw [wp_bind]
  rcases hheld with hnil | hheld
  · rw [instVectorAdd, if_pos hnil]
    exact hset
  · by_cases hne : inst = []
    · rw [instVectorAdd, if_pos hne]
      exact hset
    · have hheldc : Held c inst := by
        obtain ⟨R, hc, -⟩ := h
        exact (hc.held inst).mpr hheld
      refine wp_instVectorAdd hne (fun _ => trivial) ?_
      rw [addHeld_of_held hheldc]
      exact hset

theorem accounted_storedOwn (hok : StateOk S a) (hclosed : Closed a)
    (h : StoredOwn S a a' node inst) : Accounted S a a' := by
  obtain ⟨R, h, -⟩ := h
  exact accounted_stored hok hclosed h

theorem accounted_set (hok : StateOk S a) (hclosed : Closed a) (h : SetTo S a a' node inst) :
    Accounted S a a' := by
  obtain ⟨c, hc, rfl | ⟨dt, hop, rfl⟩⟩ := h.stored
  · exact accounted_storedOwn hok hclosed hc
  · have hacc := accounted_storedOwn hok hclosed hc
    refine hacc.trans ⟨⟨[dt], rfl, fun t _ _ => Iff.rfl⟩, fun _ h => h, rfl, ?_, hacc.closed⟩
    refine ⟨hacc.ok.held, hacc.ok.nodup, fun log hlog dt' hdt' => ?_⟩
    obtain ⟨log₀, hlog₀, rfl⟩ := Option.map_eq_some_iff.mp hlog
    rcases List.mem_append.mp hdt' with hdt' | hdt'
    · exact hacc.ok.entries log₀ hlog₀ dt' hdt'
    · rw [List.mem_singleton.mp hdt']
      exact .inl hop

theorem setParameterValue_accounted (hS : SchemaOk maxDmInstanceOrder S) (hok : StateOk S a)
    (hclosed : Closed a) (path newValue : Str) (checkWritable : Bool) :
    Keeps True (setParameterValue S W path newValue checkWritable) a (Accounted S a) := by
  refine (setParameterValue_spec hS hok hclosed path newValue checkWritable).mono
    (fun _ a' h => ?_) fun _ a' h => ?_
  · obtain ⟨node, inst, b, -, hb, h⟩ := h
    have hquiet := accounted_quiet hok hclosed hb
    exact hquiet.trans (accounted_set hquiet.ok hquiet.closed h)
  · obtain ⟨node, inst, b, hb, h⟩ := h
    have hquiet := accounted_quiet hok hclosed hb
    exact hquiet.trans (accounted_storedOwn hquiet.ok hquiet.closed h)

end Account

/-! ## Start and abort -/

/-- The state after a start that opened a transaction. -/
structure Started (a a' : State) : Prop where
  vector : a'.instVector = a.instVector
  lock : a'.lockPeriod = a.lockPeriod
  period : a'.curLockPeriod = a.curLockPeriod
  db : a'.db = { a.db with saved := some a.db.rows }
  log : a'.curTransaction = some []

/-- The state after an abort of a transaction with this log. -/
structure Aborted (S : DmTree) (a a' : State) (log : List DmTrans) : Prop where
  held : ∀ t, Held a' t ↔ replay (changes S log) (Held a) t
  settled : ∀ top, SettledAt S a top → SettledAt S a' top
  db : a'.db = a.db.rollback
  log : a'.curTransaction = none
  ok : StateOk S a'

/-- The state after a start that failed; the transaction can stay open, empty. -/
structure Refused (S : DmTree) (a a' : State) : Prop where
  held : ∀ t, Held a' t ↔ Held a t
  settled : ∀ top, SettledAt S a top → SettledAt S a' top
  rows : a'.db.rows = a.db.rows
  saved : a'.db.saved = a.db.saved ∨ a'.db.saved = none
  log : logOf a' = []
  ok : StateOk S a'

section Brackets

variable {limit : Nat} {S : DmTree} {W : World} {T : Prop} {a a' : State}

theorem Started.held (h : Started a a') (t : DmInstances) : Held a' t ↔ Held a t := by
  rw [Held, Held, h.vector]

theorem Started.settled (h : Started a a') {top : NodeId} (hs : SettledAt S a top) :
    SettledAt S a' top := by
  rw [SettledAt, h.lock, h.period]
  exact hs

theorem Started.ok (h : Started a a') (hok : StateOk S a) : StateOk S a' where
  held := by rw [h.vector]; exact hok.held
  nodup := by rw [h.vector]; exact hok.nodup
  entries log hlog := by
    rw [h.log] at hlog
    cases hlog
    simp

theorem Started.closed (h : Started a a') (hclosed : Closed a) : Closed a' :=
  hclosed.congr h.held

/-- The replay, entry by entry. -/
theorem undoEntries_spec (hS : SchemaOk limit S) (log : List DmTrans) (hok : StateOk S a)
    (hlog : ∀ dt ∈ log, dt.op = .set ∨ IsInstance S dt.node (entryInst S dt)) :
    Wp T (.forEach log (undoEntry S)) a
      (fun _ a' => (∀ t, Held a' t ↔ replay (changes S log) (Held a) t) ∧
        (∀ top, SettledAt S a top → SettledAt S a' top) ∧ a'.db = a.db ∧ StateOk S a')
      (fun _ _ => False) := by
  induction log generalizing a with
  | nil => exact ⟨fun _ => Iff.rfl, fun _ h => h, rfl, hok⟩
  | cons dt log ih =>
    have hrest : ∀ dt' ∈ log, dt'.op = .set ∨ IsInstance S dt'.node (entryInst S dt') :=
      fun dt' hdt' => hlog dt' (mem_cons_of_mem _ hdt')
    have hinst := hlog dt mem_cons_self
    rw [Prog.forEach, wp_bind, undoEntry]
    split
    · rename_i hop
      have hinst := hinst.resolve_left (by simp [hop])
      have hne := hinst.ne_nil hS
      refine wp_instVectorRemove hne (fun h => absurd (hinst.topNode_table hS) h) ?_
      refine (ih hok.removeHeld hrest).mono (fun _ a' h => ?_) fun _ _ h => h
      refine ⟨fun t => ?_, h.2.1, h.2.2.1, h.2.2.2⟩
      rw [h.1, changes_cons_add hop, replay]
      exact replay_congr (fun t => held_removeHeld hne) t
    · rename_i hop
      have hinst := hinst.resolve_left (by simp [hop])
      have hne := hinst.ne_nil hS
      refine wp_instVectorAdd hne (fun h => absurd (hinst.topNode_table hS) h) ?_
      refine (ih (hok.addHeld hinst) hrest).mono (fun _ a' h => ?_) fun _ _ h => h
      refine ⟨fun t => ?_, fun top hs => h.2.1 top (addHeld_settled hs), ?_, h.2.2.2⟩
      · rw [h.1, changes_cons_del hop, replay]
        exact replay_congr (fun t => held_addHeld) t
      · rw [h.2.2.1, addHeld_db]
    · rename_i hop
      rw [wp_pure]
      refine (ih hok hrest).mono (fun _ a' h => ?_) fun _ _ h => h
      refine ⟨fun t => ?_, h.2⟩
      rw [h.1, changes_cons_set hop]

theorem transAbort_spec (hS : SchemaOk limit S) (hok : StateOk S a) {log : List DmTrans}
    (hlog : a.curTransaction = some log) :
    Keeps T (transAbort S W) a fun a' => Aborted S a a' log := by
  simp only [Keeps, transAbort, wp_bind, wp_read, hlog]
  refine (undoEntries_spec hS log hok (hok.entries log hlog)).mono (fun _ b h => ?_)
    fun _ _ h => h.elim
  obtain ⟨hheld, hsettled, hdb, hok'⟩ := h
  have hend : ∀ n, Aborted S a { b with calls := n, curTransaction := none, db := b.db.rollback }
      log := fun n => ⟨hheld, hsettled, by rw [hdb], rfl, hok'.held, hok'.nodup, by simp⟩
  simp only [wp_update, wp_attempt, vendorHook, wp_bind, wp_call]
  split
  · exact hend _
  · simp only [databaseAbortTransaction, wp_update, wp_fail]
    exact hend _

theorem transStart_spec (hS : SchemaOk limit S) (hok : StateOk S a)
    (hnone : a.curTransaction = none) :
    Wp T (transStart S W) a (fun _ a' => Started a a') (fun _ a' => Refused S a a') := by
  simp only [transStart, wp_bind, wp_read, isWithinTransaction, hnone, Option.isSome_none,
    Bool.false_eq_true, ↓reduceIte, wp_update, databaseStartTransaction, wp_call]
  split
  · exact ⟨fun _ => Iff.rfl, fun _ h => h, rfl, .inl rfl, rfl, hok.held, hok.nodup, by simp⟩
  · simp only [wp_update, wp_attempt, vendorHook, wp_bind, wp_call]
    split
    · exact ⟨rfl, rfl, rfl, rfl, rfl⟩
    · simp only [wp_fail, wp_ignore]
      have hok' : ∀ n, StateOk S { a with
          calls := n, curTransaction := some [], db := { a.db with saved := some a.db.rows } } :=
        fun n => ⟨hok.held, hok.nodup, by simp⟩
      have habort : ∀ n b, Aborted S { a with
          calls := n, curTransaction := some [], db := { a.db with saved := some a.db.rows } } b [] →
          Refused S a b := by
        intro n b h
        refine ⟨fun t => ?_, fun top hs => h.settled top hs, ?_, ?_, ?_, h.ok⟩
        · rw [h.held]
          rfl
        · rw [h.db]
          rfl
        · rw [h.db]
          exact .inr rfl
        · rw [logOf, h.log]
          rfl
      exact (transAbort_spec hS (hok' _) rfl).mono (fun _ b h => habort _ b h)
        fun _ b h => habort _ b h

end Brackets

/-! ## Whole transactions -/

/-- An operation on the data model as a caller makes it. -/
inductive DataOp where
  | add (path : Str) (wantInstance : Bool) (flags : AddFlags)
  | delete (path : Str) (flags : DelFlags)
  | set (path value : Str) (checkWritable : Bool)
  deriving DecidableEq, Repr

def runOp (S : DmTree) (W : World) : DataOp → Op Unit
  | .add path wantInstance flags => .ignore (addInstance S W path wantInstance flags)
  | .delete path flags => .ignore (deleteInstance S W path flags)
  | .set path value checkWritable => .ignore (setParameterValue S W path value checkWritable)

/-- A start and operations; the caller goes on after one that fails. -/
def beginTransaction (S : DmTree) (W : World) (ops : List DataOp) : Op Unit := do
  transStart S W
  .forEach ops (runOp S W)

/-- The instances of the tables that the agent owns are those of `a`. -/
def InstancesRestored (S : DmTree) (a a' : State) : Prop :=
  ∀ t, AgentOwned S a (topNode t) → (Held a' t ↔ Held a t)

/-- For each of these instances the last entry of the log that touches it is a
deletion exactly if it was held in `a`. -/
def LogAgrees (S : DmTree) (a : State) (log : List DmTrans) : Prop :=
  ∀ t, AgentOwned S a (topNode t) → LastEntryAgrees (Held a) (changes S log) t

section Transaction

variable {S : DmTree} {W : World} {a b : State}

theorem runOp_accounted (hS : SchemaOk maxDmInstanceOrder S) (hok : StateOk S a)
    (hclosed : Closed a) (op : DataOp) : Keeps True (runOp S W op) a (Accounted S a) := by
  cases op with
  | add path wantInstance flags =>
    rw [runOp, Keeps, wp_ignore]
    exact addInstance_accounted hS hok hclosed (fun _ => trivial) path wantInstance flags
  | delete path flags =>
    rw [runOp, Keeps, wp_ignore]
    exact deleteInstance_accounted hS hok hclosed (fun _ => trivial) path flags
  | set path value checkWritable =>
    rw [runOp, Keeps, wp_ignore]
    exact setParameterValue_accounted hS hok hclosed path value checkWritable

theorem runOps_accounted (hS : SchemaOk maxDmInstanceOrder S) (hok : StateOk S a)
    (hclosed : Closed a) (ops : List DataOp) :
    Keeps True (.forEach ops (runOp S W)) a (Accounted S a) :=
  keeps_forEach (Accounted.refl hok hclosed) fun op _ _ h =>
    (runOp_accounted hS h.ok h.closed op).mono (fun _ _ h' => h.trans h') fun _ _ h' => h.trans h'

/-- An abort at the end of an accounted transaction. -/
theorem aborted_restores_iff {c a' : State} (hc : Started a c) (hb : Accounted S c b)
    (ha : Aborted S b a' (logOf b)) :
    (InstancesRestored S a a' ↔ LogAgrees S a (logOf b)) ∧ a'.db = { a.db with saved := none } := by
  obtain ⟨log, hlog, hheld⟩ := hb.log
  rw [hc.log] at hlog
  have hlogOf : logOf b = log := by rw [logOf, hlog]; rfl
  rw [hlogOf] at ha ⊢
  refine ⟨?_, ?_⟩
  · rw [InstancesRestored, LogAgrees]
    refine forall_congr' fun t => forall_congr' fun ht => ?_
    rw [ha.held]
    refine replay_restores_iff fun htouch => ?_
    exact (hheld t ⟨hc.settled ht.settled, ht.ungrouped⟩ htouch).trans (hc.held t)
  · rw [ha.db, Database.rollback, hb.saved, hc.db]

end Transaction

theorem abort_restores_iff (rs : List Registration) (hrs : ∀ r ∈ rs, WithinArrays r) (W : World)
    (ops : List DataOp) (a b a' : State) (r : Except Err Unit)
    (hok : StateOk (registerAll initialTree rs) a) (hclosed : Closed a)
    (hnone : a.curTransaction = none)
    (hbegin : beginTransaction (registerAll initialTree rs) W ops a = some (.ok (), b))
    (habort : transAbort (registerAll initialTree rs) W b = some (r, a')) :
    InstancesRestored (registerAll initialTree rs) a a' ↔
      LogAgrees (registerAll initialTree rs) a (logOf b) := by
  have hS := registered_ok hrs
  generalize registerAll initialTree rs = S at *
  have hspec : Wp True (beginTransaction S W ops) a
      (fun _ b => ∃ c, Started a c ∧ Accounted S c b) (fun _ _ => True) := by
    rw [beginTransaction, wp_bind]
    refine (transStart_spec hS hok hnone).mono (fun _ c hc => ?_) fun _ _ _ => trivial
    exact (runOps_accounted hS (hc.ok hok) (hc.closed hclosed) ops).mono
      (fun _ b hb => ⟨c, hc, hb⟩) fun _ _ _ => trivial
  obtain ⟨c, hc, hb⟩ := (hspec.of_run hbegin).1 () rfl
  obtain ⟨log, hlog, -⟩ := hb.log
  rw [hc.log] at hlog
  have haborted : Aborted S b a' (logOf b) := by
    rw [logOf, hlog]
    have hrun := (transAbort_spec (T := True) (W := W) hS hb.ok hlog).of_run habort
    cases r with
    | ok u => exact hrun.1 u rfl
    | error e => exact hrun.2 e rfl
  exact (aborted_restores_iff hc hb haborted).1

theorem nestedTables_owned (a : State) :
    AgentOwned (registerAll initialTree nestedTables) a 2 where
  settled h := absurd h (by decide)
  ungrouped := by
    unfold Ungrouped
    decide

/-- The deletion of an instance with its child is undone. -/
theorem abort_restores_nested :
    let S := registerAll initialTree nestedTables
    let b := Prog.after (beginTransaction S quietWorld [.delete "Device.A.1".toList {}])
      nestedInstances
    InstancesRestored S nestedInstances (Prog.after (transAbort S quietWorld) b) := by
  intro S b
  refine (abort_restores_iff nestedTables nestedTables_within quietWorld
    [.delete "Device.A.1".toList {}] nestedInstances b _ (.ok ()) nestedInstances_ok
    nestedInstances_closed rfl (Prog.run_eq (by decide +kernel))
    (Prog.run_eq (by decide +kernel))).mpr fun t _ => lastEntryAgrees_of_removes (fun c hc => ?_) t
  have hlog : changes S (logOf b) = [.remove [(2, 1)], .remove [(2, 1), (3, 4)]] := by
    decide +kernel
  have hc' : c ∈ changes S (logOf b) := hc
  rw [hlog, mem_cons, mem_singleton] at hc'
  rcases hc' with rfl | rfl
  · exact ⟨_, rfl, (nestedInstances_held _).mpr (.inl rfl)⟩
  · exact ⟨_, rfl, (nestedInstances_held _).mpr (.inr rfl)⟩

/-- An instance that the transaction adds and deletes again exists after the abort. -/
theorem abort_leaves_added_instance :
    let S := registerAll initialTree nestedTables
    let ops : List DataOp := [.add "Device.A.1".toList false {}, .delete "Device.A.1".toList {}]
    let b := Prog.after (beginTransaction S quietWorld ops) initialState
    Prog.result (beginTransaction S quietWorld ops) initialState = some (.ok ()) ∧
      Prog.result (transAbort S quietWorld) b = some (.ok ()) ∧
      ¬ InstancesRestored S initialState (Prog.after (transAbort S quietWorld) b) := by
  intro S ops b
  refine ⟨by decide +kernel, by decide +kernel, fun h => ?_⟩
  have hnot : ¬ Held initialState [(2, 1)] := by simp [Held, initialState]
  refine hnot ((h [(2, 1)] (nestedTables_owned initialState)).mp ?_)
  unfold Held
  decide +kernel

end AbortedTransaction
