import SdtTr369.AbortedTransaction

/-!
# What a commit leaves

A commit changes no instance and no row. When SQLite or the vendor refuses it
(`commitRefused`), it is an abort. Behind a commit with operations comes the
cascade: one more transaction for what the notify functions do, and its commit.
-/

namespace CommittedTransaction

open Schema SchemaInvariant PathCodec EffectProgram Agent InstVector DmTrans
open UndoLog InstanceTree HeldInstances AbortedTransaction

/-- Whether the vendor or SQLite refuses the commit. -/
def commitRefused (W : World) (a : State) : Bool :=
  (W.hook a.calls).isSome || W.commitFails (a.calls + 1) || !a.db.saved.isSome

/-- The state after the part of a commit before the notify functions. -/
structure LogCommitted (a a' : State) : Prop where
  vector : a'.instVector = a.instVector
  lock : a'.lockPeriod = a.lockPeriod
  period : a'.curLockPeriod = a.curLockPeriod
  db : a'.db = { a.db with saved := none }
  log : a'.curTransaction = none

/-- The state after a commit whose notify functions do nothing. -/
structure Committed (S : DmTree) (a a' : State) : Prop where
  held : ∀ t, Held a' t ↔ Held a t
  settled : ∀ top, SettledAt S a top → SettledAt S a' top
  rows : a'.db.rows = a.db.rows
  saved : a'.db.saved = none
  log : a'.curTransaction = none
  ok : StateOk S a'

/-- What the notify functions find: an empty transaction, or none where its start
failed. -/
structure CascadeStarted (S : DmTree) (a a' : State) : Prop where
  held : ∀ t, Held a' t ↔ Held a t
  settled : ∀ top, SettledAt S a top → SettledAt S a' top
  rows : a'.db.rows = a.db.rows
  log : logOf a' = []
  saved : a'.db.saved = none ∨ a'.curTransaction ≠ none ∧ a'.db.saved = some a'.db.rows
  ok : StateOk S a'

variable {log : List DmTrans}

section Commit

variable {limit : Nat} {S : DmTree} {W : World} {T : Prop} {a a' : State}

theorem LogCommitted.held (h : LogCommitted a a') (t : DmInstances) : Held a' t ↔ Held a t := by
  rw [Held, Held, h.vector]

theorem LogCommitted.settled (h : LogCommitted a a') {top : NodeId} (hs : SettledAt S a top) :
    SettledAt S a' top := by
  rw [SettledAt, h.lock, h.period]
  exact hs

theorem LogCommitted.ok (h : LogCommitted a a') (hok : StateOk S a) : StateOk S a' where
  held := by rw [h.vector]; exact hok.held
  nodup := by rw [h.vector]; exact hok.nodup
  entries log hlog := by
    rw [h.log] at hlog
    cases hlog

theorem commitLog_spec (hS : SchemaOk limit S) (hok : StateOk S a)
    (hlog : a.curTransaction = some log) :
    Wp T (commitLog S W) a
      (fun more a' => LogCommitted a a' ∧ (more = true ↔ log ≠ []) ∧ commitRefused W a = false)
      (fun _ a' => Aborted S a a' log ∧ commitRefused W a = true) := by
  have habort : ∀ n, Wp T (transAbort S W) { a with calls := n, curTransaction := some log }
      (fun _ b => Aborted S a b log) (fun _ b => Aborted S a b log) := by
    intro n
    have hok' : StateOk S { a with calls := n, curTransaction := some log } :=
      ⟨hok.held, hok.nodup, fun log' h => by cases h; exact hok.entries log hlog⟩
    refine (transAbort_spec hS hok' rfl).mono (fun _ b h => ?_) fun _ b h => ?_ <;>
      exact ⟨h.held, h.settled, h.db, h.log, h.ok⟩
  simp only [commitLog, wp_bind, wp_read, hlog, wp_attempt, vendorHook, wp_call]
  split
  · rename_i hhook
    simp only [wp_pure, databaseCommitTransaction, wp_bind, wp_call, wp_read]
    split
    · rename_i hfails
      simp only [wp_fail, wp_ignore]
      refine (habort _).mono (fun _ b h => ⟨h, ?_⟩) fun _ b h => ⟨h, ?_⟩ <;>
        simpa [commitRefused, hhook] using hfails
    · rename_i hfails
      simp only [wp_update]
      refine ⟨⟨rfl, rfl, rfl, rfl, rfl⟩, by simp, ?_⟩
      simpa only [commitRefused, hhook, Option.isSome_none, Bool.false_or, Bool.not_eq_true]
        using hfails
  · rename_i hhook
    simp only [wp_fail, wp_ignore]
    refine (habort _).mono (fun _ b h => ⟨h, ?_⟩) fun _ b h => ⟨h, ?_⟩ <;>
      simp [commitRefused, hhook]

/-- Whatever it did to the transaction, SQLite has none open after a commit. -/
theorem Aborted.saved (h : Aborted S a a' log) : a'.db.saved = none := by
  rw [h.db, Database.rollback]
  cases hsaved : a.db.saved with
  | none => exact hsaved
  | some rows => rfl

/-- The commit that ends a cascade in which nothing was done. -/
theorem commitEmpty_spec (hS : SchemaOk limit S) (hok : StateOk S a) (hlog : logOf a = [])
    (hsaved : a.db.saved = none ∨ a.curTransaction ≠ none ∧ a.db.saved = some a.db.rows) :
    Keeps T (commitWith S W (pure ())) a (Committed S a) := by
  simp only [Keeps, commitWith, wp_bind]
  cases hcur : a.curTransaction with
  | none =>
    have hnone : a.db.saved = none := hsaved.resolve_right fun h => h.1 hcur
    simp only [commitLog, wp_bind, wp_read, hcur, wp_pure]
    exact ⟨fun _ => Iff.rfl, fun _ h => h, rfl, hnone, hcur, hok⟩
  | some log =>
    have hnil : log = [] := by
      rw [logOf, hcur] at hlog
      exact hlog
    subst hnil
    refine (commitLog_spec hS hok hcur).mono (fun more b h => ?_) fun _ b h => ?_
    · rw [if_neg (by simpa using h.2.1)]
      exact ⟨h.1.held, fun _ => h.1.settled, by rw [h.1.db], by rw [h.1.db], h.1.log, h.1.ok hok⟩
    · refine ⟨h.1.held, h.1.settled, ?_, Aborted.saved h.1, h.1.log, h.1.ok⟩
      rw [h.1.db, Database.rollback]
      rcases hsaved with hsaved | ⟨-, hsaved⟩ <;> rw [hsaved]

theorem cascadeStart_spec (hS : SchemaOk limit S) (hok : StateOk S a)
    (hnone : a.curTransaction = none) (hsaved : a.db.saved = none) :
    Keeps T (transStart S W) a (CascadeStarted S a) := by
  refine (transStart_spec hS hok hnone).mono (fun _ b h => ?_) fun _ b h => ?_
  · refine ⟨h.held, fun _ => h.settled, by rw [h.db], ?_, .inr ⟨by simp [h.log], by rw [h.db]⟩,
      h.ok hok⟩
    rw [logOf, h.log]
    rfl
  · refine ⟨h.held, h.settled, h.rows, h.log, .inl ?_, h.ok⟩
    rcases h.saved with h | h
    · rw [h, hsaved]
    · exact h

/-- A commit keeps every instance and row or, when it is refused, is an abort. -/
theorem transCommit_spec (hS : SchemaOk limit S) (hok : StateOk S a)
    (hlog : a.curTransaction = some log) :
    Wp T (transCommit S W []) a (fun _ a' => Committed S a a')
      (fun _ a' => Aborted S a a' log ∧ commitRefused W a = true) := by
  rw [transCommit, commitWith, wp_bind]
  refine (commitLog_spec hS hok hlog).mono (fun more b h => ?_) fun _ _ h => h
  obtain ⟨hb, -, -⟩ := h
  split
  swap
  · exact ⟨hb.held, fun _ => hb.settled, by rw [hb.db], by rw [hb.db], hb.log, hb.ok hok⟩
  rw [wp_bind, wp_ignore]
  have hrest : ∀ c, CascadeStarted S b c → Wp T (do
        .ignore (commitWith S W (pure ()))
        .require (← .read fun a => !isWithinTransaction a) : Op Unit) c
        (fun _ a' => Committed S a a')
        (fun _ a' => Aborted S a a' log ∧ commitRefused W a = true) := by
    intro c hc
    simp only [wp_bind, wp_ignore, wp_read, wp_require]
    refine (commitEmpty_spec hS hc.ok hc.log hc.saved).mono (fun _ d h => ?_) fun _ d h => ?_ <;>
    · rw [if_pos (by simp [isWithinTransaction, h.log])]
      refine ⟨fun t => (h.held t).trans ((hc.held t).trans (hb.held t)),
        fun top hs => h.settled top (hc.settled top (hb.settled hs)), ?_, h.saved, h.log, h.ok⟩
      rw [h.rows, hc.rows, hb.db]
  exact (cascadeStart_spec hS (hb.ok hok) hb.log (by rw [hb.db])).mono (fun _ c h => hrest c h)
    fun _ c h => hrest c h

end Commit

/-! ## Notify functions -/

/-- From `a` to `a'` instances were at most removed, and the changes `cs` of the log tell
which; none of `spared` is among them. -/
structure Shrinkage (S : DmTree) (spared : DmInstances → Prop) (a a' : State)
    (cs : List (Change (NodeId × Int))) : Prop where
  held : ∀ t, SettledAt S a (topNode t) → Held a' t → Held a t
  kept : ∀ t, SettledAt S a (topNode t) → Held a t → Held a' t ∨ .remove t ∈ cs
  removes : ∀ c ∈ cs, ∃ g, c = .remove g ∧ SettledAt S a' (topNode g) ∧
    (SettledAt S a (topNode g) → Held a g ∧ ¬ spared g)
  ancestors : ∀ g, .remove g ∈ cs → ∀ p, p <+: g → p ≠ [] → Held a' p ∨ .remove p ∈ cs

/-- What functions leave that add no instance and delete none of `spared`. -/
structure InstancesShrunk (S : DmTree) (spared : DmInstances → Prop) (a a' : State) : Prop where
  log : ∃ dts, a'.curTransaction = a.curTransaction.map (· ++ dts) ∧
    Shrinkage S spared a a' (changes S dts)
  settled : ∀ top, SettledAt S a top → SettledAt S a' top
  saved : a'.db.saved = a.db.saved
  ok : StateOk S a'
  closed : Closed a'

/-- A notify function that adds no instance and deletes none of `spared`; it may set
parameters. -/
def Spares (S : DmTree) (spared : DmInstances → Prop) (notify : Op Unit) : Prop :=
  ∀ a, StateOk S a → Closed a → Keeps True notify a (InstancesShrunk S spared a)

/-- The state after a commit with such notify functions. -/
structure CommittedInstances (S : DmTree) (spared : DmInstances → Prop) (a a' : State) : Prop where
  held : ∀ t, SettledAt S a (topNode t) → Held a' t → Held a t
  kept : ∀ t, SettledAt S a (topNode t) → spared t → Held a t → Held a' t
  settled : ∀ top, SettledAt S a top → SettledAt S a' top
  saved : a'.db.saved = none
  log : a'.curTransaction = none
  ok : StateOk S a'
  closed : Closed a'

/-- What one level of the cascade finds: a transaction in which no instance was
changed, or none. -/
structure CascadeReady (S : DmTree) (a : State) : Prop where
  log : changes S (logOf a) = []
  saved : a.db.saved = none ∨ a.curTransaction ≠ none
  ok : StateOk S a
  closed : Closed a

variable {cs : List (Change (NodeId × Int))}

section Shrinks

variable {S : DmTree} {spared : DmInstances → Prop} {a a' a'' : State}

theorem shrunk_quiet (hok : StateOk S a) (hclosed : Closed a) (h : Quiet S a a') :
    InstancesShrunk S spared a a' where
  log := ⟨[], by simp [h.log], fun _ hs => (h.held_iff hs).mp,
    fun _ hs ht => .inl ((h.held_iff hs).mpr ht), nofun, nofun⟩
  settled := h.settled
  saved := by rw [h.db]
  ok := h.ok hok
  closed := h.closed hclosed

theorem Shrinkage.trans {cs' : List (Change (NodeId × Int))}
    (hsettled : ∀ top, SettledAt S a top → SettledAt S a' top)
    (hsettled' : ∀ top, SettledAt S a' top → SettledAt S a'' top) (h : Shrinkage S spared a a' cs)
    (h' : Shrinkage S spared a' a'' cs') :
    Shrinkage S spared a a'' (cs ++ cs') where
  held t hs ht := h.held t hs (h'.held t (hsettled _ hs) ht)
  kept t hs ht := by
    rcases h.kept t hs ht with ht | hmem
    · exact (h'.kept t (hsettled _ hs) ht).imp_right (List.mem_append_right _)
    · exact .inr (List.mem_append_left _ hmem)
  removes c hc := by
    rcases List.mem_append.mp hc with hc | hc
    · obtain ⟨g, rfl, hs, hg⟩ := h.removes c hc
      exact ⟨g, rfl, hsettled' _ hs, hg⟩
    · obtain ⟨g, rfl, hs, hg⟩ := h'.removes c hc
      refine ⟨g, rfl, hs, fun hs => ?_⟩
      obtain ⟨ht, hspared⟩ := hg (hsettled _ hs)
      exact ⟨h.held g hs ht, hspared⟩
  ancestors g hg p hp hne := by
    rcases List.mem_append.mp hg with hg | hg
    · obtain ⟨g', heq, hs, -⟩ := h.removes _ hg
      cases heq
      rcases h.ancestors g hg p hp hne with hp' | hmem
      · have hsp : SettledAt S a' (topNode p) := topNode_of_isPrefix hp hne ▸ hs
        exact (h'.kept p hsp hp').imp_right (List.mem_append_right _)
      · exact .inr (List.mem_append_left _ hmem)
    · exact (h'.ancestors g hg p hp hne).imp_right (List.mem_append_right _)

theorem InstancesShrunk.trans (h : InstancesShrunk S spared a a')
    (h' : InstancesShrunk S spared a' a'') : InstancesShrunk S spared a a'' where
  log := by
    obtain ⟨dts, hlog, hshrink⟩ := h.log
    obtain ⟨dts', hlog', hshrink'⟩ := h'.log
    refine ⟨dts ++ dts', ?_, ?_⟩
    · rw [hlog', hlog, Option.map_map]
      congr 1
      funext log
      exact List.append_assoc ..
    · rw [changes_append]
      exact hshrink.trans h.settled h'.settled hshrink'
  settled top hs := h'.settled top (h.settled top hs)
  saved := h'.saved.trans h.saved
  ok := h'.ok
  closed := h'.closed

/-- An abort puts back what was removed. -/
theorem Shrinkage.aborted (hclosed : Closed a') (h : Shrinkage S spared a a' (changes S log))
    (ha : Aborted S a' a'' log) :
    (∀ t, SettledAt S a (topNode t) → (Held a'' t ↔ Held a t)) ∧ Closed a'' := by
  have hlast : ∀ t c, (touching (changes S log) t).getLast? = some c →
      c = .remove t ∧ .remove t ∈ changes S log := by
    intro t c hc
    obtain ⟨hmem, htouch⟩ := List.mem_filter.mp (List.mem_of_getLast? hc)
    obtain ⟨g, rfl, -, -⟩ := h.removes c hmem
    rw [touches_remove.mp htouch] at hmem ⊢
    exact ⟨rfl, hmem⟩
  have hnot : ∀ t, touching (changes S log) t = [] → .remove t ∉ changes S log := by
    intro t ht hmem
    have hno := touching_eq_nil.mp ht _ hmem
    rw [touches_remove.mpr rfl] at hno
    cases hno
  refine ⟨fun t hs => ?_, ?_⟩
  · rw [ha.held]
    refine (replay_restores_iff fun ht => ?_).mpr fun c hc => ?_
    · exact ⟨h.held t hs, fun hheld => (h.kept t hs hheld).resolve_right (hnot t ht)⟩
    · obtain ⟨rfl, hmem⟩ := hlast t c hc
      obtain ⟨g, heq, -, hg⟩ := h.removes _ hmem
      cases heq
      exact ⟨fun _ => (hg hs).1, fun _ => rfl⟩
  · refine ((replay_prefixClosed_iff hclosed).mpr ?_).congr ha.held
    rintro p t hp hne ⟨c, hc, -⟩
    obtain ⟨rfl, hmem⟩ := hlast t c hc
    cases hlp : (touching (changes S log) p).getLast? with
    | none =>
      exact (h.ancestors t hmem p hp hne).resolve_right (hnot p (List.getLast?_eq_none_iff.mp hlp))
    | some c =>
      obtain ⟨rfl, -⟩ := hlast p c hlp
      rfl

end Shrinks

section Cascade

variable {limit : Nat} {S : DmTree} {W : World} {spared : DmInstances → Prop} {a a' a'' : State}

theorem CommittedInstances.after (h' : CommittedInstances S spared a' a'')
    (held : ∀ t, Held a' t ↔ Held a t) (settled : ∀ top, SettledAt S a top → SettledAt S a' top) :
    CommittedInstances S spared a a'' where
  held t hs ht := (held t).mp (h'.held t (settled _ hs) ht)
  kept t hs hspared ht := h'.kept t (settled _ hs) hspared ((held t).mpr ht)
  settled top hs := h'.settled top (settled top hs)
  saved := h'.saved
  log := h'.log
  ok := h'.ok
  closed := h'.closed

theorem CascadeStarted.ready (hclosed : Closed a) (h : CascadeStarted S a a') :
    CascadeReady S a' :=
  ⟨by rw [h.log]; rfl, h.saved.imp_right fun h => h.1, h.ok, hclosed.congr h.held⟩

/-- A cascade adds no instance and deletes none of `spared`, as far as it leaves no
transaction open. -/
def KeepsCommitted (S : DmTree) (spared : DmInstances → Prop) (cascade : Op Unit) : Prop :=
  ∀ a b, CascadeReady S a → InstancesShrunk S spared a b →
    Keeps True cascade b fun c => c.curTransaction = none → CommittedInstances S spared a c

variable {cascade : Op Unit} {notifies : List (Op Unit)}

/-- The part of a commit behind the log. -/
theorem commitRest_spec (hS : SchemaOk limit S) (hcascade : KeepsCommitted S spared cascade)
    (hok : StateOk S a) (hclosed : Closed a) (hlog : LogCommitted a a') (more : Bool) :
    Wp True (if more = true then do
        .ignore (transStart S W)
        .ignore cascade
        .require (← .read fun a => !isWithinTransaction a)
      else pure () : Op Unit) a' (fun _ => CommittedInstances S spared a) (fun _ _ => False) := by
  split
  swap
  · exact ⟨fun t _ => (hlog.held t).mp, fun t _ _ => (hlog.held t).mpr, fun _ => hlog.settled,
      by rw [hlog.db], hlog.log, hlog.ok hok, hclosed.congr hlog.held⟩
  simp only [wp_bind, wp_ignore, wp_read, wp_require]
  have hrest : ∀ b, CascadeStarted S a' b → Wp True cascade b
      (fun _ c => if (!isWithinTransaction c) = true then CommittedInstances S spared a c else True)
      (fun _ c => if (!isWithinTransaction c) = true then CommittedInstances S spared a c
        else True) := by
    intro b hb
    have hready := hb.ready (hclosed.congr hlog.held)
    have hsame : InstancesShrunk S spared b b :=
      shrunk_quiet hready.ok hready.closed (Quiet.refl S b)
    refine keeps_mono (hcascade b b hready hsame) fun c hc => ?_
    split
    · rename_i hended
      have hnone : c.curTransaction = none := by simpa [isWithinTransaction] using hended
      exact (hc hnone).after (fun t => (hb.held t).trans (hlog.held t))
        fun top hs => hb.settled top (hlog.settled hs)
    · trivial
  exact (cascadeStart_spec hS (hlog.ok hok) hlog.log (by rw [hlog.db])).mono
    (fun _ b hb => hrest b hb) fun _ b hb => hrest b hb

theorem Shrinkage.keeps (h : Shrinkage S spared a a' cs) {t : DmInstances}
    (hs : SettledAt S a (topNode t)) (hspared : spared t) (ht : Held a t) : Held a' t := by
  refine (h.kept t hs ht).resolve_right fun hmem => ?_
  obtain ⟨g, heq, -, hg⟩ := h.removes _ hmem
  cases heq
  exact (hg hs).2 hspared

theorem CascadeReady.committed (h : CascadeReady S a) (h' : InstancesShrunk S spared a a')
    (hnone : a'.curTransaction = none) : CommittedInstances S spared a a' := by
  obtain ⟨dts, hlog, hshrink⟩ := h'.log
  have hnone' : a.curTransaction = none := by
    rw [hlog, Option.map_eq_none_iff] at hnone
    exact hnone
  refine ⟨hshrink.held, fun t hs hspared => hshrink.keeps hs hspared, h'.settled, ?_, hnone,
    h'.ok, h'.closed⟩
  rw [h'.saved]
  exact h.saved.resolve_right fun hopen => hopen hnone'

theorem keepsCommitted_pure (S : DmTree) (spared : DmInstances → Prop) :
    KeepsCommitted S spared (pure ()) := fun _ _ ha hb hnone => ha.committed hb hnone

/-- A level of the cascade that ends in a commit. -/
theorem keepsCommitted_commitWith (hS : SchemaOk limit S)
    (hcascade : KeepsCommitted S spared cascade) :
    KeepsCommitted S spared (commitWith S W cascade) := by
  intro a b ha hb
  simp only [Keeps, commitWith, wp_bind]
  obtain ⟨dts, hlog, hshrink⟩ := hb.log
  cases hcur : b.curTransaction with
  | none =>
    simp only [commitLog, wp_bind, wp_read, hcur, wp_pure, Bool.false_eq_true, if_false]
    exact fun _ => ha.committed hb hcur
  | some log =>
    have hchanges : changes S log = changes S dts := by
      rw [hcur] at hlog
      obtain ⟨start, hstart, rfl⟩ := Option.map_eq_some_iff.mp hlog.symm
      have hnil := ha.log
      rw [logOf, hstart] at hnil
      rw [changes_append, show changes S start = [] from hnil]
      rfl
    rw [← hchanges] at hshrink
    refine (commitLog_spec hS hb.ok hcur).mono (fun more c hc => ?_) fun _ c hc _ => ?_
    · refine (commitRest_spec hS hcascade hb.ok hb.closed hc.1 more).mono (fun _ d h _ => ?_)
        fun _ _ h => h.elim
      exact ⟨fun t hs ht => hshrink.held t hs (h.held t (hb.settled _ hs) ht),
        fun t hs hspared ht => h.kept t (hb.settled _ hs) hspared (hshrink.keeps hs hspared ht),
        fun top hs => h.settled top (hb.settled top hs), h.saved, h.log, h.ok, h.closed⟩
    · obtain ⟨hheld, hclosed⟩ := hshrink.aborted hb.closed hc.1
      exact ⟨fun t hs => (hheld t hs).mp, fun t hs _ => (hheld t hs).mpr,
        fun top hs => hc.1.settled top (hb.settled top hs), Aborted.saved hc.1, hc.1.log, hc.1.ok,
        hclosed⟩

/-- A level with a notify function in front. -/
theorem keepsCommitted_notify {notify rest : Op Unit} (hnotify : Spares S spared notify)
    (hrest : KeepsCommitted S spared rest) :
    KeepsCommitted S spared (do .ignore notify; rest) := by
  intro a b ha hb
  simp only [Keeps, wp_bind, wp_ignore]
  exact keeps_mono (hnotify b hb.ok hb.closed) fun c hc => hrest a c ha (hb.trans hc)

theorem keepsCommitted_cascade (hS : SchemaOk limit S)
    (hnotifies : ∀ notify ∈ notifies, Spares S spared notify) :
    KeepsCommitted S spared (transCommit S W notifies) := by
  induction notifies with
  | nil =>
    exact keepsCommitted_commitWith hS (keepsCommitted_commitWith hS (keepsCommitted_pure S spared))
  | cons notify rest ih =>
    obtain ⟨hnotify, hrest⟩ := List.forall_mem_cons.mp hnotifies
    exact keepsCommitted_commitWith hS (keepsCommitted_notify hnotify (ih hrest))

/-- A commit adds no instance and its notify functions take away none of `spared`, or it
is refused and an abort. -/
theorem transCommit_notifies (hS : SchemaOk limit S) (hok : StateOk S a) (hclosed : Closed a)
    (hlog : a.curTransaction = some log) (hnotifies : ∀ notify ∈ notifies, Spares S spared notify) :
    Wp True (transCommit S W notifies) a (fun _ a' => CommittedInstances S spared a a')
      (fun _ a' => Aborted S a a' log ∧ commitRefused W a = true) := by
  have hlevel : ∀ cascade, KeepsCommitted S spared cascade →
      Wp True (commitWith S W cascade) a (fun _ a' => CommittedInstances S spared a a')
        (fun _ a' => Aborted S a a' log ∧ commitRefused W a = true) := by
    intro cascade hcascade
    rw [commitWith, wp_bind]
    refine (commitLog_spec hS hok hlog).mono (fun more b hb => ?_) fun _ _ h => h
    exact (commitRest_spec hS hcascade hok hclosed hb.1 more).mono (fun _ _ h => h)
      fun _ _ h => h.elim
  cases notifies with
  | nil => exact hlevel _ (keepsCommitted_commitWith hS (keepsCommitted_pure S spared))
  | cons notify rest =>
    obtain ⟨hnotify, hrest⟩ := List.forall_mem_cons.mp hnotifies
    exact hlevel _ (keepsCommitted_notify hnotify (keepsCommitted_cascade hS hrest))

end Cascade

end CommittedTransaction
