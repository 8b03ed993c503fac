import SdtTr369.CommittedTransaction
import SdtTr369.HandleDelete
import SdtTr369.ResolvedPaths

/-!
# What a Delete request deletes

Each deletion takes away one resolved instance with everything below it, and one
that fails or is taken back leaves the instances as they were. With this the
response to a request with `allow_partial` is compared with the data model
behind it, and a request without it deletes all of its objects or none.
-/

namespace DeleteRequests

open UspTypes TextUtils Schema SchemaInvariant PathCodec PathText EffectProgram Agent InstVector DmTrans
  DataModel
open List
open DataModelRead ExprVector PathResolver HandleDelete UndoLog PathRoundTrip InstanceTree
open HeldInstances Deletion QuietReads ResolverFrames AbortedTransaction
open CommittedTransaction ResolvedPaths Prog

theorem related_of_mem {α β : Type} {r : α → β → Prop} {xs : List α} {ys : List β}
    (h : List.Forall₂ r xs ys) {x : α} (hx : x ∈ xs) : ∃ y ∈ ys, r x y := by
  induction h with
  | nil => cases hx
  | cons hr _ ih =>
    rcases List.mem_cons.mp hx with rfl | hx
    · exact ⟨_, mem_cons_self, hr⟩
    · obtain ⟨y, hy, hxy⟩ := ih hx
      exact ⟨y, mem_cons_of_mem _ hy, hxy⟩

/-- The path is that of an instance of a table. -/
def Names (S : DmTree) (path : Str) (inst : DmInstances) : Prop :=
  ∃ node, getQualifiedNode S path = some (node, inst, true) ∧
    (S.node node).type = .objectMultiInstance

theorem Names.instance {limit : Nat} {S : DmTree} (hS : SchemaOk limit S) {path : Str}
    {inst : DmInstances} (h : Names S path inst) : ∃ node, IsInstance S node inst := by
  obtain ⟨node, hget, htable⟩ := h
  exact ⟨node, getQualifiedNode_instance hS hget htable⟩

theorem Names.unique {S : DmTree} {path : Str} {inst inst' : DmInstances} (h : Names S path inst)
    (h' : Names S path inst') : inst = inst' := by
  obtain ⟨node, hget, -⟩ := h
  obtain ⟨node', hget', -⟩ := h'
  rw [hget] at hget'
  cases hget'
  rfl

/-- The path in the response is that of the instance, too. -/
theorem Names.dotted {S : DmTree} {path : Str} {inst : DmInstances} (h : Names S path inst) :
    Names S (withTrailingDot path) inst := by
  unfold Names
  rwa [getQualifiedNode_withTrailingDot]

/-- From `a` to `a'` no instance came. -/
structure Shrinks (S : DmTree) (a a' : State) : Prop where
  held : ∀ t, SettledAt S a (topNode t) → Held a' t → Held a t
  settled : ∀ top, SettledAt S a top → SettledAt S a' top
  ok : StateOk S a'
  closed : Closed a'

/-- From `a` to `a'` the instances stayed. -/
structure Stays (S : DmTree) (a a' : State) : Prop extends Shrinks S a a' where
  kept : ∀ t, SettledAt S a (topNode t) → Held a t → Held a' t

/-- The instance is gone for the rest of the lock period. -/
def Gone (S : DmTree) (a : State) (inst : DmInstances) : Prop :=
  inst ≠ [] ∧ SettledAt S a (topNode inst) ∧ ¬ Known a inst

variable {t : DmInstances}

variable {spared : DmInstances → Prop}

section Effects

variable {S : DmTree} {W : World} {a a' a'' b : State}

theorem Shrinks.trans (h : Shrinks S a a') (h' : Shrinks S a' a'') : Shrinks S a a'' where
  held t hs ht := h.held t hs (h'.held t (h.settled _ hs) ht)
  settled top hs := h'.settled top (h.settled top hs)
  ok := h'.ok
  closed := h'.closed

theorem shrinks_quiet (hok : StateOk S a) (hclosed : Closed a) (h : Quiet S a a') :
    Shrinks S a a' where
  held _ hs ht := (h.held_iff hs).mp ht
  settled := h.settled
  ok := h.ok hok
  closed := h.closed hclosed

theorem Shrinks.refl (hok : StateOk S a) (hclosed : Closed a) : Shrinks S a a :=
  shrinks_quiet hok hclosed (Quiet.refl S a)

/-- What is known afterwards was known before. -/
theorem Shrinks.known (h : Shrinks S a a') (hne : t ≠ []) (hs : SettledAt S a (topNode t))
    (hk : Known a' t) : Known a t := by
  obtain ⟨t', ht', hpre⟩ := hk
  exact ⟨t', h.held t' (topNode_of_isPrefix hpre hne ▸ hs) ht', hpre⟩

theorem Stays.known_iff (h : Stays S a a') (hclosed : Closed a) (hne : t ≠ [])
    (hs : SettledAt S a (topNode t)) : Known a' t ↔ Known a t := by
  refine ⟨h.toShrinks.known hne hs, fun hk => ?_⟩
  exact ⟨t, h.kept t hs (hclosed.held_of_known hk hne), prefix_rfl⟩

theorem Gone.shrinks {inst : DmInstances} (h : Gone S a inst) (h' : Shrinks S a a') :
    Gone S a' inst :=
  ⟨h.1, h'.settled _ h.2.1, fun hk => h.2.2 (h'.known h.1 h.2.1 hk)⟩

theorem CommittedInstances.shrinks (h : CommittedInstances S spared a a') : Shrinks S a a' :=
  ⟨h.held, h.settled, h.ok, h.closed⟩

end Effects

/-! ## The entries of a deletion -/

/-- Only entries below one top-level table are logged. -/
def LogsAt (S : DmTree) (top : NodeId) (a a' : State) : Prop :=
  ∃ dts, a'.curTransaction = a.curTransaction.map (· ++ dts) ∧
    ∀ dt ∈ dts, topNode (entryInst S dt) = top

section Entries

variable {S : DmTree} {W : World} {top node : NodeId} {inst : DmInstances}

theorem logsAt_frame (S : DmTree) (top : NodeId) : IsFrame (LogsAt S top) where
  refl a := ⟨[], by simp, nofun⟩
  trans := by
    rintro a b c ⟨dts, hb, hdts⟩ ⟨dts', hc, hdts'⟩
    refine ⟨dts ++ dts', ?_, List.forall_mem_append.mpr ⟨hdts, hdts'⟩⟩
    rw [hc, hb, Option.map_map]
    congr 1
    funext log
    exact append_assoc ..

theorem quiet_logsAt {a a' : State} (h : Quiet S a a') : LogsAt S top a a' :=
  ⟨[], by simp [h.log], nofun⟩

theorem transAdd_logsAt (hS : SchemaOk maxDmInstanceOrder S)
    (htop : (S.node node).instanceNodes.head? = some top) (hne : inst ≠ []) (path : Str) :
    Within (LogsAt S top) (transAdd S W .del path none node inst) := by
  intro a
  refine (transAdd_spec (T := True) hS (fun _ => trivial) .del path none node inst).mono
    (fun _ a' h => ?_) fun _ _ h => h.elim
  obtain ⟨b, hb, -, rfl | ⟨hop, -⟩⟩ := h
  · refine ⟨[⟨.del, path, none, node, instances inst⟩], by simp [appendEntry, hb.log], ?_⟩
    intro dt hdt
    rw [List.mem_singleton.mp hdt]
    obtain ⟨x, xs, rfl⟩ := exists_cons_of_ne_nil hne
    obtain ⟨nodes, hnodes⟩ := List.head?_eq_some_iff.mp htop
    change topNode (zipNodes (S.node node).instanceNodes (instances (x :: xs))) = top
    rw [hnodes]
    rfl
  · cases hop

theorem deleteChildParams_logsAt (hS : SchemaOk maxDmInstanceOrder S) (fuel : Nat) (path : Str)
    (hnode : node < S.nodes.length) (htop : (S.node node).instanceNodes.head? = some top) :
    Within (LogsAt S top) (deleteChildParams S W fuel path node inst) := by
  have hR := logsAt_frame S top
  induction fuel generalizing path node inst with
  | zero => exact within_pure hR _
  | succ fuel ih =>
    refine within_forEach hR fun child hchild => ?_
    have hlt := (hS.child_bounds node hnode child hchild).2
    have hrow : Within (LogsAt S top) (databaseDeleteParameter W (rowKey S child inst)) := by
      refine within_bind hR ((call_quiet W.deleteFails).mono fun _ _ => quiet_logsAt) fun fails => ?_
      split
      · exact within_fail hR _
      · exact within_update fun a => ⟨[], by simp, nofun⟩
    split
    all_goals first
      | exact hrow
      | exact within_pure hR _
      | skip
    · rename_i hobject
      refine ih _ hlt ?_
      rw [instanceNodes_other hS hnode hchild (by simp [hobject])]
      exact htop
    · rename_i htable
      have htop' : (S.node child).instanceNodes.head? = some top := by
        rw [instanceNodes_table hS hnode hchild htable, head?_append, htop]
        rfl
      refine within_bind hR ((instVectorGetInstances_within hS child inst).mono fun _ _ =>
        quiet_logsAt) fun iv => within_forEach hR fun n _ => ?_
      refine within_bind hR (ih _ hlt htop') fun _ => within_bind hR ?_ fun _ =>
        transAdd_logsAt hS htop' (by simp) _
      intro a
      refine wp_instVectorRemove (by simp) (fun _ => trivial) ⟨[], ?_, nofun⟩
      simp [removeHeld]

theorem deleteFound_logsAt (hS : SchemaOk maxDmInstanceOrder S) (hinst : IsInstance S node inst)
    (path : Str) (flags : DelFlags) :
    Within (LogsAt S (topNode inst)) (deleteFound S W path flags node inst) := by
  have hR := logsAt_frame S (topNode inst)
  have hne := hinst.ne_nil hS
  have htop : (S.node node).instanceNodes.head? = some (topNode inst) := by
    rw [← hinst.nodes]
    cases inst with
    | nil => exact absurd rfl hne
    | cons x xs => rfl
  refine within_bind hR (fun a => keeps_mono (deleteHooks_quiet _ flags) fun _ => quiet_logsAt)
    fun _ => within_bind hR (transAdd_logsAt hS htop hne path) fun _ =>
      within_bind hR (deleteChildParams_logsAt hS _ _ hinst.lt htop) fun _ => ?_
  intro a
  refine wp_instVectorRemove hne (fun _ => trivial) ⟨[], ?_, nofun⟩
  simp [removeHeld]

end Entries

/-! ## One deletion -/

/-- A deletion that found its instance in the state `b`, as far as it came. -/
def RemovesFrom (S : DmTree) (a a' : State) : Prop :=
  ∃ b ts ks dts, Quiet S a b ∧ Purged S b a' ts ks dts ∧ Logged S b ts dts ∧
    ∀ dt ∈ dts, SettledAt S b (topNode (entryInst S dt))

/-- The deletion of `inst` and everything below it. -/
structure Removal (S : DmTree) (a a' : State) (inst : DmInstances) : Prop where
  shrinks : Shrinks S a a'
  kept : ∀ t, SettledAt S a (topNode t) → Held a t → ¬ inst <+: t → Held a' t
  gone : Gone S a' inst
  known : SettledAt S a (topNode inst) → Known a inst
  removes : RemovesFrom S a a'

section Deletion

variable {S : DmTree} {W : World} {T : Prop} {a a' b c : State}

theorem removesFrom_quiet (hok : StateOk S a) (h : Quiet S a a') : RemovesFrom S a a' :=
  ⟨a', [], [], [], h, Purged.refl (h.ok hok), logged_nil, nofun⟩

/-- What a deletion of `inst` takes away is `inst` with everything below it. -/
theorem removesInstance_held (hS : SchemaOk maxDmInstanceOrder S) {node : NodeId}
    {inst : DmInstances} (hok : StateOk S b) (hinst : IsInstance S node inst)
    (h : RemovesInstance S b a' node inst) (hs : SettledAt S b (topNode t)) :
    Held a' t ↔ Held b t ∧ ¬ inst <+: t := by
  obtain ⟨ts, ks, dts, hp, -, hts, -⟩ := h
  rw [hp.held t hs]
  refine and_congr_right fun hheld => not_congr ?_
  rw [hts]
  constructor
  · rintro (rfl | hbelow)
    · exact prefix_rfl
    · obtain ⟨c, n, r, -, rfl⟩ := hbelow.grows
      exact prefix_append ..
  · intro hpre
    by_cases heq : t = inst
    · exact .inl heq
    · obtain ⟨q, hq⟩ := hok.instance hheld
      exact .inr (tupleBelow_of_isPrefix hS hinst (fun _ _ h hpre _ => h.of_isPrefix hpre) hq hpre
        heq hheld.known)

/-- All entries of a deletion are for the table in which it found its instance. -/
theorem removesFrom_of_logsAt {inst : DmInstances} (hb : Quiet S a b)
    (hopen : a.curTransaction ≠ none) (hsettled : SettledAt S b (topNode inst))
    (h : RemovesSome S b a') (hat : LogsAt S (topNode inst) b a') : RemovesFrom S a a' := by
  obtain ⟨ts, ks, dts, hp, hlog⟩ := h
  obtain ⟨dts', hcur, hdts'⟩ := hat
  refine ⟨b, ts, ks, dts, hb, hp, hlog, ?_⟩
  obtain ⟨log, hopen⟩ := Option.ne_none_iff_exists'.mp (hb.log ▸ hopen)
  have hsame := hp.log.symm.trans hcur
  rw [hopen, Option.map_some, Option.map_some, Option.some_inj, append_cancel_left_eq] at hsame
  rw [hsame]
  intro dt hdt
  rw [hdts' dt hdt]
  exact hsettled

theorem removal_of_removes (hS : SchemaOk maxDmInstanceOrder S) {node : NodeId}
    {inst : DmInstances} (hok : StateOk S a) (hclosed : Closed a) (hb : Quiet S a b)
    (hopen : a.curTransaction ≠ none) (hinst : IsInstance S node inst)
    (hsettled : SettledAt S b (topNode inst)) (hknown : Known b inst)
    (h : RemovesInstance S b a' node inst) (hat : LogsAt S (topNode inst) b a') :
    Removal S a a' inst := by
  have hne := hinst.ne_nil hS
  have hheld := fun t hs => removesInstance_held hS (hb.ok hok) hinst h (t := t) hs
  have hsome := removes_some h
  have hfrom := removesFrom_of_logsAt hb hopen hsettled hsome hat
  obtain ⟨ts, ks, dts, hp, hlog, -, -⟩ := h
  refine ⟨⟨fun t hs ht => ?_, fun top hs => hp.settled top (hb.settled top hs), hp.ok,
    hp.closed (hb.closed hclosed)⟩, fun t hs ht hpre => ?_, ⟨hne, hp.settled _ hsettled, ?_⟩,
    fun hs => ?_, hfrom⟩
  · rw [hheld t (hb.settled _ hs), hb.held_iff hs] at ht
    exact ht.1
  · rw [hheld t (hb.settled _ hs), hb.held_iff hs]
    exact ⟨ht, hpre⟩
  · rintro ⟨t, ht, hpre⟩
    rw [hheld t (topNode_of_isPrefix hpre hne ▸ hsettled)] at ht
    exact ht.2 hpre
  · exact (hb.known_iff hne hs).mp hknown

/-- `DATA_MODEL_DeleteInstance`, in a transaction. -/
theorem deleteInstance_removal (hS : SchemaOk maxDmInstanceOrder S) (hok : StateOk S a)
    (hclosed : Closed a) (hopen : a.curTransaction ≠ none) (path : Str) (flags : DelFlags) :
    Wp True (deleteInstance S W path flags) a
      (fun _ a' => (∃ inst, Names S path inst ∧ Removal S a a' inst) ∨
        flags.ignoreNoInstance = true ∧ Quiet S a a')
      (fun _ a' => RemovesFrom S a a') := by
  have hsame := removesFrom_quiet hok (Quiet.refl S a)
  unfold deleteInstance
  split
  · exact hsame
  · rename_i node inst isQualified hget
    split
    · exact hsame
    · rename_i hq
      have hq : isQualified = true := by simpa using hq
      subst hq
      rw [wp_bind]
      refine (instVectorIsExist_spec hS hok fun _ _ => trivial).mono
        (fun found b h => ?_) fun _ _ h => removesFrom_quiet hok h
      obtain ⟨hb, hsettled, hfound⟩ := h
      split
      · rename_i htrue
        split
        · exact removesFrom_quiet hok hb
        · rename_i hm
          have htable := Decidable.not_not.mp hm
          have hinst := getQualifiedNode_instance hS hget htable
          have hne := hinst.ne_nil hS
          have hknown := (hfound.mp htrue).resolve_left hne
          have hspec := deleteFound_spec (T := True) (W := W) hS (hb.ok hok) (fun _ => trivial) hinst
            (hsettled hne) hknown path flags
          refine (hspec.and (deleteFound_logsAt (W := W) hS hinst path flags b)).mono
            (fun _ a' h => ?_) fun _ a' h => ?_
          · exact .inl ⟨inst, ⟨node, hget, htable⟩, removal_of_removes hS hok hclosed hb hopen
              hinst (hsettled hne) hknown h.1 h.2⟩
          · exact removesFrom_of_logsAt hb hopen (hsettled hne) h.1 h.2
      · split
        · rename_i hflag
          exact .inr ⟨hflag, hb⟩
        · exact removesFrom_quiet hok hb

theorem RemovesFrom.shrunk (hclosed : Closed a) (h : RemovesFrom S a a') :
    InstancesShrunk S (fun _ => False) a a' := by
  obtain ⟨b, ts, ks, dts, hb, hp, hentries, hsettled⟩ := h
  have hlogged : ∀ t ∈ ts, Change.remove t ∈ changes S dts := by
    intro t ht
    obtain ⟨dt, hdt, hentry⟩ := List.mem_map.mp (hentries.entries t ht)
    exact List.mem_filterMap.mpr ⟨dt, hdt, by rw [changeOf, hp.dels dt hdt, hentry]⟩
  have hentry : ∀ c ∈ changes S dts, ∃ dt ∈ dts, c = .remove (entryInst S dt) := by
    intro c hc
    obtain ⟨dt, hdt, hch⟩ := List.mem_filterMap.mp hc
    rw [changeOf, hp.dels dt hdt] at hch
    exact ⟨dt, hdt, (Option.some.inj hch).symm⟩
  have hheld : ∀ dt ∈ dts, ∀ p, p <+: entryInst S dt → p ≠ [] → Held b p := by
    intro dt hdt p hpre hne
    have hknown := hentries.known dt hdt (hsettled dt hdt)
    exact (hb.closed hclosed).held_of_known (hknown.of_isPrefix hpre) hne
  refine ⟨⟨dts, by rw [hp.log, hb.log], fun t hs ht => ?_, fun t hs ht => ?_, fun c hc => ?_,
    fun g hg p hpre hne => ?_⟩, fun top hs => hp.settled top (hb.settled top hs), ?_, hp.ok,
    hp.closed (hb.closed hclosed)⟩
  · exact (hb.held_iff hs).mp ((hp.held t (hb.settled _ hs)).mp ht).1
  · by_cases hmem : t ∈ ts
    · exact .inr (hlogged t hmem)
    · exact .inl ((hp.held t (hb.settled _ hs)).mpr ⟨(hb.held_iff hs).mpr ht, hmem⟩)
  · obtain ⟨dt, hdt, rfl⟩ := hentry c hc
    refine ⟨_, rfl, hp.settled _ (hsettled dt hdt), fun hs => ⟨?_, fun h => h⟩⟩
    exact (hb.held_iff hs).mp (hheld dt hdt _ prefix_rfl (hentries.ne_nil dt hdt))
  · obtain ⟨dt, hdt, heq⟩ := hentry _ hg
    cases heq
    by_cases hmem : p ∈ ts
    · exact .inr (hlogged p hmem)
    · refine .inl ((hp.held p ?_).mpr ⟨hheld dt hdt p hpre hne, hmem⟩)
      rw [topNode_of_isPrefix hpre hne]
      exact hsettled dt hdt
  · rw [hp.saved, hb.db]

theorem Removal.shrunk {inst : DmInstances} (hclosed : Closed a) (h : Removal S a a' inst) :
    InstancesShrunk S (fun _ => False) a a' := h.removes.shrunk hclosed

/-- What was removed in a transaction is back after its abort. -/
theorem shrunk_aborted (hlog : c.curTransaction = some []) (h : InstancesShrunk S spared c b)
    (ha : Aborted S b a' (logOf b)) :
    (∀ t, SettledAt S c (topNode t) → (Held a' t ↔ Held c t)) ∧ Closed a' := by
  obtain ⟨dts, hcur, hshrink⟩ := h.log
  have hlogOf : logOf b = dts := by
    rw [logOf, hcur, hlog]
    rfl
  rw [hlogOf] at ha
  exact hshrink.aborted h.closed ha

end Deletion

/-! ## One object with `allow_partial` -/

section Turns

variable (S : DmTree) (W : World) (notifies : List (Op Unit))

/-- The turn of an object, without the response. -/
def deleteObject (path : Str) : Op Unit := do
  transStart S W
  match ← .attempt (deleteInstance S W path { checkDeletable := true }) with
  | .ok _ => transCommit S W notifies
  | .error _ => .ignore (transAbort S W)

/-- `DATA_MODEL_DeleteInstance` deletes the object in its turn. -/
def IsDeleted (path : Str) (a : State) : Prop :=
  (deleteInstance S W path { checkDeletable := true }).result ((transStart S W).after a) =
    some (.ok ())

/-- The transaction of the object starts and, when it is deleted, is committed. -/
def TransFine (path : Str) (a : State) : Prop :=
  (transStart S W).result a = some (.ok ()) ∧
    (IsDeleted S W path a → (deleteObject S W notifies path).result a = some (.ok ()))

/-- The state in which the turn of an object that was deleted is committed. -/
def beforeCommit (path : Str) (a : State) : State :=
  (deleteInstance S W path { checkDeletable := true }).after ((transStart S W).after a)

/-- When the object is deleted, no other listed instance goes along: none below it
exists any more, and the notify functions of the commit delete none. -/
def GoesAlone (listed : DmInstances → Prop) (path : Str) (a : State) : Prop :=
  IsDeleted S W path a →
    (∀ inst, Names S path inst → ∀ t, listed t → inst <+: t → t ≠ inst → ¬ Known a t) ∧
      ∀ t, listed t → Known (beforeCommit S W path a) t →
        Known ((deleteObject S W notifies path).after a) t

variable {S W notifies}

/-- A turn in which the object is deleted, from `a` to `d`. -/
structure DeletedIn (S : DmTree) (W : World) (path : Str) (a d : State) (inst : DmInstances) :
    Prop where
  isDeleted : IsDeleted S W path a
  names : Names S path inst
  known : SettledAt S a (topNode inst) → Known a inst
  before : Shrinks S a (beforeCommit S W path a)
  kept : ∀ t, SettledAt S a (topNode t) → Held a t → ¬ inst <+: t →
    Held (beforeCommit S W path a) t
  gone : Gone S (beforeCommit S W path a) inst
  behind : Shrinks S (beforeCommit S W path a) d

section

variable {a d : State} {path : Str} {inst : DmInstances} (h : DeletedIn S W path a d inst)
include h

theorem DeletedIn.shrinks : Shrinks S a d := h.before.trans h.behind

theorem DeletedIn.goneBehind : Gone S d inst := h.gone.shrinks h.behind

theorem DeletedIn.alone_iff (hclosed : Closed a)
    (hafter : (deleteObject S W notifies path).after a = d) {listed : DmInstances → Prop}
    (hlisted : ∀ t, listed t → t ≠ [] ∧ SettledAt S a (topNode t)) :
    GoesAlone S W notifies listed path a ↔
      ∀ t, listed t → t ≠ inst → Known a t → Known d t := by
  rw [GoesAlone, hafter]
  constructor
  · intro halone t ht hne hk
    obtain ⟨hbelow, hnotified⟩ := halone h.isDeleted
    have hpre : ¬ inst <+: t := fun hpre => hbelow inst h.names t ht hpre hne hk
    have hheld := hclosed.held_of_known hk (hlisted t ht).1
    exact hnotified t ht (h.kept t (hlisted t ht).2 hheld hpre).known
  · intro hall _
    refine ⟨fun inst' hnames t ht hpre hne hk => ?_, fun t ht hk => ?_⟩
    · obtain rfl := hnames.unique h.names
      have hs := h.before.settled _ (hlisted t ht).2
      obtain ⟨t', ht', hpre'⟩ := h.behind.known (hlisted t ht).1 hs (hall t ht hne hk)
      exact h.gone.2.2 ⟨t', ht', hpre.trans hpre'⟩
    · refine hall t ht ?_ (h.before.known (hlisted t ht).1 (hlisted t ht).2 hk)
      rintro rfl
      exact h.gone.2.2 hk

end

/-- The rule for one turn of `deletePartially`. -/
theorem deletePartially_cons (hS : SchemaOk maxDmInstanceOrder S)
    (hnotifies : ∀ notify ∈ notifies, Spares S (fun _ => False) notify) {a : State}
    (hok : StateOk S a) (hclosed : Closed a) (hnone : a.curTransaction = none) {path : Str}
    {paths : List Str} {done : OperSuccess} {Q : OperSuccess × Option Err → State → Prop}
    {E : Err → State → Prop} (hfails : ∀ r d, ¬ TransFine S W notifies path a → Q r d)
    (hdeleted : ∀ inst d, (deleteObject S W notifies path).after a = d →
      DeletedIn S W path a d inst → d.curTransaction = none →
      Wp True (deletePartially S W notifies paths
        { done with affectedPaths := done.affectedPaths ++ [withTrailingDot path] }) d Q E)
    (hkept : ∀ e d, (deleteObject S W notifies path).after a = d → ¬ IsDeleted S W path a →
      Stays S a d → d.curTransaction = none →
      Wp True (deletePartially S W notifies paths { done with
        unaffectedPathErrs := done.unaffectedPathErrs ++ [(withTrailingDot path, e)] }) d Q E) :
    Wp True (deletePartially S W notifies (path :: paths) done) a Q E := by
  rw [deletePartially, wp_bind, wp_attempt]
  refine (transStart_spec hS hok hnone).and_run.mono (fun _ b hb => ?_) fun e b hb => ?_
  swap
  · refine hfails _ _ fun hfine => ?_
    have hresult := hfine.1
    rw [(result_after hb.2).1] at hresult
    cases hresult
  obtain ⟨hstart, hrun⟩ := hb
  have hafter := (result_after hrun).2
  have hlog : b.curTransaction = some [] := hstart.log
  have hclosedB := hstart.closed hclosed
  dsimp only
  rw [wp_bind, wp_attempt]
  refine (deleteInstance_removal hS (hstart.ok hok) hclosedB (by simp [hlog]) path _).and_run.mono
    (fun _ c hc => ?_) fun e c hc => ?_
  · obtain ⟨hremoval, hdelete⟩ := hc
    obtain ⟨inst, hnames, hremoval⟩ := hremoval.resolve_right (by simp)
    have hisDeleted : IsDeleted S W path a := by
      rw [IsDeleted, ← hafter]
      exact (result_after hdelete).1
    have hbefore : beforeCommit S W path a = c := by
      rw [beforeCommit, ← hafter]
      exact (result_after hdelete).2.symm
    have hobject : ∀ {r d}, transCommit S W notifies c = some (r, d) →
        deleteObject S W notifies path a = some (r, d) := by
      intro r d hcommit
      rw [deleteObject, bind_run hrun, bind_run (attempt_run hdelete)]
      exact hcommit
    obtain ⟨log, hlogC⟩ : ∃ log, c.curTransaction = some log := by
      obtain ⟨dts, hcur, -⟩ := (hremoval.shrunk hclosedB).log
      rw [hcur, hlog]
      exact ⟨_, rfl⟩
    dsimp only
    rw [wp_bind, wp_attempt]
    refine (transCommit_notifies hS hremoval.shrinks.ok hremoval.shrinks.closed hlogC
      hnotifies).and_run.mono (fun _ d hd => ?_) fun e d hd => ?_
    · obtain ⟨hcommitted, hcommit⟩ := hd
      refine hdeleted inst d (result_after (hobject hcommit)).2.symm ⟨hisDeleted, hnames,
        fun hs => ?_, ?_, fun t hs ht hpre => ?_, ?_, ?_⟩ hcommitted.log
      · obtain ⟨t, ht, hpre⟩ := hremoval.known (hstart.settled hs)
        exact ⟨t, (hstart.held t).mp ht, hpre⟩
      · rw [hbefore]
        exact ⟨fun t hs ht => (hstart.held t).mp (hremoval.shrinks.held t (hstart.settled hs) ht),
          fun top hs => hremoval.shrinks.settled top (hstart.settled hs), hremoval.shrinks.ok,
          hremoval.shrinks.closed⟩
      · rw [hbefore]
        exact hremoval.kept t (hstart.settled hs) ((hstart.held t).mpr ht) hpre
      · rw [hbefore]
        exact hremoval.gone
      · rw [hbefore]
        exact CommittedInstances.shrinks hcommitted
    · refine hfails _ _ fun hfine => ?_
      have hresult := hfine.2 hisDeleted
      rw [(result_after (hobject hd.2)).1] at hresult
      cases hresult
  · obtain ⟨hremoves, hdelete⟩ := hc
    have hshrunk := hremoves.shrunk hclosedB
    have hnot : ¬ IsDeleted S W path a := by
      rw [IsDeleted, ← hafter, (result_after hdelete).1]
      simp
    have hobject : ∀ {r : Except Err Unit} {d}, transAbort S W c = some (r, d) →
        deleteObject S W notifies path a = some (.ok (), d) := by
      intro r d habort
      rw [deleteObject, bind_run hrun, bind_run (attempt_run hdelete)]
      exact ignore_run habort
    obtain ⟨log, hlogC⟩ : ∃ log, c.curTransaction = some log := by
      obtain ⟨dts, hcur, -⟩ := hshrunk.log
      rw [hcur, hlog]
      exact ⟨_, rfl⟩
    have hback : ∀ r d, Aborted S c d log → transAbort S W c = some (r, d) →
        Wp True (deletePartially S W notifies paths { done with
          unaffectedPathErrs := done.unaffectedPathErrs ++ [(withTrailingDot path, e)] }) d Q E := by
      intro r d ha habort
      have ha' : Aborted S c d (logOf c) := by
        rw [logOf, hlogC]
        exact ha
      obtain ⟨hheld, hclosedD⟩ := shrunk_aborted hlog hshrunk ha'
      have hsame : ∀ t, SettledAt S a (topNode t) → (Held d t ↔ Held a t) := fun t hs =>
        (hheld t (hstart.settled hs)).trans (hstart.held t)
      refine hkept e d (result_after (hobject habort)).2.symm hnot ⟨⟨fun t hs => (hsame t hs).mp,
        fun top hs => ha.settled top (hshrunk.settled top (hstart.settled hs)), ha.ok, hclosedD⟩,
        fun t hs => (hsame t hs).mpr⟩ ha.log
    dsimp only
    rw [wp_bind, wp_ignore]
    exact (transAbort_spec hS hshrunk.ok hlogC).and_run.mono (fun _ d hd => hback _ d hd.1 hd.2)
      fun _ d hd => hback _ d hd.1 hd.2

end Turns

/-! ## The objects of one expression -/

/-- What the loop over the objects of an expression has done. -/
structure Segment (S : DmTree) (W : World) (notifies : List (Op Unit)) (paths : List Str)
    (a a' : State) (affected unaffected : List Str) (gone : List DmInstances) : Prop where
  turns : ∀ p ∈ paths, withTrailingDot p ∈ affected ∨ withTrailingDot p ∈ unaffected
  resolved : ∀ p ∈ affected, ∃ q ∈ paths, p = withTrailingDot q
  names : List.Forall₂ (Names S) affected gone
  shrinks : Shrinks S a a'
  allGone : ∀ g ∈ gone, Gone S a' g
  known : ∀ g ∈ gone, SettledAt S a (topNode g) → Known a g
  alone : ∀ listed : DmInstances → Prop,
    (∀ t, listed t → t ≠ [] ∧ SettledAt S a (topNode t)) →
      (MeetsAlong (GoesAlone S W notifies listed) (deleteObject S W notifies) paths a ↔
        ∀ t, listed t → Known a t → ¬ Known a' t → t ∈ gone)
  log : a'.curTransaction = none

section Segments

variable {S : DmTree} {W : World} {notifies : List (Op Unit)} {a a' d : State} {path : Str}
  {paths affected unaffected : List Str} {gone : List DmInstances}

theorem segment_nil (hok : StateOk S a) (hclosed : Closed a) (hnone : a.curTransaction = none) :
    Segment S W notifies [] a a [] [] [] where
  turns := nofun
  resolved := nofun
  names := .nil
  shrinks := Shrinks.refl hok hclosed
  allGone := nofun
  known := nofun
  alone _ _ := ⟨fun _ _ _ hk hnot => absurd hk hnot, fun _ => trivial⟩
  log := hnone

theorem Segment.kept (h : Segment S W notifies paths d a' affected unaffected gone)
    (hclosed : Closed a) (hafter : (deleteObject S W notifies path).after a = d)
    (hnot : ¬ IsDeleted S W path a) (hd : Stays S a d) :
    Segment S W notifies (path :: paths) a a' affected (withTrailingDot path :: unaffected) gone where
  turns p hp := by
    rcases List.mem_cons.mp hp with rfl | hp
    · exact .inr mem_cons_self
    · exact (h.turns p hp).imp_right (mem_cons_of_mem _)
  resolved p hp := by
    obtain ⟨q, hq, rfl⟩ := h.resolved p hp
    exact ⟨q, mem_cons_of_mem _ hq, rfl⟩
  names := h.names
  shrinks := hd.toShrinks.trans h.shrinks
  allGone := h.allGone
  known g hg hs := by
    obtain ⟨hne, -⟩ := h.allGone g hg
    exact hd.known hne hs (h.known g hg (hd.settled _ hs))
  alone listed hlisted := by
    have halone := h.alone listed fun t ht => ⟨(hlisted t ht).1, hd.settled _ (hlisted t ht).2⟩
    have hturn : GoesAlone S W notifies listed path a := fun hdel => absurd hdel hnot
    rw [MeetsAlong, hafter, halone, and_iff_right hturn]
    refine forall_congr' fun t => forall_congr' fun ht => ?_
    rw [hd.known_iff hclosed (hlisted t ht).1 (hlisted t ht).2]
  log := h.log

theorem Segment.deleted {inst : DmInstances}
    (h : Segment S W notifies paths d a' affected unaffected gone)
    (hclosed : Closed a) (hafter : (deleteObject S W notifies path).after a = d)
    (hd : DeletedIn S W path a d inst) :
    Segment S W notifies (path :: paths) a a' (withTrailingDot path :: affected) unaffected
      (inst :: gone) where
  turns p hp := by
    rcases List.mem_cons.mp hp with rfl | hp
    · exact .inl mem_cons_self
    · exact (h.turns p hp).imp_left (mem_cons_of_mem _)
  resolved p hp := by
    rcases List.mem_cons.mp hp with rfl | hp
    · exact ⟨path, mem_cons_self, rfl⟩
    · obtain ⟨q, hq, rfl⟩ := h.resolved p hp
      exact ⟨q, mem_cons_of_mem _ hq, rfl⟩
  names := .cons hd.names.dotted h.names
  shrinks := hd.shrinks.trans h.shrinks
  allGone g hg := by
    rcases List.mem_cons.mp hg with rfl | hg
    · exact hd.goneBehind.shrinks h.shrinks
    · exact h.allGone g hg
  known g hg hs := by
    rcases List.mem_cons.mp hg with rfl | hg
    · exact hd.known hs
    · obtain ⟨hne, -⟩ := h.allGone g hg
      exact hd.shrinks.known hne hs (h.known g hg (hd.shrinks.settled _ hs))
  alone listed hlisted := by
    have hlistedD : ∀ t, listed t → t ≠ [] ∧ SettledAt S d (topNode t) := fun t ht =>
      ⟨(hlisted t ht).1, hd.shrinks.settled _ (hlisted t ht).2⟩
    rw [MeetsAlong, hafter, h.alone listed hlistedD, hd.alone_iff hclosed hafter hlisted]
    constructor
    · rintro ⟨hturn, hrest⟩ t ht hk hnot
      by_cases heq : t = inst
      · rw [heq]
        exact mem_cons_self
      · exact mem_cons_of_mem _ (hrest t ht (hturn t ht heq hk) hnot)
    · intro hall
      refine ⟨fun t ht hne hk => ?_, fun t ht hk hnot => ?_⟩
      · by_contra hnotD
        have hnot : ¬ Known a' t := fun hk' =>
          hnotD (h.shrinks.known (hlisted t ht).1 (hlistedD t ht).2 hk')
        have hmem := (List.mem_cons.mp (hall t ht hk hnot)).resolve_left hne
        exact hnotD (h.known t hmem (hlistedD t ht).2)
      · have hkA := hd.shrinks.known (hlisted t ht).1 (hlisted t ht).2 hk
        rcases List.mem_cons.mp (hall t ht hkA hnot) with rfl | hmem
        · exact absurd hk hd.goneBehind.2.2
        · exact hmem
  log := h.log

theorem deletePartially_spec (hS : SchemaOk maxDmInstanceOrder S)
    (hnotifies : ∀ notify ∈ notifies, Spares S (fun _ => False) notify) (paths : List Str) :
    ∀ (a : State) (done : OperSuccess), StateOk S a → Closed a → a.curTransaction = none →
      Wp True (deletePartially S W notifies paths done) a
        (fun r a' => MeetsAlong (TransFine S W notifies) (deleteObject S W notifies) paths a →
          ∃ affected unaffected gone, r = (⟨done.affectedPaths ++ affected,
            done.unaffectedPathErrs ++ unaffected⟩, none) ∧
            Segment S W notifies paths a a' affected (unaffected.map Prod.fst) gone)
        (fun _ _ => False) := by
  induction paths with
  | nil =>
    intro a done hok hclosed hnone
    exact fun _ => ⟨[], [], [], by simp, segment_nil hok hclosed hnone⟩
  | cons path paths ih =>
    intro a done hok hclosed hnone
    refine deletePartially_cons hS hnotifies hok hclosed hnone
      (fun r d hnot hfine => absurd hfine.1 hnot) (fun inst d hafter hd hlog => ?_)
      fun e d hafter hnot hd hlog => ?_
    · refine (ih d _ hd.shrinks.ok hd.shrinks.closed hlog).mono (fun r a' h hfine => ?_)
        fun _ _ h => h
      obtain ⟨affected, unaffected, gone, hr, hseg⟩ := h (hafter ▸ hfine.2)
      exact ⟨withTrailingDot path :: affected, unaffected, inst :: gone, by simp [hr],
        hseg.deleted hclosed hafter hd⟩
    · refine (ih d _ hd.ok hd.closed hlog).mono (fun r a' h hfine => ?_) fun _ _ h => h
      obtain ⟨affected, unaffected, gone, hr, hseg⟩ := h (hafter ▸ hfine.2)
      exact ⟨affected, (withTrailingDot path, e) :: unaffected, gone, by simp [hr],
        hseg.kept hclosed hafter hnot hd⟩

end Segments

/-! ## Requests with `allow_partial` -/

def affectedPaths : DeletedObjResult → List Str
  | .operFailure .. => []
  | .operSuccess _ affected _ => affected

def unaffectedPaths : DeletedObjResult → List Str
  | .operFailure .. => []
  | .operSuccess _ _ unaffected => unaffected.map Prod.fst

def isFailure : DeletedObjResult → Bool
  | .operFailure .. => true
  | .operSuccess .. => false

/-- One of the paths is that of the instance, which exists. -/
def Lists (S : DmTree) (a : State) (paths : List Str) (inst : DmInstances) : Prop :=
  (∃ p ∈ paths, Names S p inst) ∧ Present S a inst

/-- The entry tells what became of the objects of its expression. -/
structure EntryExact (S : DmTree) (a' : State) (paths : List Str) (result : DeletedObjResult) :
    Prop where
  affected : ∀ p ∈ affectedPaths result, (∃ q ∈ paths, p = withTrailingDot q) ∧
    ∃ inst, Names S p inst ∧ ¬ Known a' inst
  remaining : ∀ p ∈ paths, ∀ inst, Names S p inst → Known a' inst →
    isFailure result = true ∨ withTrailingDot p ∈ unaffectedPaths result

section Requests

variable (S : DmTree) (P : PermissionTable) (W : World) {N : Type} (R : ValueRules N) (fuel : Nat)
  (role : CombinedRole) (notifies : List (Op Unit))

/-- The objects to which an expression is resolved. -/
def objPaths (path : Str) (a : State) : List Str :=
  match (resolvedPaths S P W (deleteRequest role) R fuel path).result a with
  | some (.ok paths) => paths
  | _ => []

/-- The state behind the resolution of an expression. -/
def resolvedIn (path : Str) (a : State) : State :=
  (resolvedPaths S P W (deleteRequest role) R fuel path).after a

/-- The state behind an expression. -/
def expressionEnd (path : Str) (a : State) : State :=
  (deleteExpressionObjects S P W R fuel role notifies true path).after a

/-- The resolved objects of each expression, with the state behind the resolution. -/
def resolutions : List Str → State → List (List Str × State)
  | [], _ => []
  | path :: paths, a => (objPaths S P W R fuel role path a, resolvedIn S P W R fuel role path a) ::
      resolutions paths (expressionEnd S P W R fuel role notifies path a)

/-- Every turn of every expression meets a condition, which may speak about the
instances that have been listed by then. -/
def EachTurn (C : (DmInstances → Prop) → Str → State → Prop) :
    (DmInstances → Prop) → List Str → State → Prop
  | _, [], _ => True
  | listed, path :: paths, a =>
    let b := resolvedIn S P W R fuel role path a
    let listed' := fun t => listed t ∨ Lists S b (objPaths S P W R fuel role path a) t
    MeetsAlong (C listed') (deleteObject S W notifies) (objPaths S P W R fuel role path a) b ∧
      EachTurn C listed' paths (expressionEnd S P W R fuel role notifies path a)

/-- The affected paths of the response are the resolved instances that are not in
the data model any more, and each of the others has its error. -/
structure ReportsExactly (paths : List Str) (a : State) (results : List DeletedObjResult)
    (a' : State) : Prop where
  entries : List.Forall₂ (fun r => EntryExact S a' r.1)
    (resolutions S P W R fuel role notifies paths a) results
  listed : ∀ r ∈ resolutions S P W R fuel role notifies paths a, ∀ inst, Lists S r.2 r.1 inst →
    ¬ Known a' inst → ∃ result ∈ results, ∃ p ∈ affectedPaths result, Names S p inst

end Requests

section Handler

variable {S : DmTree} {P : PermissionTable} {W : World} {N : Type} {R : ValueRules N} {fuel : Nat}
  {role : CombinedRole} {notifies : List (Op Unit)} {a a' : State}

theorem resolvedPaths_quiet (hS : SchemaOk maxDmInstanceOrder S) {req : Request} (path : Str) :
    Within (Quiet S) (resolvedPaths S P W req R fuel path) := by
  intro a
  have hwithin : Within (AgentQuiet S) (resolveDevicePath S P W req R fuel path) :=
    resolveDevicePath_agentQuiet hS fuel req path
  unfold Keeps Wp resolvedPaths
  cases hrun : resolveDevicePath S P W req R fuel path ⟨a, [], []⟩ with
  | none => trivial
  | some r =>
    obtain ⟨r, s⟩ := r
    have hq : Quiet S a s.agent := hwithin.of_run hrun
    cases r with
    | ok _ => exact hq
    | error e =>
      cases e with
      | code e => exact hq
      | unfinished => trivial

/-- What one expression has done from `a` to `a'`, given the fine turns of its objects. -/
structure ExpressionDone (S : DmTree) (P : PermissionTable) (W : World) (R : ValueRules N)
    (fuel : Nat) (role : CombinedRole) (notifies : List (Op Unit)) (path : Str) (a a' : State)
    (result : DeletedObjResult) (gone : List DmInstances) : Prop where
  quiet : Quiet S a (resolvedIn S P W R fuel role path a)
  segment : ∃ affected unaffected,
    Segment S W notifies (objPaths S P W R fuel role path a) (resolvedIn S P W R fuel role path a)
      a' affected unaffected gone ∧ affectedPaths result = affected ∧
      (isFailure result = true ∨ unaffectedPaths result = unaffected)
  after : expressionEnd S P W R fuel role notifies path a = a'

theorem operResult_lists (path : Str) (done : OperSuccess) :
    affectedPaths (operResult path done) = done.affectedPaths ∧
      (isFailure (operResult path done) = true ∨
        unaffectedPaths (operResult path done) = done.unaffectedPathErrs.map Prod.fst) := by
  obtain ⟨affected, unaffected⟩ := done
  cases affected with
  | nil =>
    cases unaffected with
    | nil => exact ⟨rfl, .inr rfl⟩
    | cons pair unaffected => exact ⟨rfl, .inl rfl⟩
  | cons p affected => exact ⟨rfl, .inr rfl⟩

theorem deleteExpressionObjects_spec (hS : SchemaOk maxDmInstanceOrder S)
    (hnotifies : ∀ notify ∈ notifies, Spares S (fun _ => False) notify)
    (hok : StateOk S a) (hclosed : Closed a)
    (hnone : a.curTransaction = none) (path : Str) :
    Wp True (deleteExpressionObjects S P W R fuel role notifies true path) a
      (fun r a' => MeetsAlong (TransFine S W notifies) (deleteObject S W notifies)
          (objPaths S P W R fuel role path a) (resolvedIn S P W R fuel role path a) →
        ∃ gone, ExpressionDone S P W R fuel role notifies path a a' r.1 gone)
      (fun _ _ => False) := by
  have hspec : Wp True (deleteExpressionObjects S P W R fuel role notifies true path) a
      (fun r a' => MeetsAlong (TransFine S W notifies) (deleteObject S W notifies)
          (objPaths S P W R fuel role path a) (resolvedIn S P W R fuel role path a) →
        ∃ gone, Quiet S a (resolvedIn S P W R fuel role path a) ∧ ∃ affected unaffected,
          Segment S W notifies (objPaths S P W R fuel role path a)
            (resolvedIn S P W R fuel role path a) a' affected unaffected gone ∧
            affectedPaths r.1 = affected ∧
            (isFailure r.1 = true ∨ unaffectedPaths r.1 = unaffected))
      (fun _ _ => False) := by
    rw [deleteExpressionObjects, wp_bind, wp_attempt]
    refine (resolvedPaths_quiet (P := P) (W := W) (R := R) hS path a).and_run.mono
      (fun paths b hb => ?_) fun e b hb => ?_
    · obtain ⟨hquiet, hrun⟩ := hb
      obtain ⟨hresult, rfl⟩ := result_after hrun
      have hpaths : objPaths S P W R fuel role path a = paths := by
        rw [objPaths, hresult]
      simp only [if_true, wp_bind]
      refine (deletePartially_spec hS hnotifies paths _ ⟨[], []⟩ (hquiet.ok hok)
        (hquiet.closed hclosed) (hquiet.log.trans hnone)).mono (fun r a' h => ?_) fun _ _ h => h
      rw [hpaths]
      obtain ⟨done, err⟩ := r
      cases err with
      | some e =>
        intro hfine
        obtain ⟨_, _, _, hr, -⟩ := h hfine
        cases hr
      | none =>
        intro hfine
        obtain ⟨affected, unaffected, gone, hr, hseg⟩ := h hfine
        cases hr
        exact ⟨gone, hquiet, affected, _, hseg, operResult_lists path ⟨affected, unaffected⟩⟩
    · obtain ⟨hquiet, hrun⟩ := hb
      obtain ⟨hresult, rfl⟩ := result_after hrun
      have hpaths : objPaths S P W R fuel role path a = [] := by
        rw [objPaths, hresult]
      intro _
      rw [hpaths]
      exact ⟨[], hquiet, [], [], segment_nil (hquiet.ok hok) (hquiet.closed hclosed)
        (hquiet.log.trans hnone), rfl, .inl rfl⟩
  exact hspec.and_after.mono (fun r a' h hfine => by
    obtain ⟨gone, hquiet, hseg⟩ := h.1 hfine
    exact ⟨gone, hquiet, hseg, h.2.symm⟩) fun _ _ h => h.1

/-- What a request has done from `a` to `a'`, given the fine turns of its objects. -/
structure RequestDone (S : DmTree) (P : PermissionTable) (W : World) (R : ValueRules N)
    (fuel : Nat) (role : CombinedRole) (notifies : List (Op Unit)) (paths : List Str) (a a' : State)
    (results : List DeletedObjResult) (gone : List DmInstances) : Prop where
  entries : List.Forall₂ (fun r => EntryExact S a' r.1)
    (resolutions S P W R fuel role notifies paths a) results
  names : List.Forall₂ (Names S) (results.flatMap affectedPaths) gone
  shrinks : Shrinks S a a'
  allGone : ∀ g ∈ gone, Gone S a' g
  known : ∀ g ∈ gone, SettledAt S a (topNode g) → Known a g
  reached : ∀ r ∈ resolutions S P W R fuel role notifies paths a, Shrinks S a r.2
  alone : ∀ listed : DmInstances → Prop,
    (∀ t, listed t → t ≠ [] ∧ SettledAt S a (topNode t)) →
      (EachTurn S P W R fuel role notifies (GoesAlone S W notifies) listed paths a ↔
        (∀ t, listed t → Known a t → ¬ Known a' t → t ∈ gone) ∧
          ∀ r ∈ resolutions S P W R fuel role notifies paths a, ∀ t, Lists S r.2 r.1 t →
            ¬ Known a' t → t ∈ gone)
  log : a'.curTransaction = none

theorem requestDone_nil (hok : StateOk S a) (hclosed : Closed a) (hnone : a.curTransaction = none) :
    RequestDone S P W R fuel role notifies [] a a [] [] where
  entries := .nil
  names := .nil
  shrinks := Shrinks.refl hok hclosed
  allGone := nofun
  known := nofun
  reached := nofun
  alone _ _ := ⟨fun _ => ⟨fun _ _ hk hnot => absurd hk hnot, nofun⟩, fun _ => trivial⟩
  log := hnone

variable {result : DeletedObjResult}

/-- The entry of an expression, seen from a later state. -/
theorem ExpressionDone.entry {path : Str} {b : State} {gone : List DmInstances}
    (h : ExpressionDone S P W R fuel role notifies path a b result gone) (hlater : Shrinks S b a') :
    EntryExact S a' (objPaths S P W R fuel role path a) result := by
  obtain ⟨affected, unaffected, hseg, haffected, hunaffected⟩ := h.segment
  have hgone : ∀ p ∈ affected, ∃ inst, Names S p inst ∧ ¬ Known a' inst := by
    intro p hp
    obtain ⟨inst, hmem, hname⟩ := related_of_mem hseg.names hp
    exact ⟨inst, hname, ((hseg.allGone inst hmem).shrinks hlater).2.2⟩
  constructor
  · rw [haffected]
    exact fun p hp => ⟨hseg.resolved p hp, hgone p hp⟩
  · intro p hp inst hnames hk
    rcases hseg.turns p hp with hmem | hmem
    · obtain ⟨inst', hnames', hnot⟩ := hgone _ hmem
      rw [hnames'.unique hnames.dotted] at hnot
      exact absurd hk hnot
    · refine hunaffected.imp_right fun h => ?_
      rw [h]
      exact hmem

theorem Lists.ne_nil (hS : SchemaOk maxDmInstanceOrder S) {paths : List Str}
    (h : Lists S a paths t) : t ≠ [] := by
  obtain ⟨⟨p, -, hnames⟩, -⟩ := h
  obtain ⟨node, hinst⟩ := hnames.instance hS
  exact hinst.ne_nil hS

theorem Lists.known (hS : SchemaOk maxDmInstanceOrder S) {paths : List Str}
    (h : Lists S a paths t) : Known a t ∧ SettledAt S a (topNode t) :=
  h.2.resolve_left (h.ne_nil hS)

variable {results : List DeletedObjResult}

theorem RequestDone.cons (hS : SchemaOk maxDmInstanceOrder S) {path : Str} {paths : List Str}
    {b : State} {gone later : List DmInstances} (hok : StateOk S a) (hclosed : Closed a)
    (hexp : ExpressionDone S P W R fuel role notifies path a b result gone)
    (h : RequestDone S P W R fuel role notifies paths b a' results later) :
    RequestDone S P W R fuel role notifies (path :: paths) a a' (result :: results)
      (gone ++ later) := by
  obtain ⟨affected, unaffected, hseg, haffected, -⟩ := hexp.segment
  have hq := hexp.quiet
  have hentry := hexp.entry h.shrinks
  have hend := hexp.after
  generalize hpaths : objPaths S P W R fuel role path a = objs at *
  generalize hc : resolvedIn S P W R fuel role path a = c at *
  have hresolutions : resolutions S P W R fuel role notifies (path :: paths) a =
      (objs, c) :: resolutions S P W R fuel role notifies paths b := by
    rw [resolutions, hpaths, hc, hend]
  have hac : Shrinks S a c := shrinks_quiet hok hclosed hq
  have hab : Shrinks S a b := hac.trans hseg.shrinks
  refine ⟨?_, ?_, ?_, ?_, ?_, ?_, ?_, h.log⟩
  · rw [hresolutions]
    exact .cons hentry h.entries
  · rw [flatMap_cons, haffected]
    exact rel_append hseg.names h.names
  · exact hab.trans h.shrinks
  · intro g hg
    rcases List.mem_append.mp hg with hg | hg
    · exact (hseg.allGone g hg).shrinks h.shrinks
    · exact h.allGone g hg
  · intro g hg hs
    rcases List.mem_append.mp hg with hg | hg
    · exact hac.known (hseg.allGone g hg).1 hs (hseg.known g hg (hac.settled _ hs))
    · exact hab.known (h.allGone g hg).1 hs (h.known g hg (hab.settled _ hs))
  · rw [hresolutions]
    intro r hr
    rcases List.mem_cons.mp hr with rfl | hr
    · exact hac
    · exact hab.trans (h.reached r hr)
  · intro listed hlisted
    have hlistedC : ∀ t, listed t ∨ Lists S c objs t → t ≠ [] ∧ SettledAt S c (topNode t) := by
      rintro t (ht | ht)
      · exact ⟨(hlisted t ht).1, hac.settled _ (hlisted t ht).2⟩
      · exact ⟨ht.ne_nil hS, (ht.known hS).2⟩
    have hlistedB : ∀ t, listed t ∨ Lists S c objs t → t ≠ [] ∧ SettledAt S b (topNode t) :=
      fun t ht => ⟨(hlistedC t ht).1, hseg.shrinks.settled _ (hlistedC t ht).2⟩
    have hknown : ∀ t, listed t → (Known c t ↔ Known a t) := fun t ht =>
      hq.known_iff (hlisted t ht).1 (hlisted t ht).2
    rw [EachTurn]
    rw [hpaths, hc, hend, hseg.alone _ hlistedC, h.alone _ hlistedB, hresolutions]
    constructor
    · rintro ⟨hobjs, hlater, hrest⟩
      have hsplit : ∀ t, listed t ∨ Lists S c objs t → Known c t → ¬ Known a' t →
          t ∈ gone ++ later := by
        intro t ht hk hnot
        by_cases hkb : Known b t
        · exact mem_append_right _ (hlater t ht hkb hnot)
        · exact mem_append_left _ (hobjs t ht hk hkb)
      refine ⟨fun t ht hk => hsplit t (.inl ht) ((hknown t ht).mpr hk), fun r hr t ht hnot => ?_⟩
      rcases List.mem_cons.mp hr with rfl | hr
      · exact hsplit t (.inr ht) (ht.known hS).1 hnot
      · exact mem_append_right _ (hrest r hr t ht hnot)
    · rintro ⟨hold, hnew⟩
      have hall : ∀ t, listed t ∨ Lists S c objs t → Known c t → ¬ Known a' t →
          t ∈ gone ++ later := by
        rintro t (ht | ht) hk hnot
        · exact hold t ht ((hknown t ht).mp hk) hnot
        · exact hnew _ mem_cons_self t ht hnot
      have hgone : ∀ t ∈ gone, ∀ d, Shrinks S b d → ¬ Known d t := fun t ht d hd =>
        ((hseg.allGone t ht).shrinks hd).2.2
      refine ⟨fun t ht hk hnotB => ?_, fun t ht hk hnot => ?_, fun r hr t ht hnot => ?_⟩
      · have hnot : ¬ Known a' t := fun hk' =>
          hnotB (h.shrinks.known (hlistedB t ht).1 (hlistedB t ht).2 hk')
        refine (List.mem_append.mp (hall t ht hk hnot)).resolve_right fun hmem => ?_
        exact hnotB (h.known t hmem (hlistedB t ht).2)
      · have hkc : Known c t := hseg.shrinks.known (hlistedC t ht).1 (hlistedC t ht).2 hk
        refine (List.mem_append.mp (hall t ht hkc hnot)).resolve_left fun hmem => ?_
        exact (hseg.allGone t hmem).2.2 hk
      · refine (List.mem_append.mp (hnew r (mem_cons_of_mem _ hr) t ht hnot)).resolve_left
          fun hmem => ?_
        exact hgone t hmem r.2 (h.reached r hr) (ht.known hS).1

theorem RequestDone.listed_iff {paths : List Str} {gone : List DmInstances}
    (h : RequestDone S P W R fuel role notifies paths a a' results gone) (t : DmInstances) :
    (∃ result ∈ results, ∃ p ∈ affectedPaths result, Names S p t) ↔ t ∈ gone := by
  have hnames := h.names
  constructor
  · rintro ⟨result, hresult, p, hp, hpt⟩
    obtain ⟨t', ht', hpt'⟩ :=
      related_of_mem hnames (List.mem_flatMap.mpr ⟨result, hresult, hp⟩)
    rw [hpt.unique hpt']
    exact ht'
  · intro ht
    obtain ⟨p, hp, hpt⟩ := related_of_mem (r := fun t p => Names S p t) hnames.flip ht
    obtain ⟨result, hresult, hp⟩ := List.mem_flatMap.mp hp
    exact ⟨result, hresult, p, hp, hpt⟩

/-- The response is exact unless a deletion took an instance of another path along. -/
theorem RequestDone.reports_iff {paths : List Str} {gone : List DmInstances}
    (h : RequestDone S P W R fuel role notifies paths a a' results gone) :
    ReportsExactly S P W R fuel role notifies paths a results a' ↔
      EachTurn S P W R fuel role notifies (GoesAlone S W notifies) (fun _ => False) paths a := by
  rw [h.alone _ nofun]
  constructor
  · intro hreports
    refine ⟨nofun, fun r hr t ht hnot => ?_⟩
    exact (h.listed_iff t).mp (hreports.listed r hr t ht hnot)
  · rintro ⟨-, hall⟩
    exact ⟨h.entries, fun r hr t ht hnot => (h.listed_iff t).mpr (hall r hr t ht hnot)⟩

theorem deleteExpressions_spec (hS : SchemaOk maxDmInstanceOrder S)
    (hnotifies : ∀ notify ∈ notifies, Spares S (fun _ => False) notify) (paths : List Str) :
    ∀ (a : State) (results : List DeletedObjResult) (listed : DmInstances → Prop), StateOk S a →
      Closed a → a.curTransaction = none →
      Wp True (deleteExpressions S P W R fuel role notifies true paths results) a
        (fun r a' => EachTurn S P W R fuel role notifies (fun _ => TransFine S W notifies) listed
            paths a →
          ∃ new gone, r.1 = results ++ new ∧
            RequestDone S P W R fuel role notifies paths a a' new gone)
        (fun _ _ => True) := by
  induction paths with
  | nil =>
    intro a results listed hok hclosed hnone
    exact fun _ => ⟨[], [], by simp, requestDone_nil hok hclosed hnone⟩
  | cons path paths ih =>
    intro a results listed hok hclosed hnone
    by_cases hfine : MeetsAlong (TransFine S W notifies) (deleteObject S W notifies)
        (objPaths S P W R fuel role path a) (resolvedIn S P W R fuel role path a)
    swap
    · exact (wp_true _ _).mono (fun _ _ _ h => absurd h.1 hfine) fun _ _ h => h
    rw [deleteExpressions, wp_bind]
    refine (deleteExpressionObjects_spec hS hnotifies hok hclosed hnone path).mono
      (fun r b h => ?_) fun _ _ _ => trivial
    obtain ⟨gone, hexp⟩ := h hfine
    obtain ⟨affected, unaffected, hseg, -⟩ := hexp.segment
    obtain ⟨result, err⟩ := r
    have hloop := ih b (results ++ [result])
      (fun t => listed t ∨ Lists S (resolvedIn S P W R fuel role path a)
        (objPaths S P W R fuel role path a) t) hseg.shrinks.ok hseg.shrinks.closed hseg.log
    have hnext : Wp True (deleteExpressions S P W R fuel role notifies true paths
        (results ++ [result])) b
        (fun r a' => EachTurn S P W R fuel role notifies (fun _ => TransFine S W notifies) listed
            (path :: paths) a →
          ∃ new gone, r.1 = results ++ new ∧
            RequestDone S P W R fuel role notifies (path :: paths) a a' new gone)
        (fun _ _ => True) := by
      refine hloop.mono (fun r a' h hall => ?_) fun _ _ h => h
      obtain ⟨new, later, hr, hdone⟩ := h (hexp.after ▸ hall.2)
      exact ⟨result :: new, gone ++ later, by simp [hr], hdone.cons hS hok hclosed hexp⟩
    cases err with
    | none => exact hnext
    | some e => exact hnext

theorem handleDelete_partially (hS : SchemaOk maxDmInstanceOrder S)
    (hnotifies : ∀ notify ∈ notifies, Spares S (fun _ => False) notify)
    (hok : StateOk S a) (hclosed : Closed a)
    (hnone : a.curTransaction = none) (paths : List Str) (listed : DmInstances → Prop) :
    Wp True (handleDelete S P W R fuel role notifies true paths) a
      (fun r a' => ∃ results, r = .deleteResp results ∧
        (EachTurn S P W R fuel role notifies (fun _ => TransFine S W notifies) listed paths a →
          ∃ gone, RequestDone S P W R fuel role notifies paths a a' results gone))
      (fun _ _ => True) := by
  rw [handleDelete]
  split
  · rename_i hempty
    subst hempty
    exact ⟨[], rfl, fun _ => ⟨[], requestDone_nil hok hclosed hnone⟩⟩
  · rw [if_pos rfl, wp_bind]
    refine (deleteExpressions_spec hS hnotifies paths a [] listed hok hclosed hnone).mono
      (fun r a' h => ?_) fun _ _ h => h
    refine ⟨r.1, rfl, fun hfine => ?_⟩
    obtain ⟨new, gone, hr, hdone⟩ := h hfine
    rw [hr]
    exact ⟨gone, hdone⟩

end Handler

/-- Where no start and no commit goes wrong, the affected paths are the resolved
instances that have gone exactly when no deletion took a listed instance along. -/
theorem response_exact_iff (rs : List Registration) (hrs : ∀ r ∈ rs, WithinArrays r)
    (P : PermissionTable) (W : World) {N : Type} (R : ValueRules N) (fuel : Nat)
    (role : CombinedRole) (notifies : List (Op Unit))
    (hnotifies : ∀ notify ∈ notifies, Spares (registerAll initialTree rs) (fun _ => False) notify)
    (paths : List Str) (a a' : State) (results : List DeletedObjResult)
    (hok : StateOk (registerAll initialTree rs) a) (hclosed : Closed a)
    (hnone : a.curTransaction = none)
    (hrun : handleDelete (registerAll initialTree rs) P W R fuel role notifies true paths a =
      some (.ok (.deleteResp results), a'))
    (hfine : EachTurn (registerAll initialTree rs) P W R fuel role notifies
      (fun _ => TransFine (registerAll initialTree rs) W notifies) (fun _ => False) paths a) :
    ReportsExactly (registerAll initialTree rs) P W R fuel role notifies paths a results a' ↔
      EachTurn (registerAll initialTree rs) P W R fuel role notifies
        (GoesAlone (registerAll initialTree rs) W notifies) (fun _ => False) paths a := by
  have hS := registered_ok hrs
  have hspec := (handleDelete_partially hS hnotifies hok hclosed hnone paths fun _ => False).of_run
    hrun
  obtain ⟨results', hr, hdone⟩ := hspec.1 _ rfl
  cases hr
  obtain ⟨gone, hdone⟩ := hdone hfine
  exact hdone.reports_iff

/-- The role 0 may do everything. -/
def masters : PermissionTable := fun _ role _ => role = 0

/-- A Delete request for `Device.A.1.` with nothing to notify. -/
def deleteFirst (W : World) : Op DeleteAnswer :=
  handleDelete (registerAll initialTree nestedTables) masters W wholeNumbers 1 ⟨0, 1⟩ [] true
    ["Device.A.1.".toList]

def firstDeleted : List DeletedObjResult :=
  [.operSuccess "Device.A.1.".toList ["Device.A.1.".toList] []]

theorem response_exact_nested :
    ReportsExactly (registerAll initialTree nestedTables) masters readyWorld wholeNumbers 1 ⟨0, 1⟩ []
        ["Device.A.1.".toList] nestedInstances firstDeleted
        ((deleteFirst readyWorld).after nestedInstances) ↔
      EachTurn (registerAll initialTree nestedTables) masters readyWorld wholeNumbers 1 ⟨0, 1⟩ []
        (GoesAlone (registerAll initialTree nestedTables) readyWorld []) (fun _ => False)
        ["Device.A.1.".toList] nestedInstances := by
  refine response_exact_iff nestedTables nestedTables_within masters readyWorld wholeNumbers 1
    ⟨0, 1⟩ [] nofun ["Device.A.1.".toList] nestedInstances _ firstDeleted nestedInstances_ok
    nestedInstances_closed rfl (Prog.run_eq (by decide +kernel)) ?_
  have hpaths : objPaths (registerAll initialTree nestedTables) masters readyWorld wholeNumbers 1
      ⟨0, 1⟩ "Device.A.1.".toList nestedInstances = ["Device.A.1".toList] := by decide +kernel
  refine ⟨?_, trivial⟩
  rw [hpaths]
  exact ⟨⟨by decide +kernel, fun _ => by decide +kernel⟩, trivial⟩

/-- The deletion of an object whose commit fails is reported. -/
theorem uncommitted_deletion_reported :
    let S := registerAll initialTree nestedTables
    let W := { readyWorld with commitFails := fun _ => true }
    let a' := (deleteFirst W).after nestedInstances
    deleteFirst W nestedInstances = some (.ok (.deleteResp firstDeleted), a') ∧
      ¬ ReportsExactly S masters W wholeNumbers 1 ⟨0, 1⟩ [] ["Device.A.1.".toList] nestedInstances
        firstDeleted a' := by
  intro S W a'
  refine ⟨Prog.run_eq (by decide +kernel), fun h => ?_⟩
  cases h.entries with
  | cons hentry _ =>
    obtain ⟨-, inst, ⟨node, hget, -⟩, hnot⟩ := hentry.affected "Device.A.1.".toList
      mem_cons_self
    have hpath : getQualifiedNode S "Device.A.1.".toList = some (2, [(2, 1)], true) := by
      decide +kernel
    rw [hpath] at hget
    cases hget
    exact hnot ⟨[(2, 1)], by show [(2, 1)] ∈ _; decide +kernel, prefix_rfl⟩

end DeleteRequests
