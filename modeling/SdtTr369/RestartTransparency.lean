import SdtTr369.BootInstances
import SdtTr369.DeleteCompleteness

/-!
# Restarts

The database keeps rows of parameters and the memory keeps tuples of instances.
`Mirrored` says that the two are in step, and every operation in a transaction of
its own keeps them so. `SK_TR369_SetDBParam` writes a row beside the memory, and
a boot does not bring back an instance that has no row; where neither happens,
a restart gives the instances that the memory had (`runs_transparent`).
-/

namespace RestartTransparency

open UspTypes Schema SchemaInvariant PathCodec PathRoundTrip DecimalText EffectProgram Agent List
open DmTrans DataModel UndoLog InstanceTree HeldInstances Deletion DeleteCompleteness
open Addition AbortedTransaction CommittedTransaction BootInstances

/-- The tuple `t` gives the instances of the stored parameter `q`. -/
structure StoredAt (S : DmTree) (q : NodeId) (t : DmInstances) : Prop where
  lt : q < S.nodes.length
  stored : isStoredParam (S.node q).type = true
  nodes : t.map Prod.fst = (S.node q).instanceNodes

/-- An instance in memory with a stored parameter, of its own or of an instance below. -/
def DbBacked (S : DmTree) (a : State) (t : DmInstances) : Prop :=
  ∃ t' q, Known a t' ∧ StoredAt S q t' ∧ t <+: t'

/-- A boot from the rows of `a` finds the instances that `a` has in memory. -/
def Transparent (S : DmTree) (W : World) (a : State) : Prop :=
  ∀ removeUnknownParams t, t ≠ [] →
    (Known (bootState S W a.db.rows removeUnknownParams) t ↔ DbBacked S a t)

/-- The rows and the instances in memory are in step. -/
structure Mirrored (S : DmTree) (a : State) : Prop where
  ok : StateOk S a
  closed : Closed a
  registered : ∀ key t, HasRow a key → rowInst S key = some t → t ≠ [] →
    Held a t ∧ ∃ q, StoredAt S q t ∧ key = rowKey S q t
  stored : ∀ q t, Held a t → StoredAt S q t → HasRow a (rowKey S q t)
  numbers : ∀ t, Held a t → ∀ n ∈ instances t, 0 ≤ n ∧ n < signedLimit

/-- No transaction is open, for the agent and for SQLite. -/
structure Idle (a : State) : Prop where
  log : a.curTransaction = none
  saved : a.db.saved = none

/-- No table is numbered by a vendor hook or refreshed by a vendor callback. -/
def AgentDecides (S : DmTree) : Prop :=
  ∀ node, (S.node node).registered.refreshInstances = false ∧
    (S.node node).registered.groupId = none

variable {path : Str} {node : NodeId} {inst : DmInstances}

section Rows

variable {limit : Nat} {S : DmTree} {W : World} {a a' : State}

theorem Mirrored.congr (h : Mirrored S a) (hheld : ∀ t, Held a' t ↔ Held a t)
    (hrows : ∀ key, HasRow a' key ↔ HasRow a key) (hok : StateOk S a') : Mirrored S a' where
  ok := hok
  closed := h.closed.congr hheld
  registered key t hk hfits hne := by
    rw [hheld]
    exact h.registered key t ((hrows key).mp hk) hfits hne
  stored q t ht hq := (hrows _).mpr (h.stored q t ((hheld t).mp ht) hq)
  numbers t ht := h.numbers t ((hheld t).mp ht)

theorem hasRow_iff {key : Key} : HasRow a key ↔ ∃ row ∈ a.db.rows, row.1 = key := mem_map

/-- The key of a parameter leads back to its instance. -/
theorem rowInst_rowKey (hS : SchemaOk limit S) {q : NodeId} {t : DmInstances}
    (h : StoredAt S q t) (hnum : ∀ n ∈ instances t, 0 ≤ n ∧ n < signedLimit) :
    rowInst S (rowKey S q t) = some t := by
  have hfind := (findNodeFromHash_some hS).mpr ⟨h.lt, rfl⟩
  have hparse := parseInstanceString_form fun n hn => (hnum n hn).2
  rw [if_pos fun n hn => (hnum n hn).1] at hparse
  have hlen : (instances t).length = (S.node q).order := by
    rw [hS.order_eq q h.lt, ← h.nodes, instances, length_map, length_map]
  simp only [rowInst, rowKey, hfind, hparse]
  rw [if_neg (not_not_intro hlen), zipNodes_instances h.nodes]

/-- The key of a path leads to the instances of the path, if it leads anywhere. -/
theorem rowInst_path (hS : SchemaOk limit S) {t : DmInstances}
    (hget : getNodeFromPath S path = some (node, inst))
    (h : rowInst S (rowKey S node inst) = some t) :
    t = inst ∧ node < S.nodes.length ∧ inst.map Prod.fst = (S.node node).instanceNodes := by
  obtain ⟨hash, -, hfind, hzip⟩ := getNodeFromPath_some hget
  have hlt := findPathNode_lt hS hfind
  have hnode := (findNodeFromHash_some hS).mpr ⟨hlt, rfl⟩
  have hparse := parseInstanceString_form (getNodeFromPath_lt hget)
  simp only [rowInst, rowKey, hnode, hparse] at h
  split at h
  · rename_i numbers hnumbers
    cases h
  · rename_i numbers hnumbers
    obtain ⟨-, hsome⟩ := Option.ite_none_right_eq_some.mp hnumbers
    cases hsome
    rw [Option.ite_none_left_eq_some] at h
    obtain ⟨hlen, hinst⟩ := h
    rw [← hzip] at hinst
    cases hinst
    refine ⟨rfl, hlt, ?_⟩
    rw [hzip, zipNodes_fst, take_of_length_le]
    · rw [Decidable.not_not.mp hlen, hS.order_eq node hlt]
    · rw [Decidable.not_not.mp hlen, hS.order_eq node hlt]

/-- Where the rows are in step, a boot finds what the memory has. -/
theorem Mirrored.transparent (hS : SchemaOk limit S) (h : Mirrored S a) : Transparent S W a := by
  intro removeUnknownParams t hne
  obtain ⟨-, -, hboot⟩ := bootState_spec (W := W) hS a.db.rows removeUnknownParams
  constructor
  · rintro ⟨t', ht', hpre⟩
    obtain ⟨row, hrow, hfits, hne'⟩ := (hboot t').mp ht'
    obtain ⟨hheld, q, hq, -⟩ := h.registered row.1 t' (hasRow_iff.mpr ⟨row, hrow, rfl⟩) hfits hne'
    exact ⟨t', q, hheld.known, hq, hpre⟩
  · rintro ⟨t', q, hknown, hq, hpre⟩
    have hne' : t' ≠ [] := fun hnil => hne (List.prefix_nil.mp (hnil ▸ hpre))
    have hheld := h.closed.held_of_known hknown hne'
    obtain ⟨row, hrow, hkey⟩ := hasRow_iff.mp (h.stored q t' hheld hq)
    refine ⟨t', (hboot t').mpr ⟨row, hrow, ?_, hne'⟩, hpre⟩
    rw [hkey]
    exact rowInst_rowKey hS hq (h.numbers t' hheld)

theorem AgentDecides.owned (h : AgentDecides S) (a : State) (top : NodeId) :
    AgentOwned S a top where
  settled hr := absurd hr (by simp [(h top).1])
  ungrouped node _ _ := (h node).2

theorem AgentDecides.held_iff (h : AgentDecides S) (hq : Quiet S a a') (t : DmInstances) :
    Held a' t ↔ Held a t := hq.held_iff (h.owned a _).settled

theorem Mirrored.quiet (h : Mirrored S a) (hd : AgentDecides S) (hq : Quiet S a a') :
    Mirrored S a' :=
  h.congr (hd.held_iff hq) (fun key => by rw [HasRow, HasRow, hq.db]) (hq.ok h.ok)

end Rows

/-! ## Operations in a transaction of their own -/

/-- An operation as its callers make it: an error of the start or of the operation
aborts the transaction. -/
def transaction (S : DmTree) (W : World) (m : Op Unit) : Op Unit := do
  match ← .attempt (transStart S W) with
  | .error e => do
    .ignore (transAbort S W)
    .fail e
  | .ok _ =>
    match ← .attempt m with
    | .error e => do
      .ignore (transAbort S W)
      .fail e
    | .ok _ => transCommit S W []

/-- What an operation leaves of a transaction that began in `a`. -/
structure Undoable (S : DmTree) (a a' : State) : Prop where
  accounted : Accounted S a a'
  agrees : ∀ t, LastEntryAgrees (Held a) (changes S (logOf a')) t

section Transactions

variable {S : DmTree} {W : World} {a b c : State}

theorem lastEntryAgrees_nil {V : Collection (NodeId × Int)} (t : DmInstances) :
    LastEntryAgrees V [] t := by
  intro c hc
  cases hc

theorem agrees_of_empty (h : changes S (logOf b) = []) (t : DmInstances) :
    LastEntryAgrees (Held a) (changes S (logOf b)) t := h ▸ lastEntryAgrees_nil t

/-- An abort gives back the instances and the rows. -/
theorem undoable_abort (hd : AgentDecides S) (h : Mirrored S a) (hb : Started a b) (hc : Undoable S b c)
    {a' : State} (ha : Aborted S c a' (logOf c)) : Mirrored S a' ∧ Idle a' := by
  obtain ⟨hiff, hdb⟩ := aborted_restores_iff hb hc.accounted ha
  have hrestored : InstancesRestored S a a' := by
    refine hiff.mpr fun t _ e he => ?_
    rw [hc.agrees t e he, hb.held]
  refine ⟨h.congr (fun t => hrestored t (hd.owned a _)) (fun key => ?_) ha.ok, ha.log, ?_⟩
  · rw [HasRow, HasRow, hdb]
  · rw [hdb]

theorem Undoable.log (hb : Started a b) (hc : Undoable S b c) :
    c.curTransaction = some (logOf c) := by
  obtain ⟨dts, hlog, -⟩ := hc.accounted.log
  rw [hb.log] at hlog
  rw [logOf, hlog]
  rfl

theorem transaction_ok (hS : SchemaOk maxDmInstanceOrder S) (hd : AgentDecides S)
    (h : Mirrored S a) (hi : Idle a) {m : Op Unit}
    (hm : ∀ b, Started a b → Wp True m b (fun _ c => Undoable S b c ∧ Mirrored S c)
      (fun _ c => Undoable S b c)) :
    Keeps True (transaction S W m) a fun a' => Mirrored S a' ∧ Idle a' := by
  rw [transaction, Keeps, wp_bind, wp_attempt]
  refine (transStart_spec hS h.ok hi.log).mono (fun _ b hb => ?_) fun _ b hb => ?_
  · simp only [wp_bind, wp_attempt]
    refine (hm b hb).mono (fun _ c hc => ?_) fun _ c hc => ?_
    · obtain ⟨hc, hmirror⟩ := hc
      refine (transCommit_spec hS hc.accounted.ok (hc.log hb)).mono (fun _ d hd' => ?_)
        fun _ d hd' => undoable_abort hd h hb hc hd'.1
      refine ⟨hmirror.congr hd'.held (fun key => ?_) hd'.ok, hd'.log, hd'.saved⟩
      rw [HasRow, HasRow, hd'.rows]
    · rw [wp_ignore]
      exact keeps_mono (transAbort_spec hS hc.accounted.ok (hc.log hb)) fun d hd' =>
        undoable_abort hd h hb hc hd'
  · -- a start that failed leaves at most an empty transaction
    rw [wp_bind, wp_ignore]
    have hsaved : b.db.saved = none := by
      rcases hb.saved with hsaved | hsaved
      · rw [hsaved, hi.saved]
      · exact hsaved
    have hmirror : ∀ d, (∀ t, Held d t ↔ Held b t) → d.db = b.db → StateOk S d → Mirrored S d := by
      intro d hheld hdb hok
      refine h.congr (fun t => (hheld t).trans (hb.held t)) (fun key => ?_) hok
      rw [HasRow, HasRow, hdb, hb.rows]
    cases hcur : b.curTransaction with
    | none =>
      simp only [transAbort, wp_bind, wp_read, hcur, wp_pure, wp_fail]
      exact ⟨hmirror b (fun _ => Iff.rfl) rfl hb.ok, hcur, hsaved⟩
    | some log =>
      have hempty : log = [] := by
        have hlog := hb.log
        rwa [logOf, hcur] at hlog
      subst hempty
      have hdone : ∀ d, Aborted S b d [] → Mirrored S d ∧ Idle d := by
        intro d hd'
        have hdb : d.db = b.db := by rw [hd'.db, Database.rollback, hsaved]
        exact ⟨hmirror d hd'.held hdb hd'.ok, hd'.log, by rw [hdb, hsaved]⟩
      exact keeps_mono (transAbort_spec hS hb.ok hcur) hdone

/-! ### The operations -/

/-- The number of a new instance is that of an `int`: the path gives no number that is
negative as one, and a number that the agent chooses comes behind a smaller one. -/
def NumberFits (S : DmTree) (a : State) (path : Str) : Prop :=
  ∀ node inst isQualified,
    getQualifiedNode S (stripTrailingDot path) = some (node, inst, isQualified) →
      (∀ n ∈ instances inst, 0 ≤ n) ∧ ¬ Held a (inst ++ [(node, (signedLimit : Int) - 1)])

theorem getQualifiedNode_lt {isQualified : Bool}
    (h : getQualifiedNode S path = some (node, inst, isQualified)) :
    ∀ n ∈ instances inst, n < signedLimit := by
  unfold getQualifiedNode at h
  split at h
  · cases h
  · rename_i node' inst' hget
    have hlt := getNodeFromPath_lt hget
    split at h
    · cases h
      exact hlt
    split at h
    · cases h
    split at h
    · cases h
      exact hlt
    · cases h

/-- The numbers that an addition registers. -/
theorem addsTo_numbers (hd : AgentDecides S) (h : Mirrored S a) {wantInstance : Bool}
    {parent : DmInstances} {n : Int} (hadds : AddsTo S a b path wantInstance node parent n)
    (hfits : NumberFits S a path) :
    ∀ k ∈ instances (parent ++ [(node, n)]), 0 ≤ k ∧ k < signedLimit := by
  cases wantInstance with
  | false =>
    have hget := hadds.qualified rfl (hd node).2
    exact fun k hk => ⟨(hfits _ _ _ hget).1 k hk, getQualifiedNode_lt hget k hk⟩
  | true =>
    have hget := hadds.unqualified (.inl rfl)
    obtain ⟨hpos, hlast⟩ := hfits _ _ _ hget
    obtain ⟨hone, -, hnext⟩ := hadds.next rfl (hd node).2
    have hlt : n < signedLimit := by
      rcases hnext with rfl | hheld
      · decide
      · have hmem : n - 1 ∈ instances (parent ++ [(node, n - 1)]) := by simp [instances]
        have hbound := (h.numbers _ hheld _ hmem).2
        have hne : n - 1 ≠ (signedLimit : Int) - 1 := fun heq => hlast (heq ▸ hheld)
        omega
    intro k hk
    rw [instances, map_append, mem_append] at hk
    rcases hk with hk | hk
    · exact ⟨hpos k hk, getQualifiedNode_lt hget k hk⟩
    · rw [map_singleton, mem_singleton] at hk
      rw [hk]
      exact ⟨by omega, hlt⟩

variable {p : DmInstances}

/-- The rows of a new instance are those of its own parameters. -/
theorem ownRow_iff (hS : SchemaOk maxDmInstanceOrder S) (hp : IsInstance S node p) (key : Key) :
    OwnRow S node p key ↔ ∃ q, StoredAt S q p ∧ key = rowKey S q p := by
  rw [OwnRow, rowBelow_instance hS (fun _ _ h => h.elim) hp]
  constructor
  · rintro ⟨m, t, hparam, hstored, rfl | h⟩
    · exact ⟨m, ⟨hparam.lt, hstored, hparam.nodes⟩, hparam.key_eq⟩
    · exact h.elim
  · rintro ⟨q, hq, rfl⟩
    exact ⟨q, p, ⟨hq.lt, isParam_of_isStoredParam hq.stored, hq.nodes, prefix_rfl, rfl⟩,
      hq.stored, .inl rfl⟩

theorem storedAt_unique (hS : SchemaOk maxDmInstanceOrder S) {q q' : NodeId} {t t' : DmInstances}
    (h : StoredAt S q t) (h' : StoredAt S q' t') (hkey : rowKey S q t = rowKey S q' t') :
    q = q' ∧ t = t' := rowKey_inj hS h.lt h'.lt h.nodes h'.nodes hkey

theorem grown_mirrored (hS : SchemaOk maxDmInstanceOrder S) (h : Mirrored S a)
    (hp : IsInstance S node p) (hg : Grown S a b node p) (hclosed : Closed b)
    (hnum : ∀ n ∈ instances p, 0 ≤ n ∧ n < signedLimit) : Mirrored S b where
  ok := hg.ok
  closed := hclosed
  registered key t hk hfits hne := by
    rcases (hg.rows key).mp hk with hk | hk
    · obtain ⟨hheld, hq⟩ := h.registered key t hk hfits hne
      exact ⟨(hg.held t).mpr (.inl hheld), hq⟩
    · obtain ⟨q, hq, rfl⟩ := (ownRow_iff hS hp key).mp hk
      rw [rowInst_rowKey hS hq hnum, Option.some.injEq] at hfits
      subst hfits
      exact ⟨(hg.held p).mpr (.inr rfl), q, hq, rfl⟩
  stored q t ht hq := by
    refine (hg.rows _).mpr ?_
    rcases (hg.held t).mp ht with ht | rfl
    · exact .inl (h.stored q t ht hq)
    · exact .inr ((ownRow_iff hS hp _).mpr ⟨q, hq, rfl⟩)
  numbers t ht := by
    rcases (hg.held t).mp ht with ht | rfl
    · exact h.numbers t ht
    · exact hnum

/-- The rows after a deletion are those of the instances that are left. -/
theorem removes_mirrored (hS : SchemaOk maxDmInstanceOrder S) (hd : AgentDecides S)
    (h : Mirrored S a) (hinst : IsInstance S node inst) (hr : RemovesInstance S a b node inst) :
    Mirrored S b := by
  obtain ⟨ts, ks, dts, hp, -, hts, hks⟩ := hr
  have hheld : ∀ t, Held b t ↔ Held a t ∧ t ∉ ts := fun t => hp.held t (hd.owned a _).settled
  have hrows : ∀ key, HasRow b key ↔ HasRow a key ∧ key ∉ ks := by
    intro key
    rw [hasRow_iff, hasRow_iff, hp.rows]
    constructor
    · rintro ⟨row, hrow, rfl⟩
      obtain ⟨hmem, hnot⟩ := List.mem_filter.mp hrow
      exact ⟨⟨row, hmem, rfl⟩, by simpa using hnot⟩
    · rintro ⟨⟨row, hmem, rfl⟩, hnot⟩
      exact ⟨row, List.mem_filter.mpr ⟨hmem, by simpa using hnot⟩, rfl⟩
  have hbelow := rowBelow_instance hS (fun _ _ (h : Known a _) hpre _ => h.of_isPrefix hpre) hinst
  have htuple : ∀ t, Held a t → (t ∈ ts ↔ inst <+: t) := by
    intro t ht
    rw [hts]
    constructor
    · rintro (rfl | h)
      · exact prefix_rfl
      · obtain ⟨c, n, r, -, rfl⟩ := h.grows
        exact prefix_append ..
    · intro hpre
      by_cases heq : t = inst
      · exact .inl heq
      · obtain ⟨q, hq⟩ := h.ok.instance ht
        exact .inr (tupleBelow_of_isPrefix hS hinst (fun _ _ h hpre _ => h.of_isPrefix hpre) hq hpre
          heq ht.known)
  have hkey : ∀ q t, Held a t → StoredAt S q t → (rowKey S q t ∈ ks ↔ inst <+: t) := by
    intro q t ht hq
    rw [hks, hbelow]
    constructor
    · rintro ⟨m, t', hparam, hstored, -⟩
      obtain ⟨-, rfl⟩ := storedAt_unique hS hq ⟨hparam.lt, hstored, hparam.nodes⟩ hparam.key_eq
      exact hparam.below
    · intro hpre
      exact ⟨q, t, ⟨hq.lt, isParam_of_isStoredParam hq.stored, hq.nodes, hpre, rfl⟩, hq.stored,
        .inr ht.known⟩
  refine ⟨hp.ok, hp.closed h.closed, fun key t hk hfits hne => ?_, fun q t ht hq => ?_,
    fun t ht => h.numbers t ((hheld t).mp ht).1⟩
  · obtain ⟨hk, hnot⟩ := (hrows key).mp hk
    obtain ⟨ht, q, hq, rfl⟩ := h.registered key t hk hfits hne
    refine ⟨(hheld t).mpr ⟨ht, ?_⟩, q, hq, rfl⟩
    rw [htuple t ht, ← hkey q t ht hq]
    exact hnot
  · obtain ⟨ht, hnot⟩ := (hheld t).mp ht
    refine (hrows _).mpr ⟨h.stored q t ht hq, ?_⟩
    rw [hkey q t ht hq, ← htuple t ht]
    exact hnot

/-- An entry for an instance that was not there agrees with the start. -/
theorem agrees_of_insert (hclosed : Closed b) (hnot : ¬ Held b p) (hne : p ≠ [])
    (hlog : changes S (logOf c) = [.insert p]) (t : DmInstances) :
    LastEntryAgrees (Held b) (changes S (logOf c)) t := by
  intro e he
  rw [hlog] at he
  obtain ⟨hmem, htouch⟩ := List.mem_filter.mp (mem_of_getLast? he)
  rw [List.mem_singleton.mp hmem] at htouch ⊢
  refine ⟨by simp [Change.isRemove], fun ht => ?_⟩
  exact absurd (hclosed p t ht (touches_insert.mp htouch) hne) hnot

theorem addInstance_ok (hS : SchemaOk maxDmInstanceOrder S) (hd : AgentDecides S)
    (h : Mirrored S b) (hlog : b.curTransaction = some []) (hfits : NumberFits S b path)
    (wantInstance : Bool) (flags : AddFlags) :
    Wp True (addInstance S W path wantInstance flags) b
      (fun _ c => Undoable S b c ∧ Mirrored S c) (fun _ c => Undoable S b c) := by
  have hopen : b.curTransaction = none → True := fun _ => trivial
  refine ((addInstance_spec hS h.ok hopen path wantInstance flags).and
    (addInstance_accounted hS h.ok h.closed hopen path wantInstance flags)).mono
    (fun _ c hc => ?_) fun _ c hc => ?_
  · obtain ⟨⟨-, hquiet⟩ | ⟨node, parent, n, d, -, hadds, hg⟩, hacc⟩ := hc
    · refine ⟨⟨hacc, agrees_of_empty ?_⟩, h.quiet hd hquiet⟩
      rw [logOf, hquiet.log, hlog]
      rfl
    · have hp := hadds.table.instance n
      have hnot : ¬ Held b (parent ++ [(node, n)]) := fun hheld =>
        addsTo_not_known h.closed hadds (hd.owned b _)
          ((hd.held_iff hadds.quiet _).mpr hheld).known
      refine ⟨⟨hacc, agrees_of_insert h.closed hnot (by simp) ?_⟩,
        grown_mirrored hS (h.quiet hd hadds.quiet) hp hg hacc.closed (addsTo_numbers hd h hadds hfits)⟩
      obtain ⟨dt, hop, hentry, hgrown⟩ := hg.log
      rw [logOf, hgrown, hadds.quiet.log, hlog]
      show changes S [dt] = _
      rw [changes_cons_add hop, hentry]
      rfl
  · obtain ⟨hquiet | ⟨node, parent, n, d, hadds, hu⟩, hacc⟩ := hc
    · refine ⟨hacc, agrees_of_empty ?_⟩
      rw [logOf, hquiet.log, hlog]
      rfl
    · refine ⟨hacc, agrees_of_empty ?_⟩
      rw [logOf, hu.log, hadds.quiet.log, hlog]
      rfl

/-- The log of a deletion has only instances that were there. -/
theorem agrees_of_removes (hd : AgentDecides S) (hclosed : Closed b)
    (hlog : b.curTransaction = some []) (hr : RemovesSome S b c) (t : DmInstances) :
    LastEntryAgrees (Held b) (changes S (logOf c)) t := by
  obtain ⟨ts, ks, dts, hp, hlogged⟩ := hr
  have hlogOf : logOf c = dts := by
    rw [logOf, hp.log, hlog]
    rfl
  rw [hlogOf]
  refine lastEntryAgrees_of_removes (fun e he => ?_) t
  obtain ⟨dt, hdt, hchange⟩ := List.mem_filterMap.mp he
  rw [changeOf, hp.dels dt hdt, Option.some.injEq] at hchange
  refine ⟨_, hchange.symm, hclosed.held_of_known ?_ (hlogged.ne_nil dt hdt)⟩
  exact hlogged.known dt hdt (hd.owned b _).settled

theorem deleteInstance_ok (hS : SchemaOk maxDmInstanceOrder S) (hd : AgentDecides S)
    (h : Mirrored S b) (hlog : b.curTransaction = some []) (path : Str) (flags : DelFlags) :
    Wp True (deleteInstance S W path flags) b
      (fun _ c => Undoable S b c ∧ Mirrored S c) (fun _ c => Undoable S b c) := by
  have hopen : b.curTransaction = none → True := fun _ => trivial
  refine ((deleteInstance_spec hS h.ok hopen path flags).and
    (deleteInstance_accounted hS h.ok h.closed hopen path flags)).mono
    (fun _ c hc => ?_) fun _ c hc => ⟨hc.2, agrees_of_removes hd h.closed hlog hc.1⟩
  obtain ⟨hquiet | ⟨node, inst, d, hinst, hquiet, -, hr⟩, hacc⟩ := hc
  · refine ⟨⟨hacc, agrees_of_empty ?_⟩, h.quiet hd hquiet⟩
    rw [logOf, hquiet.log, hlog]
    rfl
  · obtain ⟨ts, ks, dts, hp, hlogged, -⟩ := id hr
    have hsome := (purged_quiet h.ok hquiet).then_some logged_nil ⟨ts, ks, dts, hp, hlogged⟩
    exact ⟨⟨hacc, agrees_of_removes hd h.closed hlog hsome⟩,
      removes_mirrored hS hd (h.quiet hd hquiet) hinst hr⟩

/-- Rows at an instance that is held keep the rows in step. -/
theorem stored_mirrored {R : Key → Prop} (h : Mirrored S b) (hs : Stored S b c R)
    (hR : ∀ key t, R key → rowInst S key = some t → t ≠ [] →
      Held b t ∧ ∃ q, StoredAt S q t ∧ key = rowKey S q t) : Mirrored S c where
  ok := hs.ok h.ok
  closed := h.closed.congr hs.held
  registered key t hk hfits hne := by
    rw [hs.held]
    rcases (hs.rows key).mp hk with hk | hk
    · exact h.registered key t hk hfits hne
    · exact hR key t hk hfits hne
  stored q t ht hq := (hs.rows _).mpr (.inl (h.stored q t ((hs.held t).mp ht) hq))
  numbers t ht := h.numbers t ((hs.held t).mp ht)

theorem appendEntry_mirrored {dt : DmTrans} (h : Mirrored S c)
    (hok : StateOk S (appendEntry dt c)) : Mirrored S (appendEntry dt c) :=
  h.congr (fun _ => Iff.rfl) (fun _ => Iff.rfl) hok

theorem setParameterValue_ok (hS : SchemaOk maxDmInstanceOrder S) (hd : AgentDecides S)
    (h : Mirrored S b) (hlog : b.curTransaction = some []) (path newValue : Str)
    (checkWritable : Bool) :
    Wp True (setParameterValue S W path newValue checkWritable) b
      (fun _ c => Undoable S b c ∧ Mirrored S c) (fun _ c => Undoable S b c) := by
  refine ((setParameterValue_spec hS h.ok h.closed path newValue checkWritable).and
    (setParameterValue_accounted hS h.ok h.closed path newValue checkWritable)).mono
    (fun _ c hc => ?_) fun _ c hc => ?_
  · obtain ⟨⟨node, inst, d, hget, hquiet, hset⟩, hacc⟩ := hc
    obtain ⟨e, ⟨R, hs, hR⟩, hlast⟩ := hset.stored
    have hmirror : Mirrored S e := by
      refine stored_mirrored (h.quiet hd hquiet) hs fun key t hk hfits hne => ?_
      obtain ⟨hstored, rfl⟩ := hR key hk
      obtain ⟨rfl, hlt, hnodes⟩ := rowInst_path hS hget hfits
      exact ⟨hset.held.resolve_left hne, node, ⟨hlt, hstored, hnodes⟩, rfl⟩
    have hcur : e.curTransaction = some [] := by rw [hs.log, hquiet.log, hlog]
    rcases hlast with rfl | ⟨dt, hop, rfl⟩
    · refine ⟨⟨hacc, agrees_of_empty ?_⟩, hmirror⟩
      rw [logOf, hcur]
      rfl
    · refine ⟨⟨hacc, agrees_of_empty ?_⟩, appendEntry_mirrored hmirror hacc.ok⟩
      rw [logOf, appendEntry, hcur]
      exact changes_cons_set hop
  · obtain ⟨⟨node, inst, d, hquiet, R, hs, -⟩, hacc⟩ := hc
    refine ⟨hacc, agrees_of_empty ?_⟩
    rw [logOf, hs.log, hquiet.log, hlog]
    rfl

/-- `SK_TR369_SetDBParam` writes at most the row of its path, without a transaction. -/
theorem setParameterInDatabase_spec (hS : SchemaOk maxDmInstanceOrder S) (hok : StateOk S a)
    (path value : Str) :
    Keeps True (setParameterInDatabase S W path value) a fun b => ∃ c R, Quiet S a c ∧
      Stored S c b R ∧ ∀ key, R key → formDbFromPath S path = .ok key := by
  unfold setParameterInDatabase
  split
  · exact ⟨a, _, Quiet.refl S a, Stored.refl S a, fun _ h => h.elim⟩
  rename_i key hkey
  have hsecure : Wp True (isSecurePath S W path) a (fun _ b => Quiet S a b) (fun _ _ => False) := by
    unfold isSecurePath
    split
    · exact Quiet.refl S a
    · rw [wp_bind, wp_attempt]
      exact (instVectorIsExist_spec hS hok fun _ _ => trivial).mono (fun _ _ hb => hb.1)
        fun _ _ hb => hb
  rw [Keeps, wp_bind]
  refine hsecure.mono (fun isSecure b hb => ?_) fun _ _ h => h.elim
  refine (databaseSetParameterValue_spec (S := S) key value isSecure).mono (fun _ c hs => ?_)
    fun _ c hs => ⟨b, _, hb, hs, fun _ h => h.elim⟩
  refine ⟨b, _, hb, hs, ?_⟩
  rintro k rfl
  exact hkey

theorem setParameterInDatabase_ok (hS : SchemaOk maxDmInstanceOrder S) (hd : AgentDecides S)
    (h : Mirrored S a) (hi : Idle a) (value : Str)
    (hmeets : ∀ key t, formDbFromPath S path = .ok key → rowInst S key = some t → t ≠ [] →
      Held a t ∧ ∃ q, StoredAt S q t ∧ key = rowKey S q t) :
    Keeps True (setParameterInDatabase S W path value) a fun a' => Mirrored S a' ∧ Idle a' := by
  refine keeps_mono (setParameterInDatabase_spec hS h.ok path value) fun b hb => ?_
  obtain ⟨c, R, hquiet, hs, hR⟩ := hb
  refine ⟨stored_mirrored (h.quiet hd hquiet) hs fun key t hk hfits hne => ?_, ?_, ?_⟩
  · rw [hd.held_iff hquiet]
    exact hmeets key t (hR key hk) hfits hne
  · rw [hs.log, hquiet.log, hi.log]
  · rw [hs.saved, hquiet.db, hi.saved]

/-- A restart keeps the rows and the memory in step when no parent is lost. -/
theorem restart_ok (hS : SchemaOk maxDmInstanceOrder S) (h : Mirrored S a) (hi : Idle a)
    (hrows : RowsUnderParents S a.db.rows) (removeUnknownParams : Bool) :
    Keeps True (restart S W removeUnknownParams) a fun a' => Mirrored S a' ∧ Idle a' := by
  have hdb : a.db.rollback.rows = a.db.rows := by rw [Database.rollback, hi.saved]
  refine (restart_spec hS removeUnknownParams).mono (fun _ b hb => ?_) fun _ _ h => h.elim
  rw [hdb] at hb
  have hrow : ∀ key, HasRow (freshState a.db.rows a.calls) key ↔ HasRow a key := fun _ => Iff.rfl
  have hheld : ∀ t, Held b t ↔ ∃ row ∈ a.db.rows, rowInst S row.1 = some t ∧ t ≠ [] := fun t =>
    (hb.held t).trans (or_iff_right (freshState_held a.db.rows a.calls t))
  have hold : ∀ t, Held b t → Held a t := by
    intro t ht
    obtain ⟨row, hmem, hfits, hne⟩ := (hheld t).mp ht
    exact (h.registered row.1 t (hasRow_iff.mpr ⟨row, hmem, rfl⟩) hfits hne).1
  refine ⟨⟨hb.ok, closed_of_rows hrows hheld, fun key t hk hfits hne => ?_, fun q t ht hq => ?_,
    fun t ht => h.numbers t (hold t ht)⟩, hb.log, hb.saved⟩
  · have hka := (hrow key).mp (hb.rows key hk)
    obtain ⟨row, hmem, rfl⟩ := hasRow_iff.mp hka
    exact ⟨(hheld t).mpr ⟨row, hmem, hfits, hne⟩, (h.registered row.1 t hka hfits hne).2⟩
  · refine hb.kept _ ?_ ((hrow _).mpr (h.stored q t (hold t ht) hq))
    rw [rowInst_rowKey hS hq (h.numbers t (hold t ht))]
    simp

end Transactions

/-! ## Runs -/

/-- What happens to the agent outside its transactions. -/
inductive StoreOp where
  | add (path : Str) (wantInstance : Bool) (flags : AddFlags)
  | delete (path : Str) (flags : DelFlags)
  | set (path value : Str) (checkWritable : Bool)
  | setDb (path value : Str)
  | restart (removeUnknownParams : Bool)
  deriving DecidableEq, Repr

def runStoreOp (S : DmTree) (W : World) : StoreOp → Op Unit
  | .add path wantInstance flags => .ignore (transaction S W (do
      let _ ← addInstance S W path wantInstance flags))
  | .delete path flags => .ignore (transaction S W (deleteInstance S W path flags))
  | .set path value checkWritable =>
    .ignore (transaction S W (setParameterValue S W path value checkWritable))
  | .setDb path value => .ignore (setParameterInDatabase S W path value)
  | .restart removeUnknownParams => restart S W removeUnknownParams

/-- A new number is that of an `int`; a row written directly is of a stored parameter of
an instance in memory, or it belongs to no instance; before a restart every row of a
nested table has a row of the parent instance. -/
def StoreMeets (S : DmTree) (op : StoreOp) (a : State) : Prop :=
  match op with
  | .add path _ _ => NumberFits S a path
  | .setDb path _ => ∀ key t, formDbFromPath S path = .ok key → rowInst S key = some t → t ≠ [] →
      Held a t ∧ ∃ q, StoredAt S q t ∧ key = rowKey S q t
  | .restart _ => RowsUnderParents S a.db.rows
  | _ => True

section Runs

variable {S : DmTree} {W : World} {a : State}

theorem Started.mirrored {b : State} (hb : Started a b) (h : Mirrored S a) : Mirrored S b :=
  h.congr hb.held (fun key => by rw [HasRow, HasRow, hb.db]) (hb.ok h.ok)

theorem runStoreOp_ok (hS : SchemaOk maxDmInstanceOrder S) (hd : AgentDecides S) (op : StoreOp)
    (h : Mirrored S a ∧ Idle a) (hmeets : StoreMeets S op a) :
    Keeps True (runStoreOp S W op) a fun a' => Mirrored S a' ∧ Idle a' := by
  obtain ⟨h, hi⟩ := h
  cases op with
  | add path wantInstance flags =>
    rw [runStoreOp, Keeps, wp_ignore]
    refine transaction_ok hS hd h hi fun b hb => ?_
    have hfits : NumberFits S b path := by
      intro node inst isQualified hget
      rw [hb.held]
      exact hmeets node inst isQualified hget
    rw [wp_bind]
    exact (addInstance_ok hS hd (Started.mirrored hb h) hb.log hfits wantInstance flags).mono
      (fun _ _ hc => hc) fun _ _ hc => hc
  | delete path flags =>
    rw [runStoreOp, Keeps, wp_ignore]
    exact transaction_ok hS hd h hi fun b hb =>
      deleteInstance_ok hS hd (Started.mirrored hb h) hb.log path flags
  | set path value checkWritable =>
    rw [runStoreOp, Keeps, wp_ignore]
    exact transaction_ok hS hd h hi fun b hb =>
      setParameterValue_ok hS hd (Started.mirrored hb h) hb.log path value checkWritable
  | setDb path value =>
    rw [runStoreOp, Keeps, wp_ignore]
    exact setParameterInDatabase_ok hS hd h hi value hmeets
  | restart removeUnknownParams => exact restart_ok hS h hi hmeets removeUnknownParams

theorem freshState_mirrored (S : DmTree) (calls : Nat) :
    Mirrored S (freshState [] calls) ∧ Idle (freshState [] calls) := by
  have hnone := freshState_held [] calls
  refine ⟨⟨freshState_ok S [] calls, fun _ t ht => absurd ht (hnone t), fun key t hk => ?_,
    fun q t ht => absurd ht (hnone t), fun t ht => absurd ht (hnone t)⟩, rfl, rfl⟩
  cases hk

end Runs

/-- From an empty database. -/
theorem runs_transparent (rs : List Registration) (hrs : ∀ r ∈ rs, WithinArrays r)
    (hdecides : AgentDecides (registerAll initialTree rs)) (W : World) (ops : List StoreOp)
    (a : State)
    (hmeets : MeetsAlong (StoreMeets (registerAll initialTree rs))
      (runStoreOp (registerAll initialTree rs) W) ops (freshState [] 0))
    (hrun : Prog.forEach ops (runStoreOp (registerAll initialTree rs) W) (freshState [] 0) =
      some (.ok (), a)) : Transparent (registerAll initialTree rs) W a := by
  have hS := registered_ok hrs
  have hkeeps := keeps_run (T := True) (fun op _ h hmeets => runStoreOp_ok hS hdecides op h hmeets)
    ops (freshState_mirrored _ 0) hmeets
  exact ((hkeeps.of_run hrun).1 () rfl).1.transparent hS

theorem nestedTables_decides : AgentDecides (registerAll initialTree nestedTables) := by
  intro node
  by_cases hlt : node < 5
  · revert node
    decide
  · have hnull : (registerAll initialTree nestedTables).node node = nullNode := by
      have hlen : (registerAll initialTree nestedTables).nodes.length = 5 := by decide
      rw [DmTree.node, getD_eq_getElem?_getD, getElem?_eq_none, Option.getD_none]
      rw [hlen]
      exact Nat.le_of_not_lt hlt
    rw [hnull]
    exact ⟨rfl, rfl⟩

/-- Two nested instances are added and the parameter of the inner one is written in both
ways. -/
def addAndSet : List StoreOp :=
  [.add "Device.A.1".toList false {}, .add "Device.A.1.B.4".toList false {},
    .set "Device.A.1.B.4.P".toList ['x'] false, .setDb "Device.A.1.B.4.P".toList ['y']]

theorem runs_transparent_nested :
    let S := registerAll initialTree nestedTables
    Transparent S quietWorld
      ((Prog.forEach addAndSet (runStoreOp S quietWorld)).after (freshState [] 0)) := by
  intro S
  have hS : SchemaOk maxDmInstanceOrder S := registered_ok nestedTables_within
  refine runs_transparent nestedTables nestedTables_within nestedTables_decides quietWorld
    addAndSet _ ⟨fun node inst isQualified hget => ?_, fun node inst isQualified hget => ?_,
      trivial, fun key t hkey hfits _ => ?_, trivial⟩ (Prog.run_eq (by decide +kernel))
  · rw [show getQualifiedNode S (stripTrailingDot "Device.A.1".toList) = some (2, [(2, 1)], true) by
      decide +kernel] at hget
    cases hget
    exact ⟨by decide, freshState_held [] 0 _⟩
  · rw [show getQualifiedNode S (stripTrailingDot "Device.A.1.B.4".toList) =
      some (3, [(2, 1), (3, 4)], true) by decide +kernel] at hget
    cases hget
    refine ⟨by decide, ?_⟩
    unfold Held
    decide +kernel
  · rw [show formDbFromPath S "Device.A.1.B.4.P".toList = .ok (rowKey S 4 [(2, 1), (3, 4)]) by
      decide +kernel] at hkey
    cases hkey
    have hstored : StoredAt S 4 [(2, 1), (3, 4)] :=
      ⟨by decide, by decide, by decide⟩
    rw [rowInst_rowKey hS hstored (by decide), Option.some.injEq] at hfits
    subst hfits
    refine ⟨?_, 4, hstored, rfl⟩
    unfold Held
    decide +kernel

/-- After a row is written for an instance that is not registered, a restart finds it. -/
theorem setDb_appears_after_restart :
    let S := registerAll initialTree nestedTables
    let ops : List StoreOp := [.setDb "Device.A.1.B.7.P".toList ['x']]
    Prog.result (Prog.forEach ops (runStoreOp S quietWorld)) (freshState [] 0) = some (.ok ()) ∧
      ¬ Transparent S quietWorld
        ((Prog.forEach ops (runStoreOp S quietWorld)).after (freshState [] 0)) := by
  intro S ops
  have hS : SchemaOk maxDmInstanceOrder S := registered_ok nestedTables_within
  have hrun : Prog.result (Prog.forEach ops (runStoreOp S quietWorld)) (freshState [] 0) =
      some (.ok ()) := by decide +kernel
  refine ⟨hrun, fun h => ?_⟩
  have hboot : Known (bootState S quietWorld ((Prog.forEach ops (runStoreOp S quietWorld)).after
      (freshState [] 0)).db.rows false) [(2, 1), (3, 7)] := by
    refine ⟨[(2, 1), (3, 7)], ?_, prefix_rfl⟩
    unfold Held
    decide +kernel
  obtain ⟨t', q, ⟨u, hu, -⟩, -, -⟩ := (h false _ (by simp)).mp hboot
  -- the memory is still empty
  have hspec : Keeps True (Prog.forEach ops (runStoreOp S quietWorld)) (freshState [] 0)
      fun b => ∀ t, ¬ Held b t := by
    rw [Prog.forEach, Keeps, wp_bind, runStoreOp, wp_ignore]
    refine keeps_mono (setParameterInDatabase_spec hS (freshState_ok S [] 0) _ _) fun b hb t ht => ?_
    obtain ⟨c, R, hquiet, hs, -⟩ := hb
    rw [hs.held, nestedTables_decides.held_iff hquiet] at ht
    exact freshState_held [] 0 t ht
  exact (hspec.of_run (Prog.run_eq hrun)).1 () rfl u hu

end RestartTransparency
