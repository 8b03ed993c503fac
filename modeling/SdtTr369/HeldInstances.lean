import SdtTr369.InstanceTree
import SdtTr369.UndoLog
import SdtTr369.DmTrans

/-!
# The instances held by the instance vectors

`StateOk` is what every operation keeps of the vectors and of the log. A table
with a refresh callback can be read from the vendor at almost every call, once
in each lock period; `SettledAt` says that this does not happen any more, and
`Quiet` is the effect of the calls that do nothing but such refreshes.
-/

namespace HeldInstances

open UspTypes Schema SchemaInvariant PathCodec EffectProgram Agent InstVector DmTrans UndoLog List
open InstanceTree PathRoundTrip

def Held (a : State) : Collection (NodeId × Int) := fun t => t ∈ a.instVector (topNode t)

/-- The ancestors of every held instance are held. -/
abbrev Closed (a : State) : Prop := PrefixClosed (Held a)

/-- `IsExistInInstVector`, for all vectors. -/
def Known (a : State) (inst : DmInstances) : Prop := ∃ t, Held a t ∧ inst <+: t

structure StateOk (S : DmTree) (a : State) : Prop where
  held : ∀ top, ∀ t ∈ a.instVector top, topNode t = top ∧ ∃ node, IsInstance S node t
  nodup : ∀ top, (a.instVector top).Nodup
  entries : ∀ log, a.curTransaction = some log → ∀ dt ∈ log,
    dt.op = .set ∨ IsInstance S dt.node (entryInst S dt)

/-- The table is not refreshed any more in this lock period. -/
def SettledAt (S : DmTree) (a : State) (top : NodeId) : Prop :=
  (S.node top).registered.refreshInstances = true → a.lockPeriod top = a.curLockPeriod

variable {t : DmInstances} {Q : Unit → State → Prop} {E : Err → State → Prop}

section Held

variable {S : DmTree} {a : State}

theorem Held.known (h : Held a t) : Known a t := ⟨t, h, prefix_rfl⟩

theorem Known.of_isPrefix {p : DmInstances} (h : Known a t) (hp : p <+: t) : Known a p := by
  obtain ⟨t', ht', hpre⟩ := h
  exact ⟨t', ht', hp.trans hpre⟩

theorem Closed.held_of_known (h : Closed a) (ht : Known a t) (hne : t ≠ []) : Held a t := by
  obtain ⟨t', ht', hpre⟩ := ht
  exact h t t' ht' hpre hne

theorem StateOk.instance (h : StateOk S a) (ht : Held a t) :
    ∃ node, IsInstance S node t := (h.held _ t ht).2

theorem StateOk.isExist_iff (h : StateOk S a) {inst : DmInstances} (hne : inst ≠ []) :
    isExistInInstVector inst (a.instVector (topNode inst)) = true ↔ Known a inst := by
  simp only [isExistInInstVector, any_eq_true, isPrefixOf_iff_prefix]
  constructor
  · rintro ⟨t, ht, hpre⟩
    refine ⟨t, ?_, hpre⟩
    rw [Held, (h.held _ t ht).1]
    exact ht
  · rintro ⟨t, ht, hpre⟩
    refine ⟨t, ?_, hpre⟩
    rw [topNode_of_isPrefix hpre hne]
    exact ht

end Held

/-! ## Changes of one vector -/

@[simp] theorem setVector_instVector (a : State) (top n : NodeId) (div : List DmInstances) :
    (setVector a top div).instVector n = if n = top then div else a.instVector n := rfl

@[simp] theorem setVector_db (a : State) (top : NodeId) (div : List DmInstances) :
    (setVector a top div).db = a.db := rfl

@[simp] theorem setVector_curTransaction (a : State) (top : NodeId) (div : List DmInstances) :
    (setVector a top div).curTransaction = a.curTransaction := rfl

theorem StateOk.setVector {S : DmTree} {a : State} (h : StateOk S a) {top : NodeId}
    {div : List DmInstances} (hdiv : ∀ t ∈ div, topNode t = top ∧ ∃ node, IsInstance S node t)
    (hnodup : div.Nodup) : StateOk S (setVector a top div) where
  held n t ht := by
    rw [setVector_instVector] at ht
    split at ht
    · rename_i hn
      rw [hn]
      exact hdiv t ht
    · exact h.held n t ht
  nodup n := by
    rw [setVector_instVector]
    split
    · exact hnodup
    · exact h.nodup n
  entries := h.entries

/-- The state after `DM_INST_VECTOR_Add`. -/
def addHeld (inst : DmInstances) (a : State) : State :=
  if inst ∈ a.instVector (topNode inst) then a
  else setVector a (topNode inst) (addToInstVector inst (a.instVector (topNode inst)))

/-- The state after `DM_INST_VECTOR_Remove`. -/
def removeHeld (inst : DmInstances) (a : State) : State :=
  setVector a (topNode inst) (removeBelow inst (a.instVector (topNode inst)))

section Changes

variable {S : DmTree} {a : State} {p : DmInstances} {T : Prop}

@[simp] theorem wp_requireTop (inst : DmInstances) (a : State) (Q : Unit → State → Prop)
    (E : Err → State → Prop) :
    Wp T (requireTop S inst) a Q E ↔
      if (S.node (topNode inst)).type = .objectMultiInstance then Q () a else T := by
  simp [requireTop]

theorem wp_instVectorAdd (hne : p ≠ [])
    (htop : (S.node (topNode p)).type ≠ .objectMultiInstance → T) (hQ : Q () (addHeld p a)) :
    Wp T (instVectorAdd S p) a Q E := by
  simp only [instVectorAdd, if_neg hne, wp_bind, wp_requireTop, wp_update]
  split
  · exact hQ
  · exact htop (by assumption)

theorem wp_instVectorRemove (hne : p ≠ [])
    (htop : (S.node (topNode p)).type ≠ .objectMultiInstance → T) (hQ : Q () (removeHeld p a)) :
    Wp T (instVectorRemove S p) a Q E := by
  simp only [instVectorRemove, if_neg hne, wp_bind, wp_requireTop, wp_update]
  split
  · exact hQ
  · exact htop (by assumption)

theorem addHeld_of_held (h : Held a p) : addHeld p a = a := if_pos h

@[simp] theorem addHeld_db : (addHeld p a).db = a.db := by
  unfold addHeld
  split <;> rfl

@[simp] theorem addHeld_curTransaction : (addHeld p a).curTransaction = a.curTransaction := by
  unfold addHeld
  split <;> rfl

theorem addHeld_settled {top : NodeId} (h : SettledAt S a top) : SettledAt S (addHeld p a) top := by
  unfold addHeld
  split <;> exact h

theorem held_addHeld : Held (addHeld p a) t ↔ Held a t ∨ t = p := by
  unfold addHeld
  by_cases hp : p ∈ a.instVector (topNode p)
  · rw [if_pos hp]
    constructor
    · exact .inl
    · rintro (h | rfl)
      · exact h
      · exact hp
  · rw [if_neg hp, Held, setVector_instVector, addToInstVector]
    by_cases htop : topNode t = topNode p
    · rw [if_pos htop, mem_append, mem_singleton, Held, htop]
    · rw [if_neg htop]
      constructor
      · exact .inl
      · rintro (h | rfl)
        · exact h
        · exact absurd rfl htop

theorem held_removeHeld (hne : p ≠ []) : Held (removeHeld p a) t ↔ Held a t ∧ ¬ p <+: t := by
  rw [removeHeld, Held, setVector_instVector, removeBelow]
  by_cases htop : topNode t = topNode p
  · rw [if_pos htop, mem_filter, Held, htop, Bool.not_eq_true', ← Bool.not_eq_true,
      isPrefixOf_iff_prefix]
  · rw [if_neg htop]
    exact ⟨fun h => ⟨h, fun hp => htop (topNode_of_isPrefix hp hne).symm⟩, fun h => h.1⟩

theorem StateOk.addHeld (h : StateOk S a) {node : NodeId} (hp : IsInstance S node p) :
    StateOk S (addHeld p a) := by
  unfold HeldInstances.addHeld
  split
  · exact h
  · rename_i hnot
    refine h.setVector (fun t ht => ?_) ?_
    · rcases List.mem_append.mp ht with ht | ht
      · exact h.held _ t ht
      · rw [List.mem_singleton.mp ht]
        exact ⟨rfl, node, hp⟩
    · refine List.nodup_append.mpr ⟨h.nodup _, nodup_singleton p, ?_⟩
      intro t ht t' ht' heq
      rw [List.mem_singleton.mp ht'] at heq
      exact hnot (heq ▸ ht)

theorem StateOk.removeHeld (h : StateOk S a) : StateOk S (removeHeld p a) :=
  h.setVector (fun t ht => h.held _ t (List.mem_filter.mp ht).1) ((h.nodup _).filter _)

theorem Closed.addHeld (h : Closed a) (hparent : p.dropLast = [] ∨ Held a p.dropLast) :
    Closed (addHeld p a) := PrefixClosed.insert h hparent fun _ => held_addHeld

theorem Closed.removeHeld (h : Closed a) (hne : p ≠ []) : Closed (removeHeld p a) :=
  PrefixClosed.removeBelow h fun _ => held_removeHeld hne

end Changes

/-! ## Refreshes -/

/-- Nothing but refreshes of tables that were not settled. -/
structure Quiet (S : DmTree) (a a' : State) : Prop where
  vector : ∀ top, SettledAt S a top → a'.instVector top = a.instVector top
  settled : ∀ top, SettledAt S a top → SettledAt S a' top
  db : a'.db = a.db
  log : a'.curTransaction = a.curTransaction
  ok : StateOk S a → StateOk S a'
  closed : Closed a → Closed a'

section Refresh

variable {limit : Nat} {S : DmTree} {W : World} {T : Prop} {a a' : State}

theorem Quiet.refl (S : DmTree) (a : State) : Quiet S a a :=
  ⟨fun _ _ => rfl, fun _ h => h, rfl, rfl, id, id⟩

theorem Quiet.trans {a'' : State} (h : Quiet S a a') (h' : Quiet S a' a'') : Quiet S a a'' where
  vector top hs := (h'.vector top (h.settled top hs)).trans (h.vector top hs)
  settled top hs := h'.settled top (h.settled top hs)
  db := h'.db.trans h.db
  log := h'.log.trans h.log
  ok hok := h'.ok (h.ok hok)
  closed hc := h'.closed (h.closed hc)

theorem quiet_calls (S : DmTree) (a : State) (n : Nat) : Quiet S a { a with calls := n } :=
  ⟨fun _ _ => rfl, fun _ h => h, rfl, rfl, fun h => ⟨h.held, h.nodup, h.entries⟩, id⟩

theorem Quiet.held_iff (h : Quiet S a a') (hs : SettledAt S a (topNode t)) :
    Held a' t ↔ Held a t := by
  rw [Held, Held, h.vector _ hs]

theorem Quiet.known_iff (h : Quiet S a a') (hne : t ≠ []) (hs : SettledAt S a (topNode t)) :
    Known a' t ↔ Known a t := by
  refine exists_congr fun t' => and_congr_left fun hpre => ?_
  exact h.held_iff (topNode_of_isPrefix hpre hne ▸ hs)

theorem vendorHook_quiet (W : World) : Keeps T (vendorHook W) a (Quiet S a) := by
  simp only [vendorHook, Keeps, wp_bind, wp_call]
  split
  · exact quiet_calls S a _
  · exact quiet_calls S a _

/-- A vector built up by a refresh callback. -/
structure RefreshedOk (S : DmTree) (top : NodeId) (div : List DmInstances) : Prop where
  held : ∀ t ∈ div, topNode t = top ∧ ∃ node, IsInstance S node t
  nodup : div.Nodup
  closed : PrefixClosed (· ∈ div)

theorem refreshInstance_ok (hS : SchemaOk limit S) {top : NodeId} {div : List DmInstances}
    (h : RefreshedOk S top div) (path : Str) :
    RefreshedOk S top (refreshInstance S top div path) := by
  unfold refreshInstance
  split
  · exact h
  · rename_i id inst isQualified hget
    split
    · exact h
    split
    · exact h
    split
    · exact h
    split
    · exact h
    split
    · exact h
    · rename_i hm hq htop hexist hparent
      have hq : isQualified = true := by simpa using hq
      have hinst : IsInstance S id inst :=
        getQualifiedNode_instance hS (hq ▸ hget) (Decidable.not_not.mp hm)
      have htop : topNode inst = top := Decidable.not_not.mp htop
      have hmem : ∀ t ∈ addToInstVector inst div, t ∈ div ∨ t = inst := by
        intro t ht
        rcases List.mem_append.mp ht with ht | ht
        · exact .inl ht
        · exact .inr (List.mem_singleton.mp ht)
      refine ⟨fun t ht => ?_, ?_, ?_⟩
      · rcases hmem t ht with ht | rfl
        · exact h.held t ht
        · exact ⟨htop, id, hinst⟩
      · refine List.nodup_append.mpr ⟨h.nodup, nodup_singleton inst, ?_⟩
        intro t ht t' ht' heq
        rw [List.mem_singleton.mp ht'] at heq
        subst heq
        apply hexist
        simp only [isExistInInstVector, any_eq_true, isPrefixOf_iff_prefix]
        exact ⟨t, ht, prefix_rfl⟩
      · refine h.closed.insert (p := inst) ?_ fun t => ?_
        · by_cases hlen : 1 < inst.length
          · right
            simp only [not_and, Bool.not_eq_false] at hparent
            have hex := hparent hlen
            simp only [isExistInInstVector, any_eq_true, isPrefixOf_iff_prefix] at hex
            obtain ⟨t, ht, hpre⟩ := hex
            refine h.closed _ t ht hpre fun hnil => ?_
            have := congrArg List.length hnil
            simp only [length_dropLast, length_nil] at this
            omega
          · left
            rw [← length_eq_zero_iff, length_dropLast]
            omega
        · rw [addToInstVector, mem_append, mem_singleton]

theorem refreshInstances_ok (hS : SchemaOk limit S) (top : NodeId) (paths : List Str) :
    RefreshedOk S top (paths.foldl (refreshInstance S top) []) := by
  have hrun : ∀ div, RefreshedOk S top div →
      RefreshedOk S top (paths.foldl (refreshInstance S top) div) := by
    induction paths with
    | nil => exact fun div h => h
    | cons path paths ih => exact fun div h => ih _ (refreshInstance_ok hS h path)
  refine hrun [] ⟨by simp, nodup_nil, ?_⟩
  intro p t ht
  cases ht

theorem quiet_lock (S : DmTree) (a : State) (top : NodeId) :
    Quiet S a (lockInstances a top) ∧ SettledAt S (lockInstances a top) top := by
  refine ⟨⟨fun _ _ => rfl, fun n hn hr => ?_, rfl, rfl, fun h => ⟨h.held, h.nodup, h.entries⟩, id⟩,
    fun _ => if_pos rfl⟩
  show (if n = top then a.curLockPeriod else a.lockPeriod n) = a.curLockPeriod
  split
  · rfl
  · exact hn hr

/-- A refresh of a table that was not settled. -/
theorem quiet_refresh {top : NodeId} {div : List DmInstances} (expiry : NodeId → Int)
    (hunsettled : ¬ SettledAt S a top) (hdiv : RefreshedOk S top div) :
    Quiet S a { setVector a top div with refreshExpiryTime := expiry } where
  vector n hn := by
    have hne : n ≠ top := by
      rintro rfl
      exact hunsettled hn
    exact if_neg hne
  settled _ h := h
  db := rfl
  log := rfl
  ok h := by
    have := h.setVector hdiv.held hdiv.nodup
    exact ⟨this.held, this.nodup, this.entries⟩
  closed h := by
    have hvec : ∀ n, (if n = top then div else a.instVector n) =
        ({ setVector a top div with refreshExpiryTime := expiry } : State).instVector n :=
      fun _ => rfl
    intro p t ht hp hne
    rw [Held, ← hvec] at ht ⊢
    rw [topNode_of_isPrefix hp hne]
    split
    · rename_i htop
      rw [if_pos htop] at ht
      exact hdiv.closed p t ht hp hne
    · rename_i htop
      rw [if_neg htop] at ht
      have := h p t ht hp hne
      rwa [Held, topNode_of_isPrefix hp hne] at this

theorem refreshInstVector_quiet (hS : SchemaOk limit S) (top : NodeId) :
    Wp T (refreshInstVector S W top) a (fun _ a' => Quiet S a a' ∧ SettledAt S a' top)
      (fun _ a' => Quiet S a a') := by
  unfold refreshInstVector
  split
  · rename_i hr
    exact ⟨Quiet.refl S a, fun h => absurd h (by simp [hr])⟩
  · rename_i hr
    simp only [wp_bind, wp_read]
    split
    · rename_i hlock
      exact ⟨Quiet.refl S a, fun _ => by simpa using hlock⟩
    · rename_i hlock
      have hunsettled : ¬ SettledAt S a top := fun h =>
        hlock (by simpa using h (by simpa using hr))
      simp only [wp_bind, wp_call, wp_read]
      split
      · obtain ⟨hq, hs⟩ := quiet_lock S { a with calls := a.calls + 1 } top
        exact ⟨(quiet_calls S a _).trans hq, hs⟩
      · simp only [wp_bind, wp_call]
        split
        · exact quiet_calls S a _
        · rename_i paths expiryPeriod hpaths
          simp only [wp_bind, wp_call, wp_update]
          have h₁ := quiet_calls S a (a.calls + 1 + 1 + 1)
          have h₂ := quiet_refresh (a := { a with calls := a.calls + 1 + 1 + 1 })
            (fun n => if n = top then W.time (a.calls + 1 + 1) + expiryPeriod
              else a.refreshExpiryTime n) hunsettled (refreshInstances_ok hS top paths)
          obtain ⟨h₃, hs⟩ := quiet_lock S _ top
          exact ⟨(h₁.trans h₂).trans h₃, hs⟩

end Refresh

/-! ## The queries -/

section Queries

variable {limit : Nat} {S : DmTree} {W : World} {T : Prop} {a : State} {node : NodeId}
  {inst : DmInstances}

theorem instVectorIsExist_spec (hS : SchemaOk limit S) (hok : StateOk S a)
    (htop : inst ≠ [] → (S.node (topNode inst)).type ≠ .objectMultiInstance → T) :
    Wp T (instVectorIsExist S W inst) a
      (fun b a' => Quiet S a a' ∧ (inst ≠ [] → SettledAt S a' (topNode inst)) ∧
        (b = true ↔ inst = [] ∨ Known a' inst))
      (fun _ a' => Quiet S a a') := by
  unfold instVectorIsExist
  split
  · rename_i hnil
    exact ⟨Quiet.refl S a, fun h => absurd hnil h, by simp [hnil]⟩
  · rename_i hne
    simp only [wp_bind, wp_requireTop, wp_read]
    split
    · refine (refreshInstVector_quiet hS (topNode inst)).mono (fun _ a' h => ?_) fun _ _ h => h
      refine ⟨h.1, fun _ => h.2, ?_⟩
      rw [(h.1.ok hok).isExist_iff hne]
      simp [hne]
    · exact htop hne (by assumption)

variable {n : Int}

theorem numberBelow_iff {oi : DmInstances} :
    numberBelow node inst oi = some n ↔ inst ++ [(node, n)] <+: oi := by
  unfold numberBelow
  constructor
  · intro h
    split at h
    · cases h
    · rename_i entry rest hdrop
      simp only [Option.ite_none_right_eq_some, Bool.and_eq_true, isPrefixOf_iff_prefix,
        decide_eq_true_eq, Option.some.injEq] at h
      obtain ⟨⟨⟨r, rfl⟩, hnode⟩, hn⟩ := h
      rw [drop_left] at hdrop
      subst hdrop
      refine ⟨rest, ?_⟩
      rw [← hnode, ← hn]
      simp
  · rintro ⟨r, rfl⟩
    rw [append_assoc, drop_left]
    simp

theorem ownNumber_iff {oi : DmInstances} :
    ownNumber node inst oi = some n ↔ oi = inst ++ [(node, n)] := by
  rw [ownNumber, Option.ite_none_right_eq_some, numberBelow_iff]
  constructor
  · rintro ⟨hlen, hpre⟩
    exact (hpre.eq_of_length (by simp [hlen])).symm
  · rintro rfl
    exact ⟨by simp, prefix_rfl⟩

theorem topNodeOf_eq (n : Int) : topNodeOf node inst = topNode (inst ++ [(node, n)]) := by
  cases inst <;> rfl

theorem collectNumbers_spec (l iv : List Int) :
    (∀ n, n ∈ l.foldl collectNumbers iv ↔ n ∈ iv ∨ n ∈ l) ∧
      (iv.Nodup → (l.foldl collectNumbers iv).Nodup) := by
  induction l generalizing iv with
  | nil => simp
  | cons m l ih =>
    obtain ⟨hmem, hnodup⟩ := ih (collectNumbers iv m)
    have hone : ∀ n, n ∈ collectNumbers iv m ↔ n ∈ iv ∨ n = m := by
      intro n
      unfold collectNumbers
      split
      · rename_i hm
        exact ⟨.inl, fun h => h.elim id fun h => h ▸ hm⟩
      · simp
    refine ⟨fun n => ?_, fun hiv => hnodup ?_⟩
    · rw [foldl_cons, hmem, hone, mem_cons, or_assoc]
    · unfold collectNumbers
      split
      · exact hiv
      · rename_i hm
        refine List.nodup_append.mpr ⟨hiv, nodup_singleton m, ?_⟩
        intro n hn m' hm' heq
        rw [List.mem_singleton.mp hm'] at heq
        exact hm (heq ▸ hn)

theorem listInstances_nodup (div : List DmInstances) : (listInstances node inst div).Nodup :=
  (collectNumbers_spec _ _).2 nodup_nil

theorem mem_listInstances (hok : StateOk S a) :
    n ∈ listInstances node inst (a.instVector (topNodeOf node inst)) ↔
      Known a (inst ++ [(node, n)]) := by
  rw [listInstances, (collectNumbers_spec _ _).1, mem_filterMap]
  simp only [not_mem_nil, false_or, numberBelow_iff]
  constructor
  · rintro ⟨t, ht, hpre⟩
    refine ⟨t, ?_, hpre⟩
    rw [Held, (hok.held _ t ht).1]
    exact ht
  · rintro ⟨t, ht, hpre⟩
    refine ⟨t, ?_, hpre⟩
    rw [topNodeOf_eq n, topNode_of_isPrefix hpre (by simp)]
    exact ht

/-- A number for every instance whose tuple is held itself. -/
theorem countInstances_eq (node : NodeId) (inst : DmInstances) (hok : StateOk S a) :
    ∃ l : List Int, l.Nodup ∧
      (∀ n, n ∈ l ↔ Held a (inst ++ [(node, n)])) ∧
      countInstances node inst (a.instVector (topNodeOf node inst)) = l.length := by
  refine ⟨(a.instVector (topNodeOf node inst)).filterMap (ownNumber node inst), ?_, ?_, rfl⟩
  · refine List.Nodup.filterMap (fun t t' n hn hn' => ?_) (hok.nodup _)
    rw [Option.mem_def, ownNumber_iff] at hn hn'
    rw [hn, hn']
  · intro n
    simp only [mem_filterMap, ownNumber_iff, exists_eq_right, Held, topNodeOf_eq n]

theorem wp_requireTable (hS : SchemaOk maxDmInstanceOrder S) (h : IsTableOf S node inst)
    (hQ : Q () a) : Wp T (requireTable S node inst) a Q E := by
  have hinst := h.instance 0
  have hlen : inst.length < maxDmInstanceOrder := by
    have := hinst.length_le hS
    rw [length_append, length_singleton] at this
    exact this
  simp only [requireTable, wp_bind, wp_require, wp_requireTop]
  rw [if_pos (by simpa using hlen), if_pos (hinst.topNode_table hS)]
  exact hQ

theorem instVectorGetInstances_spec (hS : SchemaOk maxDmInstanceOrder S) (hok : StateOk S a)
    (h : IsTableOf S node inst) :
    Wp T (instVectorGetInstances S W node inst) a
      (fun l a' => Quiet S a a' ∧ SettledAt S a' (topNodeOf node inst) ∧ l.Nodup ∧
        ∀ n, n ∈ l ↔ Known a' (inst ++ [(node, n)]))
      (fun _ a' => Quiet S a a') := by
  rw [instVectorGetInstances, wp_bind]
  refine wp_requireTable hS h ?_
  simp only [wp_bind, wp_read]
  refine (refreshInstVector_quiet hS _).mono (fun _ a' h => ?_) fun _ _ h => h
  exact ⟨h.1, h.2, listInstances_nodup _, fun n => mem_listInstances (h.1.ok hok)⟩

theorem highest_spec (l : List Int) (m : Int) :
    m ≤ l.foldl (fun highest n => if n > highest then n else highest) m ∧
      (∀ n ∈ l, n ≤ l.foldl (fun highest n => if n > highest then n else highest) m) ∧
      (l.foldl (fun highest n => if n > highest then n else highest) m = m ∨
        l.foldl (fun highest n => if n > highest then n else highest) m ∈ l) := by
  induction l generalizing m with
  | nil => simp
  | cons n l ih =>
    obtain ⟨hle, hall, hmem⟩ := ih (if n > m then n else m)
    rw [foldl_cons]
    have hmax : m ≤ (if n > m then n else m) ∧ n ≤ (if n > m then n else m) := by
      split <;> omega
    refine ⟨by omega, ?_, ?_⟩
    · intro k hk
      rcases List.mem_cons.mp hk with rfl | hk
      · omega
      · exact hall k hk
    · rcases hmem with hmem | hmem
      · rw [hmem]
        split
        · exact .inr mem_cons_self
        · exact .inl rfl
      · exact .inr (mem_cons_of_mem _ hmem)

/-- The next number is above all numbers of the table, and the one below it is
taken unless the table has no positive numbers. -/
theorem getNextInstance_spec (hS : SchemaOk maxDmInstanceOrder S) (h : IsTableOf S node inst) :
    Wp T (getNextInstance S node inst) a
      (fun n a' => a' = a ∧ 1 ≤ n ∧ (∀ k, Held a (inst ++ [(node, k)]) → k < n) ∧
        (n = 1 ∨ Held a (inst ++ [(node, n - 1)])))
      (fun _ _ => False) := by
  rw [getNextInstance, wp_bind]
  refine wp_requireTable hS h ?_
  obtain ⟨hle, hall, hmem⟩ :=
    highest_spec ((a.instVector (topNodeOf node inst)).filterMap (ownNumber node inst)) 0
  have hiff : ∀ n, n ∈ (a.instVector (topNodeOf node inst)).filterMap (ownNumber node inst) ↔
      Held a (inst ++ [(node, n)]) := by
    intro n
    simp only [mem_filterMap, ownNumber_iff, exists_eq_right, Held, topNodeOf_eq n]
  simp only [wp_read]
  refine ⟨trivial, by omega, fun k hk => ?_, ?_⟩
  · have := hall k ((hiff k).mpr hk)
    omega
  · rcases hmem with hmem | hmem
    · left
      omega
    · right
      rw [Int.add_sub_cancel]
      exact (hiff _).mp hmem

end Queries

/-! ## Logged operations -/

section Logged

variable {limit : Nat} {S : DmTree} {W : World} {T : Prop} {a : State}

theorem resolveObjectDeletionPaths_quiet (hS : SchemaOk limit S) :
    Wp T (resolveObjectDeletionPaths S W) a (fun _ a' => Quiet S a a') (fun _ _ => False) := by
  simp only [resolveObjectDeletionPaths, wp_bind, wp_call]
  refine wp_forEach (I := fun _ a' => Quiet S a a') (fun top _ b hb => ?_) _ _ (quiet_calls S a _)
  rw [wp_ignore]
  exact (refreshInstVector_quiet hS top).mono (fun _ _ h => hb.trans h.1) fun _ _ h => hb.trans h

/-- An entry is appended, for a deletion after refreshes; a set below an added
object has no entry. -/
theorem transAdd_spec (hS : SchemaOk limit S) (hopen : a.curTransaction = none → T) (op : DmOp)
    (path : Str) (value : Option Str) (node : NodeId) (inst : DmInstances) :
    Wp T (transAdd S W op path value node inst) a
      (fun _ a' => ∃ b, Quiet S a b ∧ (op ≠ .del → b = a) ∧
        (a' = appendEntry ⟨op, path, value, node, instances inst⟩ b ∨ op = .set ∧ a' = b))
      (fun _ _ => False) := by
  simp only [transAdd, wp_bind, wp_read]
  split
  · rename_i hnone
    exact hopen hnone
  · split
    · rename_i hset
      exact ⟨a, Quiet.refl S a, fun _ => rfl, .inr ⟨hset.1, rfl⟩⟩
    · split
      · rename_i hdel
        simp only [wp_bind, wp_update]
        exact (resolveObjectDeletionPaths_quiet hS).mono
          (fun _ b hb => ⟨b, hb, fun h => absurd hdel h, .inl rfl⟩) fun _ _ h => h
      · exact ⟨a, Quiet.refl S a, fun _ => rfl, .inl rfl⟩

theorem entryInst_instances {node : NodeId} (h : IsInstance S node t) (op : DmOp) (path : Str)
    (value : Option Str) :
    entryInst S ⟨op, path, value, node, instances t⟩ = t := zipNodes_instances h.nodes

end Logged

/-! ## Two nested instances -/

/-- An instance of each of the two nested tables, and nothing else. -/
def nestedInstances : State :=
  { initialState with instVector := fun n => if n = 2 then [[(2, 1)], [(2, 1), (3, 4)]] else [] }

theorem nestedInstances_held (t : DmInstances) :
    Held nestedInstances t ↔ t = [(2, 1)] ∨ t = [(2, 1), (3, 4)] := by
  simp only [Held, nestedInstances]
  constructor
  · intro ht
    split at ht
    · simpa using ht
    · cases ht
  · rintro (rfl | rfl) <;> simp [topNode]

theorem nestedInstances_ok : StateOk (registerAll initialTree nestedTables) nestedInstances where
  held top t ht := by
    simp only [nestedInstances] at ht
    split at ht
    · rename_i htop
      subst htop
      simp only [mem_cons, not_mem_nil, or_false] at ht
      rcases ht with rfl | rfl
      · exact ⟨rfl, 2, by decide, by decide, by decide⟩
      · exact ⟨rfl, 3, by decide, by decide, by decide⟩
    · cases ht
  nodup top := by
    simp only [nestedInstances]
    split <;> simp
  entries log hlog := by cases hlog

theorem nestedInstances_closed : Closed nestedInstances := by
  intro p t ht hp hne
  rw [nestedInstances_held] at ht ⊢
  rcases ht with rfl | rfl
  · cases p with
    | nil => exact absurd rfl hne
    | cons x p =>
      obtain ⟨rfl, hrest⟩ := List.cons_prefix_cons.mp hp
      rw [List.prefix_nil.mp hrest]
      exact .inl rfl
  · cases p with
    | nil => exact absurd rfl hne
    | cons x p =>
      obtain ⟨rfl, hrest⟩ := List.cons_prefix_cons.mp hp
      cases p with
      | nil => exact .inl rfl
      | cons y p =>
        obtain ⟨rfl, hlast⟩ := List.cons_prefix_cons.mp hrest
        rw [List.prefix_nil.mp hlast]
        exact .inr rfl

end HeldInstances
