import SdtTr369.CommittedTransaction

/-!
# The instances rebuilt at boot

At boot the vectors are empty, and the tuple of every stored row is registered.
A row that does not fit the schema registers nothing.
-/

namespace BootInstances

open UspTypes Schema SchemaInvariant PathCodec EffectProgram Agent InstVector DataModel
open UndoLog InstanceTree HeldInstances Addition

/-- The tuple under which a row is registered. -/
def rowInst (S : DmTree) (key : Key) : Option DmInstances :=
  match findNodeFromHash S key.1 with
  | none => none
  | some node =>
    match parseInstanceString key.2 with
    | none => none
    | some numbers =>
      if numbers.length ≠ (S.node node).order then none
      else some (zipNodes (S.node node).instanceNodes numbers)

/-- The agent before it reads the instances of its database. -/
def freshState (rows : List (Key × Str)) (calls : Nat) : State :=
  { initialState with db := ⟨rows, none⟩, calls := calls }

def bootState (S : DmTree) (W : World) (rows : List (Key × Str)) (removeUnknownParams : Bool) :
    State := (readDataModelInstanceNumbers S W removeUnknownParams).after (freshState rows 0)

/-- The memory is lost, and SQLite rolls back what was not committed. -/
def restart (S : DmTree) (W : World) (removeUnknownParams : Bool) : Op Unit := do
  .update fun a => freshState a.db.rollback.rows a.calls
  readDataModelInstanceNumbers S W removeUnknownParams

/-- From `a` to `a'` the tuples in `R` were registered. -/
structure Registered (S : DmTree) (a a' : State) (R : DmInstances → Prop) : Prop where
  held : ∀ t, Held a' t ↔ Held a t ∨ R t
  rows : ∀ key, HasRow a' key → HasRow a key
  kept : ∀ key, rowInst S key ≠ none → HasRow a key → HasRow a' key
  saved : a'.db.saved = a.db.saved
  log : a'.curTransaction = a.curTransaction
  ok : StateOk S a'

/-- Every row belongs to a top-level table or has a row of the parent instance. -/
def RowsUnderParents (S : DmTree) (rows : List (Key × Str)) : Prop :=
  ∀ row ∈ rows, ∀ t, rowInst S row.1 = some t →
    t.dropLast = [] ∨ ∃ row' ∈ rows, rowInst S row'.1 = some t.dropLast

section Boot

variable {limit : Nat} {S : DmTree} {W : World} {T : Prop} {a : State}

theorem rowInst_nodes (hS : SchemaOk limit S) {key : Key} {t : DmInstances}
    (h : rowInst S key = some t) :
    ∃ q < S.nodes.length, (S.node q).hash = key.1 ∧ t.map Prod.fst = (S.node q).instanceNodes := by
  unfold rowInst at h
  cases hnode : findNodeFromHash S key.1 with
  | none => simp [hnode] at h
  | some q =>
    obtain ⟨hlt, hhash⟩ := (findNodeFromHash_some hS).mp hnode
    rw [hnode] at h
    cases hparse : parseInstanceString key.2 with
    | none => simp [hparse] at h
    | some numbers =>
      simp only [hparse, Option.ite_none_left_eq_some, ne_eq, Decidable.not_not,
        Option.some.injEq] at h
      obtain ⟨hlen, rfl⟩ := h
      refine ⟨q, hlt, hhash, ?_⟩
      rw [hS.order_eq q hlt] at hlen
      rw [zipNodes_fst (Nat.le_of_eq hlen), hlen, List.take_length]

theorem addParameterInstances_spec (hS : SchemaOk limit S) (hok : StateOk S a) (key : Key) :
    Wp T (addParameterInstances S key) a
      (fun _ a' => Registered S a a' fun t => rowInst S key = some t ∧ t ≠ [])
      (fun _ a' => rowInst S key = none ∧ a' = a) := by
  unfold addParameterInstances
  split
  · rename_i hnode
    exact ⟨by simp [rowInst, hnode], rfl⟩
  rename_i q hnode
  split
  · rename_i hparse
    exact ⟨by simp [rowInst, hnode, hparse], rfl⟩
  rename_i numbers hparse
  split
  · rename_i hlen
    exact ⟨by simp [rowInst, hnode, hparse, hlen], rfl⟩
  rename_i hlen
  have hrow : rowInst S key = some (zipNodes (S.node q).instanceNodes numbers) := by
    simp only [rowInst, hnode, hparse]
    rw [if_neg hlen]
  obtain ⟨p, hp, -, hnodes⟩ := rowInst_nodes hS hrow
  generalize zipNodes (S.node q).instanceNodes numbers = t at *
  by_cases hne : t = []
  · rw [instVectorAdd, if_pos hne]
    refine ⟨fun t' => ?_, fun _ h => h, fun _ _ h => h, rfl, rfl, hok⟩
    rw [hrow, hne]
    refine ⟨.inl, fun h => h.resolve_right ?_⟩
    rintro ⟨h, hnot⟩
    exact hnot (Option.some.inj h).symm
  · obtain ⟨node, hinst⟩ := instance_of_nodes hS hp hnodes hne
    refine wp_instVectorAdd hne (fun h => absurd (hinst.topNode_table hS) h) ?_
    refine ⟨fun t' => ?_, fun key => ?_, fun key _ => ?_, ?_, addHeld_curTransaction,
      hok.addHeld hinst⟩
    rotate_left
    · rw [HasRow, addHeld_db]
      exact id
    · rw [HasRow, HasRow, addHeld_db]
      exact id
    · rw [addHeld_db]
    rw [held_addHeld, hrow]
    refine or_congr_right ⟨?_, fun h => (Option.some.inj h.1).symm⟩
    rintro rfl
    exact ⟨rfl, hne⟩

theorem readDataModelInstanceNumbers_spec (hS : SchemaOk limit S) (hok : StateOk S a)
    (removeUnknownParams : Bool) :
    Wp T (readDataModelInstanceNumbers S W removeUnknownParams) a
      (fun _ a' => Registered S a a' fun t =>
        ∃ row ∈ a.db.rows, rowInst S row.1 = some t ∧ t ≠ []) (fun _ _ => False) := by
  simp only [readDataModelInstanceNumbers, wp_bind, wp_read]
  let I : List (Key × Str) → State → Prop := fun rest b => ∃ done, a.db.rows = done ++ rest ∧
    Registered S a b fun t => ∃ row ∈ done, rowInst S row.1 = some t ∧ t ≠ []
  have hloop := wp_forEach (T := T) (I := I) (E := fun _ _ => False)
    (f := readRow S W removeUnknownParams) (fun row rest b hI => ?_) a.db.rows a
    ⟨[], rfl, by simp, fun _ h => h, fun _ _ h => h, rfl, rfl, hok⟩
  · refine hloop.mono (fun _ b hI => ?_) fun _ _ h => h
    obtain ⟨done, hrows, h⟩ := hI
    rw [List.append_nil] at hrows
    rw [hrows]
    exact h
  · obtain ⟨done, hrows, h⟩ := hI
    have hnext : ∀ c, (∀ t, Held c t ↔ Held b t ∨ rowInst S row.1 = some t ∧ t ≠ []) →
        (∀ key, HasRow c key → HasRow b key) →
        (∀ key, rowInst S key ≠ none → HasRow b key → HasRow c key) →
        c.db.saved = b.db.saved → c.curTransaction = b.curTransaction → StateOk S c →
        I rest c := by
      intro c hheld hless hkept hsaved hlog hc
      refine ⟨done ++ [row], by simp [hrows], fun t => ?_, fun key hk => h.rows key (hless key hk),
        fun key hfits hk => hkept key hfits (h.kept key hfits hk), hsaved.trans h.saved,
        hlog.trans h.log, hc⟩
      rw [hheld, h.held]
      simp [or_and_right, exists_or, or_assoc]
    rw [readRow, wp_bind, wp_attempt]
    refine (addParameterInstances_spec hS h.ok row.1).mono (fun _ c hc => ?_) fun _ c hc => ?_
    · exact hnext c hc.held hc.rows hc.kept hc.saved hc.log hc.ok
    · obtain ⟨hnone, rfl⟩ := hc
      have hsame : ∀ t, Held c t ↔ Held c t ∨ rowInst S row.1 = some t ∧ t ≠ [] := by
        simp [hnone]
      have hok' : ∀ n db, StateOk S { c with calls := n, db := db } := fun n db =>
        ⟨h.ok.held, h.ok.nodup, h.ok.entries⟩
      dsimp only
      split
      · simp only [wp_ignore, databaseDeleteParameter, wp_bind, wp_call]
        split
        · exact hnext _ hsame (fun _ hk => hk) (fun _ _ hk => hk) rfl rfl (hok' _ c.db)
        · refine hnext _ hsame (fun key hk => ?_) (fun key hfits hk => ?_) rfl rfl (hok' _ _)
          · obtain ⟨row', hrow', rfl⟩ := List.mem_map.mp hk
            exact List.mem_map_of_mem (List.mem_filter.mp hrow').1
          · obtain ⟨row', hrow', rfl⟩ := List.mem_map.mp hk
            refine List.mem_map_of_mem (List.mem_filter.mpr ⟨hrow', ?_⟩)
            rw [decide_eq_true_eq]
            intro heq
            exact hfits (heq ▸ hnone)
      · exact hnext c hsame (fun _ hk => hk) (fun _ _ hk => hk) rfl rfl h.ok

theorem freshState_ok (S : DmTree) (rows : List (Key × Str)) (calls : Nat) :
    StateOk S (freshState rows calls) where
  held _ _ ht := absurd ht List.not_mem_nil
  nodup _ := List.nodup_nil
  entries log hlog := by cases hlog

theorem freshState_held (rows : List (Key × Str)) (calls : Nat) (t : DmInstances) :
    ¬ Held (freshState rows calls) t := List.not_mem_nil

theorem bootState_spec (hS : SchemaOk limit S) (rows : List (Key × Str))
    (removeUnknownParams : Bool) :
    StateOk S (bootState S W rows removeUnknownParams) ∧
      (bootState S W rows removeUnknownParams).curTransaction = none ∧
      ∀ t, Held (bootState S W rows removeUnknownParams) t ↔
        ∃ row ∈ rows, rowInst S row.1 = some t ∧ t ≠ [] := by
  have hspec := (readDataModelInstanceNumbers_spec (T := False) (W := W) hS
    (freshState_ok S rows 0) removeUnknownParams).and_after
  obtain ⟨r, b, hrun⟩ := hspec.exists_run
  obtain ⟨hok, herr⟩ := hspec.of_run hrun
  cases r with
  | error e => exact (herr e rfl).1.elim
  | ok u =>
    obtain ⟨h, rfl⟩ := hok u rfl
    exact ⟨h.ok, h.log, fun t => (h.held t).trans (or_iff_right (freshState_held rows 0 t))⟩

theorem closed_of_rows {rows : List (Key × Str)} (hrows : RowsUnderParents S rows)
    (hheld : ∀ t, Held a t ↔ ∃ row ∈ rows, rowInst S row.1 = some t ∧ t ≠ []) : Closed a := by
  refine prefixClosed_of_dropLast fun t ht => ?_
  by_cases hnil : t.dropLast = []
  · exact .inl hnil
  · obtain ⟨row, hrow, hinst, -⟩ := (hheld t).mp ht
    obtain ⟨row', hrow', hparent⟩ := (hrows row hrow t hinst).resolve_left hnil
    exact .inr ((hheld _).mpr ⟨row', hrow', hparent, hnil⟩)

theorem restart_spec (hS : SchemaOk limit S) (removeUnknownParams : Bool) :
    Wp T (restart S W removeUnknownParams) a
      (fun _ b => Registered S (freshState a.db.rollback.rows a.calls) b fun t =>
        ∃ row ∈ a.db.rollback.rows, rowInst S row.1 = some t ∧ t ≠ []) (fun _ _ => False) := by
  rw [restart, wp_bind, wp_update]
  exact readDataModelInstanceNumbers_spec hS (freshState_ok S _ _) removeUnknownParams

end Boot

end BootInstances
