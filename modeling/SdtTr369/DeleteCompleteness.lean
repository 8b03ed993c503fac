import SdtTr369.Deletion

/-!
# When a deletion leaves nothing behind

A row can be stored under any path that the codec accepts. A successful
`DATA_MODEL_DeleteInstance` takes away every tuple at or below the instance, and
nothing elsewhere; it takes away every row there exactly when each of them is of
a stored type and belongs to a registered instance (`deletesCleanly_iff`).
-/

namespace DeleteCompleteness

open UspTypes Schema SchemaInvariant PathCodec PathRoundTrip EffectProgram Agent InstVector DmTrans
open DataModel InstanceTree HeldInstances Deletion

/-- `key` is that of a parameter `m` with the instances `t`, at or below `inst`. -/
structure ParamAt (S : DmTree) (inst : DmInstances) (key : Key) (m : NodeId) (t : DmInstances) :
    Prop where
  lt : m < S.nodes.length
  param : isParam (S.node m).type = true
  nodes : t.map Prod.fst = (S.node m).instanceNodes
  below : inst <+: t
  key_eq : key = rowKey S m t

/-- Deleting `inst` from `b` to `a'` left nothing at or below it and changed
nothing else. -/
structure DeletedCleanly (S : DmTree) (b a' : State) (inst : DmInstances) : Prop where
  instances : ∀ top, ∀ t ∈ a'.instVector top, ¬ inst <+: t
  rows : ∀ row ∈ a'.db.rows, ∀ m t, ¬ ParamAt S inst row.1 m t
  otherInstances : ∀ t, SettledAt S b (topNode t) → ¬ inst <+: t → (Held a' t ↔ Held b t)
  otherRows : ∀ row, (∀ m t, ¬ ParamAt S inst row.1 m t) →
    (row ∈ a'.db.rows ↔ row ∈ b.db.rows)

/-- Every row at or below `inst` is of a stored type and its instance is registered. -/
def RowsRegistered (S : DmTree) (b : State) (inst : DmInstances) : Prop :=
  ∀ row ∈ b.db.rows, ∀ m t, ParamAt S inst row.1 m t →
    isStoredParam (S.node m).type = true ∧ (t = inst ∨ Known b t)

section Rows

variable {limit : Nat} {S : DmTree}

theorem rowKey_inj (hS : SchemaOk limit S) {m m' : NodeId} {t t' : DmInstances}
    (hm : m < S.nodes.length) (hm' : m' < S.nodes.length)
    (ht : t.map Prod.fst = (S.node m).instanceNodes)
    (ht' : t'.map Prod.fst = (S.node m').instanceNodes) (h : rowKey S m t = rowKey S m' t') :
    m = m' ∧ t = t' := by
  obtain ⟨hhash, hstring⟩ := Prod.mk.inj h
  have hmm := hS.hash_inj m hm m' hm' hhash
  subst hmm
  refine ⟨rfl, ?_⟩
  rw [← zipNodes_instances ht, ← zipNodes_instances ht', formInstanceString_inj hstring]

theorem param_parent (hS : SchemaOk limit S) {m : NodeId} {t : DmInstances}
    (hm : m < S.nodes.length) (hobj : isObject (S.node m).type = false)
    (ht : t.map Prod.fst = (S.node m).instanceNodes) (hne : t ≠ []) :
    ∃ o < S.nodes.length, m ∈ (S.node o).childNodes ∧ isObject (S.node o).type = true ∧
      t.map Prod.fst = (S.node o).instanceNodes := by
  rcases node_cases hS hm with hroot | ⟨o, -, ho, hc⟩
  · rw [hroot, List.map_eq_nil_iff] at ht
    exact absurd ht hne
  · refine ⟨o, ho, hc, hS.parent_object o ho m hc, ?_⟩
    rw [ht, instanceNodes_other hS ho hc]
    intro htable
    rw [htable] at hobj
    cases hobj

theorem reaches_known {known : DmInstances → Prop} {x y : NodeId × DmInstances}
    (h : Reaches S known x y) : y.2 = x.2 ∨ known y.2 := by
  induction h with
  | refl => exact .inl rfl
  | tail _ hstep ih =>
    cases hstep with
    | object _ _ => exact ih
    | table _ _ hk => exact .inr hk

/-- The rows that a deletion takes away, in terms of the keys alone. -/
theorem rowBelow_instance (hS : SchemaOk limit S) {known : DmInstances → Prop}
    (hknown : ∀ q t, known t → q <+: t → q ≠ [] → known q) {node : NodeId} {inst : DmInstances}
    (hinst : IsInstance S node inst) (key : Key) :
    RowBelow S known node inst key ↔ ∃ m t, ParamAt S inst key m t ∧
      isStoredParam (S.node m).type = true ∧ (t = inst ∨ known t) := by
  constructor
  · rintro ⟨o, t, m, hreach, hm, hstored, rfl⟩
    obtain ⟨-, ho, hpre, hnodes⟩ := Reaches.facts hS hreach hinst.lt hinst.nodes
    have hobj := isObject_of_isStoredParam hstored
    refine ⟨m, t, ⟨(hS.child_bounds o ho m hm).2, isParam_of_isStoredParam hstored, ?_, hpre, rfl⟩,
      hstored, reaches_known hreach⟩
    rw [instanceNodes_other hS ho hm]
    · exact hnodes
    · intro htable
      rw [htable] at hobj
      cases hobj
  · rintro ⟨m, t, ⟨hm, hparam, ht, hpre, rfl⟩, hstored, hk⟩
    have hne : t ≠ [] := fun h => hinst.ne_nil hS (List.prefix_nil.mp (h ▸ hpre))
    obtain ⟨o, ho, hc, hobj, hnodes⟩ :=
      param_parent hS hm (isObject_of_isParam hparam) ht hne
    exact ⟨o, t, m, descends_of_isPrefix hS hinst hknown o ho hobj t
      hnodes hpre hk, hc, hstored, rfl⟩

end Rows

/-- The instance `inst` was found in the state `b`, in which its table has been
refreshed if that was due. -/
theorem deletesCleanly_iff (rs : List Registration) (hrs : ∀ r ∈ rs, WithinArrays r) (W : World)
    (a b a' : State) (path : Str) (flags : DelFlags) (node : NodeId) (inst : DmInstances)
    (hok : StateOk (registerAll initialTree rs) a)
    (hpath : getQualifiedNode (registerAll initialTree rs) path = some (node, inst, true))
    (htable : ((registerAll initialTree rs).node node).type = .objectMultiInstance)
    (hexists : instVectorIsExist (registerAll initialTree rs) W inst a = some (.ok true, b))
    (hrun : deleteInstance (registerAll initialTree rs) W path flags a = some (.ok (), a')) :
    DeletedCleanly (registerAll initialTree rs) b a' inst ↔
      RowsRegistered (registerAll initialTree rs) b inst := by
  have hS := registered_ok hrs
  generalize registerAll initialTree rs = S at *
  have hinst := getQualifiedNode_instance hS hpath htable
  have hne := hinst.ne_nil hS
  obtain ⟨hb, hsettled, hknown⟩ := ((instVectorIsExist_spec (T := True) hS hok
    fun _ _ => trivial).of_run hexists).1 true rfl
  have hspec := deleteFound_spec (T := True) (W := W) hS (hb.ok hok) (fun _ => trivial) hinst
    (hsettled hne) ((hknown.mp rfl).resolve_left hne) path flags
  have hsplit : Wp True (deleteInstance S W path flags) a
      (fun _ a' => RemovesInstance S b a' node inst) (fun _ _ => True) := by
    unfold deleteInstance
    simp only [hpath, Bool.true_eq_false, ↓reduceIte]
    rw [wp_bind_of_run hexists]
    simp only [↓reduceIte, htable, ne_eq, not_true_eq_false]
    exact hspec.mono (fun _ _ h => h) fun _ _ _ => trivial
  obtain ⟨ts, ks, dts, hp, -, hts, hks⟩ := (hsplit.of_run hrun).1 () rfl
  have hrow : ∀ row, row ∈ a'.db.rows ↔ row ∈ b.db.rows ∧ row.1 ∉ ks := by
    intro row
    rw [hp.rows, List.mem_filter]
    simp
  have hgone : ∀ t, t ∈ ts → inst <+: t := by
    intro t ht
    rcases (hts t).mp ht with rfl | h
    · exact List.prefix_rfl
    · obtain ⟨c, n, r, -, rfl⟩ := h.grows
      exact List.prefix_append ..
  have hkey : ∀ key, key ∈ ks ↔ ∃ m t, ParamAt S inst key m t ∧
      isStoredParam (S.node m).type = true ∧ (t = inst ∨ Known b t) := fun key =>
    (hks key).trans (rowBelow_instance hS (fun _ _ h hpre _ => h.of_isPrefix hpre) hinst key)
  constructor
  · intro hclean row hmem m t hparam
    have hks : row.1 ∈ ks := by
      by_contra hnot
      exact hclean.rows row ((hrow row).mpr ⟨hmem, hnot⟩) m t hparam
    obtain ⟨m', t', hparam', hstored, hk⟩ := (hkey _).mp hks
    obtain ⟨rfl, rfl⟩ := rowKey_inj hS hparam.lt hparam'.lt hparam.nodes hparam'.nodes
      (hparam.key_eq.symm.trans hparam'.key_eq)
    exact ⟨hstored, hk⟩
  · intro hreg
    refine ⟨fun top t hmem hpre => ?_, fun row hmem m t hparam => ?_, fun t hs hnot => ?_,
      fun row hnot => ?_⟩
    · have ht : Held a' t := by
        rw [Held, (hp.ok.held top t hmem).1]
        exact hmem
      rw [hp.held t (topNode_of_isPrefix hpre hne ▸ hsettled hne)] at ht
      refine ht.2 ((hts t).mpr ?_)
      by_cases heq : t = inst
      · exact .inl heq
      · obtain ⟨q, hq⟩ := (hb.ok hok).instance ht.1
        exact .inr (tupleBelow_of_isPrefix hS hinst (fun _ _ h hpre _ => h.of_isPrefix hpre) hq hpre
          heq ht.1.known)
    · obtain ⟨hmem, hnot⟩ := (hrow row).mp hmem
      exact hnot ((hkey _).mpr ⟨m, t, hparam, hreg row hmem m t hparam⟩)
    · rw [hp.held t hs]
      exact ⟨fun h => h.1, fun h => ⟨h, fun hmem => hnot (hgone t hmem)⟩⟩
    · rw [hrow]
      refine ⟨fun h => h.1, fun h => ⟨h, fun hmem => ?_⟩⟩
      obtain ⟨m, t, hparam, -⟩ := (hkey _).mp hmem
      exact hnot m t hparam

/-- The two nested instances in a transaction, with the row of the inner one. -/
def nestedState : State :=
  { nestedInstances with
    db := ⟨[(rowKey (registerAll initialTree nestedTables) 4 [(2, 1), (3, 4)], ['x'])], some []⟩
    curTransaction := some [] }

theorem nestedState_ok : StateOk (registerAll initialTree nestedTables) nestedState where
  held := nestedInstances_ok.held
  nodup := nestedInstances_ok.nodup
  entries log hlog := by
    cases hlog
    simp

theorem deletesCleanly_nested :
    DeletedCleanly (registerAll initialTree nestedTables)
      (Prog.after (instVectorIsExist (registerAll initialTree nestedTables) quietWorld [(2, 1)])
        nestedState)
      (Prog.after (deleteInstance (registerAll initialTree nestedTables) quietWorld
        "Device.A.1".toList {}) nestedState) [(2, 1)] := by
  refine (deletesCleanly_iff nestedTables nestedTables_within quietWorld nestedState _ _
    "Device.A.1".toList {} 2 [(2, 1)] nestedState_ok (by decide +kernel) (by decide +kernel)
    (Prog.run_eq (by decide +kernel)) (Prog.run_eq (by decide +kernel))).mpr ?_
  intro row hrow m t hparam
  have hrows : (Prog.after (instVectorIsExist (registerAll initialTree nestedTables) quietWorld
      [(2, 1)]) nestedState).db.rows =
        [(rowKey (registerAll initialTree nestedTables) 4 [(2, 1), (3, 4)], ['x'])] := by
    decide
  rw [hrows, List.mem_singleton] at hrow
  subst hrow
  obtain ⟨rfl, rfl⟩ := rowKey_inj (registered_ok nestedTables_within) (by decide) hparam.lt
    (by decide) hparam.nodes hparam.key_eq
  refine ⟨by decide, .inr ⟨[(2, 1), (3, 4)], ?_, List.prefix_rfl⟩⟩
  unfold Held
  decide

/-- `SK_TR369_SetDBParam` for an instance that is not registered, and then the
registration of its parent. -/
def storeUnregistered (S : DmTree) (W : World) : Op Unit := do
  setParameterInDatabase S W "Device.A.1.B.7.P".toList ['x']
  transStart S W
  let _ ← addInstance S W "Device.A.1".toList false {}

theorem unregistered_row_survives :
    let S := registerAll initialTree nestedTables
    let a := Prog.after (storeUnregistered S quietWorld) initialState
    let b := Prog.after (instVectorIsExist S quietWorld [(2, 1)]) a
    Prog.result (storeUnregistered S quietWorld) initialState = some (.ok ()) ∧
      Prog.result (instVectorIsExist S quietWorld [(2, 1)]) a = some (.ok true) ∧
      Prog.result (deleteInstance S quietWorld "Device.A.1".toList {}) a = some (.ok ()) ∧
      ¬ DeletedCleanly S b
        (Prog.after (deleteInstance S quietWorld "Device.A.1".toList {}) a) [(2, 1)] := by
  intro S a b
  refine ⟨by decide +kernel, by decide +kernel, by decide +kernel, fun h => ?_⟩
  refine h.rows (rowKey S 4 [(2, 1), (3, 7)], ['x']) (by decide +kernel) 4 [(2, 1), (3, 7)]
    ⟨by decide, by decide, by decide, ?_, rfl⟩
  exact List.prefix_append [(2, 1)] [(3, 7)]

end DeleteCompleteness
