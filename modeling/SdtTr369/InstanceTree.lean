import SdtTr369.InstVector
import SdtTr369.PathRoundTrip
import Mathlib.Logic.Relation
import Mathlib.Data.List.Nodup

/-!
# Instances in the data-model tree

An instance of a table is a tuple whose nodes are the tables on the way to it.
`Descends` goes from an object instance to its children; what lies below an
instance is what is reached by it (`descends_of_isPrefix`).
-/

namespace InstanceTree

open UspTypes Schema SchemaInvariant PathCodec PathRoundTrip InstVector List

variable {q : NodeId}

section Nodes

variable {limit : Nat} {S : DmTree}

variable {c : NodeId}

section

variable {p : NodeId} (hS : SchemaOk limit S) (hp : p < S.nodes.length)
include hS hp

/-- A node has one parent. -/
theorem parent_unique {p' : NodeId} (hp' : p' < S.nodes.length) (hc : c ∈ (S.node p).childNodes)
    (hc' : c ∈ (S.node p').childNodes) : p = p' := by
  apply path_inj hS hp hp'
  have h := hS.child_path p hp c hc
  rw [hS.child_path p' hp' c hc', append_assoc, append_assoc] at h
  exact (append_cancel_right h).symm

theorem childNodes_nodup :
    (S.node p).childNodes.Nodup := List.Nodup.of_map _ (hS.sibling_names p hp)

theorem instanceNodes_table (hc : c ∈ (S.node p).childNodes)
    (hm : (S.node c).type = .objectMultiInstance) :
    (S.node c).instanceNodes = (S.node p).instanceNodes ++ [c] := by
  rw [hS.child_inst p hp c hc, extendInst, if_pos hm]

theorem instanceNodes_other (hc : c ∈ (S.node p).childNodes)
    (hm : (S.node c).type ≠ .objectMultiInstance) :
    (S.node c).instanceNodes = (S.node p).instanceNodes := by
  rw [hS.child_inst p hp c hc, extendInst, if_neg hm]

end

theorem node_cases (hS : SchemaOk limit S) (hq : q < S.nodes.length) :
    (S.node q).instanceNodes = [] ∨ ∃ p < q, p < S.nodes.length ∧ q ∈ (S.node p).childNodes := by
  by_cases h2 : 2 ≤ q
  · obtain ⟨p, hp, hc⟩ := hS.linked q hq h2
    exact .inr ⟨p, (hS.child_bounds p hp q hc).1, hp, hc⟩
  · have hroot : q = 0 ∨ q = 1 :=
      Nat.le_one_iff_eq_zero_or_eq_one.mp (Nat.le_of_lt_succ (Nat.not_le.mp h2))
    rcases hroot with rfl | rfl
    · exact .inl hS.root_insts.1
    · exact .inl hS.root_insts.2

/-- The tables on the way to a node are tables, each with the ones before it as
its own way. -/
theorem instanceNodes_split (hS : SchemaOk limit S) (q : NodeId) (hq : q < S.nodes.length)
    (l₁ l₂ : List NodeId) (c : NodeId) (h : (S.node q).instanceNodes = l₁ ++ c :: l₂) :
    c < S.nodes.length ∧ (S.node c).type = .objectMultiInstance ∧
      (S.node c).instanceNodes = l₁ ++ [c] := by
  induction q using Nat.strongRecOn generalizing l₂ with
  | ind q ih =>
    rcases node_cases hS hq with hroot | ⟨p, hpq, hp, hc⟩
    · rw [hroot] at h
      simp at h
    · by_cases hm : (S.node q).type = .objectMultiInstance
      · rw [instanceNodes_table hS hp hc hm] at h
        cases l₂ using List.reverseRecOn with
        | nil =>
          obtain ⟨hl, hcq⟩ := append_inj' h rfl
          cases hcq
          exact ⟨hq, hm, by rw [instanceNodes_table hS hp hc hm, hl]⟩
        | append_singleton l₂ x _ =>
          rw [← cons_append, ← append_assoc] at h
          exact ih p hpq hp l₂ (append_inj' h rfl).1
      · rw [instanceNodes_other hS hp hc hm] at h
        exact ih p hpq hp l₂ h

theorem table_instanceNodes (hS : SchemaOk limit S) (hq : q < S.nodes.length)
    (hm : (S.node q).type = .objectMultiInstance) : ∃ l, (S.node q).instanceNodes = l ++ [q] := by
  by_cases h2 : 2 ≤ q
  · obtain ⟨p, hp, hc⟩ := hS.linked q hq h2
    exact ⟨_, instanceNodes_table hS hp hc hm⟩
  · have hroot : q = 0 ∨ q = 1 :=
      Nat.le_one_iff_eq_zero_or_eq_one.mp (Nat.le_of_lt_succ (Nat.not_le.mp h2))
    rcases hroot with rfl | rfl
    · rw [hS.root_types.1] at hm
      cases hm
    · rw [hS.root_types.2] at hm
      cases hm

theorem table_inj (hS : SchemaOk limit S) {q' : NodeId} (hq : q < S.nodes.length)
    (hq' : q' < S.nodes.length) (hm : (S.node q).type = .objectMultiInstance)
    (hm' : (S.node q').type = .objectMultiInstance)
    (h : (S.node q).instanceNodes = (S.node q').instanceNodes) : q = q' := by
  obtain ⟨l, hl⟩ := table_instanceNodes hS hq hm
  obtain ⟨l', hl'⟩ := table_instanceNodes hS hq' hm'
  rw [hl, hl'] at h
  exact List.singleton_inj.mp (append_inj' h rfl).2

end Nodes

theorem topNode_of_isPrefix {p t : DmInstances} (h : p <+: t) (hp : p ≠ []) :
    topNode p = topNode t := by
  obtain ⟨r, rfl⟩ := h
  cases p with
  | nil => exact absurd rfl hp
  | cons x p => rfl

/-- `t` is an instance of the table `node`. -/
structure IsInstance (S : DmTree) (node : NodeId) (t : DmInstances) : Prop where
  lt : node < S.nodes.length
  table : (S.node node).type = .objectMultiInstance
  nodes : t.map Prod.fst = (S.node node).instanceNodes

section Instances

variable {limit : Nat} {S : DmTree} {node : NodeId} {p t : DmInstances}

section

variable (hS : SchemaOk limit S)
include hS

theorem IsInstance.ne_nil (h : IsInstance S node t) : t ≠ [] := by
  rintro rfl
  obtain ⟨l, hl⟩ := table_instanceNodes hS h.lt h.table
  have := h.nodes
  simp [hl] at this

theorem IsInstance.of_isPrefix (h : IsInstance S node t) (hp : p <+: t) (hne : p ≠ []) :
    ∃ node', IsInstance S node' p := by
  obtain ⟨r, rfl⟩ := hp
  cases p using List.reverseRecOn with
  | nil => exact absurd rfl hne
  | append_singleton p x _ =>
    have hnodes := h.nodes
    rw [map_append, map_append, append_assoc] at hnodes
    obtain ⟨hlt, hm, hinst⟩ := instanceNodes_split hS node h.lt _ _ _ hnodes.symm
    exact ⟨x.1, hlt, hm, by rw [hinst, map_append, map_singleton]⟩

/-- The tuple of a node inside tables is an instance of the innermost one. -/
theorem instance_of_nodes (hq : q < S.nodes.length)
    (h : t.map Prod.fst = (S.node q).instanceNodes) (hne : t ≠ []) :
    ∃ node, IsInstance S node t := by
  cases t using List.reverseRecOn with
  | nil => exact absurd rfl hne
  | append_singleton t x _ =>
    rw [map_append, map_singleton] at h
    obtain ⟨hlt, hm, hnodes⟩ := instanceNodes_split hS q hq (t.map Prod.fst) [] x.1 h.symm
    exact ⟨x.1, hlt, hm, by rw [map_append, map_singleton, hnodes]⟩

theorem topNode_table (hq : q < S.nodes.length)
    (hnodes : t.map Prod.fst <+: (S.node q).instanceNodes) (hne : t ≠ []) :
    (S.node (topNode t)).type = .objectMultiInstance := by
  obtain ⟨r, hr⟩ := hnodes
  cases t with
  | nil => exact absurd rfl hne
  | cons x t => exact (instanceNodes_split hS q hq [] (t.map Prod.fst ++ r) x.1 hr.symm).2.1

theorem IsInstance.topNode_table (h : IsInstance S node t) :
    (S.node (topNode t)).type = .objectMultiInstance :=
  InstanceTree.topNode_table hS h.lt (h.nodes ▸ prefix_rfl) (h.ne_nil hS)

theorem IsInstance.unique {node' : NodeId} (h : IsInstance S node t) (h' : IsInstance S node' t) :
    node = node' :=
  table_inj hS h.lt h'.lt h.table h'.table (h.nodes.symm.trans h'.nodes)

theorem IsInstance.length_le (h : IsInstance S node t) : t.length ≤ limit := by
  have hlen := congrArg List.length h.nodes
  rw [length_map, ← hS.order_eq node h.lt] at hlen
  exact hlen ▸ hS.order_le node h.lt

end

variable {ns : List NodeId} {inst : DmInstances}

theorem zipNodes_fst {ms : List Int} (h : ms.length ≤ ns.length) :
    (zipNodes ns ms).map Prod.fst = ns.take ms.length := by
  induction ms generalizing ns with
  | nil => cases ns <;> rfl
  | cons m ms ih =>
    cases ns with
    | nil => simp at h
    | cons n ns =>
      have ih := ih (Nat.le_of_succ_le_succ h)
      simp [zipNodes, ih]

theorem zipNodes_instances (h : t.map Prod.fst = ns) : zipNodes ns (instances t) = t := by
  subst h
  induction t with
  | nil => rfl
  | cons x t ih =>
    rw [map_cons, instances, map_cons, zipNodes]
    exact congrArg (x :: ·) ih

/-- What `DM_PRIV_GetNodeFromPath` returns with `is_qualified_instance`. -/
theorem getQualifiedNode_spec (hS : SchemaOk limit S) {path : Str} {isQualified : Bool}
    (h : getQualifiedNode S path = some (q, inst, isQualified)) :
    q < S.nodes.length ∧
      (isQualified = true → inst.map Prod.fst = (S.node q).instanceNodes) ∧
      (isQualified = false → (S.node q).type = .objectMultiInstance ∧
        inst.map Prod.fst ++ [q] = (S.node q).instanceNodes) := by
  unfold getQualifiedNode at h
  split at h
  · cases h
  · rename_i id inst' hget
    obtain ⟨hash, -, hfind, hzip⟩ := getNodeFromPath_some hget
    have hlt := findPathNode_lt hS hfind
    have horder := hS.order_eq id hlt
    have hlen : inst'.length = (instances inst').length := by simp [instances]
    have htake : ∀ n, inst'.length = n → n ≤ (S.node id).instanceNodes.length →
        inst'.map Prod.fst = (S.node id).instanceNodes.take n := by
      intro n hn hle
      rw [hzip, zipNodes_fst (by omega)]
      congr 1
      omega
    split at h
    · rename_i hq
      cases h
      refine ⟨hlt, fun _ => ?_, by simp⟩
      rw [htake _ rfl (by omega), hq, horder, take_length]
    · split at h
      · cases h
      · rename_i hm
        split at h
        · rename_i hq
          cases h
          have hm := Decidable.not_not.mp hm
          refine ⟨hlt, by simp, fun _ => ⟨hm, ?_⟩⟩
          obtain ⟨l, hl⟩ := table_instanceNodes hS hlt hm
          have hl' : l.length = inst.length := by
            have := congrArg List.length hl
            simp only [length_append, length_singleton] at this
            omega
          rw [htake _ rfl (by omega), hl, ← hl', take_left]
        · cases h

theorem getQualifiedNode_instance (hS : SchemaOk limit S) {path : Str}
    (h : getQualifiedNode S path = some (q, inst, true))
    (hm : (S.node q).type = .objectMultiInstance) : IsInstance S q inst :=
  ⟨(getQualifiedNode_spec hS h).1, hm, (getQualifiedNode_spec hS h).2.1 rfl⟩

/-- The parent instances of a table, with one more number an instance of it. -/
structure IsTableOf (S : DmTree) (node : NodeId) (parent : DmInstances) : Prop where
  lt : node < S.nodes.length
  table : (S.node node).type = .objectMultiInstance
  nodes : parent.map Prod.fst ++ [node] = (S.node node).instanceNodes

theorem IsTableOf.instance (h : IsTableOf S node p) (n : Int) :
    IsInstance S node (p ++ [(node, n)]) :=
  ⟨h.lt, h.table, by rw [map_append, map_singleton, h.nodes]⟩

theorem IsTableOf.of_child (hS : SchemaOk limit S) (hq : q < S.nodes.length)
    (hnodes : p.map Prod.fst = (S.node q).instanceNodes) (hc : node ∈ (S.node q).childNodes)
    (hm : (S.node node).type = .objectMultiInstance) : IsTableOf S node p :=
  ⟨(hS.child_bounds q hq node hc).2, hm, by rw [instanceNodes_table hS hq hc hm, hnodes]⟩

/-- An instance is its parent with a number of its own. -/
theorem IsInstance.dropLast (hS : SchemaOk limit S) (h : IsInstance S node t) :
    ∃ n, t = t.dropLast ++ [(node, n)] ∧ t.getLast? = some (node, n) ∧
      IsTableOf S node t.dropLast := by
  cases t using List.reverseRecOn with
  | nil => exact absurd rfl (h.ne_nil hS)
  | append_singleton t x _ =>
    obtain ⟨l, hl⟩ := table_instanceNodes hS h.lt h.table
    have hnodes := h.nodes
    rw [hl, map_append, map_singleton] at hnodes
    obtain ⟨hinit, hlast⟩ := append_inj' hnodes rfl
    obtain ⟨x, n⟩ := x
    cases hlast
    refine ⟨n, by simp, by simp, h.lt, h.table, ?_⟩
    rw [dropLast_concat, hinit, hl]

end Instances

/-! ## Going down from an object instance -/

/-- One step down, to a single-instance object or to a known instance of a table. -/
inductive Descends (S : DmTree) (known : DmInstances → Prop) :
    NodeId × DmInstances → NodeId × DmInstances → Prop where
  | object {node child : NodeId} {inst : DmInstances} :
      child ∈ (S.node node).childNodes → (S.node child).type = .objectSingleInstance →
      Descends S known (node, inst) (child, inst)
  | table {node child : NodeId} {inst : DmInstances} {n : Int} :
      child ∈ (S.node node).childNodes → (S.node child).type = .objectMultiInstance →
      known (inst ++ [(child, n)]) → Descends S known (node, inst) (child, inst ++ [(child, n)])

abbrev Reaches (S : DmTree) (known : DmInstances → Prop) :=
  Relation.ReflTransGen (Descends S known)

section Reach

variable {limit : Nat} {S : DmTree} {known : DmInstances → Prop}

variable {x y : NodeId × DmInstances}

theorem Descends.lt (hS : SchemaOk limit S) (h : Descends S known x y) (hx : x.1 < S.nodes.length) :
    x.1 < y.1 ∧ y.1 < S.nodes.length := by
  cases h with
  | object hc _ => exact hS.child_bounds _ hx _ hc
  | table hc _ _ => exact hS.child_bounds _ hx _ hc

theorem Descends.nodes (hS : SchemaOk limit S) (h : Descends S known x y)
    (hx : x.1 < S.nodes.length) (hnodes : x.2.map Prod.fst = (S.node x.1).instanceNodes) :
    y.2.map Prod.fst = (S.node y.1).instanceNodes := by
  cases h with
  | object hc ht =>
    rw [instanceNodes_other hS hx hc (by simp [ht])]
    exact hnodes
  | table hc hm _ =>
    rw [instanceNodes_table hS hx hc hm, map_append, map_singleton]
    exact congrArg (· ++ _) hnodes

/-- From an object instance one stays on its nodes and at or above its index. -/
theorem Reaches.facts (hS : SchemaOk limit S) (h : Reaches S known x y)
    (hx : x.1 < S.nodes.length) (hnodes : x.2.map Prod.fst = (S.node x.1).instanceNodes) :
    x.1 ≤ y.1 ∧ y.1 < S.nodes.length ∧ x.2 <+: y.2 ∧
      y.2.map Prod.fst = (S.node y.1).instanceNodes := by
  induction h with
  | refl => exact ⟨Nat.le_refl _, hx, prefix_rfl, hnodes⟩
  | tail _ hstep ih =>
    obtain ⟨hle, hlt, hpre, hnodes⟩ := ih
    refine ⟨Nat.le_trans hle (Nat.le_of_lt (hstep.lt hS hlt).1), (hstep.lt hS hlt).2, ?_,
      hstep.nodes hS hlt hnodes⟩
    cases hstep with
    | object _ _ => exact hpre
    | table _ _ _ => exact hpre.trans (prefix_append ..)

/-- Every object whose tuple extends that of a table instance lies below it. -/
theorem descends_of_isPrefix (hS : SchemaOk limit S) {node : NodeId} {p : DmInstances}
    (hp : IsInstance S node p) (hknown : ∀ q t, known t → q <+: t → q ≠ [] → known q)
    (q : NodeId) (hq : q < S.nodes.length) (hobj : isObject (S.node q).type = true)
    (t : DmInstances) (ht : t.map Prod.fst = (S.node q).instanceNodes) (hpt : p <+: t)
    (hk : t = p ∨ known t) : Reaches S known (node, p) (q, t) := by
  induction q using Nat.strongRecOn generalizing t with
  | ind q ih =>
    have hne : t ≠ [] := fun h => hp.ne_nil hS (List.prefix_nil.mp (h ▸ hpt))
    rcases node_cases hS hq with hroot | ⟨o, hoq, ho, hc⟩
    · rw [hroot, map_eq_nil_iff] at ht
      exact absurd ht hne
    · have hoobj : isObject (S.node o).type = true := hS.parent_object o ho q hc
      by_cases hm : (S.node q).type = .objectMultiInstance
      · have htq : IsInstance S q t := ⟨hq, hm, ht⟩
        by_cases heq : t = p
        · subst heq
          rw [htq.unique hS hp]
        · obtain ⟨n, hlast, -, htab⟩ := htq.dropLast hS
          have hdrop : p <+: t.dropLast := by
            rw [hlast] at hpt
            rcases List.prefix_concat_iff.mp hpt with h | h
            · exact absurd (h.trans hlast.symm).symm heq
            · exact h
          have hkt : known t := hk.resolve_left heq
          have hnodes : t.dropLast.map Prod.fst = (S.node o).instanceNodes := by
            have := htab.nodes
            rw [instanceNodes_table hS ho hc hm] at this
            exact (append_inj' this rfl).1
          have hk' : t.dropLast = p ∨ known t.dropLast := by
            by_cases h : t.dropLast = p
            · exact .inl h
            · refine .inr (hknown _ _ hkt (List.dropLast_prefix t) fun hnil => ?_)
              exact hp.ne_nil hS (List.prefix_nil.mp (hnil ▸ hdrop))
          have hup := ih o hoq ho hoobj t.dropLast hnodes hdrop hk'
          rw [hlast] at hkt ⊢
          exact hup.tail (.table hc hm hkt)
      · have hs : (S.node q).type = .objectSingleInstance := by
          cases htype : (S.node q).type <;> simp_all [isObject]
        rw [instanceNodes_other hS ho hc hm] at ht
        exact (ih o hoq ho hoobj t ht hpt hk).tail (.object hc hs)

end Reach

end InstanceTree
