import SdtTr369.Schema

/-!
# What registration keeps of the data-model tree

`SchemaOk` is the invariant of the node table and the hash map taken together.
One registered segment preserves it (`walkSegment_ok`), hence a whole call and
every sequence of calls do. The order of a node is bounded only as far as the
registered paths bound it, since `DM_PRIV_AddSchemaPath` does not check it.
-/

namespace SchemaInvariant

open UspTypes TextUtils Schema List

/-- A name that `ParseSchemaPath` can hand out. -/
def NameOk (name : Str) : Prop := name ≠ [] ∧ '.' ∉ name ∧ isInstanceSegment name = false

def ParamsFirst (S : DmTree) (siblings : List NodeId) : Prop :=
  ∃ ps os, siblings = ps ++ os ∧ (∀ c ∈ ps, isObject (S.node c).type = false) ∧
    ∀ c ∈ os, isObject (S.node c).type = true

/-- `limit` bounds the orders; the source has no such bound of its own. -/
structure SchemaOk (limit : Nat) (S : DmTree) : Prop where
  roots_exist : 2 ≤ S.nodes.length
  root_paths : (S.node 0).path = deviceNodeName ∧ (S.node 1).path = internalNodeName
  root_names : (S.node 0).name = deviceNodeName ∧ (S.node 1).name = internalNodeName
  root_insts : (S.node 0).instanceNodes = [] ∧ (S.node 1).instanceNodes = []
  root_types : (S.node 0).type = .objectSingleInstance ∧ (S.node 1).type = .objectSingleInstance
  hash_eq : ∀ id < S.nodes.length, (S.node id).hash = calcHash (S.node id).path
  bucket_complete : ∀ id < S.nodes.length, id ∈ S.nodeMap (squashedHash (S.node id).hash)
  bucket_sound : ∀ b, ∀ id ∈ S.nodeMap b, id < S.nodes.length
  hash_inj : ∀ id < S.nodes.length, ∀ id' < S.nodes.length,
    (S.node id).hash = (S.node id').hash → id = id'
  child_bounds : ∀ p < S.nodes.length, ∀ c ∈ (S.node p).childNodes, p < c ∧ c < S.nodes.length
  child_name : ∀ p < S.nodes.length, ∀ c ∈ (S.node p).childNodes, NameOk (S.node c).name
  child_path : ∀ p < S.nodes.length, ∀ c ∈ (S.node p).childNodes,
    (S.node c).path = (S.node p).path ++ '.' :: (S.node c).name ++ separator (S.node c).type
  child_inst : ∀ p < S.nodes.length, ∀ c ∈ (S.node p).childNodes,
    (S.node c).instanceNodes = extendInst (S.node p).instanceNodes (S.node c).type c
  parent_object : ∀ p < S.nodes.length, ∀ c ∈ (S.node p).childNodes,
    isObject (S.node p).type = true
  sibling_names : ∀ p < S.nodes.length, ((S.node p).childNodes.map fun c => (S.node c).name).Nodup
  params_first : ∀ p < S.nodes.length, ParamsFirst S (S.node p).childNodes
  order_eq : ∀ id < S.nodes.length, (S.node id).order = (S.node id).instanceNodes.length
  order_le : ∀ id < S.nodes.length, (S.node id).order ≤ limit
  linked : ∀ id < S.nodes.length, 2 ≤ id → ∃ p < S.nodes.length, id ∈ (S.node p).childNodes

variable {hash : UInt32} {id child : NodeId} {name path : Str} (type : NodeType) {seg : Segment}
  {segments : List Segment}

variable {bucket : List NodeId} (init : List Segment) (last : Segment) {out : List Segment}
  {strings : List Str} {r : Registration} {rs : List Registration}

theorem findInBucket_some {S : DmTree} (h : findInBucket S hash bucket = some id) :
    id ∈ bucket ∧ (S.node id).hash = hash := by
  induction bucket with
  | nil => simp [findInBucket] at h
  | cons x rest ih =>
    simp only [findInBucket] at h
    split at h
    · cases h
      exact ⟨mem_cons_self, by assumption⟩
    · exact ⟨mem_cons_of_mem _ (ih h).1, (ih h).2⟩

theorem findInBucket_none {S : DmTree} (h : findInBucket S hash bucket = none) :
    ∀ id ∈ bucket, (S.node id).hash ≠ hash := by
  induction bucket with
  | nil => simp
  | cons x rest ih =>
    simp only [findInBucket] at h
    split at h
    · cases h
    · intro id hid
      rcases List.mem_cons.mp hid with rfl | hid
      · assumption
      · exact ih h id hid

section Lookup

variable {limit : Nat} {S : DmTree}

theorem findNodeFromHash_some (hS : SchemaOk limit S) :
    findNodeFromHash S hash = some id ↔ id < S.nodes.length ∧ (S.node id).hash = hash := by
  constructor
  · intro h
    have hb := findInBucket_some h
    exact ⟨hS.bucket_sound _ id hb.1, hb.2⟩
  · rintro ⟨hlt, rfl⟩
    have hmem := hS.bucket_complete id hlt
    cases hf : findNodeFromHash S (S.node id).hash with
    | none => exact absurd rfl (findInBucket_none hf id hmem)
    | some id' =>
      have hb := findInBucket_some hf
      rw [hS.hash_inj id' (hS.bucket_sound _ id' hb.1) id hlt hb.2]

theorem findNodeFromHash_none (hS : SchemaOk limit S) :
    findNodeFromHash S hash = none ↔ ∀ id < S.nodes.length, (S.node id).hash ≠ hash := by
  rw [Option.eq_none_iff_forall_ne_some]
  simp only [ne_eq, findNodeFromHash_some hS, not_and]

/-- Every node of the table is found under the hash of its own path. -/
theorem find_own_path (hS : SchemaOk limit S) (h : id < S.nodes.length) :
    findNodeFromHash S (calcHash (S.node id).path) = some id :=
  (findNodeFromHash_some hS).mpr ⟨h, hS.hash_eq id h⟩

theorem path_inj (hS : SchemaOk limit S) {id' : NodeId} (h : id < S.nodes.length)
    (h' : id' < S.nodes.length) (hp : (S.node id).path = (S.node id').path) : id = id' := by
  refine hS.hash_inj id h id' h' ?_
  rw [hS.hash_eq id h, hS.hash_eq id' h', hp]

variable {parent : NodeId}

theorem findMatchingChild_some (h : findMatchingChild S parent name = some child) :
    child ∈ (S.node parent).childNodes ∧ (S.node child).name = name := by
  refine ⟨mem_of_find?_eq_some h, ?_⟩
  simpa using find?_some h

theorem findMatchingChild_none (h : findMatchingChild S parent name = none) :
    ∀ c ∈ (S.node parent).childNodes, (S.node c).name ≠ name := by
  simpa [findMatchingChild] using h

end Lookup

/-! ## The segments that a path is split into -/

theorem dot_not_mem_segment (l : Str) : ∀ s ∈ l.splitOn '.', '.' ∉ s := by
  induction l with
  | nil => simp
  | cons c l ih =>
    intro s hs
    rw [splitOn_cons_eq_if_modifyHead] at hs
    split at hs
    · rcases List.mem_cons.mp hs with rfl | hs
      · simp
      · exact ih s hs
    · rename_i hc
      cases hl : l.splitOn '.' with
      | nil => simp [hl] at hs
      | cons x xs =>
        rw [hl] at ih hs
        rcases List.mem_cons.mp hs with rfl | hs
        · intro hdot
          rcases List.mem_cons.mp hdot with rfl | hdot
          · exact hc (beq_self_eq_true _)
          · exact ih x mem_cons_self hdot
        · exact ih s (mem_cons_of_mem _ hs)

theorem pathSegments_ok (path : Str) : ∀ s ∈ pathSegments path, s ≠ [] ∧ '.' ∉ s := by
  intro s hs
  simp only [pathSegments, mem_filter, decide_eq_true_eq] at hs
  exact ⟨hs.2, dot_not_mem_segment _ s hs.1⟩

theorem markLast_concat :
    markLast (init ++ [last]) = init ++ [{ last with type := .objectMultiInstance }] := by
  induction init with
  | nil => rfl
  | cons first init ih =>
    cases init with
    | nil => rfl
    | cons second init => exact congrArg (first :: ·) ih

theorem setLastType_concat :
    setLastType type (init ++ [last]) = init ++ [{ last with type := type }] := by
  induction init with
  | nil => rfl
  | cons first init ih =>
    cases init with
    | nil => rfl
    | cons second init => exact congrArg (first :: ·) ih

theorem mem_retyped {init : List Segment} {last : Segment} {type : NodeType}
    (h : seg ∈ init ++ [{ last with type := type }]) : ∃ s ∈ init ++ [last], s.name = seg.name := by
  rcases List.mem_append.mp h with h | h
  · exact ⟨seg, mem_append_left _ h, rfl⟩
  · exact ⟨last, mem_concat_self, by rw [List.mem_singleton.mp h]⟩

theorem mem_markLast (h : seg ∈ markLast segments) : ∃ s ∈ segments, s.name = seg.name := by
  rcases segments.eq_nil_or_concat' with rfl | ⟨init, last, rfl⟩
  · cases h
  · exact mem_retyped (markLast_concat init last ▸ h)

theorem mem_setLastType {type : NodeType} (h : seg ∈ setLastType type segments) :
    ∃ s ∈ segments, s.name = seg.name := by
  rcases segments.eq_nil_or_concat' with rfl | ⟨init, last, rfl⟩
  · cases h
  · exact mem_retyped (setLastType_concat type init last ▸ h)

theorem markLast_objects (h : ∀ s ∈ segments, isObject s.type = true) :
    ∀ s ∈ markLast segments, isObject s.type = true := by
  intro seg hseg
  rcases segments.eq_nil_or_concat' with rfl | ⟨init, last, rfl⟩
  · cases hseg
  · rw [markLast_concat] at hseg
    rcases List.mem_append.mp hseg with hseg | hseg
    · exact h _ (mem_append_left _ hseg)
    · rw [List.mem_singleton.mp hseg]
      rfl

theorem scanSegments_cons (segments : List Segment) (s : Str) (rest : List Str) :
    scanSegments segments (s :: rest) =
      if isInstanceSegment s then scanSegments (markLast segments) rest
      else if segments.length = maxPathSegments then none
      else scanSegments (segments ++ [⟨s, .objectSingleInstance⟩]) rest := rfl

theorem scanSegments_objects (hseg : ∀ s ∈ segments, isObject s.type = true)
    (h : scanSegments segments strings = some out) : ∀ s ∈ out, isObject s.type = true := by
  induction strings generalizing segments with
  | nil => cases h; exact hseg
  | cons s rest ih =>
    rw [scanSegments_cons] at h
    split at h
    · exact ih (markLast_objects hseg) h
    · split at h
      · cases h
      · refine ih ?_ h
        intro seg hmem
        rcases List.mem_append.mp hmem with hmem | hmem
        · exact hseg seg hmem
        · rw [List.mem_singleton.mp hmem]
          rfl

theorem setLastType_dropLast (segments : List Segment) :
    (setLastType type segments).dropLast = segments.dropLast := by
  rcases segments.eq_nil_or_concat' with rfl | ⟨init, last, rfl⟩
  · rfl
  · rw [setLastType_concat, dropLast_concat, dropLast_concat]

theorem scanSegments_ok (hseg : ∀ s ∈ segments, NameOk s.name)
    (hstr : ∀ s ∈ strings, s ≠ [] ∧ '.' ∉ s) (h : scanSegments segments strings = some out) :
    ∀ s ∈ out, NameOk s.name := by
  induction strings generalizing segments with
  | nil => cases h; exact hseg
  | cons s rest ih =>
    have hrest : ∀ s' ∈ rest, s' ≠ [] ∧ '.' ∉ s' := fun s' hs' =>
      hstr s' (mem_cons_of_mem _ hs')
    rw [scanSegments_cons] at h
    split at h
    · refine ih ?_ hrest h
      intro seg hmem
      obtain ⟨s', hs', hn⟩ := mem_markLast hmem
      exact hn ▸ hseg s' hs'
    · rename_i hinst
      split at h
      · cases h
      · refine ih ?_ hrest h
        intro seg hmem
        rcases List.mem_append.mp hmem with hmem | hmem
        · exact hseg seg hmem
        · rw [List.mem_singleton.mp hmem]
          have hs := hstr s mem_cons_self
          exact ⟨hs.1, hs.2, by simpa using hinst⟩

theorem parseSchemaPath_ok {type : NodeType} (h : parseSchemaPath path type = some segments) :
    ∀ s ∈ segments, NameOk s.name := by
  obtain ⟨out, hout, rfl⟩ := Option.map_eq_some_iff.mp h
  have hok := scanSegments_ok (by simp) (pathSegments_ok path) hout
  split
  · exact hok
  · intro seg hmem
    obtain ⟨s', hs', hn⟩ := mem_setLastType hmem
    exact hn ▸ hok s' hs'

/-- Only the last segment can be anything but an object. -/
theorem parseSchemaPath_objects {type : NodeType} (h : parseSchemaPath path type = some segments) :
    ∀ s ∈ segments.dropLast, isObject s.type = true := by
  obtain ⟨out, hout, rfl⟩ := Option.map_eq_some_iff.mp h
  have hobj := scanSegments_objects (by simp) hout
  intro s hs
  split at hs
  · exact hobj s (mem_of_mem_dropLast hs)
  · rw [setLastType_dropLast] at hs
    exact hobj s (mem_of_mem_dropLast hs)

/-! ## One segment -/

section Step

variable {limit : Nat}

/-- The walk stands at a node of the table, on its path and with its instance
nodes. -/
structure WalkOk (limit : Nat) (w : Walk) : Prop where
  tree : SchemaOk limit w.tree
  parent_lt : w.parent < w.tree.nodes.length
  path : w.schemaPath = (w.tree.node w.parent).path
  inst : w.inst = (w.tree.node w.parent).instanceNodes

def newNode (seg : Segment) (path : Str) (inst : List NodeId) : DmNode :=
  ⟨seg.name, path, calcHash path, seg.type, [], inst.length, inst, {}⟩

theorem pushNode_node_of_lt {S : DmTree} {n : DmNode} (h : id < S.nodes.length) :
    (pushNode S n).node id = S.node id := by
  simp [DmTree.node, pushNode, getElem?_append_left h]

@[simp] theorem pushNode_node_self (S : DmTree) (n : DmNode) :
    (pushNode S n).node S.nodes.length = n := by
  simp [DmTree.node, pushNode]

@[simp] theorem pushNode_length (S : DmTree) (n : DmNode) :
    (pushNode S n).nodes.length = S.nodes.length + 1 := by simp [pushNode]

/-- The node table after a push, an update of the parent and one of the new
node. -/
theorem pushed_node {S : DmTree} {n : DmNode} {p : NodeId} {f g : DmNode → DmNode}
    (hp : p < S.nodes.length) (hid : id ≤ S.nodes.length) :
    (((pushNode S n).modifyNode p f).modifyNode S.nodes.length g).node id =
      if id = S.nodes.length then g n else if id = p then f (S.node p) else S.node id := by
  have hlen : id < (pushNode S n).nodes.length := by
    rw [pushNode_length]
    exact Nat.lt_succ_of_le hid
  rw [modifyNode_node _ _ _ _ (by simpa using hlen), modifyNode_node _ _ _ _ hlen]
  by_cases hnew : id = S.nodes.length
  · have hne : p ≠ S.nodes.length := Nat.ne_of_lt hp
    simp [hnew, hne]
  · have hold : id < S.nodes.length := Nat.lt_of_le_of_ne hid hnew
    rw [pushNode_node_of_lt hold, if_neg (Ne.symm hnew), if_neg hnew]
    by_cases hpar : id = p
    · simp [hpar]
    · rw [if_neg (Ne.symm hpar), if_neg hpar]

variable {siblings : List NodeId} {w w' : Walk} {isLast : Bool} {flags : SchemaFlags}

theorem linkChild_congr {S S' : DmTree} (child : NodeId)
    (h : ∀ c ∈ siblings, (S'.node c).type = (S.node c).type) :
    linkChild S' siblings type child = linkChild S siblings type child := by
  have hwhile : ∀ l : List NodeId, (∀ c ∈ l, (S'.node c).type = (S.node c).type) →
      l.takeWhile (fun n => !isObject (S'.node n).type) =
        l.takeWhile (fun n => !isObject (S.node n).type) ∧
      l.dropWhile (fun n => !isObject (S'.node n).type) =
        l.dropWhile (fun n => !isObject (S.node n).type) := by
    intro l hl
    induction l with
    | nil => simp
    | cons c l ih =>
      obtain ⟨h₁, h₂⟩ := ih fun c' hc' => hl c' (mem_cons_of_mem _ hc')
      simp only [takeWhile_cons, dropWhile_cons, hl c mem_cons_self, h₁, h₂,
        and_self]
  simp only [linkChild, hwhile siblings h]

/-- Everything that adding a node changes. -/
theorem addChild_spec (hw : WalkOk limit w) (h : addChild w seg isLast path = some w') :
    findNodeFromHash w.tree (calcHash path) = none ∧
    w'.parent = w.tree.nodes.length ∧ w'.schemaPath = path ∧
    w'.inst = extendInst w.inst seg.type w.tree.nodes.length ∧
    w'.tree.nodes.length = w.tree.nodes.length + 1 ∧
    (∀ id < w.tree.nodes.length, id ≠ w.parent → w'.tree.node id = w.tree.node id) ∧
    w'.tree.node w.parent = { w.tree.node w.parent with
      childNodes := linkChild w.tree (w.tree.node w.parent).childNodes seg.type
        w.tree.nodes.length } ∧
    w'.tree.node w.tree.nodes.length = newNode seg path w'.inst ∧
    (∀ b, w'.tree.nodeMap b = if b = squashedHash (calcHash path) then
      w.tree.nodes.length :: w.tree.nodeMap b else w.tree.nodeMap b) := by
  unfold addChild at h
  split at h
  · cases h
  · cases hc : createNode w.tree seg.name seg.type path with
    | none => simp [hc] at h
    | some r =>
      obtain ⟨S, child⟩ := r
      simp only [hc, Option.some.injEq] at h
      simp only [createNode] at hc
      split at hc
      · cases hc
      · rename_i hfind
        simp only [Option.some.injEq, Prod.mk.injEq] at hc
        obtain ⟨rfl, rfl⟩ := hc
        subst h
        have hlt := hw.parent_lt
        have hne : w.parent ≠ w.tree.nodes.length := Nat.ne_of_lt hlt
        have hkept : ∀ n, ∀ c ∈ (w.tree.node w.parent).childNodes,
            ((pushNode w.tree n).node c).type = (w.tree.node c).type := fun n c hc => by
          rw [pushNode_node_of_lt (hw.tree.child_bounds _ hlt c hc).2]
        refine ⟨hfind, rfl, rfl, rfl, by simp, ?_, ?_, ?_, ?_⟩
        · intro id hid hidp
          rw [pushed_node hlt (Nat.le_of_lt hid), if_neg (Nat.ne_of_lt hid), if_neg hidp]
        · rw [pushed_node hlt (Nat.le_of_lt hlt), if_neg hne, if_pos rfl,
            linkChild_congr _ _ (hkept _)]
        · rw [pushed_node hlt (Nat.le_refl _), if_pos rfl]
          rfl
        · intro b
          rfl

theorem linkChild_perm (S : DmTree) (siblings : List NodeId) (type : NodeType) (child : NodeId) :
    (linkChild S siblings type child).Perm (child :: siblings) := by
  unfold linkChild
  split
  · exact perm_append_singleton child siblings
  · refine List.perm_middle.trans ?_
    rw [takeWhile_append_dropWhile]

theorem linkChild_paramsFirst {S : DmTree} {type : NodeType} (htype : (S.node child).type = type)
    (h : ParamsFirst S siblings) : ParamsFirst S (linkChild S siblings type child) := by
  obtain ⟨ps, os, rfl, hps, hos⟩ := h
  have htake : (ps ++ os).takeWhile (fun n => !isObject (S.node n).type) = ps ∧
      (ps ++ os).dropWhile (fun n => !isObject (S.node n).type) = os := by
    induction ps with
    | nil =>
      cases os with
      | nil => simp
      | cons o os => simp [hos o mem_cons_self]
    | cons q ps ih =>
      have hq := hps q mem_cons_self
      have := ih fun c hc => hps c (mem_cons_of_mem _ hc)
      simpa [takeWhile_cons, dropWhile_cons, hq] using this
  unfold linkChild
  split
  · rename_i hobj
    refine ⟨ps, os ++ [child], by simp, hps, ?_⟩
    intro c hc
    rcases List.mem_append.mp hc with hc | hc
    · exact hos c hc
    · rw [List.mem_singleton.mp hc, htype, hobj]
  · rename_i hobj
    refine ⟨ps ++ [child], os, by simp [htake.1, htake.2], ?_, hos⟩
    intro c hc
    rcases List.mem_append.mp hc with hc | hc
    · exact hps c hc
    · rw [List.mem_singleton.mp hc, htype]
      simpa using hobj

theorem paramsFirst_congr {S S' : DmTree} (h : ∀ c ∈ siblings, (S'.node c).type = (S.node c).type)
    (hp : ParamsFirst S siblings) : ParamsFirst S' siblings := by
  obtain ⟨ps, os, rfl, hps, hos⟩ := hp
  refine ⟨ps, os, rfl, ?_, ?_⟩
  · intro c hc
    rw [h c (mem_append_left _ hc), hps c hc]
  · intro c hc
    rw [h c (mem_append_right _ hc), hos c hc]

theorem addChild_ok (hw : WalkOk limit w) (hobj : isObject (w.tree.node w.parent).type = true)
    (hname : NameOk seg.name) (hnone : findMatchingChild w.tree w.parent seg.name = none)
    (hlimit : (extendInst w.inst seg.type w.tree.nodes.length).length ≤ limit)
    (h : addChild w seg isLast (w.schemaPath ++ '.' :: seg.name ++ separator seg.type) = some w') :
    WalkOk limit w' := by
  obtain ⟨hfresh, hparent', hpath', hinst', hlen, hother, hpar, hnew, hmap⟩ := addChild_spec hw h
  obtain ⟨hS, hP, hwpath, hwinst⟩ := hw
  set S := w.tree with hSdef
  set N := S.nodes.length with hN
  set path := w.schemaPath ++ '.' :: seg.name ++ separator seg.type with hpathdef
  have hfresh' := (findNodeFromHash_none hS).mp hfresh
  have hkept : ∀ id < N, w'.tree.node id =
      { S.node id with childNodes := (w'.tree.node id).childNodes } := by
    intro id hid
    by_cases hidp : id = w.parent
    · rw [hidp, hpar]
    · rw [hother id hid hidp]
  have hchildP : ∀ c, c ∈ (w'.tree.node w.parent).childNodes ↔
      c = N ∨ c ∈ (S.node w.parent).childNodes := by
    intro c
    rw [hpar, (linkChild_perm S _ _ _).mem_iff, mem_cons]
  have hchildren : ∀ p < N + 1, ∀ c ∈ (w'.tree.node p).childNodes,
      (p < N ∧ c ∈ (S.node p).childNodes) ∨ (p = w.parent ∧ c = N) := by
    intro p hp c hc
    by_cases hpp : p = w.parent
    · subst hpp
      rcases (hchildP c).mp hc with hc | hc
      · exact .inr ⟨rfl, hc⟩
      · exact .inl ⟨hP, hc⟩
    · rcases Nat.lt_succ_iff_lt_or_eq.mp hp with hp | rfl
      · rw [hother p hp hpp] at hc
        exact .inl ⟨hp, hc⟩
      · simp [hnew, newNode] at hc
  have hcases : ∀ id < N + 1, id < N ∨ id = N := fun id hid => Nat.lt_succ_iff_lt_or_eq.mp hid
  have hold : ∀ {p c}, p < N → c ∈ (S.node p).childNodes → c < N :=
    fun hp hc => (hS.child_bounds _ hp _ hc).2
  have hroots : 0 < N ∧ 1 < N := by
    have := hS.roots_exist
    omega
  refine ⟨?_, by rw [hparent', hlen]; exact Nat.lt_succ_self _, ?_, ?_⟩
  · constructor
    case roots_exist => rw [hlen]; exact Nat.le_succ_of_le hS.roots_exist
    case root_paths =>
      rw [hkept 0 hroots.1, hkept 1 hroots.2]
      exact hS.root_paths
    case root_names =>
      rw [hkept 0 hroots.1, hkept 1 hroots.2]
      exact hS.root_names
    case root_insts =>
      rw [hkept 0 hroots.1, hkept 1 hroots.2]
      exact hS.root_insts
    case root_types =>
      rw [hkept 0 hroots.1, hkept 1 hroots.2]
      exact hS.root_types
    case hash_eq =>
      intro id hid
      rw [hlen] at hid
      rcases hcases id hid with hid | rfl
      · rw [hkept id hid]; exact hS.hash_eq id hid
      · rw [hnew]; rfl
    case bucket_complete =>
      intro id hid
      rw [hlen] at hid
      rw [hmap]
      rcases hcases id hid with hid | rfl
      · rw [hkept id hid]
        have := hS.bucket_complete id hid
        split
        · exact mem_cons_of_mem _ this
        · exact this
      · simp [hnew, newNode]
    case bucket_sound =>
      intro b id hid
      rw [hlen]
      rw [hmap] at hid
      split at hid
      · rcases List.mem_cons.mp hid with rfl | hid
        · exact Nat.lt_succ_self _
        · exact Nat.lt_succ_of_lt (hS.bucket_sound b id hid)
      · exact Nat.lt_succ_of_lt (hS.bucket_sound b id hid)
    case hash_inj =>
      intro id hid id' hid' heq
      rw [hlen] at hid hid'
      rcases hcases id hid with hid | rfl <;> rcases hcases id' hid' with hid' | rfl
      · rw [hkept id hid, hkept id' hid'] at heq
        exact hS.hash_inj id hid id' hid' heq
      · rw [hkept id hid, hnew] at heq
        exact absurd heq (hfresh' id hid)
      · rw [hkept id' hid', hnew] at heq
        exact absurd heq.symm (hfresh' id' hid')
      · rfl
    case child_bounds =>
      intro p hp c hc
      rw [hlen] at hp ⊢
      rcases hchildren p hp c hc with ⟨hp, hc⟩ | ⟨rfl, rfl⟩
      · have := hS.child_bounds p hp c hc
        exact ⟨this.1, Nat.lt_succ_of_lt this.2⟩
      · exact ⟨hP, Nat.lt_succ_self _⟩
    case child_name =>
      intro p hp c hc
      rw [hlen] at hp
      rcases hchildren p hp c hc with ⟨hp, hc⟩ | ⟨rfl, rfl⟩
      · rw [hkept c (hold hp hc)]; exact hS.child_name p hp c hc
      · rw [hnew]; exact hname
    case child_path =>
      intro p hp c hc
      rw [hlen] at hp
      rcases hchildren p hp c hc with ⟨hp, hc⟩ | ⟨rfl, rfl⟩
      · rw [hkept c (hold hp hc), hkept p hp]; exact hS.child_path p hp c hc
      · rw [hnew, hkept w.parent hP]
        simp only [newNode, hpathdef, hwpath]
    case child_inst =>
      intro p hp c hc
      rw [hlen] at hp
      rcases hchildren p hp c hc with ⟨hp, hc⟩ | ⟨rfl, rfl⟩
      · rw [hkept c (hold hp hc), hkept p hp]; exact hS.child_inst p hp c hc
      · rw [hnew, hkept w.parent hP]
        simp only [newNode, hinst', hwinst]
    case parent_object =>
      intro p hp c hc
      rw [hlen] at hp
      rcases hchildren p hp c hc with ⟨hp, hc⟩ | ⟨rfl, rfl⟩
      · rw [hkept p hp]; exact hS.parent_object p hp c hc
      · rw [hkept w.parent hP]; exact hobj
    case sibling_names =>
      intro p hp
      rw [hlen] at hp
      have hmapname : ∀ q < N, (S.node q).childNodes.map (fun c => (w'.tree.node c).name) =
          (S.node q).childNodes.map fun c => (S.node c).name := by
        intro q hq
        refine map_congr_left fun c hc => ?_
        rw [hkept c (hold hq hc)]
      rcases hcases p hp with hp | rfl
      · by_cases hpp : p = w.parent
        · subst hpp
          rw [hpar]
          refine ((linkChild_perm S _ _ _).map _).nodup_iff.mpr ?_
          rw [map_cons, hmapname _ hP, hnew, nodup_cons]
          refine ⟨?_, hS.sibling_names _ hP⟩
          intro hmem
          obtain ⟨c, hc, hn⟩ := List.mem_map.mp hmem
          exact findMatchingChild_none hnone c hc hn
        · rw [hother p hp hpp, hmapname p hp]
          exact hS.sibling_names p hp
      · simp [hnew, newNode]
    case params_first =>
      intro p hp
      rw [hlen] at hp
      have hkeep : ∀ q < N, ParamsFirst w'.tree (S.node q).childNodes := by
        intro q hq
        refine paramsFirst_congr (fun c hc => ?_) (hS.params_first q hq)
        rw [hkept c (hold hq hc)]
      rcases hcases p hp with hp | rfl
      · by_cases hpp : p = w.parent
        · subst hpp
          rw [hpar]
          have ht : ∀ c ∈ (S.node w.parent).childNodes,
              (w'.tree.node c).type = (S.node c).type := fun c hc => by rw [hkept c (hold hP hc)]
          simp only [← linkChild_congr _ _ ht]
          exact linkChild_paramsFirst (by rw [hnew]; rfl) (hkeep _ hP)
        · rw [hother p hp hpp]
          exact hkeep p hp
      · rw [hnew]
        exact ⟨[], [], rfl, by simp, by simp⟩
    case order_eq =>
      intro id hid
      rw [hlen] at hid
      rcases hcases id hid with hid | rfl
      · rw [hkept id hid]; exact hS.order_eq id hid
      · rw [hnew]; rfl
    case order_le =>
      intro id hid
      rw [hlen] at hid
      rcases hcases id hid with hid | rfl
      · rw [hkept id hid]; exact hS.order_le id hid
      · rw [hnew]
        simpa [newNode, hinst'] using hlimit
    case linked =>
      intro id hid h2
      rw [hlen] at hid
      rw [hlen]
      rcases hcases id hid with hid | rfl
      · obtain ⟨p, hp, hc⟩ := hS.linked id hid h2
        refine ⟨p, Nat.lt_succ_of_lt hp, ?_⟩
        by_cases hpp : p = w.parent
        · subst hpp
          exact (hchildP id).mpr (.inr hc)
        · rwa [hother p hp hpp]
      · exact ⟨w.parent, Nat.lt_succ_of_lt hP, (hchildP N).mpr (.inl rfl)⟩
  · rw [hparent', hnew, hpath']; rfl
  · rw [hparent', hnew]; rfl

/-- Entering an existing child keeps the walk on the child's path unless the
type check of the last segment is suppressed, and then the walk ends there. -/
theorem enterChild_ok
    (hw : WalkOk limit w)
    (hsome : findMatchingChild w.tree w.parent seg.name = some child)
    (h : enterChild w seg isLast flags (w.schemaPath ++ '.' :: seg.name ++ separator seg.type)
      child = some w') :
    w'.tree = w.tree ∧ w'.inst = extendInst w.inst seg.type child ∧
      (isLast = false → WalkOk limit w' ∧ (w'.tree.node w'.parent).type = seg.type) := by
  obtain ⟨hS, hP, hpath, hinst⟩ := hw
  obtain ⟨hmem, hn⟩ := findMatchingChild_some hsome
  unfold enterChild at h
  split at h
  · cases h
  · split at h
    · cases h
    · rename_i hcheck
      simp only [Option.ite_none_left_eq_some, Option.some.injEq] at h
      obtain ⟨-, rfl⟩ := h
      refine ⟨rfl, rfl, fun hlast => ?_⟩
      have htype : (w.tree.node child).type = seg.type := by simpa [hlast] using hcheck
      refine ⟨⟨hS, (hS.child_bounds _ hP _ hmem).2, ?_, ?_⟩, htype⟩
      · rw [hS.child_path _ hP _ hmem, hn, htype, hpath]
      · rw [hS.child_inst _ hP _ hmem, htype, hinst]

/-- What one turn of the loop preserves. -/
theorem walkSegment_ok (hw : WalkOk limit w) (hobj : isObject (w.tree.node w.parent).type = true)
    (hname : NameOk seg.name)
    (hlimit : w.inst.length + [seg].countP (·.type = .objectMultiInstance) ≤ limit)
    (h : walkSegment flags w seg isLast = some w') :
    SchemaOk limit w'.tree ∧
      w'.inst.length = w.inst.length + [seg].countP (·.type = .objectMultiInstance) ∧
      (isLast = false → WalkOk limit w' ∧ (w'.tree.node w'.parent).type = seg.type) := by
  have hlength : ∀ child, (extendInst w.inst seg.type child).length =
      w.inst.length + [seg].countP (·.type = .objectMultiInstance) := by
    intro child
    unfold extendInst
    by_cases hmulti : seg.type = .objectMultiInstance <;> simp [hmulti]
  unfold walkSegment at h
  split at h
  · rename_i hnone
    have hok := addChild_ok hw hobj hname hnone (by rw [hlength]; exact hlimit) h
    obtain ⟨-, hparent, -, hinst, -, -, -, hnew, -⟩ := addChild_spec hw h
    refine ⟨hok.tree, by rw [hinst, hlength], fun _ => ⟨hok, ?_⟩⟩
    rw [hparent, hnew]
    rfl
  · rename_i child hsome
    obtain ⟨htree, hinst, hok⟩ := enterChild_ok hw hsome h
    exact ⟨htree ▸ hw.tree, by rw [hinst, hlength], hok⟩

theorem walkSegments_ok (hw : SchemaOk limit w.tree)
    (hwalk : segments ≠ [] → WalkOk limit w ∧ isObject (w.tree.node w.parent).type = true)
    (hnames : ∀ s ∈ segments, NameOk s.name)
    (hobjects : ∀ s ∈ segments.dropLast, isObject s.type = true)
    (hlimit : w.inst.length + segments.countP (·.type = .objectMultiInstance) ≤ limit) :
    SchemaOk limit (walkSegments flags w segments).1 := by
  induction segments generalizing w with
  | nil => exact hw
  | cons seg rest ih =>
    have hcount : (seg :: rest).countP (·.type = .objectMultiInstance) =
        [seg].countP (·.type = .objectMultiInstance) +
          rest.countP (·.type = .objectMultiInstance) := by
      rw [← countP_append, singleton_append]
    rw [walkSegments]
    split
    · exact hw
    · rename_i w' h
      have hparent := hwalk (by simp)
      obtain ⟨htree, hinst, hok⟩ := walkSegment_ok hparent.1 hparent.2
        (hnames seg mem_cons_self) (by omega) h
      refine ih htree (fun hne => ?_) (fun s hs => hnames s (mem_cons_of_mem _ hs))
        (fun s hs => ?_) (by omega)
      · obtain ⟨hwalk', htype⟩ := hok (by simpa using hne)
        refine ⟨hwalk', ?_⟩
        rw [htype]
        apply hobjects
        rw [dropLast_cons_of_ne_nil hne]
        exact mem_cons_self
      · apply hobjects
        have hne : rest ≠ [] := by
          rintro rfl
          simp at hs
        rw [dropLast_cons_of_ne_nil hne]
        exact mem_cons_of_mem _ hs

end Step

/-! ## Whole registrations and sequences of them -/

/-- The number of tables that a registration walks through. -/
def tableCount (r : Registration) : Nat :=
  match parseSchemaPath r.path r.type with
  | none => 0
  | some segments => segments.countP (·.type = .objectMultiInstance)

theorem addSchemaPath_ok {limit : Nat} {S : DmTree} (hS : SchemaOk limit S)
    (hr : tableCount r ≤ limit) : SchemaOk limit (addSchemaPath S r.path r.type r.flags).1 := by
  unfold addSchemaPath
  cases hparse : parseSchemaPath r.path r.type with
  | none => exact hS
  | some segments =>
    cases segments with
    | nil => exact hS
    | cons first rest =>
      have hnames := parseSchemaPath_ok hparse
      have hcount : rest.countP (·.type = .objectMultiInstance) ≤ limit := by
        simp only [tableCount, hparse] at hr
        exact Nat.le_trans (List.Sublist.countP_le (sublist_cons_self first rest)) hr
      have hwalk : ∀ root, root = 0 ∨ root = 1 → first.name = (S.node root).name →
          SchemaOk limit (walkSegments r.flags ⟨S, root, first.name, []⟩ rest).1 := by
        intro root hroot hname
        have h2 := hS.roots_exist
        refine walkSegments_ok hS (fun _ => ⟨⟨hS, ?_, ?_, ?_⟩, ?_⟩)
          (fun s hs => hnames s (mem_cons_of_mem _ hs)) (fun s hs => ?_) (by simpa using hcount)
        · rcases hroot with rfl | rfl
          · exact Nat.lt_of_lt_of_le Nat.zero_lt_two h2
          · exact h2
        · rcases hroot with rfl | rfl
          · rw [hname, hS.root_names.1, hS.root_paths.1]
          · rw [hname, hS.root_names.2, hS.root_paths.2]
        · rcases hroot with rfl | rfl
          · exact hS.root_insts.1.symm
          · exact hS.root_insts.2.symm
        · rcases hroot with rfl | rfl
          · rw [hS.root_types.1]; rfl
          · rw [hS.root_types.2]; rfl
        · apply parseSchemaPath_objects hparse
          have hne : rest ≠ [] := by
            rintro rfl
            simp at hs
          rw [dropLast_cons_of_ne_nil hne]
          exact mem_cons_of_mem _ hs
      simp only
      split
      · rename_i hn
        exact hwalk _ (.inl rfl) hn
      · split
        · rename_i hn
          exact hwalk _ (.inr rfl) hn
        · exact hS

/-- What is attached to a node is no part of the tree. -/
theorem attachInfo_node (S : DmTree) (id id' : NodeId) (f : Registered → Registered) :
    ∃ r, (attachInfo S id f).node id' = { S.node id' with registered := r } := by
  by_cases h : id' < S.nodes.length
  · rw [attachInfo, modifyNode_node S id id' _ h]
    split
    · exact ⟨_, rfl⟩
    · exact ⟨_, rfl⟩
  · refine ⟨(S.node id').registered, ?_⟩
    simp [attachInfo, DmTree.node, DmTree.modifyNode, h]

theorem attachInfo_ok {limit : Nat} {S : DmTree} (hS : SchemaOk limit S) (id : NodeId)
    (f : Registered → Registered) : SchemaOk limit (attachInfo S id f) := by
  have hlen : (attachInfo S id f).nodes.length = S.nodes.length := modifyNode_length S id _
  have hmap : (attachInfo S id f).nodeMap = S.nodeMap := rfl
  choose r hr using attachInfo_node S id (f := f)
  constructor
  case params_first =>
    intro p hp
    simpa only [ParamsFirst, hr] using hS.params_first p (hlen ▸ hp)
  all_goals simp only [hr, hlen, hmap]
  · exact hS.roots_exist
  · exact hS.root_paths
  · exact hS.root_names
  · exact hS.root_insts
  · exact hS.root_types
  · exact hS.hash_eq
  · exact hS.bucket_complete
  · exact hS.bucket_sound
  · exact hS.hash_inj
  · exact hS.child_bounds
  · exact hS.child_name
  · exact hS.child_path
  · exact hS.child_inst
  · exact hS.parent_object
  · exact hS.sibling_names
  · exact hS.order_eq
  · exact hS.order_le
  · exact hS.linked

theorem register_ok {limit : Nat} {S : DmTree} (hS : SchemaOk limit S) (hr : tableCount r ≤ limit) :
    SchemaOk limit (register S r) := by
  have hadd := addSchemaPath_ok hS hr
  unfold register
  split
  · rename_i heq
    rwa [heq] at hadd
  · rename_i heq
    rw [heq] at hadd
    exact attachInfo_ok hadd _ _

theorem initialTree_ok (limit : Nat) : SchemaOk limit initialTree := by
  have hlen : initialTree.nodes.length = 2 := rfl
  have hcases : ∀ id < initialTree.nodes.length, id = 0 ∨ id = 1 := by
    intro id hid
    rw [hlen] at hid
    omega
  have hchild : ∀ p < initialTree.nodes.length, (initialTree.node p).childNodes = [] := by
    intro p hp
    rcases hcases p hp with rfl | rfl <;> rfl
  constructor
  case roots_exist => exact Nat.le_refl 2
  case root_paths => exact ⟨rfl, rfl⟩
  case root_names => exact ⟨rfl, rfl⟩
  case root_insts => exact ⟨rfl, rfl⟩
  case root_types => exact ⟨rfl, rfl⟩
  case hash_eq =>
    intro id hid
    rcases hcases id hid with rfl | rfl <;> rfl
  case bucket_complete =>
    intro id hid
    rcases hcases id hid with rfl | rfl <;> decide
  case bucket_sound =>
    intro b id hid
    have hid' : id = 0 ∨ id = 1 := by
      simp only [initialTree, pushNode, emptyTree] at hid
      split at hid <;> split at hid <;> simp_all [or_comm]
    rcases hid' with rfl | rfl <;> simp [hlen]
  case hash_inj =>
    intro id hid id' hid' heq
    rcases hcases id hid with rfl | rfl <;> rcases hcases id' hid' with rfl | rfl <;>
      first | rfl | (revert heq; decide)
  case child_bounds => intro p hp c hc; simp [hchild p hp] at hc
  case child_name => intro p hp c hc; simp [hchild p hp] at hc
  case child_path => intro p hp c hc; simp [hchild p hp] at hc
  case child_inst => intro p hp c hc; simp [hchild p hp] at hc
  case parent_object => intro p hp c hc; simp [hchild p hp] at hc
  case sibling_names => intro p hp; simp [hchild p hp]
  case params_first => intro p hp; rw [hchild p hp]; exact ⟨[], [], rfl, by simp, by simp⟩
  case order_eq =>
    intro id hid
    rcases hcases id hid with rfl | rfl <;> rfl
  case order_le =>
    intro id hid
    rcases hcases id hid with rfl | rfl <;> exact Nat.zero_le _
  case linked =>
    intro id hid h2
    rcases hcases id hid with rfl | rfl <;> simp at h2

/-- What a run of registrations preserves. -/
theorem registerAll_ok {limit : Nat} {S : DmTree} (hS : SchemaOk limit S)
    (hrs : ∀ r ∈ rs, tableCount r ≤ limit) : SchemaOk limit (registerAll S rs) := by
  induction rs generalizing S with
  | nil => exact hS
  | cons r rs ih =>
    exact ih (register_ok hS (hrs r mem_cons_self))
      fun r' hr' => hrs r' (mem_cons_of_mem _ hr')

/-! ## The tree as it is reached from the roots -/

/-- `TreePath S l id`: the child links lead along `l` from a root to `id`. -/
inductive TreePath (S : DmTree) : List NodeId → NodeId → Prop where
  | device : TreePath S [rootDeviceNode] rootDeviceNode
  | internal : TreePath S [rootInternalNode] rootInternalNode
  | child {l : List NodeId} {p c : NodeId} :
      TreePath S l p → c ∈ (S.node p).childNodes → TreePath S (l ++ [c]) c

def isMulti (S : DmTree) (id : NodeId) : Bool := (S.node id).type = .objectMultiInstance

/-- The number of placeholder segments of a schema path. -/
def placeholders (path : Str) : Nat := (path.splitOn '.').count multiSeparator

/-- What the data-model tree is for: a hash names one node, siblings have their
own names, parameters come first, and a node knows its tables. -/
structure TreeInvariant (S : DmTree) : Prop where
  found : ∀ l id, TreePath S l id →
    (S.node id).hash = calcHash (S.node id).path ∧
      findNodeFromHash S (calcHash (S.node id).path) = some id
  unique : ∀ l id l' id', TreePath S l id → TreePath S l' id' →
    (S.node id').hash = calcHash (S.node id).path → id' = id
  siblings : ∀ l id, TreePath S l id → ((S.node id).childNodes.map fun c => (S.node c).name).Nodup
  paramsFirst : ∀ l id, TreePath S l id → ParamsFirst S (S.node id).childNodes
  order : ∀ l id, TreePath S l id →
    (S.node id).order = placeholders (S.node id).path ∧
      (S.node id).order ≤ maxDmInstanceOrder
  instanceNodes : ∀ l id, TreePath S l id → (S.node id).instanceNodes = l.filter (isMulti S)

section Reach

variable {limit : Nat} {S : DmTree}

variable {l : List NodeId}

theorem TreePath.lt (hS : SchemaOk limit S) (h : TreePath S l id) : id < S.nodes.length := by
  have h2 := hS.roots_exist
  induction h with
  | device => exact Nat.lt_of_lt_of_le Nat.zero_lt_two h2
  | internal => exact h2
  | child _ hc ih => exact (hS.child_bounds _ ih _ hc).2

theorem TreePath.instanceNodes_eq (hS : SchemaOk limit S) (h : TreePath S l id) :
    (S.node id).instanceNodes = l.filter (isMulti S) := by
  induction h with
  | device => simp [rootDeviceNode, hS.root_insts.1, isMulti, hS.root_types.1]
  | internal => simp [rootInternalNode, hS.root_insts.2, isMulti, hS.root_types.2]
  | @child l p c hp hc ih =>
    rw [hS.child_inst p (hp.lt hS) c hc, ih, filter_append, extendInst]
    by_cases hm : (S.node c).type = .objectMultiInstance <;> simp [isMulti, hm]

theorem placeholders_child {parent : Str} (hname : NameOk name) (type : NodeType) :
    placeholders (parent ++ '.' :: name ++ separator type) =
      placeholders parent + if type = .objectMultiInstance then 1 else 0 := by
  have hne : name ≠ multiSeparator := by
    rintro rfl
    exact absurd hname.2.2 (by decide)
  have hsplit := splitOn_eq_singleton hname.2.1
  simp only [placeholders, append_assoc, cons_append]
  rw [splitOn_append_cons_self, count_append]
  congr 1
  unfold separator
  split
  · rw [splitOn_append_cons_self, hsplit, count_append,
      count_singleton, if_neg (by simpa using hne)]
    decide
  · simp [hsplit, hne]

theorem TreePath.placeholders_eq (hS : SchemaOk limit S) (h : TreePath S l id) :
    placeholders (S.node id).path = (S.node id).instanceNodes.length := by
  induction h with
  | device => rw [rootDeviceNode, hS.root_paths.1, hS.root_insts.1]; decide
  | internal => rw [rootInternalNode, hS.root_paths.2, hS.root_insts.2]; decide
  | @child l p c hp hc ih =>
    have hlt := hp.lt hS
    rw [hS.child_path p hlt c hc, placeholders_child (hS.child_name p hlt c hc), ih,
      hS.child_inst p hlt c hc, extendInst]
    split <;> simp

/-- Every node of the table hangs in the tree. -/
theorem exists_treePath (hS : SchemaOk limit S) :
    ∀ id, id < S.nodes.length → ∃ l, TreePath S l id := by
  intro id
  induction id using Nat.strongRecOn with
  | ind id ih =>
    intro hid
    by_cases h2 : 2 ≤ id
    · obtain ⟨p, hp, hc⟩ := hS.linked id hid h2
      obtain ⟨l, hl⟩ := ih p (hS.child_bounds p hp id hc).1 hp
      exact ⟨l ++ [id], hl.child hc⟩
    · have hroot : id = 0 ∨ id = 1 := by omega
      rcases hroot with rfl | rfl
      · exact ⟨_, .device⟩
      · exact ⟨_, .internal⟩

end Reach

/-! ## Which registrations keep the tree -/

/-- The string that `DM_PRIV_AddSchemaPath` builds up in its own buffer. -/
def builtSchemaPath (r : Registration) : Str :=
  match parseSchemaPath r.path r.type with
  | none | some [] => []
  | some (first :: rest) => first.name ++ rest.flatMap fun s => '.' :: s.name ++ separator s.type

/-- The registrations that stay inside the arrays of `DM_PRIV_AddSchemaPath`:
the instance nodes, the segments and the schema path. -/
structure WithinArrays (r : Registration) : Prop where
  tables : tableCount r ≤ maxDmInstanceOrder
  nameFirst : ∀ s ∈ (pathSegments r.path).head?, isInstanceSegment s = false
  schemaPath : (builtSchemaPath r).length < maxDmPath

/-- The tree of any registrations that stay inside the arrays is in order. -/
theorem registered_ok (h : ∀ r ∈ rs, WithinArrays r) :
    SchemaOk maxDmInstanceOrder (registerAll initialTree rs) :=
  registerAll_ok (initialTree_ok _) fun r hr => (h r hr).tables

theorem treeInvariant_of_ok {S : DmTree} (hS : SchemaOk maxDmInstanceOrder S) :
    TreeInvariant S where
  found _ id h := ⟨hS.hash_eq id (h.lt hS), find_own_path hS (h.lt hS)⟩
  unique _ id _ id' h h' heq := by
    refine hS.hash_inj id' (h'.lt hS) id (h.lt hS) ?_
    rw [heq, hS.hash_eq id (h.lt hS)]
  siblings _ id h := hS.sibling_names id (h.lt hS)
  paramsFirst _ id h := hS.params_first id (h.lt hS)
  order _ id h := by
    refine ⟨?_, hS.order_le id (h.lt hS)⟩
    rw [hS.order_eq id (h.lt hS), h.placeholders_eq hS]
  instanceNodes _ _ h := h.instanceNodes_eq hS

/-- Any sequence of registrations, failing ones included, keeps the tree as
long as each one stays inside the arrays. -/
theorem registrations_keep_tree (rs : List Registration) (h : ∀ r ∈ rs, WithinArrays r) :
    TreeInvariant (registerAll initialTree rs) :=
  treeInvariant_of_ok (registered_ok h)

def tableRegistration (path : String) : Registration :=
  { path := path.toList, type := .objectMultiInstance, flags := {} }

theorem registrations_keep_tree_two_tables :
    TreeInvariant (registerAll initialTree
      [tableRegistration "Device.A.{i}", tableRegistration "Device.A.{i}.B.{i}"]) :=
  registrations_keep_tree _ fun r hr => by
    rcases List.mem_cons.mp hr with rfl | hr
    · exact ⟨by decide, by decide, by decide⟩
    · rw [List.mem_singleton.mp hr]
      exact ⟨by decide, by decide, by decide⟩

/-- Seven tables, each nested in the one before and registered after it. -/
def sevenTables : List Registration :=
  ["Device.A.{i}", "Device.A.{i}.B.{i}", "Device.A.{i}.B.{i}.C.{i}",
    "Device.A.{i}.B.{i}.C.{i}.D.{i}", "Device.A.{i}.B.{i}.C.{i}.D.{i}.E.{i}",
    "Device.A.{i}.B.{i}.C.{i}.D.{i}.E.{i}.F.{i}",
    "Device.A.{i}.B.{i}.C.{i}.D.{i}.E.{i}.F.{i}.G.{i}"].map tableRegistration

/-- Each table is a child of the one before. -/
theorem sevenTables_children :
    (∀ link ∈ [(0, 2), (2, 3), (3, 4), (4, 5), (5, 6), (6, 7), (7, 8)],
      link.2 ∈ ((registerAll initialTree sevenTables).node link.1).childNodes) ∧
    ((registerAll initialTree sevenTables).node 8).order = 7 := by
  decide +kernel

/-- The seventh table is accepted with an order that no instance array holds. -/
theorem sevenTables_break_tree : ¬ TreeInvariant (registerAll initialTree sevenTables) := by
  intro h
  obtain ⟨hchild, horder⟩ := sevenTables_children
  have h8 : TreePath (registerAll initialTree sevenTables) [0, 2, 3, 4, 5, 6, 7, 8] 8 := by
    have h0 := TreePath.device (S := registerAll initialTree sevenTables)
    have h2 := h0.child (hchild (0, 2) (by decide))
    have h3 := h2.child (hchild (2, 3) (by decide))
    have h4 := h3.child (hchild (3, 4) (by decide))
    have h5 := h4.child (hchild (4, 5) (by decide))
    have h6 := h5.child (hchild (5, 6) (by decide))
    have h7 := h6.child (hchild (6, 7) (by decide))
    exact h7.child (hchild (7, 8) (by decide))
  have := (h.order _ _ h8).2
  rw [horder] at this
  exact absurd this (by decide)

end SchemaInvariant
