import SdtTr369.HeldInstances
import SdtTr369.DataModel

/-!
# What a deletion removes

`Purged` lists the tuples, the rows and the log entries of a stretch of a
deletion. `DeleteChildParams` goes down the schema tree and the instance vectors
together; `deleteChildParams_spec` says which tuples and rows are below an
instance and that exactly these are gone when it succeeds.

In the log the deletion comes before those of its children, and in the vectors
after them; every tuple that goes has its entry either way.
-/

namespace Deletion

open UspTypes Schema SchemaInvariant PathCodec DecimalText EffectProgram Agent InstVector DmTrans
open List
open DataModel InstanceTree HeldInstances

/-- The parameter types whose rows the agent writes and deletes by itself. -/
def isStoredParam : NodeType → Bool
  | .dbParamReadOnly | .dbParamReadWrite | .dbParamReadOnlyAuto => true
  | .dbParamReadWriteAuto | .dbParamSecure => true
  | _ => false

/-- From `a` to `a'` the tuples `ts` and the rows with the keys `ks` went, and
the deletions `dts` were logged. -/
structure Purged (S : DmTree) (a a' : State) (ts : List DmInstances) (ks : List Key)
    (dts : List DmTrans) : Prop where
  held : ∀ t, SettledAt S a (topNode t) → (Held a' t ↔ Held a t ∧ t ∉ ts)
  settled : ∀ top, SettledAt S a top → SettledAt S a' top
  rows : a'.db.rows = a.db.rows.filter fun row => row.1 ∉ ks
  saved : a'.db.saved = a.db.saved
  log : a'.curTransaction = a.curTransaction.map (· ++ dts)
  dels : ∀ dt ∈ dts, dt.op = .del
  ok : StateOk S a'
  closed : Closed a → Closed a'

/-- Every removed tuple has an entry, and the entries are for tuples that were known
before, as far as their table was settled. -/
structure Logged (S : DmTree) (a : State) (ts : List DmInstances) (dts : List DmTrans) : Prop where
  entries : ∀ t ∈ ts, t ∈ dts.map (entryInst S)
  ne_nil : ∀ dt ∈ dts, entryInst S dt ≠ []
  known : ∀ dt ∈ dts, SettledAt S a (topNode (entryInst S dt)) → Known a (entryInst S dt)

variable {p : DmInstances} {q : NodeId}

section Steps

variable {S : DmTree} {a a' a'' : State} {ts ts' : List DmInstances} {ks ks' : List Key}
  {dts dts' : List DmTrans}

theorem Purged.trans (h : Purged S a a' ts ks dts) (h' : Purged S a' a'' ts' ks' dts') :
    Purged S a a'' (ts ++ ts') (ks ++ ks') (dts ++ dts') where
  held t hs := by
    rw [h'.held t (h.settled _ hs), h.held t hs, mem_append, not_or, and_assoc]
  settled top hs := h'.settled top (h.settled top hs)
  rows := by
    rw [h'.rows, h.rows, filter_filter]
    congr 1
    funext row
    simp [Bool.and_comm]
  saved := h'.saved.trans h.saved
  log := by
    rw [h'.log, h.log, Option.map_map]
    congr 1
    funext log
    exact append_assoc ..
  dels dt hdt := (List.mem_append.mp hdt).elim (h.dels dt) (h'.dels dt)
  ok := h'.ok
  closed hc := h'.closed (h.closed hc)

theorem logged_nil : Logged S a [] [] := ⟨by simp, by simp, by simp⟩

/-- A deletion makes nothing known. -/
theorem Purged.known (h : Purged S a a' ts ks dts) {t : DmInstances} (hne : t ≠ [])
    (hs : SettledAt S a (topNode t)) (ht : Known a' t) : Known a t := by
  obtain ⟨t', ht', hpre⟩ := ht
  exact ⟨t', ((h.held t' (topNode_of_isPrefix hpre hne ▸ hs)).mp ht').1, hpre⟩

theorem Logged.append (hp : Purged S a a' ts ks dts) (h : Logged S a ts dts)
    (h' : Logged S a' ts' dts') : Logged S a (ts ++ ts') (dts ++ dts') where
  entries t ht := by
    rw [map_append, mem_append]
    exact (List.mem_append.mp ht).imp (h.entries t) (h'.entries t)
  ne_nil dt hdt := (List.mem_append.mp hdt).elim (h.ne_nil dt) (h'.ne_nil dt)
  known dt hdt hs := by
    rcases List.mem_append.mp hdt with hdt | hdt
    · exact h.known dt hdt hs
    · exact hp.known (h'.ne_nil dt hdt) hs (h'.known dt hdt (hp.settled _ hs))

theorem purged_quiet (hok : StateOk S a) (h : Quiet S a a') : Purged S a a' [] [] [] where
  held t hs := by
    rw [Held, Held, h.vector _ hs]
    simp
  settled := h.settled
  rows := by simp [h.db]
  saved := by rw [h.db]
  log := by simp [h.log]
  dels := by simp
  ok := h.ok hok
  closed := h.closed

theorem Purged.refl (hok : StateOk S a) : Purged S a a [] [] [] :=
  purged_quiet hok (Quiet.refl S a)

theorem purged_row (hok : StateOk S a) (key : Key) (n : Nat) :
    Purged S a { a with calls := n, db := a.db.delete key } [] [key] [] where
  held t _ := by
    show Held a t ↔ _
    simp
  settled _ h := h
  rows := by simp [Database.delete]
  saved := rfl
  log := by simp
  dels := by simp
  ok := ⟨hok.held, hok.nodup, hok.entries⟩
  closed h := h

theorem purged_entry (hok : StateOk S a) (dt : DmTrans) (hop : dt.op = .del)
    (hinst : IsInstance S dt.node (entryInst S dt)) :
    Purged S a (appendEntry dt a) [] [] [dt] where
  held t _ := by
    show Held a t ↔ _
    simp
  settled _ h := h
  rows := by simp [appendEntry]
  saved := rfl
  log := rfl
  dels := by simpa using hop
  ok := by
    refine ⟨hok.held, hok.nodup, fun log hlog dt' hdt' => ?_⟩
    obtain ⟨log₀, hlog₀, rfl⟩ := Option.map_eq_some_iff.mp hlog
    rcases List.mem_append.mp hdt' with hdt' | hdt'
    · exact hok.entries log₀ hlog₀ dt' hdt'
    · rw [List.mem_singleton.mp hdt']
      exact .inr hinst
  closed h := h

theorem purged_tuple (hok : StateOk S a) (hne : p ≠ []) (hbelow : ∀ t, Held a t → p <+: t → t = p) :
    Purged S a (removeHeld p a) [p] [] [] where
  held t _ := by
    rw [held_removeHeld hne, mem_singleton]
    refine and_congr_right fun ht => not_congr ⟨hbelow t ht, ?_⟩
    rintro rfl
    exact prefix_rfl
  settled _ h := h
  rows := by simp [removeHeld]
  saved := rfl
  log := by simp [removeHeld]
  dels := by simp
  ok := hok.removeHeld
  closed h := h.removeHeld hne

/-- In a settled table a tuple stays known unless a held tuple below it went. -/
theorem Purged.known_iff (h : Purged S a a' ts ks dts) {t : DmInstances} (hne : t ≠ [])
    (hs : SettledAt S a (topNode t)) (hts : ∀ t' ∈ ts, ¬ t <+: t') : Known a' t ↔ Known a t := by
  constructor
  · rintro ⟨t', ht', hpre⟩
    rw [h.held t' (topNode_of_isPrefix hpre hne ▸ hs)] at ht'
    exact ⟨t', ht'.1, hpre⟩
  · rintro ⟨t', ht', hpre⟩
    exact ⟨t', (h.held t' (topNode_of_isPrefix hpre hne ▸ hs)).mpr
      ⟨ht', fun hmem => hts t' hmem hpre⟩, hpre⟩

end Steps

/-! ## What is below an object -/

/-- A tuple of a table below an object instance. -/
def TupleBelow (S : DmTree) (known : DmInstances → Prop) (node : NodeId) (inst t : DmInstances) :
    Prop :=
  ∃ o t' c n, Reaches S known (node, inst) (o, t') ∧ c ∈ (S.node o).childNodes ∧
    (S.node c).type = .objectMultiInstance ∧ known (t' ++ [(c, n)]) ∧ t = t' ++ [(c, n)]

/-- The key of a stored parameter below an object instance. -/
def RowBelow (S : DmTree) (known : DmInstances → Prop) (node : NodeId) (inst : DmInstances)
    (key : Key) : Prop :=
  ∃ o t m, Reaches S known (node, inst) (o, t) ∧ m ∈ (S.node o).childNodes ∧
    isStoredParam (S.node m).type = true ∧ key = rowKey S m t

/-- What one child of an object contributes to `TupleBelow`. -/
def ChildTuple (S : DmTree) (known : DmInstances → Prop) (inst : DmInstances) (child : NodeId)
    (t : DmInstances) : Prop :=
  ((S.node child).type = .objectSingleInstance ∧ TupleBelow S known child inst t) ∨
    ((S.node child).type = .objectMultiInstance ∧ ∃ n, known (inst ++ [(child, n)]) ∧
      (t = inst ++ [(child, n)] ∨ TupleBelow S known child (inst ++ [(child, n)]) t))

/-- What one child of an object contributes to `RowBelow`. -/
def ChildRow (S : DmTree) (known : DmInstances → Prop) (inst : DmInstances) (child : NodeId)
    (key : Key) : Prop :=
  (isStoredParam (S.node child).type = true ∧ key = rowKey S child inst) ∨
    ((S.node child).type = .objectSingleInstance ∧ RowBelow S known child inst key) ∨
    ((S.node child).type = .objectMultiInstance ∧ ∃ n, known (inst ++ [(child, n)]) ∧
      RowBelow S known child (inst ++ [(child, n)]) key)

section Below

variable {limit : Nat} {S : DmTree} {known known' : DmInstances → Prop} {node : NodeId}
  {inst t : DmInstances} {key : Key}

theorem tupleBelow_iff :
    TupleBelow S known node inst t ↔
      ∃ c ∈ (S.node node).childNodes, ChildTuple S known inst c t := by
  constructor
  · rintro ⟨o, t', c, n, hreach, h⟩
    rcases hreach.cases_head with heq | ⟨y, hstep, hrest⟩
    · cases heq
      exact ⟨c, h.1, .inr ⟨h.2.1, n, h.2.2.1, .inl h.2.2.2⟩⟩
    · cases hstep with
      | @object _ child _ hc hs =>
        exact ⟨child, hc, .inl ⟨hs, o, t', c, n, hrest, h⟩⟩
      | @table _ child _ m hc hmc hk =>
        exact ⟨child, hc, .inr ⟨hmc, m, hk, .inr ⟨o, t', c, n, hrest, h⟩⟩⟩
  · rintro ⟨c, hc, ⟨hs, o, t', c', n, hrest, h⟩ | ⟨hm, n, hk, rfl | ⟨o, t', c', m, hrest, h⟩⟩⟩
    · exact ⟨o, t', c', n, hrest.head (.object hc hs), h⟩
    · exact ⟨node, inst, c, n, .refl, hc, hm, hk, rfl⟩
    · exact ⟨o, t', c', m, hrest.head (.table hc hm hk), h⟩

theorem rowBelow_iff :
    RowBelow S known node inst key ↔
      ∃ c ∈ (S.node node).childNodes, ChildRow S known inst c key := by
  constructor
  · rintro ⟨o, t, m, hreach, hm, hstored, hkey⟩
    rcases hreach.cases_head with heq | ⟨y, hstep, hrest⟩
    · cases heq
      exact ⟨m, hm, .inl ⟨hstored, hkey⟩⟩
    · cases hstep with
      | @object _ child _ hc hs =>
        exact ⟨child, hc, .inr (.inl ⟨hs, o, t, m, hrest, hm, hstored, hkey⟩)⟩
      | @table _ child _ n hc hmc hk =>
        exact ⟨child, hc, .inr (.inr ⟨hmc, n, hk, o, t, m, hrest, hm, hstored, hkey⟩)⟩
  · rintro ⟨c, hc, ⟨hstored, hkey⟩ | ⟨hs, o, t, m, hrest, h⟩ | ⟨hm, n, hk, o, t, m, hrest, h⟩⟩
    · exact ⟨node, inst, c, .refl, hc, hstored, hkey⟩
    · exact ⟨o, t, m, hrest.head (.object hc hs), h⟩
    · exact ⟨o, t, m, hrest.head (.table hc hm hk), h⟩

/-! ### Siblings have nothing in common -/

/-- From a node down along child links. -/
abbrev DownTo (S : DmTree) := Relation.ReflTransGen fun p c => c ∈ (S.node p).childNodes

theorem DownTo.le (hS : SchemaOk limit S) {p : NodeId} (h : DownTo S p q)
    (hp : p < S.nodes.length) : p ≤ q ∧ q < S.nodes.length := by
  induction h with
  | refl => exact ⟨Nat.le_refl _, hp⟩
  | tail _ hc ih =>
    have hb := hS.child_bounds _ ih.2 _ hc
    exact ⟨Nat.le_trans ih.1 (Nat.le_of_lt hb.1), hb.2⟩

theorem downTo_sibling (hS : SchemaOk limit S) (hnode : node < S.nodes.length) {c d : NodeId}
    (hc : c ∈ (S.node node).childNodes) (hd : d ∈ (S.node node).childNodes) (h : DownTo S c q)
    (h' : DownTo S d q) : c = d := by
  have hbound : ∀ x ∈ (S.node node).childNodes, ∀ p, DownTo S x p → p ≠ node := by
    rintro x hx p hp rfl
    have hb := hS.child_bounds _ hnode x hx
    exact Nat.lt_irrefl _ (Nat.lt_of_lt_of_le hb.1 (DownTo.le hS hp hb.2).1)
  have hclt := (hS.child_bounds _ hnode c hc).2
  have hdlt := (hS.child_bounds _ hnode d hd).2
  induction h with
  | refl =>
    cases h'.cases_tail with
    | inl heq => exact heq
    | inr h =>
      obtain ⟨p, hp, hcp⟩ := h
      exact absurd (parent_unique hS (DownTo.le hS hp hdlt).2 hnode hcp hc) (hbound d hd p hp)
  | @tail p q hp hq ih =>
    cases h'.cases_tail with
    | inl heq =>
      subst heq
      exact absurd (parent_unique hS (DownTo.le hS hp hclt).2 hnode hq hd) (hbound c hc p hp)
    | inr h =>
      obtain ⟨p', hp', hq'⟩ := h
      rw [parent_unique hS (DownTo.le hS hp hclt).2 (DownTo.le hS hp' hdlt).2 hq hq'] at ih
      exact ih hp'

variable {x : NodeId × DmInstances} {child : NodeId}

/-- Where the tuple grows on the way down, it first grows by a table below. -/
theorem reaches_grows {y : NodeId × DmInstances} (h : Reaches S known x y) :
    DownTo S x.1 y.1 ∧
      (y.2 = x.2 ∨ ∃ c n r, DownTo S x.1 c ∧ y.2 = x.2 ++ (c, n) :: r) := by
  induction h with
  | refl => exact ⟨.refl, .inl rfl⟩
  | @tail y z _ hstep ih =>
    obtain ⟨hdown, ih⟩ := ih
    cases hstep with
    | object hc _ => exact ⟨hdown.tail hc, ih⟩
    | @table q c inst n hc _ _ =>
      refine ⟨hdown.tail hc, .inr ?_⟩
      rcases ih with hsame | ⟨c', n', r, hdown', hgrow⟩
      · have hsame' : inst = x.2 := hsame
        exact ⟨c, n, [], hdown.tail hc, by rw [hsame']⟩
      · have hgrow' : inst = x.2 ++ (c', n') :: r := hgrow
        exact ⟨c', n', r ++ [(c, n)], hdown', by rw [hgrow', append_assoc, cons_append]⟩

theorem known_congr {c : NodeId} {n : Int} (h : Reaches S known x (q, inst))
    (hc : c ∈ (S.node q).childNodes)
    (hk : ∀ c n r, DownTo S x.1 c → known (x.2 ++ (c, n) :: r) → known' (x.2 ++ (c, n) :: r))
    (hkn : known (inst ++ [(c, n)])) : known' (inst ++ [(c, n)]) := by
  obtain ⟨hdown, hsame | ⟨c', n', r, hdown', hgrow⟩⟩ := reaches_grows h
  · have hsame' : inst = x.2 := hsame
    rw [hsame'] at hkn ⊢
    exact hk c n [] (hdown.tail hc) hkn
  · have hgrow' : inst = x.2 ++ (c', n') :: r := hgrow
    rw [hgrow', append_assoc, cons_append] at hkn ⊢
    exact hk c' n' _ hdown' hkn

/-- What is reached depends only on what is known further down. -/
theorem reaches_congr {y : NodeId × DmInstances} (h : Reaches S known x y)
    (hk : ∀ c n r, DownTo S x.1 c → known (x.2 ++ (c, n) :: r) → known' (x.2 ++ (c, n) :: r)) :
    Reaches S known' x y := by
  induction h with
  | refl => exact .refl
  | @tail y z hxy hstep ih =>
    refine ih.tail ?_
    cases hstep with
    | object hc hs => exact .object hc hs
    | table hc hm hkn => exact .table hc hm (known_congr hxy hc hk hkn)

theorem tupleBelow_congr (h : TupleBelow S known node inst t)
    (hk : ∀ c n r, DownTo S node c → known (inst ++ (c, n) :: r) → known' (inst ++ (c, n) :: r)) :
    TupleBelow S known' node inst t := by
  obtain ⟨o, t', c, n, hreach, hc, hm, hkn, rfl⟩ := h
  exact ⟨o, t', c, n, reaches_congr hreach hk, hc, hm, known_congr hreach hc hk hkn, rfl⟩

theorem rowBelow_congr (h : RowBelow S known node inst key)
    (hk : ∀ c n r, DownTo S node c → known (inst ++ (c, n) :: r) → known' (inst ++ (c, n) :: r)) :
    RowBelow S known' node inst key := by
  obtain ⟨o, t, m, hreach, h⟩ := h
  exact ⟨o, t, m, reaches_congr hreach hk, h⟩

theorem tupleBelow_same
    (hk : ∀ c n r, DownTo S node c → (known (inst ++ (c, n) :: r) ↔ known' (inst ++ (c, n) :: r))) :
    TupleBelow S known node inst t ↔ TupleBelow S known' node inst t :=
  ⟨fun h => tupleBelow_congr h fun c n r hd => (hk c n r hd).mp,
    fun h => tupleBelow_congr h fun c n r hd => (hk c n r hd).mpr⟩

theorem rowBelow_same
    (hk : ∀ c n r, DownTo S node c → (known (inst ++ (c, n) :: r) ↔ known' (inst ++ (c, n) :: r))) :
    RowBelow S known node inst key ↔ RowBelow S known' node inst key :=
  ⟨fun h => rowBelow_congr h fun c n r hd => (hk c n r hd).mp,
    fun h => rowBelow_congr h fun c n r hd => (hk c n r hd).mpr⟩

theorem TupleBelow.grows (h : TupleBelow S known node inst t) :
    ∃ c n r, DownTo S node c ∧ t = inst ++ (c, n) :: r := by
  obtain ⟨o, t', c, n, hreach, hc, -, -, rfl⟩ := h
  obtain ⟨hdown, hsame | ⟨c', n', r, hdown', hgrow⟩⟩ := reaches_grows hreach
  · have hsame' : t' = inst := hsame
    exact ⟨c, n, [], hdown.tail hc, by rw [hsame']⟩
  · have hgrow' : t' = inst ++ (c', n') :: r := hgrow
    exact ⟨c', n', r ++ [(c, n)], hdown', by rw [hgrow', append_assoc, cons_append]⟩

theorem ChildTuple.grows (h : ChildTuple S known inst child t) :
    ∃ c n r, DownTo S child c ∧ t = inst ++ (c, n) :: r := by
  rcases h with ⟨-, h⟩ | ⟨-, n, -, rfl | h⟩
  · exact h.grows
  · exact ⟨child, n, [], .refl, rfl⟩
  · obtain ⟨c, m, r, -, rfl⟩ := h.grows
    exact ⟨child, n, (c, m) :: r, .refl, by simp⟩

theorem childTuple_congr (h : ChildTuple S known inst child t)
    (hk : ∀ c n r, DownTo S child c → known (inst ++ (c, n) :: r) → known' (inst ++ (c, n) :: r)) :
    ChildTuple S known' inst child t := by
  have hbelow : ∀ n c m r, DownTo S child c → known ((inst ++ [(child, n)]) ++ (c, m) :: r) →
      known' ((inst ++ [(child, n)]) ++ (c, m) :: r) := by
    intro n c m r _ h
    rw [append_assoc] at h ⊢
    exact hk child n _ .refl h
  rcases h with ⟨hs, h⟩ | ⟨hm, n, hkn, h⟩
  · exact .inl ⟨hs, tupleBelow_congr h hk⟩
  · refine .inr ⟨hm, n, hk child n [] .refl hkn, h.imp id fun h => ?_⟩
    exact tupleBelow_congr h (hbelow n)

theorem childRow_congr (h : ChildRow S known inst child key)
    (hk : ∀ c n r, DownTo S child c → known (inst ++ (c, n) :: r) → known' (inst ++ (c, n) :: r)) :
    ChildRow S known' inst child key := by
  rcases h with h | ⟨hs, h⟩ | ⟨hm, n, hkn, h⟩
  · exact .inl h
  · exact .inr (.inl ⟨hs, rowBelow_congr h hk⟩)
  · refine .inr (.inr ⟨hm, n, hk child n [] .refl hkn, rowBelow_congr h ?_⟩)
    intro c m r _ h
    rw [append_assoc] at h ⊢
    exact hk child n _ .refl h

theorem childTuple_same
    (hk : ∀ c n r, DownTo S child c → (known (inst ++ (c, n) :: r) ↔ known' (inst ++ (c, n) :: r)))
    (t : DmInstances) : ChildTuple S known inst child t ↔ ChildTuple S known' inst child t :=
  ⟨fun h => childTuple_congr h fun c n r hd => (hk c n r hd).mp,
    fun h => childTuple_congr h fun c n r hd => (hk c n r hd).mpr⟩

theorem childRow_same
    (hk : ∀ c n r, DownTo S child c → (known (inst ++ (c, n) :: r) ↔ known' (inst ++ (c, n) :: r)))
    (key : Key) : ChildRow S known inst child key ↔ ChildRow S known' inst child key :=
  ⟨fun h => childRow_congr h fun c n r hd => (hk c n r hd).mp,
    fun h => childRow_congr h fun c n r hd => (hk c n r hd).mpr⟩

/-- Every held tuple that extends an instance is below it. -/
theorem tupleBelow_of_isPrefix (hS : SchemaOk limit S) (hp : IsInstance S node p)
    (hknown : ∀ q t, known t → q <+: t → q ≠ [] → known q) (ht : IsInstance S q t) (hpt : p <+: t)
    (hne : t ≠ p) (hk : known t) : TupleBelow S known node p t := by
  obtain ⟨n, hlast, -, htab⟩ := ht.dropLast hS
  rcases node_cases hS ht.lt with hroot | ⟨o, -, ho, hc⟩
  · obtain ⟨l, hl⟩ := table_instanceNodes hS ht.lt ht.table
    rw [hroot] at hl
    simp at hl
  · have hdrop : p <+: t.dropLast := by
      rw [hlast] at hpt
      rcases List.prefix_concat_iff.mp hpt with h | h
      · exact absurd (h.trans hlast.symm).symm hne
      · exact h
    have hnodes : t.dropLast.map Prod.fst = (S.node o).instanceNodes := by
      have := htab.nodes
      rw [instanceNodes_table hS ho hc ht.table] at this
      exact (append_inj' this rfl).1
    have hk' : t.dropLast = p ∨ known t.dropLast := by
      by_cases h : t.dropLast = p
      · exact .inl h
      · refine .inr (hknown _ _ hk (List.dropLast_prefix t) fun hnil => ?_)
        exact hp.ne_nil hS (List.prefix_nil.mp (hnil ▸ hdrop))
    have hup := descends_of_isPrefix hS hp hknown o ho (hS.parent_object o ho q hc) _ hnodes hdrop hk'
    exact ⟨o, t.dropLast, q, n, hup, hc, ht.table, hlast ▸ hk, hlast⟩

end Below

/-! ## The recursion -/

/-- From `a` to `a'` exactly the tuples in `P` and the rows with keys in `R` went. -/
def Removes (S : DmTree) (a a' : State) (P : DmInstances → Prop) (R : Key → Prop) : Prop :=
  ∃ ts ks dts, Purged S a a' ts ks dts ∧ Logged S a ts dts ∧ (∀ t, t ∈ ts ↔ P t) ∧
    ∀ key, key ∈ ks ↔ R key

/-- Whatever went from `a` to `a'` was logged. -/
def RemovesSome (S : DmTree) (a a' : State) : Prop :=
  ∃ ts ks dts, Purged S a a' ts ks dts ∧ Logged S a ts dts

theorem Removes.congr {S : DmTree} {a a' : State} {P P' : DmInstances → Prop}
    {R R' : Key → Prop} (h : Removes S a a' P R) (hP : ∀ t, P t ↔ P' t)
    (hR : ∀ key, R key ↔ R' key) : Removes S a a' P' R' := by
  obtain ⟨ts, ks, dts, hp, hlog, hts, hks⟩ := h
  exact ⟨ts, ks, dts, hp, hlog, fun t => (hts t).trans (hP t), fun key => (hks key).trans (hR key)⟩

section Loops

variable {S : DmTree} {T : Prop} {a a' a'' : State} {ts : List DmInstances} {ks : List Key}
  {dts : List DmTrans}

theorem Purged.then_some (h : Purged S a a' ts ks dts) (hlog : Logged S a ts dts)
    (h' : RemovesSome S a' a'') : RemovesSome S a a'' := by
  obtain ⟨ts', ks', dts', h', hlog'⟩ := h'
  exact ⟨_, _, _, h.trans h', hlog.append h hlog'⟩

/-- A loop whose turns remove their own shares removes the shares together. -/
theorem removes_forEach {β : Type} {f : β → Op Unit} {P : β → DmInstances → Prop}
    {R : β → Key → Prop} {l : List β} (hok : StateOk S a)
    (hstep : ∀ done x rest s ts ks dts, l = done ++ x :: rest → Purged S a s ts ks dts →
      (∀ t, t ∈ ts ↔ ∃ y ∈ done, P y t) →
      Wp T (f x) s (fun _ s' => Removes S s s' (P x) (R x)) (fun _ s' => RemovesSome S s s')) :
    Wp T (.forEach l f) a
      (fun _ a' => Removes S a a' (fun t => ∃ x ∈ l, P x t) (fun key => ∃ x ∈ l, R x key))
      (fun _ a' => RemovesSome S a a') := by
  let I : List β → State → Prop := fun rest s => ∃ done, l = done ++ rest ∧
    Removes S a s (fun t => ∃ x ∈ done, P x t) (fun key => ∃ x ∈ done, R x key)
  have hloop := wp_forEach (T := T) (f := f) (I := I) (E := fun _ a' => RemovesSome S a a')
    (fun x rest s hI => ?_) l a ⟨[], rfl, [], [], [], Purged.refl hok, logged_nil, by simp, by simp⟩
  · refine hloop.mono (fun _ s hI => ?_) fun _ _ h => h
    obtain ⟨done, hl, h⟩ := hI
    rw [append_nil] at hl
    rw [hl]
    exact h
  · obtain ⟨done, hl, ts, ks, dts, hp, hlog, hts, hks⟩ := hI
    refine (hstep done x rest s ts ks dts hl hp hts).mono (fun _ s' h => ?_)
      fun _ s' h => hp.then_some hlog h
    obtain ⟨ts', ks', dts', hp', hlog', hts', hks'⟩ := h
    refine ⟨done ++ [x], by simp [hl], _, _, _, hp.trans hp', hlog.append hp hlog', ?_, ?_⟩
    · intro t
      rw [mem_append, hts, hts']
      simp [or_and_right, exists_or]
    · intro key
      rw [mem_append, hks, hks']
      simp [or_and_right, exists_or]

end Loops

section Delete

variable {S : DmTree} {W : World} {T : Prop} {a : State} {node : NodeId} {inst : DmInstances}

theorem databaseDeleteParameter_spec (hok : StateOk S a) (key : Key) :
    Wp T (databaseDeleteParameter W key) a (fun _ a' => Purged S a a' [] [key] [])
      (fun _ a' => RemovesSome S a a') := by
  simp only [databaseDeleteParameter, wp_bind, wp_call]
  split
  · exact ⟨[], [], [], purged_quiet hok (quiet_calls S a _), logged_nil⟩
  · exact purged_row hok key _

/-- Where `DeleteChildParams` starts. -/
structure AtObject (S : DmTree) (a : State) (node : NodeId) (inst : DmInstances) : Prop where
  ok : StateOk S a
  lt : node < S.nodes.length
  nodes : inst.map Prod.fst = (S.node node).instanceNodes
  ne : inst ≠ []
  settled : SettledAt S a (topNode inst)

theorem AtObject.settled_append (h : AtObject S a node inst) (r : DmInstances) :
    SettledAt S a (topNode (inst ++ r)) :=
  topNode_of_isPrefix (prefix_append inst r) h.ne ▸ h.settled

theorem AtObject.purged {a' : State} {ts : List DmInstances} {ks : List Key} {dts : List DmTrans}
    (h : AtObject S a node inst) (hp : Purged S a a' ts ks dts) : AtObject S a' node inst :=
  ⟨hp.ok, h.lt, h.nodes, h.ne, hp.settled _ h.settled⟩

section

variable (hS : SchemaOk maxDmInstanceOrder S) (hopen : a.curTransaction = none → T)
include hS hopen

/-- The turn of the loop of `DeleteChildParams_MultiInstanceObject`: once the
children are gone, the instance is removed and logged. -/
theorem removeInstance_spec (hok : StateOk S a) (hp : IsInstance S node p)
    (hbelow : ∀ t, Held a t → p <+: t → t = p) (path : Str) :
    Wp T (do instVectorRemove S p; transAdd S W .del path none node p) a
      (fun _ a' => ∃ dt, Purged S a a' [p] [] [dt] ∧ entryInst S dt = p) (fun _ _ => False) := by
  have hne := hp.ne_nil hS
  rw [wp_bind]
  refine wp_instVectorRemove hne (fun h => absurd (hp.topNode_table hS) h) ?_
  have hgone := purged_tuple hok hne hbelow
  refine (transAdd_spec (a := removeHeld p a) hS hopen .del path none node p).mono
    (fun _ a' h => ?_) fun _ _ h => h
  obtain ⟨b, hb, -, rfl | ⟨h, -⟩⟩ := h
  · have hentry := entryInst_instances hp .del path none
    have hquiet := purged_quiet hgone.ok hb
    have hlast := purged_entry hquiet.ok ⟨.del, path, none, node, instances p⟩ rfl
      (hentry.symm ▸ hp)
    exact ⟨_, (hgone.trans hquiet).trans hlast, hentry⟩
  · cases h

/-- `DeleteChildParams_MultiInstanceObject` for one of the instances. -/
theorem deleteTurn_spec (hp : IsInstance S node p) (hat : AtObject S a node p)
    (hknown : Known a p) {delete : Op Unit}
    (hdelete : Wp T delete a (fun _ a' => Removes S a a' (TupleBelow S (Known a) node p)
      (RowBelow S (Known a) node p)) (fun _ a' => RemovesSome S a a'))
    (path : Str) :
    Wp T (do delete; instVectorRemove S p; transAdd S W .del path none node p) a
      (fun _ a' => Removes S a a' (fun t => t = p ∨ TupleBelow S (Known a) node p t)
        (RowBelow S (Known a) node p))
      (fun _ a' => RemovesSome S a a') := by
  rw [wp_bind]
  refine hdelete.mono (fun _ b h => ?_) fun _ _ h => h
  obtain ⟨ts, ks, dts, hpurge, hlog, hts, hks⟩ := h
  have hempty : ∀ t, Held b t → p <+: t → t = p := by
    intro t ht hpre
    by_contra hne
    rw [hpurge.held t (topNode_of_isPrefix hpre hat.ne ▸ hat.settled)] at ht
    obtain ⟨q, hq⟩ := hat.ok.instance ht.1
    exact ht.2 ((hts t).mpr (tupleBelow_of_isPrefix hS hp (fun _ _ h hpre _ => h.of_isPrefix hpre) hq
      hpre hne ht.1.known))
  have hopen' : b.curTransaction = none → T := by
    rw [hpurge.log, Option.map_eq_none_iff]
    exact hopen
  refine (removeInstance_spec hS hopen' hpurge.ok hp hempty path).mono (fun _ c h => ?_)
    fun _ _ h => h.elim
  obtain ⟨dt, hpurge', rfl⟩ := h
  refine ⟨_, _, _, hpurge.trans hpurge', ⟨fun t ht => ?_, fun dt' hdt' => ?_, fun dt' hdt' hs => ?_⟩,
    fun t => ?_, fun key => ?_⟩
  · rw [map_append, mem_append]
    exact (List.mem_append.mp ht).imp (hlog.entries t) fun h => by simpa using h
  · rcases List.mem_append.mp hdt' with h | h
    · exact hlog.ne_nil dt' h
    · rw [List.mem_singleton.mp h]
      exact hat.ne
  · rcases List.mem_append.mp hdt' with h | h
    · exact hlog.known dt' h hs
    · rw [List.mem_singleton.mp h]
      exact hknown
  · rw [mem_append, hts, mem_singleton, or_comm]
  · rw [append_nil, hks]

/-- `DeleteChildParams_MultiInstanceObject`, given what `DeleteChildParams` does
to an instance of the table. -/
theorem deleteTableInstances_spec (hat : AtObject S a q inst) (hc : node ∈ (S.node q).childNodes)
    (hm : (S.node node).type = .objectMultiInstance)
    {delete : Str → NodeId → DmInstances → Op Unit}
    (hdelete : ∀ path n b, AtObject S b node (inst ++ [(node, n)]) →
      (b.curTransaction = none → T) → Wp T (delete path node (inst ++ [(node, n)])) b
        (fun _ b' => Removes S b b' (TupleBelow S (Known b) node (inst ++ [(node, n)]))
          (RowBelow S (Known b) node (inst ++ [(node, n)]))) (fun _ b' => RemovesSome S b b'))
    (path : Str) :
    Wp T (deleteTableInstances S W delete path node inst) a
      (fun _ a' => Removes S a a' (ChildTuple S (Known a) inst node)
        (ChildRow S (Known a) inst node))
      (fun _ a' => RemovesSome S a a') := by
  have htable := IsTableOf.of_child hS hat.lt hat.nodes hc hm
  rw [deleteTableInstances, wp_bind]
  refine (instVectorGetInstances_spec hS hat.ok htable).mono (fun iv b h => ?_)
    fun _ b hb => ⟨[], [], [], purged_quiet hat.ok hb, logged_nil⟩
  obtain ⟨hb, -, hnodup, hiv⟩ := h
  have hquiet := purged_quiet hat.ok hb
  have hknown : ∀ r, Known b (inst ++ r) ↔ Known a (inst ++ r) := fun r =>
    hquiet.known_iff (by simp [hat.ne]) (hat.settled_append r) (by simp)
  have hloop := removes_forEach (T := T) (a := b) (l := iv)
    (f := fun n => do
      delete (appendName path (intDigits n)) node (inst ++ [(node, n)])
      instVectorRemove S (inst ++ [(node, n)])
      transAdd S W .del (appendName path (intDigits n)) none node (inst ++ [(node, n)]))
    (P := fun n t => t = inst ++ [(node, n)] ∨
      TupleBelow S (Known b) node (inst ++ [(node, n)]) t)
    (R := fun n => RowBelow S (Known b) node (inst ++ [(node, n)])) hquiet.ok ?_
  · refine hloop.mono (fun _ a' h => ?_) fun _ a' h => hquiet.then_some logged_nil h
    obtain ⟨ts, ks, dts, hp, hlog, hts, hks⟩ := h
    refine ⟨_, _, _, hquiet.trans hp, logged_nil.append hquiet hlog, fun t => ?_, fun key => ?_⟩
    · rw [nil_append, hts, ← childTuple_same (fun c n r _ => hknown _)]
      simp [ChildTuple, hm, hiv]
    · rw [nil_append, hks, ← childRow_same (fun c n r _ => hknown _)]
      simp [ChildRow, hm, hiv, isStoredParam]
  · intro done n rest s ts ks dts hxs hp hts
    have hatn : AtObject S s node (inst ++ [(node, n)]) :=
      ⟨hp.ok, htable.lt, (htable.instance n).nodes, by simp,
        hp.settled _ (hb.settled _ (hat.settled_append _))⟩
    have hnotdone : n ∉ done := by
      rw [hxs] at hnodup
      intro hmem
      exact (List.nodup_append.mp hnodup).2.2 n hmem n mem_cons_self rfl
    have hsame : ∀ r, Known s (inst ++ [(node, n)] ++ r) ↔ Known b (inst ++ [(node, n)] ++ r) := by
      intro r
      refine hp.known_iff (by simp) ?_ fun t' ht' hpre => hnotdone ?_
      · rw [append_assoc]
        exact hb.settled _ (hat.settled_append _)
      · obtain ⟨y, hy, h⟩ := (hts t').mp ht'
        have hy' : inst ++ [(node, y)] <+: t' := by
          rcases h with rfl | h
          · exact prefix_rfl
          · obtain ⟨c, m, r', -, rfl⟩ := h.grows
            exact prefix_append ..
        have heq := prefix_of_prefix_length_le hy'
          ((prefix_append _ r).trans hpre) (by simp)
        have heq := heq.eq_of_length (by simp)
        simp only [append_cancel_left_eq, List.cons.injEq, Prod.mk.injEq, and_true,
          true_and] at heq
        exact heq ▸ hy
    have hopen' : s.curTransaction = none → T := by
      rw [hp.log, hb.log, Option.map_eq_none_iff]
      exact hopen
    have hkn : Known s (inst ++ [(node, n)]) := by
      have hn := (hiv n).mp (by rw [hxs]; simp)
      have hs := hsame []
      rw [append_nil] at hs
      exact hs.mpr hn
    refine (deleteTurn_spec hS hopen' (htable.instance n) hatn hkn (hdelete _ n s hatn hopen') _).mono
      (fun _ s' h => h.congr (fun t => or_congr_right ?_) fun key => ?_) fun _ _ h => h
    · exact tupleBelow_same fun c m r _ => hsame _
    · exact rowBelow_same fun c m r _ => hsame _

end

theorem isObject_of_isStoredParam {t : NodeType} (h : isStoredParam t = true) :
    isObject t = false := by
  cases t <;> simp_all [isObject, isStoredParam]

theorem isParam_of_isStoredParam {t : NodeType} (h : isStoredParam t = true) :
    isParam t = true := by
  cases t <;> simp_all [isParam, isStoredParam]

theorem not_childTuple {known : DmInstances → Prop} (h : isObject (S.node node).type = false)
    (t : DmInstances) : ¬ ChildTuple S known inst node t := by
  rintro (⟨hs, -⟩ | ⟨hm, -⟩)
  · simp [hs, isObject] at h
  · simp [hm, isObject] at h

theorem childRow_param {known : DmInstances → Prop} (h : isObject (S.node node).type = false)
    (key : Key) : ChildRow S known inst node key ↔
      isStoredParam (S.node node).type = true ∧ key = rowKey S node inst := by
  constructor
  · rintro (h' | ⟨hs, -⟩ | ⟨hm, -⟩)
    · exact h'
    · simp [hs, isObject] at h
    · simp [hm, isObject] at h
  · exact .inl

theorem childTuple_object {known : DmInstances → Prop} {t : DmInstances}
    (h : (S.node node).type = .objectSingleInstance) :
    ChildTuple S known inst node t ↔ TupleBelow S known node inst t := by
  simp [ChildTuple, h]

theorem childRow_object {known : DmInstances → Prop} {key : Key}
    (h : (S.node node).type = .objectSingleInstance) :
    ChildRow S known inst node key ↔ RowBelow S known node inst key := by
  simp [ChildRow, h, isStoredParam]

theorem deleteParam_spec {known : DmInstances → Prop} (hok : StateOk S a)
    (h : isStoredParam (S.node node).type = true) :
    Wp T (databaseDeleteParameter W (rowKey S node inst)) a
      (fun _ a' => Removes S a a' (ChildTuple S known inst node) (ChildRow S known inst node))
      (fun _ a' => RemovesSome S a a') := by
  have hobj := isObject_of_isStoredParam h
  refine (databaseDeleteParameter_spec hok _).mono (fun _ a' hp => ?_) fun _ _ h => h
  refine ⟨_, _, _, hp, logged_nil, fun t => ?_, fun key => ?_⟩
  · simp [not_childTuple hobj]
  · rw [childRow_param hobj, mem_singleton]
    simp [h]

theorem skipParam_spec {known : DmInstances → Prop} (hok : StateOk S a)
    (h : isStoredParam (S.node node).type = false) (hobj : isObject (S.node node).type = false) :
    Removes S a a (ChildTuple S known inst node) (ChildRow S known inst node) := by
  refine ⟨_, _, _, Purged.refl hok, logged_nil, fun t => ?_, fun key => ?_⟩
  · simp [not_childTuple hobj]
  · rw [childRow_param hobj]
    simp [h]

theorem deleteChildParams_spec (hS : SchemaOk maxDmInstanceOrder S) (fuel : Nat) (node : NodeId)
    (hfuel : S.nodes.length ≤ fuel + node) (path : Str) (inst : DmInstances) (a : State)
    (hat : AtObject S a node inst) (hopen : a.curTransaction = none → T) :
    Wp T (deleteChildParams S W fuel path node inst) a
      (fun _ a' => Removes S a a' (TupleBelow S (Known a) node inst)
        (RowBelow S (Known a) node inst))
      (fun _ a' => RemovesSome S a a') := by
  induction fuel generalizing node path inst a with
  | zero =>
    rw [Nat.zero_add] at hfuel
    exact absurd hat.lt (Nat.not_lt.mpr hfuel)
  | succ fuel ih =>
    rw [deleteChildParams]
    refine (removes_forEach (P := ChildTuple S (Known a) inst) (R := ChildRow S (Known a) inst)
      hat.ok ?_).mono (fun _ a' h => ?_) fun _ _ h => h
    swap
    · exact h.congr (fun _ => tupleBelow_iff.symm) fun _ => rowBelow_iff.symm
    · intro done c rest s ts ks dts hxs hp hts
      have hc : c ∈ (S.node node).childNodes := by simp [hxs]
      have hbounds := hS.child_bounds node hat.lt c hc
      have hats := hat.purged hp
      have hopen' : s.curTransaction = none → T := by
        rw [hp.log, Option.map_eq_none_iff]
        exact hopen
      have hfuel' : S.nodes.length ≤ fuel + c := by
        have := Nat.succ_le_of_lt hbounds.1
        have hle : fuel + 1 + node ≤ fuel + c := by
          rw [Nat.add_right_comm, Nat.add_assoc]
          exact Nat.add_le_add_left this fuel
        exact Nat.le_trans hfuel hle
      have hnotdone : c ∉ done := by
        have hnodup := childNodes_nodup hS hat.lt
        rw [hxs] at hnodup
        intro hmem
        exact (List.nodup_append.mp hnodup).2.2 c hmem c mem_cons_self rfl
      have hsame : ∀ c' n r, DownTo S c c' →
          (Known s (inst ++ (c', n) :: r) ↔ Known a (inst ++ (c', n) :: r)) := by
        intro c' n r hdown
        refine hp.known_iff (by simp) (hat.settled_append _) fun t' ht' hpre => hnotdone ?_
        obtain ⟨d, hd, h⟩ := (hts t').mp ht'
        obtain ⟨d', m, r', hdown', rfl⟩ := h.grows
        have hd' : d ∈ (S.node node).childNodes := by simp [hxs, hd]
        obtain ⟨hnode, -⟩ := List.cons_prefix_cons.mp ((prefix_append_right_inj inst).mp hpre)
        cases hnode
        rw [downTo_sibling hS hat.lt hc hd' hdown hdown']
        exact hd
      refine Wp.mono (Q := fun _ s' => Removes S s s' (ChildTuple S (Known s) inst c)
        (ChildRow S (Known s) inst c)) ?_ (fun _ s' h => h.congr (childTuple_same hsame)
          (childRow_same hsame)) fun _ _ h => h
      split
      iterate 5 exact deleteParam_spec hats.ok (by simp [*, isStoredParam])
      · rename_i htype
        have hatc : AtObject S s c inst := ⟨hats.ok, hbounds.2, by
          rw [instanceNodes_other hS hat.lt hc (by simp [htype]), hat.nodes], hats.ne, hats.settled⟩
        refine (ih c hfuel' _ inst s hatc hopen').mono (fun _ s' h => ?_) fun _ _ h => h
        exact h.congr (fun _ => (childTuple_object htype).symm) fun _ => (childRow_object htype).symm
      · rename_i htype
        exact deleteTableInstances_spec hS hopen' hats hc htype
          (fun path n b hatb hopenb => ih c hfuel' path _ b hatb hopenb) _
      · rename_i h₁ h₂ h₃ h₄ h₅ h₆ h₇
        refine skipParam_spec hats.ok ?_ ?_
        · cases htype : (S.node c).type <;> simp_all [isStoredParam]
        · cases htype : (S.node c).type <;> simp_all [isObject]

/-! ## `DATA_MODEL_DeleteInstance` -/

theorem deleteHooks_quiet (info : Registered) (flags : DelFlags) :
    Keeps T (deleteHooks W info flags) a (Quiet S a) := by
  unfold deleteHooks
  split
  · split
    · exact Quiet.refl S a
    · exact vendorHook_quiet W
  · split
    · rw [Keeps, wp_bind]
      refine (vendorHook_quiet W).mono (fun _ b hb => ?_) fun _ _ hb => hb
      exact (vendorHook_quiet W).mono (fun _ _ h => hb.trans h) fun _ _ h => hb.trans h
    · exact vendorHook_quiet W

/-- The tuples and rows that the deletion of an instance takes away. -/
def RemovesInstance (S : DmTree) (a a' : State) (node : NodeId) (inst : DmInstances) : Prop :=
  Removes S a a' (fun t => t = inst ∨ TupleBelow S (Known a) node inst t)
    (RowBelow S (Known a) node inst)

theorem deleteFound_spec (hS : SchemaOk maxDmInstanceOrder S) (hok : StateOk S a)
    (hopen : a.curTransaction = none → T) (hinst : IsInstance S node inst)
    (hsettled : SettledAt S a (topNode inst)) (hknown : Known a inst) (path : Str)
    (flags : DelFlags) :
    Wp T (deleteFound S W path flags node inst) a
      (fun _ a' => RemovesInstance S a a' node inst) (fun _ a' => RemovesSome S a a') := by
  have hne := hinst.ne_nil hS
  simp only [deleteFound, wp_bind]
  refine (deleteHooks_quiet _ flags).mono (fun _ b hb => ?_)
    fun _ b hb => ⟨[], [], [], purged_quiet hok hb, logged_nil⟩
  have hopen' : b.curTransaction = none → T := by rwa [hb.log]
  refine (transAdd_spec hS hopen' .del path none node inst).mono (fun _ c h => ?_)
    fun _ _ h => h.elim
  obtain ⟨b', hb', -, rfl | ⟨h, -⟩⟩ := h
  swap
  · cases h
  have hentry := entryInst_instances hinst .del path none
  have hquiet := purged_quiet hok (hb.trans hb')
  have hfirst := hquiet.trans (purged_entry hquiet.ok
    ⟨.del, path, none, node, instances inst⟩ rfl (hentry.symm ▸ hinst))
  set c := appendEntry ⟨.del, path, none, node, instances inst⟩ b' with hc
  have hat : AtObject S a node inst := ⟨hok, hinst.lt, hinst.nodes, hne, hsettled⟩
  have hatc := hat.purged hfirst
  have hlogged : Logged S a [] [⟨.del, path, none, node, instances inst⟩] :=
    ⟨by simp, by simpa [hentry] using hne, by simpa [hentry] using fun _ => hknown⟩
  have hopenc : c.curTransaction = none → T := by
    rw [hfirst.log, Option.map_eq_none_iff]
    exact hopen
  have hsame : ∀ r, Known c (inst ++ r) ↔ Known a (inst ++ r) := fun r =>
    hfirst.known_iff (by simp [hne]) (hat.settled_append r) (by simp)
  refine (deleteChildParams_spec hS _ node (Nat.le_add_right ..) _ inst c hatc hopenc).mono
    (fun _ d h => ?_) fun _ _ h => hfirst.then_some hlogged h
  obtain ⟨ts, ks, dts, hp, hlog, hts, hks⟩ := h
  refine wp_instVectorRemove hne (fun h => absurd (hinst.topNode_table hS) h) ?_
  have hempty : ∀ t, Held d t → inst <+: t → t = inst := by
    intro t ht hpre
    by_contra hnot
    rw [hp.held t (topNode_of_isPrefix hpre hne ▸ hatc.settled)] at ht
    obtain ⟨q, hq⟩ := hatc.ok.instance ht.1
    exact ht.2 ((hts t).mpr (tupleBelow_of_isPrefix hS hinst (fun _ _ h hpre _ => h.of_isPrefix hpre)
      hq hpre hnot ht.1.known))
  have hlast := purged_tuple hp.ok hne hempty
  have hall := hlogged.append hfirst hlog
  refine ⟨_, _, _, (hfirst.trans hp).trans hlast, ⟨fun t ht => ?_, ?_, ?_⟩, fun t => ?_,
    fun key => ?_⟩
  · simp only [nil_append, append_nil, mem_append, mem_singleton,
      map_append, map_cons, map_nil, hentry] at ht ⊢
    exact ht.symm.imp id (hlog.entries t)
  · rw [append_nil]
    exact hall.ne_nil
  · rw [append_nil]
    exact hall.known
  · simp only [nil_append, mem_append, mem_singleton, hts]
    rw [or_comm, tupleBelow_same fun c m r _ => hsame _]
  · simp only [nil_append, append_nil, hks]
    exact rowBelow_same fun c m r _ => hsame _

/-- `DATA_MODEL_DeleteInstance` either finds nothing to delete, or it finds the
instance in some state `b` and deletes from there. -/
theorem deleteInstance_spec (hS : SchemaOk maxDmInstanceOrder S) (hok : StateOk S a)
    (hopen : a.curTransaction = none → T) (path : Str) (flags : DelFlags) :
    Wp T (deleteInstance S W path flags) a
      (fun _ a' => Quiet S a a' ∨ ∃ node inst b, IsInstance S node inst ∧ Quiet S a b ∧
        SettledAt S b (topNode inst) ∧ RemovesInstance S b a' node inst)
      (fun _ a' => RemovesSome S a a') := by
  have hquiet : ∀ {b}, Quiet S a b → RemovesSome S a b := fun hb =>
    ⟨[], [], [], purged_quiet hok hb, logged_nil⟩
  have hsame := hquiet (Quiet.refl S a)
  unfold deleteInstance
  split
  · exact hsame
  · rename_i node inst isQualified hget
    split
    · exact hsame
    · rename_i hq
      have hq : isQualified = true := by simpa using hq
      subst hq
      obtain ⟨hlt, hnodes, -⟩ := getQualifiedNode_spec hS hget
      have htop := fun hne => topNode_table hS (t := inst) hlt (hnodes rfl ▸ prefix_rfl) hne
      rw [wp_bind]
      refine (instVectorIsExist_spec hS hok fun hne h => absurd (htop hne) h).mono
        (fun found b h => ?_) fun _ _ h => hquiet h
      obtain ⟨hb, hsettled, hfound⟩ := h
      split
      · rename_i htrue
        split
        · exact hquiet hb
        · rename_i hm
          have hinst := getQualifiedNode_instance hS hget (Decidable.not_not.mp hm)
          have hopen' : b.curTransaction = none → T := by rwa [hb.log]
          have hknown := (hfound.mp htrue).resolve_left (hinst.ne_nil hS)
          refine (deleteFound_spec hS (hb.ok hok) hopen' hinst (hsettled (hinst.ne_nil hS)) hknown
            path flags).mono (fun _ a' h => ?_) fun _ a' h => ?_
          · exact .inr ⟨node, inst, b, hinst, hb, hsettled (hinst.ne_nil hS), h⟩
          · exact (purged_quiet hok hb).then_some logged_nil h
      · split
        · exact .inl hb
        · exact hquiet hb

end Delete

end Deletion
