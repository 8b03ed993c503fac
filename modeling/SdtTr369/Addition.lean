import SdtTr369.Deletion

/-!
# What an addition registers

`DATA_MODEL_AddInstance` chooses a number, asks the vendor, and registers the
instance with the rows of its own parameters (`Grown`). When a row cannot be
written it removes the instance again, with everything below its tuple
(`Undone`); for a number that was not in use that is the instance alone.
-/

namespace Addition

open UspTypes Schema SchemaInvariant PathCodec DecimalText EffectProgram Agent InstVector DmTrans
open List
open DataModel InstanceTree HeldInstances Deletion

def HasRow (a : State) (key : Key) : Prop := key ∈ a.db.rows.map Prod.fst

/-- The rows of the instance itself: no table below it has an instance yet. -/
abbrev OwnRow (S : DmTree) (node : NodeId) (inst : DmInstances) : Key → Prop :=
  RowBelow S (fun _ => False) node inst

theorem hasRow_set (db : Database) (key : Key) (value : Str) (k : Key) :
    k ∈ (db.set key value).rows.map Prod.fst ↔ k ∈ db.rows.map Prod.fst ∨ k = key := by
  by_cases hk : k = key
  · subst hk
    simp [Database.set]
  · simp only [Database.set, map_append, map_cons, map_nil, mem_append,
      mem_singleton, hk, or_false]
    constructor
    · rintro h
      obtain ⟨row, hrow, rfl⟩ := List.mem_map.mp h
      exact mem_map_of_mem (List.mem_filter.mp hrow).1
    · rintro h
      obtain ⟨row, hrow, rfl⟩ := List.mem_map.mp h
      exact mem_map_of_mem (List.mem_filter.mpr ⟨hrow, by simpa using hk⟩)

/-! ## The rows of a new instance -/

/-- From `a` to `a'` only rows with the keys in `R` were written. -/
structure Stored (S : DmTree) (a a' : State) (R : Key → Prop) : Prop where
  vector : a'.instVector = a.instVector
  settled : ∀ top, SettledAt S a top → SettledAt S a' top
  log : a'.curTransaction = a.curTransaction
  saved : a'.db.saved = a.db.saved
  rows : ∀ key, HasRow a' key ↔ HasRow a key ∨ R key

section Stored

variable {S : DmTree} {W : World} {T : Prop} {a a' a'' : State} {R R' : Key → Prop}

theorem Stored.refl (S : DmTree) (a : State) : Stored S a a fun _ => False :=
  ⟨rfl, fun _ h => h, rfl, rfl, by simp⟩

theorem stored_calls (S : DmTree) (a : State) (n : Nat) :
    Stored S a { a with calls := n } fun _ => False :=
  ⟨rfl, fun _ h => h, rfl, rfl, by simp [HasRow]⟩

theorem Stored.trans (h : Stored S a a' R) (h' : Stored S a' a'' R') :
    Stored S a a'' fun key => R key ∨ R' key where
  vector := h'.vector.trans h.vector
  settled top hs := h'.settled top (h.settled top hs)
  log := h'.log.trans h.log
  saved := h'.saved.trans h.saved
  rows key := by rw [h'.rows, h.rows, or_assoc]

theorem Stored.congr (h : Stored S a a' R) (hR : ∀ key, R key ↔ R' key) : Stored S a a' R' :=
  ⟨h.vector, h.settled, h.log, h.saved, fun key => (h.rows key).trans (or_congr_right (hR key))⟩

theorem Stored.held (h : Stored S a a' R) (t : DmInstances) : Held a' t ↔ Held a t := by
  rw [Held, Held, h.vector]

theorem Stored.ok (h : Stored S a a' R) (hok : StateOk S a) : StateOk S a' where
  held := by rw [h.vector]; exact hok.held
  nodup := by rw [h.vector]; exact hok.nodup
  entries := by rw [h.log]; exact hok.entries

theorem databaseSetParameterValue_spec (key : Key) (value : Str) (obfuscated : Bool) :
    Wp T (databaseSetParameterValue W key value obfuscated) a
      (fun _ a' => Stored S a a' fun k => k = key)
      (fun _ a' => Stored S a a' fun _ => False) := by
  simp only [databaseSetParameterValue, wp_bind, wp_call]
  split
  · exact stored_calls S a _
  · exact ⟨rfl, fun _ h => h, rfl, rfl, hasRow_set a.db key _⟩

/-- A loop whose turns write their own rows writes the rows of all. -/
theorem stored_forEach {β : Type} {f : β → Op Unit} {R : β → Key → Prop} {xs : List β}
    (hstep : ∀ x ∈ xs, ∀ s, Wp T (f x) s (fun _ s' => Stored S s s' (R x))
      (fun _ s' => ∃ R, Stored S s s' R)) :
    Wp T (.forEach xs f) a (fun _ a' => Stored S a a' fun key => ∃ x ∈ xs, R x key)
      (fun _ a' => ∃ R, Stored S a a' R) := by
  let I : List β → State → Prop := fun rest s => ∃ done, xs = done ++ rest ∧
    Stored S a s fun key => ∃ x ∈ done, R x key
  have hloop := wp_forEach (T := T) (f := f) (I := I) (E := fun _ a' => ∃ R, Stored S a a' R)
    (fun x rest s hI => ?_) xs a ⟨[], rfl, (Stored.refl S a).congr (by simp)⟩
  · refine hloop.mono (fun _ s hI => ?_) fun _ _ h => h
    obtain ⟨done, hxs, h⟩ := hI
    rw [append_nil] at hxs
    rw [hxs]
    exact h
  · obtain ⟨done, hxs, h⟩ := hI
    refine (hstep x (by simp [hxs]) s).mono (fun _ s' h' => ?_) fun _ s' h' => ?_
    · refine ⟨done ++ [x], by simp [hxs], (h.trans h').congr fun key => ?_⟩
      simp [or_and_right, exists_or]
    · obtain ⟨R', h'⟩ := h'
      exact ⟨_, h.trans h'⟩

theorem childRow_stored {known : DmInstances → Prop} {node : NodeId} {inst : DmInstances}
    (h : isStoredParam (S.node node).type = true) (key : Key) :
    ChildRow S known inst node key ↔ key = rowKey S node inst := by
  rw [childRow_param (isObject_of_isStoredParam h)]
  simp [h]

theorem addChildParamsDefaultValues_spec {limit : Nat} (hS : SchemaOk limit S) (fuel : Nat)
    (node : NodeId) (hfuel : S.nodes.length ≤ fuel + node) (hnode : node < S.nodes.length)
    (inst : DmInstances) (a : State) :
    Wp T (addChildParamsDefaultValues S W fuel node inst) a
      (fun _ a' => Stored S a a' (OwnRow S node inst)) (fun _ a' => ∃ R, Stored S a a' R) := by
  induction fuel generalizing node a with
  | zero =>
    rw [Nat.zero_add] at hfuel
    exact absurd hnode (Nat.not_lt.mpr hfuel)
  | succ fuel ih =>
    rw [addChildParamsDefaultValues]
    refine (stored_forEach (R := ChildRow S (fun _ => False) inst) fun c hc s => ?_).mono
      (fun _ a' h => h.congr fun key => rowBelow_iff.symm) fun _ _ h => h
    have hbounds := hS.child_bounds node hnode c hc
    have hparam : ∀ value, isStoredParam (S.node c).type = true →
        Wp T (databaseSetParameterValue W (rowKey S c inst) value false) s
          (fun _ s' => Stored S s s' (ChildRow S (fun _ => False) inst c))
          (fun _ s' => ∃ R, Stored S s s' R) := fun value hstored =>
      (databaseSetParameterValue_spec _ value false).mono
        (fun _ s' h => h.congr fun key => (childRow_stored hstored key).symm) fun _ _ h => ⟨_, h⟩
    split
    case h_1 | h_2 | h_3 => exact hparam _ (by simp [*, isStoredParam])
    case h_4 | h_5 =>
      have hstored : isStoredParam (S.node c).type = true := by simp [*, isStoredParam]
      have hcall := stored_calls S s (s.calls + 1)
      rw [wp_bind, wp_call]
      split
      · exact ⟨_, hcall⟩
      · refine (databaseSetParameterValue_spec (S := S) _ _ false).mono (fun _ s' h => ?_)
          fun _ s' h => ?_
        · refine (hcall.trans h).congr fun key => ?_
          rw [childRow_stored hstored]
          simp
        · exact ⟨_, hcall.trans h⟩
    case h_6 htype =>
      have hfuel' : S.nodes.length ≤ fuel + c := by
        refine Nat.le_trans hfuel ?_
        rw [Nat.add_right_comm, Nat.add_assoc]
        exact Nat.add_le_add_left (Nat.succ_le_of_lt hbounds.1) fuel
      exact (ih c hfuel' hbounds.2 s).mono
        (fun _ s' h => h.congr fun key => (childRow_object htype).symm) fun _ _ h => h
    case h_7 =>
      refine (Stored.refl S s).congr fun key => ⟨False.elim, fun h => ?_⟩
      rcases h with ⟨hstored, -⟩ | ⟨htype, -⟩ | ⟨-, n, h, -⟩
      · cases htype : (S.node c).type <;> simp_all [isStoredParam]
      · simp_all
      · exact h

end Stored

/-! ## The registration -/

/-- From `a` to `a'` the instance `p` of `node` was registered with its rows. -/
structure Grown (S : DmTree) (a a' : State) (node : NodeId) (p : DmInstances) : Prop where
  held : ∀ t, Held a' t ↔ Held a t ∨ t = p
  settled : ∀ top, SettledAt S a top → SettledAt S a' top
  rows : ∀ key, HasRow a' key ↔ HasRow a key ∨ OwnRow S node p key
  saved : a'.db.saved = a.db.saved
  log : ∃ dt, dt.op = .add ∧ entryInst S dt = p ∧
    a'.curTransaction = a.curTransaction.map (· ++ [dt])
  ok : StateOk S a'

/-- From `a` to `a'` some rows were written and the instance was removed again,
with everything below it. -/
structure Undone (S : DmTree) (a a' : State) (p : DmInstances) : Prop where
  held : ∀ t, Held a' t ↔ Held a t ∧ ¬ p <+: t
  settled : ∀ top, SettledAt S a top → SettledAt S a' top
  saved : a'.db.saved = a.db.saved
  log : a'.curTransaction = a.curTransaction
  ok : StateOk S a'

section Register

variable {S : DmTree} {W : World} {T : Prop} {a : State} {node : NodeId} {parent : DmInstances}

theorem registerInstance_spec (hS : SchemaOk maxDmInstanceOrder S) (hok : StateOk S a)
    (hopen : a.curTransaction = none → T) (htable : IsTableOf S node parent) (parentPath : Str)
    (n : Int) :
    Wp T (registerInstance S W parentPath node parent n) a
      (fun _ a' => Grown S a a' node (parent ++ [(node, n)]))
      (fun _ a' => Undone S a a' (parent ++ [(node, n)])) := by
  have hp := htable.instance n
  have hne := hp.ne_nil hS
  have htop : (S.node (topNode (parent ++ [(node, n)]))).type ≠ .objectMultiInstance → T :=
    fun h => absurd (hp.topNode_table hS) h
  have hadd := hok.addHeld hp
  simp only [registerInstance, wp_bind]
  refine wp_instVectorAdd hne htop ?_
  rw [wp_attempt]
  refine (addChildParamsDefaultValues_spec hS _ node (Nat.le_add_right ..) htable.lt
    (parent ++ [(node, n)]) _).mono (fun _ b h => ?_) fun _ b h => ?_
  · have hopen' : b.curTransaction = none → T := by
      rw [h.log, addHeld_curTransaction]
      exact hopen
    refine (transAdd_spec hS hopen' .add _ none node _).mono (fun _ a' h' => ?_)
      fun _ _ h => h.elim
    obtain ⟨b', -, hsame, rfl | ⟨h', -⟩⟩ := h'
    swap
    · cases h'
    rw [hsame (by simp)]
    have hentry := entryInst_instances hp .add (appendName parentPath (intDigits n)) none
    refine ⟨fun t => (h.held t).trans held_addHeld,
      fun top hs => h.settled top (addHeld_settled hs), ?_, h.saved.trans (by simp), ?_, ?_⟩
    · intro key
      have hrows := h.rows key
      simp only [HasRow, addHeld_db] at hrows ⊢
      exact hrows
    · refine ⟨_, rfl, hentry, ?_⟩
      show Option.map _ b.curTransaction = _
      rw [h.log, addHeld_curTransaction]
    · have hok' := h.ok hadd
      refine ⟨hok'.held, hok'.nodup, fun log hlog dt hdt => ?_⟩
      obtain ⟨log₀, hlog₀, rfl⟩ := Option.map_eq_some_iff.mp hlog
      rcases List.mem_append.mp hdt with hdt | hdt
      · exact hok'.entries log₀ hlog₀ dt hdt
      · rw [List.mem_singleton.mp hdt, hentry]
        exact .inr hp
  · obtain ⟨R, h⟩ := h
    simp only [wp_bind, wp_fail]
    refine wp_instVectorRemove hne htop ?_
    refine ⟨fun t => ?_, fun top hs => h.settled top (addHeld_settled hs), ?_, ?_,
      (h.ok hadd).removeHeld⟩
    · rw [held_removeHeld hne, h.held, held_addHeld]
      constructor
      · rintro ⟨ht | rfl, hpre⟩
        · exact ⟨ht, hpre⟩
        · exact absurd prefix_rfl hpre
      · exact fun h => ⟨.inl h.1, h.2⟩
    · exact h.saved.trans (by simp)
    · exact h.log.trans addHeld_curTransaction

/-! ## `DATA_MODEL_AddInstance` -/

/-- What is known of a new instance before the vendor is asked. -/
structure Chosen (S : DmTree) (a b : State) (node : NodeId) (inst : DmInstances)
    (isQualified wantInstance : Bool) (new : NewInstance) : Prop where
  table : IsTableOf S node new.parent
  unqualified : isQualified = false → new.parent = inst
  qualified : isQualified = true → ∀ n, new.number = some n → new.parent ++ [(node, n)] = inst
  grouped : new.number = none → (S.node node).registered.groupId.isSome = true
  fresh : ∀ n, new.number = some n → Closed a → ¬ Known b (new.parent ++ [(node, n)])
  next : ∀ n, new.number = some n → wantInstance = true →
    1 ≤ n ∧ (∀ k, Held a (inst ++ [(node, k)]) → k < n) ∧
      (n = 1 ∨ Held a (inst ++ [(node, n - 1)]))

theorem chooseInstance_spec (hS : SchemaOk maxDmInstanceOrder S) (hok : StateOk S a)
    {path internalPath : Str} {inst : DmInstances} {isQualified wantInstance : Bool}
    (hget : getQualifiedNode S path = some (node, inst, isQualified))
    (hm : (S.node node).type = .objectMultiInstance)
    (hq : isQualified = (!wantInstance && (S.node node).registered.groupId.isNone))
    (flags : AddFlags) :
    Wp T (chooseInstance S W internalPath wantInstance flags node inst) a
      (fun new b => Quiet S a b ∧
        ∀ nw, new = some nw → Chosen S a b node inst isQualified wantInstance nw)
      (fun _ b => Quiet S a b) := by
  obtain ⟨hlt, hqual, hunqual⟩ := getQualifiedNode_spec hS hget
  unfold chooseInstance
  split
  · rename_i hgroup
    have hq' : isQualified = false := by
      rw [hq]
      cases hg : (S.node node).registered.groupId <;> simp_all
    refine ⟨Quiet.refl S a, fun nw hnw => ?_⟩
    cases hnw
    exact ⟨⟨hlt, hm, (hunqual hq').2⟩, fun _ => rfl, by simp, fun _ => hgroup, by simp, by simp⟩
  · rename_i hgroup
    have hnone : (S.node node).registered.groupId.isNone = true := by simpa using hgroup
    split
    · rename_i hwant
      have hq' : isQualified = false := by rw [hq, hwant]; rfl
      have htable : IsTableOf S node inst := ⟨hlt, hm, (hunqual hq').2⟩
      simp only [wp_bind, wp_pure]
      refine (getNextInstance_spec hS htable).mono (fun n b h => ?_) fun _ _ h => h.elim
      obtain ⟨rfl, hpos, habove, hnext⟩ := h
      refine ⟨Quiet.refl S b, fun nw hnw => ?_⟩
      cases hnw
      refine ⟨htable, fun _ => rfl, fun h => ?_, by simp, fun m hm' hclosed hknown => ?_,
        fun m hm' _ => ?_⟩
      · rw [hq'] at h
        cases h
      · cases hm'
        exact Int.lt_irrefl _ (habove _ (hclosed.held_of_known hknown (by simp)))
      · cases hm'
        exact ⟨hpos, habove, hnext⟩
    · rename_i hwant
      have hq' : isQualified = true := by rw [hq, hnone]; simp [hwant]
      have hinst : IsInstance S node inst := ⟨hlt, hm, hqual hq'⟩
      obtain ⟨n, hlast, hget?, htable⟩ := hinst.dropLast hS
      rw [wp_bind]
      refine (instVectorIsExist_spec hS hok
        fun _ h => absurd (hinst.topNode_table hS) h).mono (fun found b h => ?_) fun _ _ h => h
      obtain ⟨hb, -, hfound⟩ := h
      split
      · split
        · exact ⟨hb, by simp⟩
        · exact hb
      · rename_i hnot
        rw [hget?]
        refine ⟨hb, fun nw hnw => ?_⟩
        cases hnw
        refine ⟨htable, fun h => ?_, fun _ m hm' => ?_, by simp, fun m hm' _ hknown => ?_,
          fun _ _ h => absurd h hwant⟩
        · rw [hq'] at h
          cases h
        · cases hm'
          exact hlast.symm
        · cases hm'
          rw [← hlast] at hknown
          exact hnot (hfound.mpr (.inr hknown))

theorem addHooks_spec (flags : AddFlags) (number : Option Int) :
    Wp T (addHooks W flags number) a (fun n b => Quiet S a b ∧ ∀ m, number = some m → n = m)
      (fun _ b => Quiet S a b) := by
  cases number with
  | some m =>
    have hlast : ∀ b, Quiet S a b → Wp T (do vendorHook W; pure m : Op Int) b
        (fun n c => Quiet S a c ∧ ∀ k, some m = some k → n = k) (fun _ c => Quiet S a c) := by
      intro b hb
      simp only [wp_bind, wp_pure]
      refine (vendorHook_quiet W).mono (fun _ c hc => ⟨hb.trans hc, ?_⟩) fun _ _ hc => hb.trans hc
      exact fun k hk => Option.some.inj hk
    simp only [addHooks]
    split
    · rw [wp_bind]
      exact (vendorHook_quiet W).mono (fun _ b hb => hlast b hb) fun _ _ hb => hb
    · exact hlast a (Quiet.refl S a)
  | none =>
    simp only [addHooks, wp_bind, wp_call]
    split
    · exact quiet_calls S a _
    · exact ⟨quiet_calls S a _, by simp⟩

/-- What is known of a new instance when it is registered. -/
structure AddsTo (S : DmTree) (a b : State) (path : Str) (wantInstance : Bool) (node : NodeId)
    (parent : DmInstances) (n : Int) : Prop where
  quiet : Quiet S a b
  table : IsTableOf S node parent
  parent_known : parent = [] ∨ Known b parent
  fresh : SettledAt S a (topNodeOf node parent) → Closed a →
    (S.node node).registered.groupId = none → ¬ Known b (parent ++ [(node, n)])
  unqualified : wantInstance = true ∨ (S.node node).registered.groupId ≠ none →
    getQualifiedNode S (stripTrailingDot path) = some (node, parent, false)
  qualified : wantInstance = false → (S.node node).registered.groupId = none →
    getQualifiedNode S (stripTrailingDot path) = some (node, parent ++ [(node, n)], true)
  next : wantInstance = true → (S.node node).registered.groupId = none →
    1 ≤ n ∧ (∀ k, Held a (parent ++ [(node, k)]) → k < n) ∧
      (n = 1 ∨ Held a (parent ++ [(node, n - 1)]))

theorem addInstance_spec (hS : SchemaOk maxDmInstanceOrder S) (hok : StateOk S a)
    (hopen : a.curTransaction = none → T) (path : Str) (wantInstance : Bool) (flags : AddFlags) :
    Wp T (addInstance S W path wantInstance flags) a
      (fun r a' => r = none ∧ Quiet S a a' ∨ ∃ node parent n b, r = some n ∧
        AddsTo S a b path wantInstance node parent n ∧ Grown S b a' node (parent ++ [(node, n)]))
      (fun _ a' => Quiet S a a' ∨ ∃ node parent n b,
        AddsTo S a b path wantInstance node parent n ∧ Undone S b a' (parent ++ [(node, n)])) := by
  simp only [addInstance]
  split
  · exact .inl (Quiet.refl S a)
  split
  · exact .inl (Quiet.refl S a)
  rename_i node inst isQualified hget
  split
  · exact .inl (Quiet.refl S a)
  split
  · exact .inl (Quiet.refl S a)
  split
  · exact .inl (Quiet.refl S a)
  rename_i hm hgroup hq
  have hm := Decidable.not_not.mp hm
  have hq := Decidable.not_not.mp hq
  rw [wp_bind]
  refine (chooseInstance_spec hS hok hget hm hq flags).mono (fun new b h => ?_)
    fun _ _ h => .inl h
  obtain ⟨hb, hchosen⟩ := h
  cases new with
  | none => exact .inl ⟨rfl, hb⟩
  | some nw =>
    have hnw := hchosen nw rfl
    have htop : nw.parent ≠ [] →
        (S.node (topNode nw.parent)).type ≠ .objectMultiInstance → T := by
      intro hne h
      refine absurd (topNode_table hS hnw.table.lt ?_ hne) h
      rw [← hnw.table.nodes]
      exact prefix_append ..
    rw [wp_bind]
    refine (instVectorIsExist_spec hS (hb.ok hok) htop).mono (fun found c h => ?_)
      fun _ _ h => .inl (hb.trans h)
    obtain ⟨hc, hsettled, hfound⟩ := h
    split
    · rename_i hparent
      have hparent := hfound.mp hparent
      rw [wp_bind]
      refine (addHooks_spec flags nw.number).mono (fun n d h => ?_)
        fun _ _ h => .inl ((hb.trans hc).trans h)
      obtain ⟨hd, hn⟩ := h
      have hquiet := (hb.trans hc).trans hd
      have hnumber : (S.node node).registered.groupId = none → nw.number = some n := by
        intro hg
        cases hnum : nw.number with
        | none =>
          have := hnw.grouped hnum
          simp [hg] at this
        | some m => rw [hn m hnum]
      have hadds : AddsTo S a d path wantInstance node nw.parent n := by
        refine ⟨hquiet, hnw.table, ?_, fun hs hclosed hg hknown => ?_, fun h => ?_,
          fun hwant hg => ?_, fun hwant hg => ?_⟩
        · by_cases hne : nw.parent = []
          · exact .inl hne
          · exact .inr ((hd.known_iff hne (hsettled hne)).mpr (hparent.resolve_left hne))
        · have hs' := hb.settled _ hs
          rw [topNodeOf_eq n] at hs'
          exact hnw.fresh n (hnumber hg) hclosed
            (((hc.trans hd).known_iff (by simp) hs').mp hknown)
        · have hq' : isQualified = false := by
            rw [hq]
            rcases h with hwant | hg
            · rw [hwant]
              rfl
            · cases hgroup' : (S.node node).registered.groupId <;> simp_all
          rw [hnw.unqualified hq', ← hq']
          exact hget
        · have hq' : isQualified = true := by rw [hq, hwant, hg]; rfl
          rw [hnw.qualified hq' n (hnumber hg), ← hq']
          exact hget
        · have hq' : isQualified = false := by rw [hq, hwant]; rfl
          rw [hnw.unqualified hq']
          exact hnw.next n (hnumber hg) hwant
      rw [wp_bind]
      have hopen' : d.curTransaction = none → T := by rwa [hquiet.log]
      refine (registerInstance_spec hS (hquiet.ok hok) hopen' hnw.table nw.parentPath n).mono
        (fun _ a' h => ?_) fun _ a' h => ?_
      · exact .inr ⟨node, nw.parent, n, d, rfl, hadds, h⟩
      · exact .inr ⟨node, nw.parent, n, d, hadds, h⟩
    · exact .inl (hb.trans hc)

/-- From `a` to `a'` at most the row of the stored parameter `node` was written. -/
def StoredOwn (S : DmTree) (a a' : State) (node : NodeId) (inst : DmInstances) : Prop :=
  ∃ R, Stored S a a' R ∧
    ∀ key, R key → isStoredParam (S.node node).type = true ∧ key = rowKey S node inst

theorem writeParameter_spec (checkWritable : Bool) (inst : DmInstances) (newValue : Str) :
    Keeps T (writeParameter S W checkWritable node inst newValue) a
      fun a' => StoredOwn S a a' node inst := by
  have hsame : StoredOwn S a a node inst := ⟨_, Stored.refl S a, fun _ h => h.elim⟩
  have hcalls : ∀ n, StoredOwn S a { a with calls := n } node inst :=
    fun n => ⟨_, stored_calls S a n, fun _ h => h.elim⟩
  have hset : ∀ n obfuscated, isStoredParam (S.node node).type = true →
      Keeps T (databaseSetParameterValue W (rowKey S node inst) newValue obfuscated)
        { a with calls := n } fun a' => StoredOwn S a a' node inst := by
    intro n obfuscated hstored
    refine (databaseSetParameterValue_spec (S := S) _ _ obfuscated).mono (fun _ a' h => ?_)
      fun _ a' h => ?_
    · exact ⟨_, (stored_calls S a n).trans h, fun key hk => ⟨hstored, hk.elim False.elim id⟩⟩
    · exact ⟨_, (stored_calls S a n).trans h, fun key hk => (hk.elim id id).elim⟩
  have hread : isStoredParam (S.node node).type = true →
      Keeps T (do writeParameter.convert W
                  databaseSetParameterValue W (rowKey S node inst) newValue false) a
        fun a' => StoredOwn S a a' node inst := by
    intro hstored
    simp only [Keeps, writeParameter.convert, wp_bind, wp_call]
    split
    · exact hset _ false hstored
    · exact hcalls _
  have hwrite : ∀ obfuscated, isStoredParam (S.node node).type = true →
      Keeps T (do writeParameter.convert W
                  vendorHook W
                  databaseSetParameterValue W (rowKey S node inst) newValue obfuscated) a
        fun a' => StoredOwn S a a' node inst := by
    intro obfuscated hstored
    simp only [Keeps, writeParameter.convert, vendorHook, wp_bind, wp_call]
    split
    · simp only [wp_pure]
      split
      · exact hset _ obfuscated hstored
      · exact hcalls _
    · exact hcalls _
  unfold writeParameter
  split
  · rename_i h
    split
    · exact hsame
    · exact hread (by rw [h]; rfl)
  · rename_i h
    split
    · exact hsame
    · exact hread (by rw [h]; rfl)
  · rename_i h
    exact hwrite false (by rw [h]; rfl)
  · rename_i h
    exact hwrite false (by rw [h]; rfl)
  · rename_i h
    exact hwrite true (by rw [h]; rfl)
  · simp only [Keeps, writeParameter.convert, vendorHook, wp_bind, wp_call]
    split
    · simp only [wp_pure]
      split
      · exact hcalls _
      · exact hcalls _
    · exact hcalls _
  · exact hsame

end Register

end Addition
