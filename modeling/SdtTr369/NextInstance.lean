import SdtTr369.VectorInvariant

/-!
# The next instance number

`DM_INST_VECTOR_GetNextInstance` gives one more than the largest number among the entries of
a table under a parent. It looks at the entries of the table itself only, while an instance
exists also through an entry nested below it.
-/

namespace NextInstance

open UspTypes Schema SchemaInvariant PathCodec EffectProgram Agent InstVector DataModel
open PathRoundTrip InstanceTree HeldInstances Addition VectorInvariant BootInstances

/-- The next number is a positive `int`, and no instance with it exists under the parent. -/
def NextFree (S : DmTree) (a : State) (node : NodeId) (inst : DmInstances) : Prop :=
  ∃ n, Prog.result (getNextInstance S node inst) a = some (.ok n) ∧ 0 < n ∧ n < 2 ^ 31 ∧
    ¬ Known a (inst ++ [(node, n)])

/-- The largest number held under the parent, 0 if there is none. -/
structure TopNumber (a : State) (node : NodeId) (inst : DmInstances) (h : Int) : Prop where
  nonneg : 0 ≤ h
  held : h = 0 ∨ Held a (inst ++ [(node, h)])
  top : ∀ k, Held a (inst ++ [(node, k)]) → k ≤ h

/-- The instance exists only through entries nested below it. -/
def Orphaned (a : State) (t : DmInstances) : Prop := Known a t ∧ ¬ Held a t

/-- There is an `int` above the largest number held, and it is not that of an instance that
has entries below it but none of its own. -/
def RoomAbove (a : State) (node : NodeId) (inst : DmInstances) : Prop :=
  ∀ h, TopNumber a node inst h → h + 1 < 2 ^ 31 ∧ ¬ Orphaned a (inst ++ [(node, h + 1)])

/-- The instance `t` of `node` that a call has added is new. With the table settled in the
lock period, no refresh in the call has brought it up either. -/
structure AddedFresh (S : DmTree) (a a' : State) (node : NodeId) (t : DmInstances) (n : Int) :
    Prop where
  positive : 0 < n
  fits : n < 2 ^ 31
  unknown : ¬ Known a t
  grown : SettledAt S a (topNode t) → ∃ b, Grown S b a' node t ∧ ¬ Known b t

section Tables

variable {S : DmTree} {W : World} {a : State} {node : NodeId} {inst : DmInstances}

theorem TopNumber.unique {h h' : Int} (ht : TopNumber a node inst h)
    (ht' : TopNumber a node inst h') : h = h' := by
  have hle : h ≤ h' := by
    rcases ht.held with rfl | hheld
    · exact ht'.nonneg
    · exact ht'.top h hheld
  have hge : h' ≤ h := by
    rcases ht'.held with rfl | hheld
    · exact ht.nonneg
    · exact ht.top h' hheld
  exact Int.le_antisymm hle hge

theorem topNumber_of_next {n : Int} (hpos : 1 ≤ n)
    (habove : ∀ k, Held a (inst ++ [(node, k)]) → k < n)
    (hnext : n = 1 ∨ Held a (inst ++ [(node, n - 1)])) : TopNumber a node inst (n - 1) where
  nonneg := by omega
  held := hnext.imp_left (by omega)
  top k hk := Int.le_sub_one_of_lt (habove k hk)

/-- In a vector that is closed under ancestors nothing is orphaned. -/
theorem roomAbove_iff_of_closed (hclosed : Closed a) :
    RoomAbove a node inst ↔ ∀ h, TopNumber a node inst h → h + 1 < 2 ^ 31 := by
  refine forall₂_congr fun h _ => and_iff_left ?_
  rintro ⟨hknown, hnot⟩
  exact hnot (hclosed.held_of_known hknown (by simp))

/-- A number after the largest one is free when it is an `int` and not orphaned. -/
theorem free_iff {h : Int} (ht : TopNumber a node inst h) :
    (0 < h + 1 ∧ h + 1 < 2 ^ 31 ∧ ¬ Known a (inst ++ [(node, h + 1)])) ↔
      RoomAbove a node inst := by
  have hnot : ¬ Held a (inst ++ [(node, h + 1)]) := by
    intro hheld
    have := ht.top _ hheld
    omega
  constructor
  · rintro ⟨-, hlt, hfree⟩ h' ht'
    rw [ht'.unique ht]
    exact ⟨hlt, fun horphan => hfree horphan.1⟩
  · intro hroom
    obtain ⟨hlt, horphan⟩ := hroom h ht
    exact ⟨Int.lt_add_one_of_le ht.nonneg, hlt, fun hknown => horphan ⟨hknown, hnot⟩⟩

theorem nextFree_iff (hS : SchemaOk maxDmInstanceOrder S) (htable : IsTableOf S node inst) :
    NextFree S a node inst ↔ RoomAbove a node inst := by
  have hspec := getNextInstance_spec (T := False) (a := a) hS htable
  obtain ⟨r, a', hrun⟩ := hspec.exists_run
  cases r with
  | error e => exact ((hspec.of_run hrun).2 e rfl).elim
  | ok n =>
    obtain ⟨-, hpos, habove, hnext⟩ := (hspec.of_run hrun).1 n rfl
    have hfree := free_iff (topNumber_of_next hpos habove hnext)
    rw [Int.sub_add_cancel] at hfree
    rw [← hfree, NextFree, (Prog.result_after hrun).1]
    exact ⟨fun ⟨_, heq, h⟩ => by cases heq; exact h, fun h => ⟨n, rfl, h⟩⟩

/-- An instance whose number the agent chooses. -/
theorem addInstance_free (hS : SchemaOk maxDmInstanceOrder S) (hok : StateOk S a)
    {path : Str} {flags : AddFlags} {n : Int} {a' : State}
    (hget : getQualifiedNode S (stripTrailingDot path) = some (node, inst, false))
    (hgroup : (S.node node).registered.groupId = none) (hroom : RoomAbove a node inst)
    (hrun : addInstance S W path true flags a = some (.ok (some n), a')) :
    AddedFresh S a a' node (inst ++ [(node, n)]) n := by
  have hspec := addInstance_spec (T := True) (W := W) hS hok (fun _ => trivial) path true flags
  rcases (hspec.of_run hrun).1 (some n) rfl with ⟨hnone, -⟩ | ⟨_, _, _, b, hn, hadds, hgrown⟩
  · cases hnone
  · cases hn
    have hget' := hadds.unqualified (.inl rfl)
    rw [hget] at hget'
    cases hget'
    obtain ⟨hpos, habove, hnext⟩ := hadds.next rfl hgroup
    have hfree := (free_iff (topNumber_of_next hpos habove hnext)).mpr hroom
    rw [Int.sub_add_cancel] at hfree
    obtain ⟨hpositive, hfits, hunknown⟩ := hfree
    refine ⟨hpositive, hfits, hunknown, fun hsettled => ⟨b, hgrown, fun hknown => hunknown ?_⟩⟩
    exact (hadds.quiet.known_iff (by simp) hsettled).mp hknown

end Tables

theorem next_instance_free_iff (rs : List Registration) (hrs : ∀ r ∈ rs, WithinArrays r)
    (W : World) (a : State) (hok : StateOk (registerAll initialTree rs) a) (node : NodeId)
    (inst : DmInstances) (htable : IsTableOf (registerAll initialTree rs) node inst) :
    (NextFree (registerAll initialTree rs) a node inst ↔ RoomAbove a node inst) ∧
      ∀ path flags n a',
        getQualifiedNode (registerAll initialTree rs) (stripTrailingDot path) =
          some (node, inst, false) →
        ((registerAll initialTree rs).node node).registered.groupId = none →
        RoomAbove a node inst →
        addInstance (registerAll initialTree rs) W path true flags a = some (.ok (some n), a') →
        AddedFresh (registerAll initialTree rs) a a' node (inst ++ [(node, n)]) n := by
  have hS := registered_ok hrs
  exact ⟨nextFree_iff hS htable, fun _ _ _ _ hget hgroup hroom hrun =>
    addInstance_free hS hok hget hgroup hroom hrun⟩

/-- After the first instance of the outer table. -/
theorem next_instance_free_nested :
    NextFree (registerAll initialTree nestedTables) nestedInstances 2 [] := by
  refine (next_instance_free_iff nestedTables nestedTables_within quietWorld nestedInstances
    nestedInstances_ok 2 [] ⟨by decide, by decide, by decide⟩).1.mpr ?_
  intro h htop
  have hone : h = 1 := by
    rcases htop.held with rfl | hheld
    · have := htop.top 1 ((nestedInstances_held _).mpr (by decide))
      omega
    · have := (nestedInstances_held _).mp hheld
      simpa using this
  subst hone
  refine ⟨by decide, fun ⟨⟨t, ht, hpre⟩, _⟩ => ?_⟩
  rcases (nestedInstances_held t).mp ht with rfl | rfl
  · exact absurd hpre (by decide)
  · exact absurd hpre (by decide)

/-- The largest `int` is the number of an instance; and, after a boot without the row of a
parent, the next number is that of an instance which exists through one nested below it. -/
theorem next_number_taken :
    let S := registerAll initialTree nestedTables
    let a := (informInstance S "Device.A.2147483647".toList).after
      (bootState S quietWorld [] false)
    let b := bootState S quietWorld
      ((Prog.forEach addNested (runStep S quietWorld)).after
        (bootState S quietWorld [] false)).db.rows false
    (Prog.result (getNextInstance S 2 []) a = some (.ok (2 ^ 31)) ∧ ¬ NextFree S a 2 []) ∧
      Prog.result (getNextInstance S 2 []) b = some (.ok 1) ∧ ¬ NextFree S b 2 [] := by
  intro S a b
  have hlarge : Prog.result (getNextInstance S 2 []) a = some (.ok (2 ^ 31)) := by decide +kernel
  have htaken : Prog.result (getNextInstance S 2 []) b = some (.ok 1) := by decide +kernel
  refine ⟨⟨hlarge, fun ⟨n, hn, _, hlt, _⟩ => ?_⟩, htaken, fun ⟨n, hn, _, _, hfree⟩ => ?_⟩
  · rw [hlarge] at hn
    cases hn
    exact absurd hlt (by decide)
  · rw [htaken] at hn
    cases hn
    refine hfree ⟨[(2, 1), (3, 7)], ?_, by decide⟩
    show [(2, 1), (3, 7)] ∈ b.instVector (topNode [(2, 1), (3, 7)])
    decide +kernel

end NextInstance
