import SdtTr369.PathText

/-!
# From a path to its key and back

Two questions about the path codec, each with the exact condition: when the
instance numbers put into a registered schema path are read back
(`recoversInstances_iff`), and when a path that `DM_PRIV_FormDB_FromPath`
accepts can be formed again from its key (`roundTrips_iff`).
-/

namespace PathRoundTrip

open UspTypes TextUtils Schema SchemaInvariant DecimalText PathCodec PathText List

/-- No registered name holds a wildcard or a placeholder. -/
def CleanTree (S : DmTree) : Prop :=
  ∀ p < S.nodes.length, ∀ c ∈ (S.node p).childNodes,
    '*' ∉ (S.node c).name ∧ ¬ multiSeparator <:+: (S.node c).name

variable {id : NodeId} {inst : List Int} {path : Str}

section Paths

variable {limit : Nat} {S : DmTree}

theorem treePath_clean (hS : SchemaOk limit S) (hclean : CleanTree S) {l : List NodeId}
    (h : TreePath S l id) :
    CleanSegments (segments (S.node id).path) ∧
      firstSegment (S.node id).path ≠ multiSeparator := by
  have hroot : ∀ name : Str, CleanName name → '.' ∉ name →
      CleanSegments (segments name) ∧ firstSegment name ≠ multiSeparator := by
    intro name hname hdot
    rw [firstSegment, segments_single hdot]
    exact ⟨fun s hs => .inr (List.mem_singleton.mp hs ▸ hname), hname.ne_multi⟩
  induction h with
  | device =>
    rw [rootDeviceNode, hS.root_paths.1]
    exact hroot _ ⟨by simp [NameOk]; decide, by decide, by decide⟩ (by decide)
  | internal =>
    rw [rootInternalNode, hS.root_paths.2]
    exact hroot _ ⟨by simp [NameOk]; decide, by decide, by decide⟩ (by decide)
  | @child l p c hp hc ih =>
    have hlt := hp.lt hS
    have hname : CleanName (S.node c).name :=
      ⟨hS.child_name p hlt c hc, (hclean p hlt c hc).1, (hclean p hlt c hc).2⟩
    have hsep : CleanSegments (segments ((S.node c).name ++ separator (S.node c).type)) := by
      unfold separator
      split
      · rw [segments_nodot hname.ok.2.1]
        intro s hs
        rcases List.mem_cons.mp hs with rfl | hs
        · exact .inr hname
        · rw [segments_single (by decide)] at hs
          exact .inl (List.mem_singleton.mp hs)
      · rw [append_nil, segments_single hname.ok.2.1]
        exact fun s hs => .inr (List.mem_singleton.mp hs ▸ hname)
    obtain ⟨f, fs, hf⟩ := exists_cons_of_ne_nil (segments_ne_nil (S.node p).path)
    rw [hS.child_path p hlt c hc, append_assoc, cons_append, firstSegment,
      segments_append_dot]
    refine ⟨?_, ?_⟩
    · intro s hs
      rcases List.mem_append.mp hs with hs | hs
      · exact ih.1 s hs
      · exact hsep s hs
    · have := ih.2
      rw [firstSegment, hf] at this
      rwa [hf]

/-- The codec on one node: what the numerals put into its path are read as. -/
theorem calcHashFromPath_node (hS : SchemaOk maxDmInstanceOrder S) (hclean : CleanTree S)
    (hid : id < S.nodes.length) {nums : List Nat} (hlen : nums.length = (S.node id).order) :
    calcHashFromPath (instantiatedText (S.node id).path (nums.map natDigits)) =
      .ok ((S.node id).hash, nums.map readBack) := by
  obtain ⟨l, hl⟩ := exists_treePath hS id hid
  obtain ⟨hsegs, hfirst⟩ := treePath_clean hS hclean hl
  have horder := hS.order_eq id hid
  rw [calcHashFromPath_text hsegs hfirst (by rw [hl.placeholders_eq hS, hlen, horder])
    (by rw [hlen]; exact hS.order_le id hid), hS.hash_eq id hid]

theorem formInstantiatedPath_node (hS : SchemaOk limit S) (hclean : CleanTree S)
    (hid : id < S.nodes.length) (hlen : inst.length = (S.node id).order) (len : Nat) :
    formInstantiatedPath (S.node id).path inst len =
      if (instantiatedText (S.node id).path (inst.map intDigits)).length < len then
        some (.ok (instantiatedText (S.node id).path (inst.map intDigits))) else none := by
  obtain ⟨l, hl⟩ := exists_treePath hS id hid
  refine formInstantiatedPath_eq (treePath_clean hS hclean hl).1 ?_ len
  rw [hl.placeholders_eq hS, hlen, hS.order_eq id hid]

end Paths

/-! ## Reading instance numbers back -/

theorem readBack_of_lt {n : Nat} (h : n < signedLimit) : readBack n = n := signedWord_of_lt h

theorem map_readBack {nums : List Nat} (h : ∀ n ∈ nums, n < signedLimit) :
    nums.map readBack = nums.map Int.ofNat :=
  map_congr_left fun n hn => readBack_of_lt (h n hn)

/-- The instance numbers `nums` of a node survive the way into a path and back:
numbers that an instance can have are recovered, dots added or not, and a
larger number is not taken for the instances of another path. -/
structure RecoversInstances (S : DmTree) (id : NodeId) (nums : List Nat) : Prop where
  nodeHash : (S.node id).hash = calcHash (S.node id).path
  recovered : (∀ n ∈ nums, n < signedLimit) → ∀ len path,
    formInstantiatedPath (S.node id).path (nums.map Int.ofNat) len = some (.ok path) →
    ∀ path', DotVariant path path' →
      calcHashFromPath path' = .ok ((S.node id).hash, nums.map Int.ofNat)
  notAnother : ∀ n ∈ nums, signedLimit ≤ n → ∀ nums', nums'.length = nums.length →
    nums' ≠ nums → ∀ r,
      calcHashFromPath (instantiatedText (S.node id).path (nums.map natDigits)) = .ok r →
      calcHashFromPath (instantiatedText (S.node id).path (nums'.map natDigits)) ≠ .ok r

/-- Among the paths of a registered schema, exactly those whose numbers fit a
signed word are read as the instances they name. -/
theorem recoversInstances_iff (rs : List Registration) (hrs : ∀ r ∈ rs, WithinArrays r)
    (hclean : CleanTree (registerAll initialTree rs)) (l : List NodeId) (id : NodeId)
    (hid : TreePath (registerAll initialTree rs) l id) (nums : List Nat)
    (hlen : nums.length = ((registerAll initialTree rs).node id).order) :
    RecoversInstances (registerAll initialTree rs) id nums ↔ ∀ n ∈ nums, n < signedLimit := by
  have hS := registered_ok hrs
  have hlt := hid.lt hS
  constructor
  · intro h n hn
    by_contra hbig
    obtain ⟨k, hk, rfl⟩ := List.mem_iff_getElem.mp hn
    have hback : (nums.set k (nums[k] + wordSize)).map readBack = nums.map readBack := by
      rw [map_set, readBack, signedWord_wrap, ← readBack]
      refine ext_getElem (by simp) fun i h₁ h₂ => ?_
      rw [getElem_set]
      split
      · simp_all
      · rfl
    have hne : nums.set k (nums[k] + wordSize) ≠ nums := by
      intro heq
      have hget := congrArg (fun l => l[k]?) heq
      simp [hk, wordSize] at hget
    refine h.notAnother _ hn (Nat.le_of_not_lt hbig) (nums.set k (nums[k] + wordSize)) (by simp)
      hne _ (calcHashFromPath_node hS hclean hlt hlen) ?_
    rw [calcHashFromPath_node hS hclean hlt (by simpa using hlen), hback]
  · intro hsmall
    refine ⟨hS.hash_eq id hlt, ?_, fun n hn hbig => absurd (hsmall n hn) (Nat.not_lt.mpr hbig)⟩
    intro _ len path hform path' hdots
    rw [formInstantiatedPath_node hS hclean hlt (by simpa using hlen)] at hform
    split at hform
    · cases hform
      rw [calcHashFromPath_dotVariant hdots, ← map_readBack hsmall,
        ← calcHashFromPath_node hS hclean hlt hlen, map_readBack hsmall, map_map]
      rfl
    · cases hform

/-- Two nested tables with a parameter in the inner one. -/
def nestedTables : List Registration :=
  [tableRegistration "Device.A.{i}", tableRegistration "Device.A.{i}.B.{i}",
    { path := "Device.A.{i}.B.{i}.P".toList, type := .dbParamReadWrite, flags := {} }]

theorem nestedTables_within : ∀ r ∈ nestedTables, WithinArrays r := by
  intro r hr
  simp only [nestedTables, mem_cons, not_mem_nil, or_false] at hr
  rcases hr with rfl | rfl | rfl <;>
    exact ⟨by decide, by decide, by decide⟩

theorem nestedTables_clean : CleanTree (registerAll initialTree nestedTables) := by
  unfold CleanTree
  decide

theorem nestedTables_parameter :
    TreePath (registerAll initialTree nestedTables) [0, 2, 3, 4] 4 :=
  ((TreePath.device.child (c := 2) (by decide)).child (c := 3)
    (by decide)).child (c := 4) (by decide)

theorem recoversInstances_nested :
    RecoversInstances (registerAll initialTree nestedTables) 4 [1, 7] :=
  (recoversInstances_iff nestedTables nestedTables_within nestedTables_clean _ 4
    nestedTables_parameter [1, 7] (by decide)).mpr (by decide)

/-- The number 4294967297 is read as 1. -/
theorem large_number_taken_for_one :
    ¬ RecoversInstances (registerAll initialTree nestedTables) 4 [4294967297, 7] := by
  intro h
  have hbig : calcHashFromPath "Device.A.4294967297.B.7.P".toList =
      .ok (((registerAll initialTree nestedTables).node 4).hash, [1, 7]) := by decide +kernel
  refine h.notAnother 4294967297 (by decide) (by decide) [1, 7] rfl (by decide) _ hbig ?_
  decide +kernel

/-! ## Instance strings -/

theorem parseInstanceInteger_digits {s : Str} (hs : s.all Char.isDigit = true) (value : UInt32)
    (rest : Str) :
    parseInstanceInteger value (s ++ rest) = parseInstanceInteger (s.foldl pushDigit value) rest := by
  induction s generalizing value with
  | nil => rfl
  | cons c s ih =>
    simp only [all_cons, Bool.and_eq_true] at hs
    have hdot : c ≠ '.' := by
      rintro rfl
      exact absurd hs.1 (by decide)
    rw [cons_append, parseInstanceInteger, if_neg hdot,
      if_pos (show isNumeric c = true from hs.1), ih hs.2]
    rfl

theorem parseInstanceString_eq {s : Str} (hs : s ≠ []) :
    parseInstanceString s =
      (parseInstanceInteger 0 s).bind fun r => (parseInstanceString r.2).map (r.1 :: ·) := by
  cases s with
  | nil => exact absurd rfl hs
  | cons c s =>
    rw [parseInstanceString]
    split <;> simp_all

theorem formInstanceString_cons (n : Int) (ns : List Int) :
    formInstanceString (n :: ns) =
      intDigits n ++ if ns = [] then [] else '.' :: formInstanceString ns := by
  cases ns with
  | nil => simp [formInstanceString]
  | cons m ns =>
    simp only [formInstanceString, map_cons, intercalate_cons_cons, reduceCtorEq,
      ↓reduceIte]
    simp

theorem formInstanceString_inj {ms ns : List Int}
    (h : formInstanceString ms = formInstanceString ns) : ms = ns := by
  have hsegments : ∀ l : List Int, l ≠ [] → segments (formInstanceString l) = l.map intDigits := by
    intro l hl
    refine segments_join (fun s hs => ?_) (by simpa using hl)
    obtain ⟨n, -, rfl⟩ := List.mem_map.mp hs
    exact dot_not_mem_intDigits n
  have hempty : ∀ l : List Int, formInstanceString l = [] → l = [] := by
    intro l hl
    cases l with
    | nil => rfl
    | cons n l =>
      rw [formInstanceString_cons] at hl
      exact absurd (List.append_eq_nil_iff.mp hl).1 (intDigits_ne_nil n)
  by_cases hms : ms = []
  · subst hms
    exact (hempty ns h.symm).symm
  · have hns : ns ≠ [] := by
      rintro rfl
      exact hms (hempty ms h)
    have hmap := hsegments ms hms
    rw [h, hsegments ns hns] at hmap
    exact (List.map_injective_iff.mpr (fun _ _ => intDigits_inj) hmap).symm

/-- The instance string is read back unless a number in it carries a sign. -/
theorem parseInstanceString_form (hlt : ∀ n ∈ inst, n < signedLimit) :
    parseInstanceString (formInstanceString inst) =
      if ∀ n ∈ inst, 0 ≤ n then some inst else none := by
  induction inst with
  | nil => simp [formInstanceString, parseInstanceString]
  | cons n ns ih =>
    have ih := ih fun m hm => hlt m (mem_cons_of_mem _ hm)
    have hne : formInstanceString (n :: ns) ≠ [] := by
      rw [formInstanceString_cons]
      simp [intDigits_ne_nil]
    rw [parseInstanceString_eq hne, formInstanceString_cons]
    cases n with
    | negSucc n =>
      have hsign : parseInstanceInteger 0
          (intDigits (Int.negSucc n) ++ if ns = [] then [] else '.' :: formInstanceString ns) =
            none := rfl
      rw [hsign, if_neg]
      · rfl
      · intro h
        exact absurd (h _ mem_cons_self) (by simp)
    | ofNat n =>
      have hn : n < signedLimit := Int.ofNat_lt.mp (hlt (Int.ofNat n) mem_cons_self)
      have hread : signedWord ((natDigits n).foldl pushDigit 0) = Int.ofNat n := by
        rw [show (natDigits n).foldl pushDigit 0 = UInt32.ofNat n from wordValue_natDigits n]
        exact signedWord_of_lt hn
      have hrest : (parseInstanceInteger 0
          (natDigits n ++ if ns = [] then [] else '.' :: formInstanceString ns)) =
            some (Int.ofNat n, formInstanceString ns) := by
        rw [parseInstanceInteger_digits (natDigits_all n)]
        by_cases hempty : ns = []
        · subst hempty
          rw [if_pos rfl, parseInstanceInteger, hread]
          rfl
        · rw [if_neg hempty, parseInstanceInteger, if_pos rfl, hread]
      rw [show intDigits (Int.ofNat n) = natDigits n from rfl, hrest, Option.bind_some, ih]
      by_cases hpos : ∀ m ∈ ns, 0 ≤ m
      · rw [if_pos hpos, if_pos (by simpa using hpos)]
        rfl
      · rw [if_neg hpos, if_neg (by simpa using hpos)]
        rfl

/-! ## Keys -/

theorem hashSegments_lt {acc r : UInt32 × List Int} {segs : List Str}
    (hacc : ∀ n ∈ acc.2, n < signedLimit) (h : hashSegments acc segs = .ok r) :
    ∀ n ∈ r.2, n < signedLimit := by
  induction segs generalizing acc with
  | nil => cases h; exact hacc
  | cons s segs ih =>
    rw [hashSegments_cons, hashSegment] at h
    split at h
    · split at h
      · cases h
      · refine ih ?_ h
        intro n hn
        rcases List.mem_append.mp hn with hn | hn
        · exact hacc n hn
        · rw [List.mem_singleton.mp hn]
          exact signedWord_lt _
    · have htail : hashSegments (addWildcards (addToHash acc.1 '.') s, acc.2) segs = .ok r := h
      refine ih ?_ htail
      exact hacc

theorem getNodeFromPath_some {S : DmTree} {inst : DmInstances}
    (h : getNodeFromPath S path = some (id, inst)) :
    ∃ hash, calcHashFromPath path = .ok (hash, instances inst) ∧ findPathNode S hash = some id ∧
      inst = zipNodes (S.node id).instanceNodes (instances inst) := by
  unfold getNodeFromPath at h
  split at h
  · cases h
  · rename_i hash nums hcalc
    split at h
    · cases h
    · rename_i id' hfind
      simp only [Option.some.injEq, Prod.mk.injEq] at h
      obtain ⟨rfl, rfl⟩ := h
      exact ⟨hash, by rw [hcalc, instances_zipNodes], hfind, by rw [instances_zipNodes]⟩

theorem getNodeFromPath_lt {S : DmTree} {inst : DmInstances}
    (h : getNodeFromPath S path = some (id, inst)) : ∀ n ∈ instances inst, n < signedLimit := by
  obtain ⟨hash, hcalc, -, -⟩ := getNodeFromPath_some h
  rw [calcHashFromPath_eq] at hcalc
  exact hashSegments_lt (by simp) hcalc

theorem findPathNode_lt {limit : Nat} {S : DmTree} (hS : SchemaOk limit S) {hash : UInt32}
    (h : findPathNode S hash = some id) : id < S.nodes.length := by
  unfold findPathNode at h
  split at h
  · rename_i id' hfind
    cases h
    exact ((findNodeFromHash_some hS).mp hfind).1
  · exact ((findNodeFromHash_some hS).mp h).1

theorem formDbFromPath_ok {S : DmTree} {key : UInt32 × Str} :
    formDbFromPath S path = .ok key ↔ ∃ id inst, getNodeFromPath S path = some (id, inst) ∧
      isDbParam (S.node id).type = true ∧
      key = ((S.node id).hash, formInstanceString (instances inst)) := by
  unfold formDbFromPath
  cases hget : getNodeFromPath S path with
  | none => simp
  | some r =>
    obtain ⟨id, inst⟩ := r
    simp only [getMigratedHash_eq, ↓reduceIte, Option.some.injEq, Prod.mk.injEq]
    by_cases hdb : isDbParam (S.node id).type = true
    · have hparam := isParam_of_isDbParam hdb
      simp only [hparam, hdb, Bool.true_eq_false, ↓reduceIte, Except.ok.injEq]
      constructor
      · rintro rfl
        exact ⟨id, inst, ⟨rfl, rfl⟩, hdb, rfl⟩
      · rintro ⟨id', inst', ⟨rfl, rfl⟩, -, rfl⟩
        rfl
    · constructor
      · intro h
        split at h <;> simp_all
      · rintro ⟨id', inst', ⟨rfl, rfl⟩, hdb', -⟩
        exact absurd hdb' hdb

/-! ## The round trip -/

/-- Whatever key the encoder makes of the path, the decoder forms a path of the
same node and numbers from it, and that path has the same key. -/
def RoundTrips (S : DmTree) (path : Str) : Prop :=
  ∀ key, formDbFromPath S path = .ok key →
    ∃ path', formPathFromDb S key.1 key.2 maxDmPath = some (.ok path') ∧
      getNodeFromPath S path' = getNodeFromPath S path ∧ formDbFromPath S path' = .ok key

/-- The path of a database parameter gives as many numbers as the parameter has
tables, none of them turned negative, and its full text fits the buffer. -/
def FullyInstantiated (S : DmTree) (path : Str) : Prop :=
  ∀ id inst, getNodeFromPath S path = some (id, inst) → isDbParam (S.node id).type = true →
    inst.length = (S.node id).order ∧ (∀ n ∈ instances inst, 0 ≤ n) ∧
      (instantiatedText (S.node id).path ((instances inst).map intDigits)).length < maxDmPath

theorem exists_nat_of_nonneg (h : ∀ n ∈ inst, 0 ≤ n) :
    ∃ nums : List Nat, inst = nums.map Int.ofNat := by
  refine ⟨inst.map Int.toNat, ?_⟩
  rw [map_map]
  exact (map_id inst).symm.trans
    (map_congr_left fun n hn => (Int.toNat_of_nonneg (h n hn)).symm)

theorem roundTrips_iff (rs : List Registration) (hrs : ∀ r ∈ rs, WithinArrays r)
    (hclean : CleanTree (registerAll initialTree rs)) (path : Str) :
    RoundTrips (registerAll initialTree rs) path ↔
      FullyInstantiated (registerAll initialTree rs) path := by
  have hS := registered_ok hrs
  generalize registerAll initialTree rs = S at hS hclean ⊢
  constructor
  · intro h id inst hget hdb
    obtain ⟨path', hform, -, -⟩ := h _ (formDbFromPath_ok.mpr ⟨id, inst, hget, hdb, rfl⟩)
    obtain ⟨hash, -, hfind, -⟩ := getNodeFromPath_some hget
    have hlt := findPathNode_lt hS hfind
    have hnode := (findNodeFromHash_some hS).mpr ⟨hlt, rfl⟩
    simp only [formPathFromDb, hnode, parseInstanceString_form (getNodeFromPath_lt hget)] at hform
    by_cases hpos : ∀ n ∈ instances inst, 0 ≤ n
    · rw [if_pos hpos] at hform
      by_cases hlen : (instances inst).length = (S.node id).order
      · simp only [hlen, ne_eq, not_true_eq_false, ↓reduceIte] at hform
        rw [formInstantiatedPath_node hS hclean hlt hlen] at hform
        refine ⟨by simpa [instances] using hlen, hpos, ?_⟩
        by_contra hfit
        rw [if_neg hfit] at hform
        cases hform
      · simp [hlen] at hform
    · simp [if_neg hpos] at hform
  · intro h key hkey
    obtain ⟨id, inst, hget, hdb, rfl⟩ := formDbFromPath_ok.mp hkey
    obtain ⟨hlen, hpos, hfit⟩ := h id inst hget hdb
    obtain ⟨hash, -, hfind, hinst⟩ := getNodeFromPath_some hget
    have hlt := findPathNode_lt hS hfind
    have hnode := (findNodeFromHash_some hS).mpr ⟨hlt, rfl⟩
    have hlen' : (instances inst).length = (S.node id).order := by simpa [instances] using hlen
    obtain ⟨nums, hnums⟩ := exists_nat_of_nonneg hpos
    have hsmall : ∀ n ∈ nums, n < signedLimit := by
      intro n hn
      refine Int.ofNat_lt.mp (getNodeFromPath_lt hget (Int.ofNat n) ?_)
      rw [hnums]
      exact mem_map_of_mem hn
    have htext : (instances inst).map intDigits = nums.map natDigits := by
      rw [hnums, map_map]
      rfl
    have hcount : nums.length = (S.node id).order := by rw [← hlen', hnums, length_map]
    have hcalc := calcHashFromPath_node hS hclean hlt hcount
    rw [map_readBack hsmall, ← hnums, ← htext] at hcalc
    have hget' : getNodeFromPath S (instantiatedText (S.node id).path
        ((instances inst).map intDigits)) = some (id, inst) := by
      simp only [getNodeFromPath, hcalc, findPathNode, hnode]
      rw [← hinst]
    refine ⟨instantiatedText (S.node id).path ((instances inst).map intDigits), ?_, ?_, ?_⟩
    · simp only [formPathFromDb, hnode, parseInstanceString_form (getNodeFromPath_lt hget),
        if_pos hpos, hlen', ne_eq, not_true_eq_false, ↓reduceIte]
      rw [formInstantiatedPath_node hS hclean hlt hlen', if_pos hfit]
    · rw [hget', hget]
    · exact formDbFromPath_ok.mpr ⟨id, inst, hget', hdb, rfl⟩

theorem roundTrips_nested :
    RoundTrips (registerAll initialTree nestedTables) "Device.A.3.B.12.P".toList :=
  (roundTrips_iff nestedTables nestedTables_within nestedTables_clean _).mpr <| by
    intro id inst hget _
    have hnode : getNodeFromPath (registerAll initialTree nestedTables)
        "Device.A.3.B.12.P".toList = some (4, [(2, 3), (3, 12)]) := by decide +kernel
    rw [hnode] at hget
    cases hget
    decide

/-- The placeholder path of a parameter is encoded without numbers. -/
theorem placeholder_path_not_decoded :
    ¬ RoundTrips (registerAll initialTree nestedTables) "Device.A.{i}.B.{i}.P".toList := by
  intro h
  obtain ⟨path', hform, -, -⟩ :=
    h (((registerAll initialTree nestedTables).node 4).hash, []) (by decide +kernel)
  have hfail : formPathFromDb (registerAll initialTree nestedTables)
      ((registerAll initialTree nestedTables).node 4).hash [] maxDmPath =
        some (.error .internalError) := by decide +kernel
  rw [hfail] at hform
  cases hform

end PathRoundTrip
