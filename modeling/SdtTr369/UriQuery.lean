import Mathlib.Data.List.Perm.Subperm
import Mathlib.Data.List.Range
import SdtTr369.UspTypes

/-!
# The query string of the upload URL

`bulkdata_platform_get_uri_query_params` goes over the parameters of a query three times:
it collects their references and names, reads and escapes their values, and joins the pairs.
The rows of `RequestURIParameter` are counted off from one, whatever their instance numbers.
-/

namespace UriQuery

open UspTypes List

/-! ## The three passes -/

/-- What the data model and the URL library answer while the query string of a profile is
formed. A reading that fails gives `none`; a row that does not exist cannot be read. -/
structure Answers where
  /-- `DATA_MODEL_GetInstances` of the table. -/
  instances : Option (List Int)
  nodup : ∀ iv, instances = some iv → iv.Nodup
  reference : Int → Option Str
  name : Int → Option Str
  missing : ∀ iv, instances = some iv → ∀ n, n ∉ iv → reference n = none
  /-- The value of the parameter with this path, as long as data model values may be. -/
  value : Str → Option Str
  /-- `curl_easy_init` succeeds. -/
  handle : Bool
  /-- `curl_easy_escape`. -/
  escape : Str → Option Str

/-- `default_uri_query_params`. -/
def defaultUriQueryParams : List (Str × Str) :=
  [("Device.DeviceInfo.ManufacturerOUI".toList, "oui".toList),
    ("Device.DeviceInfo.ProductClass".toList, "pc".toList),
    ("Device.DeviceInfo.SerialNumber".toList, "sn".toList)]

/-- The part of a reference that `ref` holds. -/
def refText (text : Str) : Str := text.take 256

/-- The part of a name that `name` holds. -/
def nameText (text : Str) : Str := text.take 64

/-- The entry of a row: the name is that of the reference when it is blank. -/
def rowEntry (ref name : Str) : Str × Str := (ref, if name = [] then ref else name)

section Passes

variable (A : Answers)

/-- The second loop of `bulkdata_platform_get_uri_query_name_map`, from the index `i` on. -/
def nameRows : (i left : Nat) → List (Str × Str) → Option (List (Str × Str))
  | _, 0, map => some map
  | i, left + 1, map =>
    match A.reference (i + 1) with
    | none => none
    | some ref =>
      if refText ref = [] then nameRows (i + 1) left map
      else
        match A.name (i + 1) with
        | none => none
        | some name => nameRows (i + 1) left (map ++ [rowEntry (refText ref) (nameText name)])

/-- `bulkdata_platform_get_uri_query_name_map`. -/
def uriQueryNameMap : Option (List (Str × Str)) :=
  match A.instances with
  | none => none
  | some iv => nameRows A 0 iv.length defaultUriQueryParams

/-- One round of `bulkdata_platform_calc_uri_query_escaped_map`. -/
def escapedPair (kv : Str × Str) : List (Str × Str) :=
  match A.value kv.1 with
  | none => []
  | some value =>
    match A.escape value with
    | none => []
    | some value =>
      match A.escape kv.2 with
      | none => []
      | some name => [(name, value)]

/-- `bulkdata_platform_calc_uri_query_escaped_map`. -/
def calcUriQueryEscapedMap (nameMap : List (Str × Str)) : Option (List (Str × Str)) :=
  if A.handle = false then none else some (nameMap.flatMap (escapedPair A))

/-- The string that is allocated, with its length. -/
structure QueryString where
  text : Str
  curLen : Nat

/-- One round of `bulkdata_platform_calc_uri_query_string`. `none`: what is written with its
terminator does not fit in the string. -/
def appendParam (separator : Char) (q : QueryString) (kv : Str × Str) : Option QueryString :=
  let newLen := q.curLen + 1 + kv.1.length + 1 + kv.2.length
  let written := separator :: (kv.1 ++ '=' :: kv.2)
  if q.curLen + written.length + 1 ≤ newLen + 1 then some ⟨q.text.take q.curLen ++ written, newLen⟩
  else none

/-- The loop of `bulkdata_platform_calc_uri_query_string`. -/
def appendParams (separator : Char) : QueryString → List (Str × Str) → Option Str
  | q, [] => some q.text
  | q, kv :: rest => (appendParam separator q kv).bind fun q => appendParams '&' q rest

/-- `bulkdata_platform_calc_uri_query_string`. -/
def calcUriQueryString (escapedMap : List (Str × Str)) : Option Str :=
  appendParams '?' ⟨[], 0⟩ escapedMap

/-- `bulkdata_platform_get_uri_query_params`. -/
def getUriQueryParams : Option Str :=
  match uriQueryNameMap A with
  | none => none
  | some nameMap =>
    match calcUriQueryEscapedMap A nameMap with
    | none => none
    | some escapedMap => calcUriQueryString escapedMap

/-! ## The string -/

/-- `name=value`. -/
def pairText (kv : Str × Str) : Str := kv.1 ++ '=' :: kv.2

/-- `?Name1=Value1&Name2=Value2`. -/
def queryText (pairs : List (Str × Str)) : Str :=
  match pairs with
  | [] => []
  | kv :: rest => '?' :: pairText kv ++ rest.flatMap fun kv => '&' :: pairText kv

theorem appendParam_fits (separator : Char) {q : QueryString} (hq : q.curLen = q.text.length)
    (kv : Str × Str) : ∃ q', appendParam separator q kv = some q' ∧ q'.curLen = q'.text.length ∧
      q'.text = q.text ++ separator :: pairText kv := by
  have hlen : (separator :: (kv.1 ++ '=' :: kv.2)).length = 1 + kv.1.length + 1 + kv.2.length := by
    simp only [length_cons, length_append]
    omega
  refine ⟨⟨q.text ++ separator :: pairText kv, q.curLen + 1 + kv.1.length + 1 + kv.2.length⟩, ?_, ?_,
    rfl⟩
  · rw [appendParam, if_pos (by omega), take_of_length_le (by omega)]
    rfl
  · simp only [length_append, pairText, hlen]
    omega

theorem appendParams_text (rest : List (Str × Str)) {q : QueryString}
    (hq : q.curLen = q.text.length) :
    appendParams '&' q rest = some (q.text ++ rest.flatMap fun kv => '&' :: pairText kv) := by
  induction rest generalizing q with
  | nil => rw [appendParams, flatMap_nil, append_nil]
  | cons kv rest ih =>
    obtain ⟨q', happend, hq', htext⟩ := appendParam_fits '&' hq kv
    rw [appendParams, happend, Option.bind_some, ih hq', htext, flatMap_cons, append_assoc]

/-- The string is long enough for all pairs, and holds them. -/
theorem calcUriQueryString_eq (pairs : List (Str × Str)) :
    calcUriQueryString pairs = some (queryText pairs) := by
  cases pairs with
  | nil => rfl
  | cons kv rest =>
    obtain ⟨q', happend, hq', htext⟩ := appendParam_fits '?' (q := ⟨[], 0⟩) rfl kv
    rw [calcUriQueryString, appendParams, happend, Option.bind_some, appendParams_text rest hq', htext]
    rfl

/-! ## What is to be sent -/

/-- The escaped name and value of a parameter that can be read. -/
def sentPairs (kv : Str × Str) : List (Str × Str) :=
  ((A.value kv.1).bind fun value =>
    (A.escape kv.2).bind fun name => (A.escape value).map (name, ·)).toList

/-- The pair of a row, with the reference and the name that it has. -/
def ownPairs (n : Int) : List (Str × Str) :=
  match A.reference n, A.name n with
  | some ref, some name => if ref = [] then [] else sentPairs A (rowEntry ref name)
  | _, _ => []

/-- The name map entries of a row, with the reference and the name as far as they are held. -/
def rowNames (n : Int) : List (Str × Str) :=
  match A.reference n, A.name n with
  | some ref, some name => if ref = [] then [] else [rowEntry (refText ref) (nameText name)]
  | _, _ => []

/-- No reading of the row fails that the code needs. -/
def RowReads (n : Int) : Prop :=
  ∃ ref, A.reference n = some ref ∧ (ref ≠ [] → ∃ name, A.name n = some name)

/-- A parameter that can be read has one pair. -/
def HasPair (kv : Str × Str) : Prop := A.value kv.1 ≠ none → ∃ pair, sentPairs A kv = [pair]

/-- The query string has, in order, one pair for each default parameter and each row with a
reference that can be read; each row has its own pair. -/
def SendsOwnPairs : Prop :=
  ∃ iv rows : List Int, A.instances = some iv ∧ rows.Perm iv ∧ rows.Pairwise (· < ·) ∧
    getUriQueryParams A = some (queryText (defaultUriQueryParams.flatMap (sentPairs A) ++
      rows.flatMap (ownPairs A))) ∧
    (∀ kv ∈ defaultUriQueryParams, HasPair A kv) ∧
    ∀ n ∈ rows, (rowNames A n).flatMap (sentPairs A) = ownPairs A n ∧
      ∀ ref name, A.reference n = some ref → ref ≠ [] → A.name n = some name →
        HasPair A (rowEntry ref name)

/-- Where the code sends what it should: the rows are numbered from one without a gap, each
is read, and cutting off its texts changes nothing; the URL library does not fail. -/
structure Serves (iv : List Int) : Prop where
  listed : A.instances = some iv
  numbered : ∀ n, n ∈ iv ↔ 1 ≤ n ∧ n ≤ iv.length
  reads : ∀ n ∈ iv, RowReads A n
  whole : ∀ n ∈ iv, ∀ ref name, A.reference n = some ref → ref ≠ [] → A.name n = some name →
    sentPairs A (rowEntry (refText ref) (nameText name)) = sentPairs A (rowEntry ref name)
  handle : A.handle = true
  defaults : ∀ kv ∈ defaultUriQueryParams, HasPair A kv
  pairs : ∀ n ∈ iv, ∀ ref name, A.reference n = some ref → ref ≠ [] → A.name n = some name →
    HasPair A (rowEntry ref name)

end Passes

section Results

variable {A : Answers}

theorem escapedPair_eq (A : Answers) : escapedPair A = sentPairs A := by
  funext kv
  unfold escapedPair sentPairs
  cases A.value kv.1 with
  | none => rfl
  | some value => cases hname : A.escape kv.2 <;> cases hvalue : A.escape value <;> simp [*]

theorem refText_nil {ref : Str} : refText ref = [] ↔ ref = [] := by
  rw [refText, take_eq_nil_iff]
  simp

/-- Rows that are read go into the name map one after the other. -/
theorem nameRows_some (i left : Nat) (map : List (Str × Str))
    (h : ∀ j < left, RowReads A ((i + j : Nat) + 1)) :
    nameRows A i left map =
      some (map ++ (List.range left).flatMap fun j => rowNames A ((i + j : Nat) + 1)) := by
  induction left generalizing i map with
  | zero => rw [nameRows, range_zero, flatMap_nil, append_nil]
  | succ left ih =>
    obtain ⟨ref, href, hname⟩ := h 0 (Nat.succ_pos left)
    have hrest := fun map => ih (i + 1) map fun j hj => by
      have := h (j + 1) (Nat.succ_lt_succ hj)
      rwa [Nat.add_assoc, Nat.add_comm 1 j]
    have hshift : (List.range left).flatMap (fun j => rowNames A ((i + 1 + j : Nat) + 1)) =
        (List.range left).flatMap fun j => rowNames A ((i + (j + 1) : Nat) + 1) := by
      congr 1
      funext j
      rw [Nat.add_assoc, Nat.add_comm 1 j]
    rw [range_succ_eq_map, flatMap_cons, flatMap_map, ← hshift, nameRows]
    rw [Nat.add_zero] at href hname
    by_cases hblank : ref = []
    · have hnames : rowNames A ((i : Nat) + 1) = [] := by
        rw [rowNames, href]
        split <;> simp_all
      simp only [href, if_pos (refText_nil.mpr hblank), hrest, Nat.add_zero, hnames, nil_append]
    · obtain ⟨name, hname⟩ := hname hblank
      have hnames : rowNames A ((i : Nat) + 1) = [rowEntry (refText ref) (nameText name)] := by
        simp only [rowNames, href, hname, if_neg hblank]
      simp only [href, if_neg (mt refText_nil.mp hblank), hname, hrest, Nat.add_zero, hnames,
        append_assoc]

/-- The name map is complete only if each row is read. -/
theorem nameRows_reads {i left : Nat} {map names : List (Str × Str)}
    (h : nameRows A i left map = some names) : ∀ j < left, RowReads A ((i + j : Nat) + 1) := by
  induction left generalizing i map with
  | zero => exact nofun
  | succ left ih =>
    rw [nameRows] at h
    cases href : A.reference (i + 1) with
    | none =>
      simp only [href] at h
      cases h
    | some ref =>
      simp only [href] at h
      have hstep : RowReads A (i + 1) ∧ ∃ map', nameRows A (i + 1) left map' = some names := by
        split at h
        · rename_i hblank
          exact ⟨⟨ref, href, fun hne => absurd (refText_nil.mp hblank) hne⟩, _, h⟩
        · cases hname : A.name (i + 1) with
          | none =>
            simp only [hname] at h
            cases h
          | some name =>
            simp only [hname] at h
            exact ⟨⟨ref, href, fun _ => ⟨name, hname⟩⟩, _, h⟩
      obtain ⟨hfirst, map', hrest⟩ := hstep
      intro j hj
      cases j with
      | zero => exact hfirst
      | succ j =>
        have := ih hrest j (Nat.lt_of_succ_lt_succ hj)
        rwa [Nat.add_assoc, Nat.add_comm 1 j] at this

/-- The numbers from one on, as the code counts them. -/
def countedRows (k : Nat) : List Int := (List.range k).map fun j : Nat => (j : Int) + 1

theorem mem_countedRows {k : Nat} {n : Int} : n ∈ countedRows k ↔ 1 ≤ n ∧ n ≤ k := by
  simp only [countedRows, mem_map, mem_range]
  constructor
  · rintro ⟨j, hj, rfl⟩
    omega
  · rintro ⟨hone, hle⟩
    exact ⟨(n - 1).toNat, by omega, by omega⟩

theorem countedRows_ascend (k : Nat) : (countedRows k).Pairwise (· < ·) := by
  rw [countedRows, pairwise_map]
  exact List.pairwise_lt_range.imp fun h => by omega

theorem countedRows_nodup (k : Nat) : (countedRows k).Nodup :=
  (countedRows_ascend k).imp fun h => by omega

theorem uriQueryNameMap_eq {iv : List Int} (hlisted : A.instances = some iv)
    (hreads : ∀ n ∈ countedRows iv.length, RowReads A n) :
    uriQueryNameMap A =
      some (defaultUriQueryParams ++ (countedRows iv.length).flatMap (rowNames A)) := by
  have hrows : ∀ j < iv.length, RowReads A ((0 + j : Nat) + 1) := fun j hj =>
    hreads _ (mem_countedRows.mpr (by omega))
  simp only [uriQueryNameMap, hlisted, nameRows_some 0 iv.length _ hrows, countedRows,
    flatMap_map, Nat.zero_add]

/-- Rows that are all read, and counted from one, are the rows of the table. -/
theorem mem_of_reads {iv : List Int} (hlisted : A.instances = some iv)
    (hreads : ∀ n ∈ countedRows iv.length, RowReads A n) (n : Int) :
    n ∈ iv ↔ 1 ≤ n ∧ n ≤ iv.length := by
  have hsub : countedRows iv.length ⊆ iv := by
    intro m hm
    by_contra hmissing
    obtain ⟨ref, href, -⟩ := hreads m hm
    rw [A.missing iv hlisted m hmissing] at href
    cases href
  have hperm : (countedRows iv.length).Perm iv := by
    refine (subperm_of_subset (countedRows_nodup _) hsub).perm_of_length_le ?_
    simp [countedRows]
  rw [← hperm.mem_iff, mem_countedRows]

theorem ownPairs_eq {n : Int} (h : ∀ ref name, A.reference n = some ref → ref ≠ [] →
    A.name n = some name →
      sentPairs A (rowEntry (refText ref) (nameText name)) = sentPairs A (rowEntry ref name)) :
    (rowNames A n).flatMap (sentPairs A) = ownPairs A n := by
  unfold rowNames ownPairs
  split
  · rename_i ref name href hname
    by_cases hblank : ref = []
    · rw [if_pos hblank, if_pos hblank, flatMap_nil]
    · rw [if_neg hblank, if_neg hblank, flatMap_singleton]
      exact h ref name href hblank hname
  · rfl

/-- The query string is right exactly where the rows are numbered without a gap, and nothing
that the code reads fails or is cut off with an effect. -/
theorem sendsOwnPairs_iff : SendsOwnPairs A ↔ ∃ iv, Serves A iv := by
  constructor
  · rintro ⟨iv, rows, hlisted, hperm, -, hquery, hdefaults, hown⟩
    have hmap : ∃ names, uriQueryNameMap A = some names := by
      cases hnames : uriQueryNameMap A with
      | none => simp [getUriQueryParams, hnames] at hquery
      | some names => exact ⟨names, rfl⟩
    obtain ⟨names, hnames⟩ := hmap
    have hhandle : A.handle = true := by
      by_contra hfails
      have hfalse : A.handle = false := Bool.eq_false_iff.mpr hfails
      simp only [getUriQueryParams, hnames, calcUriQueryEscapedMap, hfalse, if_true] at hquery
      cases hquery
    have hreads : ∀ n ∈ countedRows iv.length, RowReads A n := by
      intro n hn
      obtain ⟨j, hj, rfl⟩ := List.mem_map.mp hn
      simp only [uriQueryNameMap, hlisted] at hnames
      have := nameRows_reads hnames j (List.mem_range.mp hj)
      rwa [Nat.zero_add] at this
    have hnumbered := mem_of_reads hlisted hreads
    refine ⟨iv, hlisted, hnumbered, fun n hn => hreads n (mem_countedRows.mpr ((hnumbered n).mp hn)),
      fun n hn ref name href hne hname => ?_, hhandle, hdefaults,
      fun n hn => (hown n (hperm.mem_iff.mpr hn)).2⟩
    have heq := (hown n (hperm.mem_iff.mpr hn)).1
    simpa only [rowNames, ownPairs, href, hname, if_neg hne, flatMap_singleton] using heq
  · rintro ⟨iv, hserves⟩
    have hmem : ∀ n, n ∈ countedRows iv.length ↔ n ∈ iv := fun n => by
      rw [mem_countedRows, hserves.numbered]
    have hreads : ∀ n ∈ countedRows iv.length, RowReads A n := fun n hn =>
      hserves.reads n ((hmem n).mp hn)
    have hown : ∀ n ∈ countedRows iv.length,
        (rowNames A n).flatMap (sentPairs A) = ownPairs A n := fun n hn =>
      ownPairs_eq (hserves.whole n ((hmem n).mp hn))
    refine ⟨iv, countedRows iv.length, hserves.listed, ?_, countedRows_ascend _, ?_,
      hserves.defaults, fun n hn => ⟨hown n hn, hserves.pairs n ((hmem n).mp hn)⟩⟩
    · exact (perm_ext_iff_of_nodup (countedRows_nodup _) (A.nodup iv hserves.listed)).mpr hmem
    · have hpairs : (countedRows iv.length).flatMap (fun n => (rowNames A n).flatMap (sentPairs A)) =
          (countedRows iv.length).flatMap (ownPairs A) := flatMap_congr hown
      have hhandle : ¬A.handle = false := by simp [hserves.handle]
      simp only [getUriQueryParams, uriQueryNameMap_eq hserves.listed hreads, calcUriQueryEscapedMap,
        escapedPair_eq, if_neg hhandle, flatMap_append, flatMap_assoc, hpairs, calcUriQueryString_eq]

end Results

/-- A table with the rows 1 and 3, as after the deletion of row 2. -/
def gapAnswers : Answers where
  instances := some [1, 3]
  nodup iv h := by
    rw [← Option.some.inj h]
    decide
  reference n := if n = 1 ∨ n = 3 then some "Device.X".toList else none
  name n := if n = 1 then some "a".toList else some "b".toList
  missing iv h n hn := by
    rw [← Option.some.inj h] at hn
    exact if_neg fun hrow => hn (by simpa using hrow)
  value _ := some "v".toList
  handle := true
  escape := some

/-- With a gap in the numbers nothing is sent at all. -/
theorem gap_sends_nothing :
    gapAnswers.instances = some [1, 3] ∧
      (∀ n ∈ [1, 3], (ownPairs gapAnswers n).length = 1) ∧
      getUriQueryParams gapAnswers = none ∧ ¬SendsOwnPairs gapAnswers := by
  have hquery : getUriQueryParams gapAnswers = none := by decide
  refine ⟨rfl, by decide, hquery, ?_⟩
  rintro ⟨iv, rows, -, -, -, hsent, -⟩
  rw [hquery] at hsent
  cases hsent

end UriQuery
