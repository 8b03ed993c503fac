import SdtTr369.TrustCerts

/-!
# Certificates from a file or a directory

`LoadCerts_FromFile` and `LoadCerts_FromDir` of `device_security.c` hand each certificate
that they read to `AddCert`. From a file, the next certificate is read only after the one
before it was added.
-/

namespace CertLoading

open UspTypes RunHistory TrustCerts List

/-- A certificate that was read, with what OpenSSL and the data model answer when it is
handed to `AddCert`. -/
structure PemCert where
  cert : X509
  details : Option CertDetails
  informCert : Option Err := none
  informLaCert : Option Err := none
  informCredential : Option Err := none
  deriving DecidableEq, Repr

def PemCert.offer (certUsage : CertUsage) (role : Nat) (c : PemCert) : Offer :=
  ⟨c.cert, certUsage, role, c.details, c.informCert, c.informLaCert, c.informCredential⟩

/-- A loader in its work: the vector, the place of the certificate that it has read, the
places of those that it has handed to `AddCert`, and the entries of the calls that
returned no error. -/
structure Loading where
  state : State
  reading : Nat := 0
  offered : List Nat := []
  added : List Cert := []
  deriving DecidableEq, Repr

/-- The call of `AddCert` in a loader. -/
def offerCert (certUsage : CertUsage) (role : Nat) (c : PemCert) (l : Loading) :
    Option Err × Loading :=
  let result := addCert (c.offer certUsage role) l.state
  (result.1, { l with
    state := result.2
    offered := l.offered ++ [l.reading]
    added := if result.1 = none then l.added ++ result.2.allCerts.drop l.state.allCerts.length
      else l.added })

def Loading.next (l : Loading) : Loading := { l with reading := l.reading + 1 }

/-- The loop of `LoadCerts_FromFile`. A certificate comes with the answers at its first
call of `AddCert`, its second and so on. -/
def loadCertsFromFile (certUsage : CertUsage) (role : Nat) :
    Nat → List (Nat → PemCert) → Loading → Option Loading
  | _, [], l => some l
  | 0, _ :: _, _ => none
  | fuel + 1, cert :: certs, l =>
    match offerCert certUsage role (cert 0) l with
    -- `continue` goes back to the call, not to `PEM_read_X509`
    | (some _, l) => loadCertsFromFile certUsage role fuel ((fun i => cert (i + 1)) :: certs) l
    | (none, l) => loadCertsFromFile certUsage role fuel certs l.next

/-- An entry of a directory: whether `stat` takes it for a file, and the certificate that
`GetCertFromFile` finds in it. -/
structure DirEntry where
  isFile : Option Bool
  cert : Option PemCert
  deriving DecidableEq, Repr

/-- The certificate of an entry that is not skipped. -/
def DirEntry.read (entry : DirEntry) : Option PemCert :=
  if entry.isFile = some true then entry.cert else none

/-- The loop of `LoadCerts_FromDir`. -/
def loadCertsFromDir (certUsage : CertUsage) (role : Nat) : List DirEntry → Loading → Loading
  | [], l => l
  | entry :: entries, l => match entry.read with
    | none => loadCertsFromDir certUsage role entries l
    | some c => loadCertsFromDir certUsage role entries (offerCert certUsage role c l).2.next

/-- The vector after the calls of `AddCert` before. -/
def addAll (earlier : List Offer) : State :=
  earlier.foldl (fun s o => (addCert o s).2) {}

/-- Every entry has its instance numbers, and a trust certificate its X.509 form. -/
structure Filled (s : State) : Prop where
  inst : s.allCerts.map (·.inst) = List.range' 1 s.allCerts.length
  laInstance : (s.allCerts.filter fun ct => ct.certUsage = .trustCert).map (·.laInstance) =
    (List.range' 1 s.numTrustCerts).map some
  trust : ∀ ct ∈ s.allCerts, ct.certUsage = .trustCert → ∃ der, ct.cert = some der ∧
    ct.hash = certHash der
  other : ∀ ct ∈ s.allCerts, ct.certUsage ≠ .trustCert → ct.laInstance = none ∧ ct.cert = none

/-- Every certificate was offered once, in order, and the vector has grown by the ones
that were added and no others. -/
structure Loaded (start : State) (count : Nat) (l : Loading) : Prop where
  offered : l.offered = List.range count
  allCerts : l.state.allCerts = start.allCerts ++ l.added
  filled : Filled l.state

/-- The hash is of an entry, or of a certificate before this one that gets an entry. -/
def Known (start : State) (before : List PemCert) (hash : UInt32) : Prop :=
  (∃ ct ∈ start.allCerts, ct.hash = hash) ∨
    ∃ c ∈ before, c.details.isSome ∧ ∃ der ∈ c.cert, certHash der = hash

/-- The rows of a new certificate can all be added. -/
def RowsGiven (certUsage : CertUsage) (c : PemCert) : Prop :=
  c.informCert = none ∧
    (certUsage = .trustCert → c.informLaCert = none ∧ c.informCredential = none)

/-- The certificate has a hash and, unless this is known already, it can be parsed and
gets its rows. -/
def Addable (certUsage : CertUsage) (start : State) (before : List PemCert) (c : PemCert) :
    Prop :=
  ∃ der ∈ c.cert, ¬ Known start before (certHash der) → c.details.isSome ∧ RowsGiven certUsage c

/-- If the certificate gets an entry, it gets its rows. -/
def Registers (certUsage : CertUsage) (start : State) (before : List PemCert) (c : PemCert) :
    Prop :=
  ∀ der ∈ c.cert, ¬ Known start before (certHash der) → c.details.isSome → RowsGiven certUsage c

/-! ## One call of `AddCert` -/

section Calls

variable {certUsage : CertUsage} {role : Nat} {c : PemCert} {o : Offer} {s : State} {hash : UInt32}

/-- The vector has an entry with this hash. -/
def Has (s : State) (hash : UInt32) : Prop := ∃ ct ∈ s.allCerts, ct.hash = hash

/-- What `AddCert` does: it refuses the certificate, knows it already or gives it the next
entry. -/
theorem addCert_cases (o : Offer) (s : State) :
    (o.cert = none ∧ addCert o s = (some .internalError, s)) ∨
    (∃ der, o.cert = some der ∧ Has s (certHash der) ∧ addCert o s = (none, s)) ∨
    (∃ der, o.cert = some der ∧ ¬ Has s (certHash der) ∧ o.details = none ∧
      addCert o s = (some .internalError, s)) ∨
    ∃ der details, o.cert = some der ∧ ¬ Has s (certHash der) ∧ o.details = some details ∧
      addCert o s = informRows o (s.allCerts.length + 1)
        (s.push (newCert o (certHash der) details s)) := by
  cases hcert : o.cert with
  | none => exact .inl ⟨rfl, by simp only [addCert, hcert]⟩
  | some der =>
    cases hfind : s.findCertByHash (certHash der) with
    | some ct =>
      have hct : ct ∈ s.allCerts := mem_of_find?_eq_some hfind
      have hhash : ct.hash = certHash der := by simpa using find?_some hfind
      exact .inr (.inl ⟨der, rfl, ⟨ct, hct, hhash⟩, addCert_known hcert hfind⟩)
    | none =>
      have hnew : ¬ Has s (certHash der) := by
        rintro ⟨ct, hct, hhash⟩
        exact findCertByHash_eq_none.mp hfind ct hct hhash
      cases hdetails : o.details with
      | none =>
        exact .inr (.inr (.inl ⟨der, rfl, hnew, rfl, addCert_unparsed hcert hfind hdetails⟩))
      | some details =>
        exact .inr (.inr (.inr ⟨der, details, rfl, hnew, rfl, addCert_new hcert hfind hdetails⟩))

/-- The rows change nothing in the vector. -/
@[simp] theorem informRows_allCerts (o : Offer) (inst : Nat) (s : State) :
    (informRows o inst s).2.allCerts = s.allCerts := by
  unfold informRows addCertRole
  split
  · rfl
  · split
    · split
      · rfl
      · dsimp only
        split <;> rfl
    · rfl

@[simp] theorem informRows_numTrustCerts (o : Offer) (inst : Nat) (s : State) :
    (informRows o inst s).2.numTrustCerts = s.numTrustCerts := by
  unfold informRows addCertRole
  split
  · rfl
  · split
    · split
      · rfl
      · dsimp only
        split <;> rfl
    · rfl

theorem informRows_ok_iff (inst : Nat) (s : State) :
    (informRows (c.offer certUsage role) inst s).1 = none ↔ RowsGiven certUsage c := by
  unfold informRows addCertRole RowsGiven PemCert.offer
  cases c.informCert with
  | some err => simp
  | none =>
    by_cases husage : certUsage = .trustCert
    · cases c.informLaCert with
      | some err => simp [husage]
      | none => cases c.informCredential <;> simp [husage]
    · simp [husage]

theorem addCert_ok_iff : (addCert (c.offer certUsage role) s).1 = none ↔
    ∃ der ∈ c.cert, ¬ Has s (certHash der) → c.details.isSome ∧ RowsGiven certUsage c := by
  obtain ⟨hcert, hadd⟩ | ⟨der, hcert, hhas, hadd⟩ | ⟨der, hcert, hnew, hdetails, hadd⟩ |
    ⟨der, details, hcert, hnew, hdetails, hadd⟩ := addCert_cases (c.offer certUsage role) s
  all_goals
    change c.cert = _ at hcert
    rw [hadd, hcert]
  · simp
  · simp [hhas]
  · change c.details = _ at hdetails
    simp [hnew, hdetails]
  · change c.details = _ at hdetails
    rw [informRows_ok_iff]
    simp [hnew, hdetails]

/-- An entry is made for every certificate that has a hash and can be parsed, also for one
that does not get its rows. -/
theorem addCert_has : Has (addCert o s).2 hash ↔
    Has s hash ∨ o.details.isSome ∧ ∃ der ∈ o.cert, certHash der = hash := by
  obtain ⟨hcert, hadd⟩ | ⟨der, hcert, hhas, hadd⟩ | ⟨der, hcert, hnew, hdetails, hadd⟩ |
    ⟨der, details, hcert, hnew, hdetails, hadd⟩ := addCert_cases o s
  · simp [hadd, hcert]
  · rw [hadd, hcert]
    constructor
    · exact .inl
    · rintro (h | ⟨-, der', hder', rfl⟩)
      · exact h
      · cases hder'
        exact hhas
  · simp [hadd, hdetails]
  · simp only [hadd, hcert, hdetails, Has, informRows_allCerts, State.push, newCert]
    simp [or_and_right, exists_or]

/-- The vector grows by one entry at most; it grows in a call that fails exactly if a row
cannot be added. -/
theorem addCert_grows (certUsage : CertUsage) (role : Nat) (c : PemCert) (s : State) :
    ∃ ct : List Cert,
    (addCert (c.offer certUsage role) s).2.allCerts = s.allCerts ++ ct ∧
      ((addCert (c.offer certUsage role) s).1 = none ∨ ct = [] ↔
        ∀ der ∈ c.cert, ¬ Has s (certHash der) → c.details.isSome → RowsGiven certUsage c) := by
  obtain ⟨hcert, hadd⟩ | ⟨der, hcert, hhas, hadd⟩ | ⟨der, hcert, hnew, hdetails, hadd⟩ |
    ⟨der, details, hcert, hnew, hdetails, hadd⟩ := addCert_cases (c.offer certUsage role) s
  all_goals
    change c.cert = _ at hcert
    rw [hadd, hcert]
  · exact ⟨[], by simp⟩
  · exact ⟨[], by simp [hhas]⟩
  · change c.details = _ at hdetails
    exact ⟨[], by simp [hdetails]⟩
  · change c.details = _ at hdetails
    refine ⟨_, by rw [informRows_allCerts]; rfl, ?_⟩
    rw [informRows_ok_iff]
    simp [hnew, hdetails]

theorem Filled.addCert (h : Filled s) (o : Offer) : Filled (addCert o s).2 := by
  obtain ⟨-, hadd⟩ | ⟨_, -, -, hadd⟩ | ⟨_, -, -, -, hadd⟩ |
    ⟨der, details, hcert, -, -, hadd⟩ := addCert_cases o s
  · rw [hadd]
    exact h
  · rw [hadd]
    exact h
  · rw [hadd]
    exact h
  · rw [hadd]
    by_cases husage : o.certUsage = .trustCert
    · refine ⟨?_, ?_, ?_, ?_⟩
      · simp [State.push, newCert, h.inst, range'_1_concat, Nat.add_comm]
      · simp [State.push, newCert, husage, filter_append, h.laInstance,
          range'_1_concat, Nat.add_comm]
      · intro ct hct htrust
        simp only [informRows_allCerts, State.push, mem_append, mem_singleton] at hct
        obtain hct | rfl := hct
        · exact h.trust ct hct htrust
        · exact ⟨der, by simp [newCert, husage, hcert], rfl⟩
      · intro ct hct hother
        simp only [informRows_allCerts, State.push, mem_append, mem_singleton] at hct
        obtain hct | rfl := hct
        · exact h.other ct hct hother
        · exact absurd husage hother
    · refine ⟨?_, ?_, ?_, ?_⟩
      · simp [State.push, newCert, h.inst, range'_1_concat, Nat.add_comm]
      · simp [State.push, newCert, husage, filter_append, h.laInstance]
      · intro ct hct htrust
        simp only [informRows_allCerts, State.push, mem_append, mem_singleton] at hct
        obtain hct | rfl := hct
        · exact h.trust ct hct htrust
        · exact absurd htrust husage
      · intro ct hct hother
        simp only [informRows_allCerts, State.push, mem_append, mem_singleton] at hct
        obtain hct | rfl := hct
        · exact h.other ct hct hother
        · simp [newCert, husage]

theorem filled_addAll (earlier : List Offer) : Filled (addAll earlier) := by
  induction earlier using List.reverseRecOn with
  | nil => exact ⟨rfl, rfl, by simp [addAll], by simp [addAll]⟩
  | append_singleton earlier o ih =>
    rw [addAll, foldl_append]
    exact ih.addCert o

end Calls

/-! ## Certificates one after the other -/

section Loaders

variable {certUsage : CertUsage} {role : Nat} {start : State} {certs : List PemCert}
  {files : List (Nat → PemCert)} {c : PemCert} {l l' : Loading}

/-- A loader hands over a certificate and reads the next one. -/
def step (certUsage : CertUsage) (role : Nat) (c : PemCert) (l : Loading) : Option Loading :=
  some (offerCert certUsage role c l).2.next

/-- What holds while the certificates are handed over once each. -/
structure Reading (start : State) (certs : List PemCert) (l : Loading) : Prop where
  reading : l.reading = certs.length
  offered : l.offered = List.range certs.length
  filled : Filled l.state
  has : ∀ hash, Has l.state hash ↔ Known start certs hash
  length : start.allCerts.length + l.added.length ≤ l.state.allCerts.length

theorem Reading.step (h : Reading start certs l) (c : PemCert) :
    Reading start (certs ++ [c]) (offerCert certUsage role c l).2.next := by
  refine ⟨?_, ?_, h.filled.addCert _, ?_, ?_⟩
  · simp [Loading.next, offerCert, h.reading]
  · simp [Loading.next, offerCert, h.reading, h.offered, range_succ]
  · intro hash
    have hknown : Known start (certs ++ [c]) hash ↔ Known start certs hash ∨
        c.details.isSome ∧ ∃ der ∈ c.cert, certHash der = hash := by
      simp [Known, or_and_right, exists_or, or_assoc]
    rw [hknown, ← h.has hash]
    exact addCert_has
  · obtain ⟨ct, hgrows, -⟩ := addCert_grows certUsage role c l.state
    have hlength := h.length
    simp only [Loading.next, offerCert, hgrows, drop_left]
    split <;> simp only [length_append] <;> omega

theorem reading_run : ∀ certs l, run (step certUsage role) certs { state := start } = some l →
    Filled start → Reading start certs l := by
  apply run_induction
  · intro hfilled
    exact ⟨rfl, rfl, hfilled, by simp [Has, Known], by simp⟩
  · rintro certs l c _ - ih ⟨⟩ hfilled
    exact (ih hfilled).step c

theorem run_step_total (certs : List PemCert) (l : Loading) :
    ∃ l', run (step certUsage role) certs l = some l' := by
  induction certs generalizing l with
  | nil => exact ⟨l, rfl⟩
  | cons c certs ih =>
    rw [run_cons]
    exact ih _

theorem Reading.ok_iff (h : Reading start certs l) :
    (offerCert certUsage role c l).1 = none ↔ Addable certUsage start certs c := by
  simp only [Addable, ← h.has]
  exact addCert_ok_iff

theorem exact_step (h : Reading start certs l) :
    (offerCert certUsage role c l).2.next.state.allCerts =
        start.allCerts ++ (offerCert certUsage role c l).2.next.added ↔
      l.state.allCerts = start.allCerts ++ l.added ∧ Registers certUsage start certs c := by
  obtain ⟨ct, hgrows, hregisters⟩ := addCert_grows certUsage role c l.state
  have hlength := h.length
  simp only [Registers, ← h.has, ← hregisters, Loading.next, offerCert, hgrows, drop_left]
  split
  · next hok => simp [hok, ← append_assoc]
  · next hfail =>
    constructor
    · intro heq
      have hcount := congrArg List.length heq
      simp only [length_append] at hcount
      have hnil : ct = [] := List.length_eq_zero_iff.mp (by omega)
      subst hnil
      exact ⟨by simpa using heq, .inr rfl⟩
    · rintro ⟨heq, hok | rfl⟩
      · exact absurd hok hfail
      · simpa using heq

/-- The vector has the added ones and no others if each that gets an entry gets its rows. -/
theorem exact_run (hfilled : Filled start) : ∀ certs l,
    run (step certUsage role) certs { state := start } = some l →
      (l.state.allCerts = start.allCerts ++ l.added ↔ Along (Registers certUsage start) certs) := by
  apply run_induction
  · simp
  · rintro certs l c _ hrun ih ⟨⟩
    rw [exact_step (reading_run certs l hrun hfilled), along_snoc, ih]

theorem addable_along (hfilled : Filled start) (certs : List PemCert) :
    RunMeets (step certUsage role) (fun l c => (offerCert certUsage role c l).1 = none) certs
      { state := start } ↔ Along (Addable certUsage start) certs := by
  apply runMeets_iff_along
  · exact fun certs => run_step_total certs _
  · intro certs l c hrun
    exact (reading_run certs l hrun hfilled).ok_iff

theorem Addable.registers (h : Addable certUsage start certs c) :
    Registers certUsage start certs c := by
  obtain ⟨der, hder, hadd⟩ := h
  intro der' hder' hnew _
  rw [Option.mem_unique hder' hder] at hnew
  exact (hadd hnew).2

theorem loaded_run_iff (hfilled : Filled start)
    (hrun : run (step certUsage role) certs { state := start } = some l) :
    Loaded start certs.length l ↔ Along (Registers certUsage start) certs := by
  have hreading := reading_run certs l hrun hfilled
  rw [← exact_run hfilled certs l hrun]
  exact ⟨fun h => h.allCerts, fun h => ⟨hreading.offered, h, hreading.filled⟩⟩

/-- The entries that are skipped have no part in the loading. -/
theorem loadCertsFromDir_eq (entries : List DirEntry) (l : Loading) :
    some (loadCertsFromDir certUsage role entries l) =
      run (step certUsage role) (entries.filterMap DirEntry.read) l := by
  induction entries generalizing l with
  | nil => rfl
  | cons entry entries ih =>
    rw [loadCertsFromDir, filterMap_cons]
    cases entry.read with
    | none => exact ih l
    | some c =>
      rw [run_cons]
      exact ih _

/-! ## The loop over a file -/

theorem offerCert_length {err : Option Err} (h : offerCert certUsage role c l = (err, l')) :
    l'.offered.length = l.offered.length + 1 := by
  cases h
  simp

theorem loadCertsFromFile_length {fuel : Nat}
    (h : loadCertsFromFile certUsage role fuel files l = some l') :
    l.offered.length + files.length ≤ l'.offered.length := by
  induction fuel generalizing files l with
  | zero =>
    cases files with
    | nil => cases h; simp
    | cons cert files => cases h
  | succ fuel ih =>
    cases files with
    | nil => cases h; simp
    | cons cert files =>
      rw [loadCertsFromFile] at h
      split at h
      · next heq =>
        have hlength := offerCert_length heq
        have hrest := ih h
        simp only [length_cons] at hrest ⊢
        omega
      · next heq =>
        have hlength := offerCert_length heq
        have hrest := ih h
        simp only [length_cons, Loading.next] at hrest ⊢
        omega

/-- A loading with one call for each certificate has had no failure: every failure costs a
call more. -/
theorem loadCertsFromFile_once {fuel : Nat}
    (h : loadCertsFromFile certUsage role fuel files l = some l')
    (honce : l'.offered.length ≤ l.offered.length + files.length) :
    RunMeets (step certUsage role) (fun l c => (offerCert certUsage role c l).1 = none)
        (files.map fun cert => cert 0) l ∧
      run (step certUsage role) (files.map fun cert => cert 0) l = some l' := by
  induction fuel generalizing files l with
  | zero =>
    cases files with
    | nil => exact ⟨trivial, h⟩
    | cons cert files => cases h
  | succ fuel ih =>
    cases files with
    | nil => exact ⟨trivial, h⟩
    | cons cert files =>
      rw [loadCertsFromFile] at h
      split at h
      · next heq =>
        have hlength := offerCert_length heq
        have hmore := loadCertsFromFile_length h
        simp only [length_cons] at hmore honce
        omega
      · next l₁ heq =>
        have hlength := offerCert_length heq
        have hrest : l'.offered.length ≤ l₁.next.offered.length + files.length := by
          simp only [length_cons, Loading.next] at honce ⊢
          omega
        obtain ⟨hmeets, hrun⟩ := ih h hrest
        rw [map_cons, run_cons, RunMeets]
        simp only [step, heq, Option.bind_some, Option.some.injEq, forall_eq']
        exact ⟨⟨trivial, hmeets⟩, hrun⟩

theorem loadCertsFromFile_meets
    (h : RunMeets (step certUsage role) (fun l c => (offerCert certUsage role c l).1 = none)
      (files.map fun cert => cert 0) l) :
    loadCertsFromFile certUsage role files.length files l =
      run (step certUsage role) (files.map fun cert => cert 0) l := by
  induction files generalizing l with
  | nil => rfl
  | cons cert files ih =>
    obtain ⟨hok, hrest⟩ := h
    rw [length_cons, loadCertsFromFile, map_cons, run_cons]
    split
    · next heq =>
      rw [heq] at hok
      cases hok
    · next l₁ heq =>
      have hstep : step certUsage role (cert 0) l = some l₁.next := by rw [step, heq]
      rw [hstep]
      exact ih (hrest _ hstep)

theorem loaded_file_iff (hfilled : Filled start) :
    (∃ fuel l, loadCertsFromFile certUsage role fuel files { state := start } = some l ∧
        Loaded start files.length l) ↔
      Along (Addable certUsage start) (files.map fun cert => cert 0) := by
  rw [← addable_along hfilled]
  constructor
  · rintro ⟨fuel, l, hload, hloaded⟩
    have honce : l.offered.length ≤ files.length := by simp [hloaded.offered]
    exact (loadCertsFromFile_once hload (by simpa using honce)).1
  · intro hmeets
    obtain ⟨l, hrun⟩ := run_step_total (files.map fun cert => cert 0) { state := start }
    refine ⟨_, l, (loadCertsFromFile_meets hmeets).trans hrun, ?_⟩
    have hloaded := (loaded_run_iff hfilled hrun).mpr
      (((addable_along hfilled _).mp hmeets).imp fun _ _ => Addable.registers)
    rwa [length_map] at hloaded

/-- A certificate that `AddCert` always refuses is handed to it forever. -/
theorem loadCertsFromFile_endless {s : State} {fuel : Nat} {cert : Nat → PemCert}
    (hrefused : ∀ i, ∀ der ∈ (cert i).cert, ¬ Has s (certHash der) ∧ (cert i).details = none)
    (hstate : l.state = s) : loadCertsFromFile certUsage role fuel (cert :: files) l = none := by
  induction fuel generalizing cert l with
  | zero => rfl
  | succ fuel ih =>
    have hadd : addCert ((cert 0).offer certUsage role) s = (some .internalError, s) := by
      obtain ⟨-, hadd⟩ | ⟨der, hcert, hhas, -⟩ | ⟨der, -, -, -, hadd⟩ |
        ⟨der, details, hcert, -, hdetails, -⟩ := addCert_cases ((cert 0).offer certUsage role) s
      · exact hadd
      · exact absurd hhas (hrefused 0 der hcert).1
      · exact hadd
      · have hnone : (cert 0).details = none := (hrefused 0 der hcert).2
        have hsome : (cert 0).details = some details := hdetails
        rw [hnone] at hsome
        cases hsome
    have hoffer : offerCert certUsage role (cert 0) l =
        (some .internalError, { l with offered := l.offered ++ [l.reading] }) := by
      simp only [offerCert, hstate, hadd, reduceCtorEq, if_false]
    rw [loadCertsFromFile, hoffer]
    exact ih (fun i => hrefused (i + 1)) hstate

end Loaders

/-- A certificate of a file is handed over once, and the vector grows by what was added,
if and only if no certificate of the file fails; those of a directory may fail, but not
for their rows. -/
theorem loaded_iff (certUsage : CertUsage) (role : Nat) (earlier : List Offer) :
    (∀ certs : List (Nat → PemCert),
      (∃ fuel l, loadCertsFromFile certUsage role fuel certs { state := addAll earlier } = some l ∧
          Loaded (addAll earlier) certs.length l) ↔
        Along (Addable certUsage (addAll earlier)) (certs.map fun cert => cert 0)) ∧
    ∀ entries : List DirEntry,
      Loaded (addAll earlier) (entries.filterMap DirEntry.read).length
          (loadCertsFromDir certUsage role entries { state := addAll earlier }) ↔
        Along (Registers certUsage (addAll earlier)) (entries.filterMap DirEntry.read) := by
  constructor
  · intro certs
    exact loaded_file_iff (filled_addAll earlier)
  · intro entries
    exact loaded_run_iff (filled_addAll earlier) (loadCertsFromDir_eq entries _).symm

/-- A file with a certificate that cannot be parsed is never left. -/
theorem unparsed_not_loaded : ¬ ∃ fuel l,
    loadCertsFromFile .trustCert 0 fuel [fun _ => ⟨some [0x30], none, none, none, none⟩]
      { state := addAll [] } = some l ∧ Loaded (addAll []) 1 l := by
  rintro ⟨fuel, l, hload, -⟩
  rw [loadCertsFromFile_endless (fun i der _ => ⟨by simp [Has, addAll], rfl⟩) rfl] at hload
  cases hload

end CertLoading
