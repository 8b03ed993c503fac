import SdtTr369.DataModelRead
import SdtTr369.RunHistory
import Mathlib.Data.List.Nodup

/-!
# Trust certificates and their roles

`device_security.c` keeps every certificate that it is offered at start in one vector
and finds it there by a 32-bit hash. A trust certificate has a row in
`Device.LocalAgent.Certificate` and, for its role, one in
`Device.LocalAgent.ControllerTrust.Credential`. Of a certificate of OpenSSL only its DER
form matters; what OpenSSL and the data model answer while one is added comes with it.
-/

namespace TrustCerts

open UspTypes RunHistory List
open DataModelRead (invalidRole)

abbrev Der := List UInt8

/-- A certificate, by the bytes that `i2d_X509` gives for it, if any. -/
abbrev X509 := Option Der

/-- `cert_usage_t`. -/
inductive CertUsage where
  | trustCert
  | clientCert
  | systemCert
  deriving DecidableEq, Repr

/-- What the `ParseCert` functions find out. -/
structure CertDetails where
  subject : Str
  issuer : Str
  lastModif : Int
  serialNumber : Str
  notBefore : Str
  notAfter : Str
  subjectAlt : Str
  signatureAlgorithm : Str
  deriving DecidableEq, Repr

/-- `cert_t`. No instance number in `Device.LocalAgent.Certificate` is `INVALID`. -/
structure Cert where
  inst : Nat
  laInstance : Option Nat
  certUsage : CertUsage
  cert : X509
  details : CertDetails
  hash : UInt32
  deriving DecidableEq, Repr

/-- `credential_t`. -/
structure Credential where
  role : Nat
  certInstance : Nat
  deriving DecidableEq, Repr

/-- The three arrays, and the rows that the data model has been informed of. -/
structure State where
  allCerts : List Cert := []
  numTrustCerts : Nat := 0
  credentials : List Credential := []
  certRows : List Nat := []
  laCertRows : List Nat := []
  credentialRows : List Nat := []
  deriving DecidableEq, Repr

/-- A certificate that is offered to `AddCert`, with the details if they can be parsed
and the errors with which `DATA_MODEL_InformInstance` fails for its rows. -/
structure Offer where
  cert : X509
  certUsage : CertUsage
  role : Nat
  details : Option CertDetails
  informCert : Option Err := none
  informLaCert : Option Err := none
  informCredential : Option Err := none
  deriving DecidableEq, Repr

/-- The hash of `CalcCertHash`. -/
def certHash (der : Der) : UInt32 :=
  der.foldl (fun hash byte => (hash * 0x1000193) ^^^ byte.toUInt32) 0x811C9DC5

/-- `Find_CertByHash`. -/
def State.findCertByHash (s : State) (hash : UInt32) : Option Cert :=
  s.allCerts.find? fun ct => ct.hash = hash

/-- `Find_LocalAgentCertByHash`. -/
def State.findLocalAgentCertByHash (s : State) (hash : UInt32) : Option Cert :=
  s.allCerts.find? fun ct => ct.certUsage = .trustCert && ct.hash = hash

/-- `DEVICE_CTRUST_AddCertRole`: the credential stays also when it gets no row. -/
def addCertRole (certInstance role : Nat) (inform : Option Err) (s : State) : Option Err × State :=
  let s := { s with credentials := s.credentials ++ [⟨role, certInstance⟩] }
  match inform with
  | some err => (some err, s)
  | none => (none, { s with credentialRows := s.credentialRows ++ [s.credentials.length] })

/-- `DEVICE_CTRUST_GetCertRole`. -/
def State.getCertRole (s : State) (certInstance : Option Nat) : Nat :=
  ((s.credentials.find? fun cp => some cp.certInstance = certInstance).map (·.role)).getD
    invalidRole

/-- The rows of a certificate that is in the vector. -/
def informRows (o : Offer) (inst : Nat) (s : State) : Option Err × State :=
  match o.informCert with
  | some err => (some err, s)
  | none =>
    let s := { s with certRows := s.certRows ++ [inst] }
    if o.certUsage = .trustCert then
      match o.informLaCert with
      | some err => (some err, s)
      | none => addCertRole s.numTrustCerts o.role o.informCredential
          { s with laCertRows := s.laCertRows ++ [s.numTrustCerts] }
    else (none, s)

/-- The entry that a certificate with these details gets in the vector. -/
def newCert (o : Offer) (hash : UInt32) (details : CertDetails) (s : State) : Cert where
  inst := s.allCerts.length + 1
  laInstance := if o.certUsage = .trustCert then some (s.numTrustCerts + 1) else none
  certUsage := o.certUsage
  cert := if o.certUsage = .trustCert then o.cert else none
  details := details
  hash := hash

/-- The vector with a new entry. -/
def State.push (s : State) (ct : Cert) : State :=
  { s with
    allCerts := s.allCerts ++ [ct]
    numTrustCerts := if ct.certUsage = .trustCert then s.numTrustCerts + 1 else s.numTrustCerts }

/-- `AddCert`. -/
def addCert (o : Offer) (s : State) : Option Err × State :=
  match o.cert with
  | none => (some .internalError, s)
  | some der =>
    match s.findCertByHash (certHash der) with
    | some _ => (none, s)
    | none => match o.details with
      | none => (some .internalError, s)
      | some details =>
        let ct := newCert o (certHash der) details s
        informRows o ct.inst (s.push ct)

/-- `DEVICE_SECURITY_GetControllerTrust`, for the certificates of a chain from the one of
the broker on. -/
def getControllerTrust (chain : List X509) (s : State) : Except Err Nat :=
  if chain.length < 2 then .error .internalError
  else match chain.getLast? with
    | none | some none => .error .internalError
    | some (some der) => match s.findLocalAgentCertByHash (certHash der) with
      | none => .error .internalError
      | some ct =>
        let role := s.getCertRole ct.laInstance
        if role = invalidRole then .error .internalError else .ok role

/-! ## Certificates that were added -/

/-- The trust certificates for which `AddCert` has returned no error, in order, each with
the role that came with it. -/
structure Watched where
  state : State := {}
  added : List (Der × Nat) := []
  deriving DecidableEq, Repr

def offer (o : Offer) (w : Watched) : Option Watched :=
  let result := addCert o w.state
  some ⟨result.2, if result.1 = none ∧ o.certUsage = .trustCert then
    w.added ++ (o.cert.map fun der => (der, o.role)).toList else w.added⟩

/-- A chain that ends in a trust certificate that was added gives the role that the
certificate was first added with, and the tables have no gaps. -/
structure Trusted (w : Watched) : Prop where
  role : ∀ der role, w.added.lookup der = some role → ∀ chain : List X509, 2 ≤ chain.length →
    chain.getLast? = some (some der) → getControllerTrust chain w.state = .ok role
  laCertRows : ∃ n, w.state.laCertRows = List.range' 1 n
  credentialRows : ∃ n, w.state.credentialRows = List.range' 1 n
  credentials : ∀ i ∈ w.state.credentialRows, ∃ cp, w.state.credentials[i - 1]? = some cp ∧
    cp.certInstance ∈ w.state.laCertRows

/-- A trust certificate shares its hash with no other certificate of the vector, nor was
it put there for another use; and if it is new and can be parsed, it has a role and its
rows can all be added. -/
def Meets (s : State) (o : Offer) : Prop :=
  ∀ der ∈ o.cert, o.certUsage = .trustCert →
    (∀ ct ∈ s.allCerts, ct.hash = certHash der → ct.cert = some der) ∧
      ((∀ ct ∈ s.allCerts, ct.hash ≠ certHash der) → o.details.isSome →
        o.role ≠ invalidRole ∧ o.informCert = none ∧ o.informLaCert = none ∧
          o.informCredential = none)

instance (s : State) (o : Offer) : Decidable (Meets s o) :=
  inferInstanceAs (Decidable (∀ der ∈ o.cert, _))

/-! ## The tables stay in step -/

structure Sound (w : Watched) : Prop where
  instances : w.state.credentials.map (·.certInstance) = List.range' 1 w.state.numTrustCerts
  laCertRows : w.state.laCertRows = List.range' 1 w.state.numTrustCerts
  credentialRows : w.state.credentialRows = List.range' 1 w.state.numTrustCerts
  hashes : (w.state.allCerts.map (·.hash)).Nodup
  unkept : ∀ ct ∈ w.state.allCerts, ct.certUsage ≠ .trustCert → ct.cert = none
  trusted : ∀ ct ∈ w.state.allCerts, ct.certUsage = .trustCert → ∃ der cp,
    ct.cert = some der ∧ ct.hash = certHash der ∧ cp ∈ w.state.credentials ∧
      ct.laInstance = some cp.certInstance ∧ cp.role ≠ invalidRole ∧
      w.added.lookup der = some cp.role
  added : ∀ e ∈ w.added, ∃ ct ∈ w.state.allCerts, ct.certUsage = .trustCert ∧ ct.cert = some e.1

section Steps

variable {w w' : Watched} {o : Offer} {der : Der} {role : Nat} {s : State} {ct : Cert}

theorem mem_of_lookup {l : List (Der × Nat)} (h : l.lookup der = some role) :
    (der, role) ∈ l := by
  obtain ⟨l₁, l₂, rfl, -⟩ := List.lookup_eq_some_iff.mp h
  simp

theorem lookup_append_some {l l' : List (Der × Nat)} (h : l.lookup der = some role) :
    (l ++ l').lookup der = some role := by
  rw [lookup_append, h]
  rfl

theorem find_unique {α : Type} {p : α → Bool} {l : List α} {x : α} (hmem : x ∈ l)
    (hx : p x = true) (hunique : ∀ y ∈ l, p y = true → y = x) : l.find? p = some x := by
  cases hfind : l.find? p with
  | none => exact absurd hx (List.find?_eq_none.mp hfind x hmem)
  | some y => rw [hunique y (mem_of_find?_eq_some hfind) (find?_some hfind)]

/-- A trust certificate is found by its hash, and by its instance number its role. -/
theorem Sound.controllerTrust (h : Sound w) (hadded : w.added.lookup der = some role)
    {chain : List X509} (hlength : 2 ≤ chain.length) (hlast : chain.getLast? = some (some der)) :
    getControllerTrust chain w.state = .ok role := by
  obtain ⟨ct, hct, husage, hcert⟩ := h.added _ (mem_of_lookup hadded)
  obtain ⟨der', cp, hcert', hhash, hcp, hinst, hrole, hlookup⟩ := h.trusted ct hct husage
  rw [hcert] at hcert'
  cases hcert'
  rw [hadded] at hlookup
  cases hlookup
  have hfind : w.state.findLocalAgentCertByHash (certHash der) = some ct := by
    apply find_unique hct
    · simp [husage, hhash]
    · intro ct' hct' hholds
      simp only [Bool.and_eq_true, decide_eq_true_eq] at hholds
      exact inj_on_of_nodup_map h.hashes hct' hct (hholds.2.trans hhash.symm)
  have hnodup : (w.state.credentials.map (·.certInstance)).Nodup := by
    rw [h.instances]
    exact nodup_range'
  have hgets : w.state.getCertRole ct.laInstance = cp.role := by
    have hfindRole : (w.state.credentials.find? fun c => some c.certInstance = ct.laInstance) =
        some cp := by
      apply find_unique hcp
      · simp [hinst]
      · intro c hc hholds
        rw [hinst] at hholds
        exact inj_on_of_nodup_map hnodup hc hcp (by simpa using hholds)
    rw [State.getCertRole, hfindRole]
    rfl
  unfold getControllerTrust
  rw [if_neg (by omega), hlast]
  simp only [hfind, hgets, hrole, if_false]

theorem Sound.trust (h : Sound w) : Trusted w := by
  refine ⟨?_, ⟨_, h.laCertRows⟩, ⟨_, h.credentialRows⟩, ?_⟩
  · intro der role hadded chain hlength hlast
    exact h.controllerTrust hadded hlength hlast
  · intro i hi
    rw [h.credentialRows, mem_range'_1] at hi
    have hlength : w.state.credentials.length = w.state.numTrustCerts := by
      simpa using congrArg List.length h.instances
    have hlt : i - 1 < w.state.credentials.length := by omega
    refine ⟨_, getElem?_eq_getElem hlt, ?_⟩
    rw [h.laCertRows, ← h.instances]
    exact mem_map_of_mem (getElem_mem hlt)

/-- A trust certificate that is there already is only noted once more. -/
theorem Sound.repeated (h : Sound w) (hct : ct ∈ w.state.allCerts)
    (hcert : ct.cert = some der) : Sound ⟨w.state, w.added ++ [(der, role)]⟩ := by
  have husage : ct.certUsage = .trustCert := by
    by_contra hne
    rw [h.unkept ct hct hne] at hcert
    cases hcert
  refine ⟨h.instances, h.laCertRows, h.credentialRows, h.hashes, h.unkept, ?_, ?_⟩
  · intro c hc hc'
    obtain ⟨d, cp, hd, hhash, hcp, hinst, hrole, hlookup⟩ := h.trusted c hc hc'
    exact ⟨d, cp, hd, hhash, hcp, hinst, hrole, lookup_append_some hlookup⟩
  · intro e he
    obtain he | he := List.mem_append.mp he
    · exact h.added e he
    · cases List.mem_singleton.mp he
      exact ⟨ct, hct, husage, hcert⟩

theorem findCertByHash_eq_none {hash : UInt32} : s.findCertByHash hash = none ↔
    ∀ ct ∈ s.allCerts, ct.hash ≠ hash := by
  simp [State.findCertByHash]

theorem nodup_snoc (h : (s.allCerts.map (·.hash)).Nodup)
    (hnew : ∀ c ∈ s.allCerts, c.hash ≠ ct.hash) :
    ((s.allCerts ++ [ct]).map (·.hash)).Nodup := by
  rw [map_append, nodup_append]
  refine ⟨h, by simp, ?_⟩
  intro x hx y hy
  obtain ⟨c, hc, rfl⟩ := List.mem_map.mp hx
  cases List.mem_singleton.mp hy
  exact hnew c hc

/-- A certificate for another use gets no further than its own row. -/
theorem Sound.pushOther (h : Sound w) (husage : o.certUsage ≠ .trustCert) (details : CertDetails)
    (hnew : ∀ c ∈ w.state.allCerts, c.hash ≠ certHash der) (inst : Nat) :
    Sound ⟨(informRows o inst (w.state.push (newCert o (certHash der) details w.state))).2,
      w.added⟩ := by
  have hpush : Sound ⟨w.state.push (newCert o (certHash der) details w.state), w.added⟩ := by
    have hnumber : (w.state.push (newCert o (certHash der) details w.state)).numTrustCerts =
        w.state.numTrustCerts := by
      simp [State.push, newCert, husage]
    refine ⟨?_, ?_, ?_, nodup_snoc h.hashes hnew, ?_, ?_, ?_⟩
    · rw [hnumber]
      exact h.instances
    · rw [hnumber]
      exact h.laCertRows
    · rw [hnumber]
      exact h.credentialRows
    · intro c hc hother
      obtain hc | hc := List.mem_append.mp hc
      · exact h.unkept c hc hother
      · cases List.mem_singleton.mp hc
        simp [newCert, husage]
    · intro c hc htrust
      obtain hc | hc := List.mem_append.mp hc
      · exact h.trusted c hc htrust
      · cases List.mem_singleton.mp hc
        exact absurd htrust husage
    · intro e he
      obtain ⟨c, hc, hrest⟩ := h.added e he
      exact ⟨c, mem_append_left _ hc, hrest⟩
  unfold informRows
  split
  · exact hpush
  · rw [if_neg husage]
    exact ⟨hpush.instances, hpush.laCertRows, hpush.credentialRows, hpush.hashes, hpush.unkept,
      hpush.trusted, hpush.added⟩

/-- A new trust certificate gets the next row in both tables. -/
theorem Sound.pushTrust (h : Sound w) (husage : o.certUsage = .trustCert) (details : CertDetails)
    (hcert : o.cert = some der) (hnew : ∀ c ∈ w.state.allCerts, c.hash ≠ certHash der)
    (hrole : o.role ≠ invalidRole) (hinform : o.informCert = none)
    (hinformLa : o.informLaCert = none) (hinformCredential : o.informCredential = none)
    (inst : Nat) :
    (informRows o inst (w.state.push (newCert o (certHash der) details w.state))).1 = none ∧
      Sound ⟨(informRows o inst (w.state.push (newCert o (certHash der) details w.state))).2,
        w.added ++ [(der, o.role)]⟩ := by
  have hlength : w.state.credentials.length = w.state.numTrustCerts := by
    simpa using congrArg List.length h.instances
  have hnone : w.added.lookup der = none := by
    cases hlookup : w.added.lookup der with
    | none => rfl
    | some r =>
      obtain ⟨c, hc, hctrust, hccert⟩ := h.added _ (mem_of_lookup hlookup)
      obtain ⟨d, cp, hd, hhash, -⟩ := h.trusted c hc hctrust
      rw [hccert] at hd
      cases hd
      exact absurd hhash (hnew c hc)
  simp only [informRows, addCertRole, hinform, hinformLa, hinformCredential, husage, if_true,
    State.push, newCert, true_and]
  refine ⟨?_, ?_, ?_, nodup_snoc h.hashes hnew, ?_, ?_, ?_⟩
  · simp [h.instances, range'_1_concat, Nat.add_comm]
  · simp [h.laCertRows, range'_1_concat, Nat.add_comm]
  · simp [h.credentialRows, range'_1_concat, Nat.add_comm, hlength]
  · intro c hc hother
    obtain hc | hc := List.mem_append.mp hc
    · exact h.unkept c hc hother
    · cases List.mem_singleton.mp hc
      exact absurd rfl hother
  · intro c hc htrust
    obtain hc | hc := List.mem_append.mp hc
    · obtain ⟨d, cp, hd, hhash, hcp, hinst, hcpRole, hlookup⟩ := h.trusted c hc htrust
      exact ⟨d, cp, hd, hhash, mem_append_left _ hcp, hinst, hcpRole,
        lookup_append_some hlookup⟩
    · cases List.mem_singleton.mp hc
      refine ⟨der, ⟨o.role, w.state.numTrustCerts + 1⟩, hcert, rfl, ?_, rfl, hrole, ?_⟩
      · exact mem_append_right _ (List.mem_singleton.mpr rfl)
      · simp [lookup_append, hnone]
  · intro e he
    obtain he | he := List.mem_append.mp he
    · obtain ⟨c, hc, hrest⟩ := h.added e he
      exact ⟨c, mem_append_left _ hc, hrest⟩
    · cases List.mem_singleton.mp he
      exact ⟨_, mem_append_right _ (List.mem_singleton.mpr rfl), rfl, hcert⟩

theorem addCert_known (hcert : o.cert = some der)
    (hfind : s.findCertByHash (certHash der) = some ct) : addCert o s = (none, s) := by
  simp only [addCert, hcert, hfind]

theorem addCert_unparsed (hcert : o.cert = some der)
    (hfind : s.findCertByHash (certHash der) = none) (hdetails : o.details = none) :
    addCert o s = (some .internalError, s) := by
  simp only [addCert, hcert, hfind, hdetails]

theorem addCert_new {details : CertDetails} (hcert : o.cert = some der)
    (hfind : s.findCertByHash (certHash der) = none) (hdetails : o.details = some details) :
    addCert o s = informRows o (newCert o (certHash der) details s).inst
      (s.push (newCert o (certHash der) details s)) := by
  simp only [addCert, hcert, hfind, hdetails]

theorem offer_sound (h : Sound w) (hmeets : Meets w.state o) (hoffer : offer o w = some w') :
    Sound w' := by
  simp only [offer, Option.some.injEq] at hoffer
  subst hoffer
  cases hcert : o.cert with
  | none =>
    have hadd : addCert o w.state = (some .internalError, w.state) := by simp only [addCert, hcert]
    rw [hadd]
    exact h
  | some der =>
    cases hfind : w.state.findCertByHash (certHash der) with
    | some ct =>
      rw [addCert_known hcert hfind]
      split
      · next htrust =>
        have hct : ct ∈ w.state.allCerts := mem_of_find?_eq_some hfind
        have hhash : ct.hash = certHash der := by simpa using find?_some hfind
        exact h.repeated hct ((hmeets der hcert htrust.2).1 ct hct hhash)
      · exact h
    | none =>
      have hnew := findCertByHash_eq_none.mp hfind
      cases hdetails : o.details with
      | none =>
        rw [addCert_unparsed hcert hfind hdetails]
        exact h
      | some details =>
        rw [addCert_new hcert hfind hdetails]
        by_cases husage : o.certUsage = .trustCert
        · obtain ⟨hrole, hinform, hinformLa, hinformCredential⟩ :=
            (hmeets der hcert husage).2 hnew (by rw [hdetails]; rfl)
          obtain ⟨hok, hsound⟩ := h.pushTrust husage details hcert hnew hrole hinform
            hinformLa hinformCredential (newCert o (certHash der) details w.state).inst
          rw [if_pos ⟨hok, husage⟩]
          exact hsound
        · rw [if_neg fun hboth => husage hboth.2]
          exact h.pushOther husage details hnew _

end Steps

/-- Certificates that are offered in any order. -/
theorem trusted_run (offers : List Offer) (w : Watched)
    (hmeets : RunMeets offer (fun w o => Meets w.state o) offers {})
    (hrun : run offer offers {} = some w) : Trusted w := by
  have hstart : Sound {} := by
    refine ⟨rfl, rfl, rfl, ?_, ?_, ?_, ?_⟩ <;> simp
  exact (run_keeps (fun _ _ _ h hmeets hstep => offer_sound h hmeets hstep) hstart hmeets
    hrun).trust

def noDetails : CertDetails := ⟨[], [], 0, [], [], [], [], []⟩

/-- A trust certificate with the bytes `der`. -/
def trustOffer (der : Der) (role : Nat) : Offer := ⟨some der, .trustCert, role, some noDetails,
  none, none, none⟩

/-- A chain that ends in the second of two trust certificates, the first of which is
offered twice, gives the role of the second. -/
theorem trusted_run_second :
    getControllerTrust [some [0x30, 0x00], some [0x30, 0x02]]
      ((run offer [trustOffer [0x30, 0x01] 0, trustOffer [0x30, 0x01] 1, trustOffer [0x30, 0x02] 1]
        {}).get (by decide)).state = .ok 1 :=
  (trusted_run _ _ (by decide) (Option.some_get _).symm).role [0x30, 0x02] 1 (by decide) _
    (by decide) rfl

/-- A trust certificate whose row in `Device.LocalAgent.Certificate` is not added at first
is said to be there when it is offered again, but it has no role. -/
theorem unregistered_without_role :
    ¬ ∀ w, run offer [{ trustOffer [0x30, 0x01] 0 with informLaCert := some .internalError },
      trustOffer [0x30, 0x01] 0] {} = some w → Trusted w := by
  intro h
  have hrole := (h _ rfl).role [0x30, 0x01] 0 (by decide) [some [0x30, 0x00], some [0x30, 0x01]]
    (by decide) rfl
  revert hrole
  decide

end TrustCerts
