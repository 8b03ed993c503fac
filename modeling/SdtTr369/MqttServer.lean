import SdtTr369.Base64Values
import SdtTr369.ExprVector
import SdtTr369.PathRoundTrip
import SdtTr369.PeriodicNotif
import SdtTr369.ProgramFrames

/-!
# The MQTT server given at start

`DEVICE_MQTT_SetDefaultServer` cuts a URL at its first `://` and at the first colon behind
it, and writes the three parts into the database one after the other.
-/

namespace MqttServer

open UspTypes DecimalText Schema PathCodec EffectProgram Agent InstVector DataModel ExprVector List
open ReportingInterval PeriodicNotif PathRoundTrip
open SchemaInvariant (tableRegistration)
open Base64Values (get_set get_set_other)

/-! ## The code -/

def brokerAddressPath : Str := "Device.MQTT.Client.1.BrokerAddress".toList

def brokerPortPath : Str := "Device.MQTT.Client.1.BrokerPort".toList

def transportProtocolPath : Str := "Device.MQTT.Client.1.TransportProtocol".toList

/-- The URL up to the address. -/
def colonSlashes : Str := [':', '/', '/']

/-- The three parts of the URL. -/
structure Parts where
  protocol : Str
  address : Str
  port : Str
  deriving DecidableEq, Repr

/-- The searches in `mqtt_server_url`. -/
def cutUrl (mqttServerUrl : Option Str) : Option Parts :=
  match mqttServerUrl with
  | none => none
  | some url =>
    if url = [] ∨ url = ['n', 'u', 'l', 'l'] then none
    else
      match splitAtText colonSlashes url with
      | none => none
      | some (protocol, rest) =>
        match splitAtText [':'] rest with
        | none => none
        | some (address, port) => some ⟨protocol, address, port⟩

/-- `char port[7]`. -/
def portSize : Nat := 7

/-- The value of `TransportProtocol` for a scheme. -/
def transportProtocol (protocol : Str) : Option Str :=
  if protocol.map Char.toLower = ['t', 'c', 'p'] then some ['T', 'C', 'P', '/', 'I', 'P']
  else if protocol.map Char.toLower = ['s', 's', 'l'] then some ['T', 'L', 'S']
  else none

/-- `DEVICE_MQTT_SetDefaultServer`; a port that its buffer does not hold is written beyond
the end. -/
def setDefaultServer (S : DmTree) (W : World) (mqttServerUrl : Option Str) : Op Unit :=
  match cutUrl mqttServerUrl with
  | none => .fail .internalError
  | some parts => do
    .require (parts.port.length < portSize)
    setParameterInDatabase S W brokerAddressPath parts.address
    setParameterInDatabase S W brokerPortPath parts.port
    match transportProtocol parts.protocol with
    | some value => setParameterInDatabase S W transportProtocolPath value
    | none => .fail .internalError

/-- `Validate_MQTTBrokerPort` on a value that has been converted to a number. -/
def validateMqttBrokerPort (value : Str) : Except Err Unit :=
  match stringToUnsigned value with
  | none => .error .invalidType
  | some n => validateRangeUnsigned 1 65535 n

/-- `Validate_MQTTTransportProtocol`, with the names of `mqtt_tsprotocol`. -/
def validateMqttTransportProtocol (value : Str) : Except Err Unit :=
  if value ∈ [['T', 'C', 'P', '/', 'I', 'P'], ['T', 'L', 'S']] then .ok () else .error .invalidValue

/-! ## Cutting the URL -/

section Cutting

variable {url scheme address port : Str}

/-- The URL around its first `://` and the first colon behind it. -/
structure Cut (url scheme address port : Str) : Prop where
  eq : url = scheme ++ (colonSlashes ++ (address ++ ':' :: port))
  first : ¬colonSlashes <:+: scheme ++ [':', '/']
  colon : ':' ∉ address

theorem cutUrl_eq_some :
    cutUrl (some url) = some ⟨scheme, address, port⟩ ↔ Cut url scheme address port := by
  unfold cutUrl
  constructor
  · intro h
    simp only at h
    split at h
    · cases h
    · split at h
      · cases h
      · rename_i rest hscheme
        split at h
        · cases h
        · rename_i hport
          cases h
          obtain ⟨rfl, hfirst⟩ := splitAtText_parts (by simp [colonSlashes]) hscheme
          obtain ⟨rfl, hcolon⟩ := splitAtText_parts (by simp) hport
          refine ⟨rfl, hfirst, fun hin => hcolon ?_⟩
          rw [dropLast_singleton, append_nil]
          exact (singleton_infix_iff ..).mpr hin
  · rintro ⟨rfl, hfirst, hcolon⟩
    have hport : splitAtText [':'] (address ++ ([':'] ++ port)) = some (address, port) := by
      refine splitAtText_append (fun hin => hcolon ?_) (by simp) port
      rw [dropLast_singleton, append_nil] at hin
      exact (singleton_infix_iff ..).mp hin
    have hscheme : splitAtText colonSlashes
        (scheme ++ (colonSlashes ++ (address ++ ':' :: port))) =
          some (scheme, address ++ ':' :: port) :=
      splitAtText_append hfirst (by simp [colonSlashes]) _
    have hslash : '/' ∈ scheme ++ (colonSlashes ++ (address ++ ':' :: port)) := by
      simp [colonSlashes]
    rw [singleton_append] at hport
    simp only [hscheme, hport]
    rw [if_neg]
    rintro (hnil | hnull)
    · rw [hnil] at hslash
      exact absurd hslash not_mem_nil
    · rw [hnull] at hslash
      exact absurd hslash (by decide)

end Cutting

/-! ## Writing a parameter -/

section Writes

variable {S : DmTree} {W : World} {path value : Str} {key key' : Key} {a : State}

/-- A path to a parameter with a row of its own, in a table that no callback refreshes. -/
structure Registered (S : DmTree) (path : Str) (key : Key) : Prop where
  found : ∃ node inst, getQualifiedNode S path = some (node, inst, true) ∧
    (S.node node).type = .dbParamReadWrite ∧ rowKey S node inst = key ∧
    (S.node (topNode inst)).type = .objectMultiInstance ∧
    (S.node (topNode inst)).registered.refreshInstances = false

/-- The state after a write, which a failure leaves as it is but for the call. -/
def written (W : World) (key : Key) (value : Str) (a : State) : State :=
  { a with
    db := if W.setFails a.calls then a.db else a.db.set key value
    calls := a.calls + 1 }

theorem getNodeFromPath_of_qualified {node : NodeId} {inst : DmInstances} {isQualified : Bool}
    (h : getQualifiedNode S path = some (node, inst, isQualified)) :
    getNodeFromPath S path = some (node, inst) := by
  unfold getQualifiedNode at h
  cases hget : getNodeFromPath S path with
  | none => simp [hget] at h
  | some found =>
    obtain ⟨node', inst'⟩ := found
    simp only [hget] at h
    split_ifs at h <;> cases h <;> rfl

theorem instVectorIsExist_plain {inst : DmInstances}
    (htop : (S.node (topNode inst)).type = .objectMultiInstance)
    (hplain : (S.node (topNode inst)).registered.refreshInstances = false) :
    ∃ found, instVectorIsExist S W inst a = some (.ok found, a) := by
  unfold instVectorIsExist
  split
  · exact ⟨true, rfl⟩
  · refine ⟨isExistInInstVector inst (a.instVector (topNode inst)), ?_⟩
    simp only [requireTop, htop, refreshInstVector, hplain, decide_true, ↓reduceIte]
    rfl

/-- The row of the parameter is all that a write changes. -/
theorem setParameterInDatabase_eq (h : Registered S path key) :
    setParameterInDatabase S W path value a =
      some (if W.setFails a.calls then .error .internalError else .ok (), written W key value a) := by
  obtain ⟨node, inst, hget, htype, rfl, htop, hplain⟩ := h.found
  have hform : formDbFromPath S path = .ok (rowKey S node inst) :=
    formDbFromPath_ok.mpr ⟨node, inst, getNodeFromPath_of_qualified hget, by rw [htype]; rfl, rfl⟩
  have hsecure : isSecurePath S W path a = some (.ok false, a) := by
    obtain ⟨found, hexist⟩ := instVectorIsExist_plain (W := W) (a := a) htop hplain
    simp only [isSecurePath, hget]
    show Prog.bind (Prog.attempt _) _ a = _
    rw [Prog.bind, Prog.attempt, hexist]
    simp only [Option.map_some, htype, reduceCtorEq, decide_false]
    rfl
  simp only [setParameterInDatabase, hform]
  show Prog.bind _ _ a = _
  rw [Prog.bind, hsecure]
  show databaseSetParameterValue W (rowKey S node inst) value false a = _
  unfold databaseSetParameterValue written
  show (if W.setFails a.calls = true then Prog.fail Err.internalError else Prog.update _ : Op Unit)
    { a with calls := a.calls + 1 } = _
  split <;> rfl

theorem write_ok (h : Registered S path key) (hok : W.setFails a.calls = false) :
    setParameterInDatabase S W path value a = some (.ok (), written W key value a) := by
  rw [setParameterInDatabase_eq h, hok]
  rfl

theorem write_fails (h : Registered S path key) (hfail : W.setFails a.calls = true) :
    setParameterInDatabase S W path value a =
      some (.error .internalError, written W key value a) := by
  rw [setParameterInDatabase_eq h, if_pos hfail]

theorem written_get (hok : W.setFails a.calls = false) :
    (written W key value a).db.get key = some value := by
  simp only [written, hok, Bool.false_eq_true, ↓reduceIte, get_set]

theorem written_failed (hfail : W.setFails a.calls = true) : (written W key value a).db = a.db := by
  rw [written, if_pos hfail]

theorem written_other (hne : key' ≠ key) : (written W key value a).db.get key' = a.db.get key' := by
  unfold written
  split
  · rfl
  · exact get_set_other a.db hne value

end Writes

/-! ## The runs -/

/-- The rows of the three parameters. -/
structure Keys where
  address : Key
  port : Key
  transport : Key

/-- `DEVICE_MQTT_Init` has registered the parameters, and their rows differ. -/
structure ServerParams (S : DmTree) (K : Keys) : Prop where
  address : Registered S brokerAddressPath K.address
  port : Registered S brokerPortPath K.port
  transport : Registered S transportProtocolPath K.transport
  addressPort : K.address ≠ K.port
  addressTransport : K.address ≠ K.transport
  portTransport : K.port ≠ K.transport

section Runs

variable {S : DmTree} {W : World} {K : Keys} {a : State} {url scheme address port value : Str}

/-- The state after the first write. -/
abbrev withAddress (W : World) (K : Keys) (address : Str) (a : State) : State :=
  written W K.address address a

/-- The state after the second write. -/
abbrev withPort (W : World) (K : Keys) (address port : Str) (a : State) : State :=
  written W K.port port (withAddress W K address a)

theorem run_uncut (h : cutUrl (some url) = none) :
    setDefaultServer S W (some url) a = some (.error .internalError, a) := by
  rw [setDefaultServer, h]
  rfl

/-- A port that does not fit ends in undefined behaviour. -/
theorem run_overflow (h : Cut url scheme address port) (hlong : ¬port.length < portSize) :
    setDefaultServer S W (some url) a = none := by
  simp only [setDefaultServer, cutUrl_eq_some.mpr h]
  rw [bind_none]
  rw [Prog.require, if_neg (by simpa using hlong)]

theorem run_cut (h : Cut url scheme address port) (hroom : port.length < portSize) :
    setDefaultServer S W (some url) a = (do
      setParameterInDatabase S W brokerAddressPath address
      setParameterInDatabase S W brokerPortPath port
      match transportProtocol scheme with
      | some value => setParameterInDatabase S W transportProtocolPath value
      | none => .fail .internalError : Op Unit) a := by
  simp only [setDefaultServer, cutUrl_eq_some.mpr h]
  have hrequire : (Prog.require (port.length < portSize) : Op Unit) a = some (.ok (), a) := by
    rw [Prog.require, if_pos (by simpa using hroom)]
  rw [bind_run hrequire]

section

variable (hS : ServerParams S K) (h : Cut url scheme address port) (hroom : port.length < portSize)
include hS h hroom

theorem run_first (hfirst : W.setFails a.calls = true) :
    setDefaultServer S W (some url) a =
      some (.error .internalError, withAddress W K address a) := by
  rw [run_cut h hroom, bind_error (write_fails hS.address hfirst)]

theorem run_second (hfirst : W.setFails a.calls = false)
    (hsecond : W.setFails (a.calls + 1) = true) :
    setDefaultServer S W (some url) a =
      some (.error .internalError, withPort W K address port a) := by
  rw [run_cut h hroom, bind_run (write_ok hS.address hfirst),
    bind_error (write_fails hS.port hsecond)]

theorem run_scheme (hfirst : W.setFails a.calls = false)
    (hsecond : W.setFails (a.calls + 1) = false) (hscheme : transportProtocol scheme = none) :
    setDefaultServer S W (some url) a =
      some (.error .internalError, withPort W K address port a) := by
  rw [run_cut h hroom, bind_run (write_ok hS.address hfirst), bind_run (write_ok hS.port hsecond),
    hscheme]
  rfl

theorem run_third (hfirst : W.setFails a.calls = false)
    (hsecond : W.setFails (a.calls + 1) = false) (hscheme : transportProtocol scheme = some value) :
    setDefaultServer S W (some url) a =
      some (if W.setFails (a.calls + 2) then .error .internalError else .ok (),
        written W K.transport value (withPort W K address port a)) := by
  rw [run_cut h hroom, bind_run (write_ok hS.address hfirst), bind_run (write_ok hS.port hsecond),
    hscheme]
  exact setParameterInDatabase_eq hS.transport

end

end Runs

/-! ## What a URL says -/

/-- The characters that end a host or open something else in a URL. -/
def reserved : Str := ['/', '?', '#', '@', '[', ']']

/-- A name or an IPv4 address. -/
def PlainHost (host : Str) : Prop := host ≠ [] ∧ ':' ∉ host ∧ ∀ c ∈ host, c ∉ reserved

/-- A host as it stands in a URL, where an IPv6 address has brackets. -/
inductive HostText : Str → Str → Prop where
  | plain {host : Str} (h : PlainHost host) : HostText host host
  | bracketed {host : Str} (hne : host ≠ []) (h : ∀ c ∈ host, c ∉ reserved) :
    HostText ('[' :: (host ++ [']'])) host

/-- A port number in decimal. -/
def IsPort (port : Str) : Prop := port ≠ [] ∧ ∀ c ∈ port, c.isDigit = true

/-- The URL `scheme://host:port`. -/
structure Denotes (url scheme host port : Str) : Prop where
  text : ∃ text, HostText text host ∧ url = scheme ++ (colonSlashes ++ (text ++ ':' :: port))
  scheme : ':' ∉ scheme
  port : IsPort port

/-- What may come of a call: an error that leaves the parameters, or the values that the
URL denotes, which their validators admit. A write beyond a buffer is neither. -/
inductive Settles (K : Keys) (mqttServerUrl : Option Str) (a : State) :
    Option (Except Err Unit × State) → Prop where
  | refused {e : Err} {a' : State}
    (hsame : ∀ key ∈ [K.address, K.port, K.transport], a'.db.get key = a.db.get key) :
    Settles K mqttServerUrl a (some (.error e, a'))
  | stored {url scheme host port value : Str} {a' : State} (hurl : mqttServerUrl = some url)
    (hdenotes : Denotes url scheme host port) (hscheme : transportProtocol scheme = some value)
    (haddress : a'.db.get K.address = some host) (hport : a'.db.get K.port = some port)
    (hvalue : a'.db.get K.transport = some value) (hadmitted : validateMqttBrokerPort port = .ok ())
    (hsupported : validateMqttTransportProtocol value = .ok ()) :
    Settles K mqttServerUrl a (some (.ok (), a'))

section Denoted

variable {url scheme scheme' address host port port' text value : Str}

theorem transportProtocol_supported (h : transportProtocol scheme = some value) :
    validateMqttTransportProtocol value = .ok () := by
  unfold transportProtocol at h
  split_ifs at h <;> cases h <;> rfl

theorem scheme_colon (h : transportProtocol scheme = some value) : ':' ∉ scheme := by
  intro hin
  have hlower : ':' ∈ scheme.map Char.toLower := List.mem_map.mpr ⟨':', hin, by decide⟩
  unfold transportProtocol at h
  split_ifs at h with htcp hssl
  · rw [htcp] at hlower
    exact absurd hlower (by decide)
  · rw [hssl] at hlower
    exact absurd hlower (by decide)

/-- A scheme without a colon ends where the first `://` begins. -/
theorem first_of_scheme (h : ':' ∉ scheme) : ¬colonSlashes <:+: scheme ++ [':', '/'] := by
  rintro ⟨u, v, heq⟩
  have hlength := congrArg List.length heq
  simp only [colonSlashes, length_append, length_cons, length_nil] at hlength
  have hin : scheme[u.length]? = some ':' := by
    have hcolon : (scheme ++ [':', '/'])[u.length]? = some ':' := by
      rw [← heq, append_assoc, getElem?_append_right (Nat.le_refl _), Nat.sub_self]
      rfl
    rwa [getElem?_append_left (by omega)] at hcolon
  exact h (mem_of_getElem? hin)

theorem Denotes.cut (h : Denotes url scheme' host port') (hcut : Cut url scheme address port) :
    scheme' = scheme ∧ ∃ text, HostText text host ∧
      address ++ ':' :: port = text ++ ':' :: port' := by
  obtain ⟨text, htext, hurl⟩ := h.text
  have hown := splitAtText_append (first_of_scheme h.scheme) (by simp [colonSlashes])
    (text ++ ':' :: port')
  have hcode := splitAtText_append hcut.first (by simp [colonSlashes]) (address ++ ':' :: port)
  rw [← hurl, hcut.eq, hcode, Option.some.injEq, Prod.mk.injEq] at hown
  exact ⟨hown.1.symm, text, htext, hown.2⟩

theorem HostText.plain_of_eq (h : HostText text address)
    (heq : address ++ ':' :: port = text ++ ':' :: port') : PlainHost address := by
  cases h with
  | plain h => exact h
  | bracketed hne h =>
    obtain ⟨c, rest, rfl⟩ := exists_cons_of_ne_nil hne
    have hc : c = '[' := (List.cons.inj heq).1
    exact absurd (h c mem_cons_self) (by rw [hc]; decide)

theorem admitted_iff (h : IsPort port) :
    validateMqttBrokerPort port = .ok () ↔ 1 ≤ natValue port ∧ natValue port ≤ 65535 := by
  have hscan : scanNumeral port = ⟨false, port, []⟩ :=
    scanNumeral_of_splits
      (show Splits port [] [] port from ⟨rfl, by simp, .inl rfl, h.2⟩)
  have hminus : '-' ∉ port := fun hin => absurd (h.2 _ hin) (by decide)
  have hclean : unconverted port = [] := by rw [unconverted, hscan, if_neg h.1]
  rw [validateMqttBrokerPort, stringToUnsigned, hscan, if_neg (by simp [hminus, hclean])]
  by_cases hword : natValue port < 2 ^ 32
  · rw [if_pos hword]
    simp only [validateRangeUnsigned]
    split
    · simp only [reduceCtorEq, false_iff]
      omega
    · simp only [true_iff]
      omega
  · rw [if_neg hword]
    simp only [reduceCtorEq, false_iff]
    omega

end Denoted

/-! ## When a URL is settled -/

/-- A URL in three parts comes to a good end: the first write fails, a later step fails where
the values written before it were stored already, or everything is as it should be. -/
inductive Handled (W : World) (K : Keys) (a : State) (scheme address port : Str) : Prop where
  | first (hfirst : W.setFails a.calls = true)
  | second (hfirst : W.setFails a.calls = false) (hsecond : W.setFails (a.calls + 1) = true)
    (haddress : a.db.get K.address = some address)
  | third (hfirst : W.setFails a.calls = false) (hsecond : W.setFails (a.calls + 1) = false)
    (hthird : transportProtocol scheme = none ∨ W.setFails (a.calls + 2) = true)
    (haddress : a.db.get K.address = some address) (hport : a.db.get K.port = some port)
  | stored (hfirst : W.setFails a.calls = false) (hsecond : W.setFails (a.calls + 1) = false)
    (hthird : W.setFails (a.calls + 2) = false) (hscheme : transportProtocol scheme ≠ none)
    (hhost : PlainHost address) (hport : IsPort port) (hle : 1 ≤ natValue port)
    (hlt : natValue port ≤ 65535)

section Settled

variable {S : DmTree} {W : World} {K : Keys} {a a' : State} {e : Err} {mqttServerUrl : Option Str}
  {url scheme address port value : Str}

theorem refused_iff : Settles K mqttServerUrl a (some (.error e, a')) ↔
    a'.db.get K.address = a.db.get K.address ∧ a'.db.get K.port = a.db.get K.port ∧
      a'.db.get K.transport = a.db.get K.transport := by
  constructor
  · intro h
    cases h with
    | refused hsame => exact ⟨hsame _ (by simp), hsame _ (by simp), hsame _ (by simp)⟩
  · rintro ⟨haddress, hport, htransport⟩
    refine .refused fun key hkey => ?_
    simp only [mem_cons, not_mem_nil, or_false] at hkey
    rcases hkey with rfl | rfl | rfl
    · exact haddress
    · exact hport
    · exact htransport

/-- After the first write alone the parameters are as they were if the address was. -/
theorem refused_address (address : Str) (hS : ServerParams S K) (hfirst : W.setFails a.calls = false)
    (hdb : a'.db = (withAddress W K address a).db) :
    Settles K mqttServerUrl a (some (.error e, a')) ↔ a.db.get K.address = some address := by
  rw [refused_iff, hdb, written_get hfirst, written_other hS.addressPort.symm,
    written_other hS.addressTransport.symm]
  simp [eq_comm]

/-- After two writes both values must have been there before. -/
theorem refused_port (address port : Str) (hS : ServerParams S K) (hfirst : W.setFails a.calls = false)
    (hsecond : W.setFails (a.calls + 1) = false) (hdb : a'.db = (withPort W K address port a).db) :
    Settles K mqttServerUrl a (some (.error e, a')) ↔
      a.db.get K.address = some address ∧ a.db.get K.port = some port := by
  have hport : (withPort W K address port a).db.get K.port = some port := written_get hsecond
  rw [refused_iff, hdb, hport, written_other hS.addressPort, written_get hfirst,
    written_other hS.portTransport.symm, written_other hS.addressTransport.symm]
  simp [eq_comm]

/-- The values that three writes leave. -/
theorem stored_iff (hS : ServerParams S K) (h : Cut url scheme address port)
    (hfirst : W.setFails a.calls = false) (hsecond : W.setFails (a.calls + 1) = false)
    (hthird : W.setFails (a.calls + 2) = false) (hscheme : transportProtocol scheme = some value) :
    Settles K (some url) a
        (some (.ok (), written W K.transport value (withPort W K address port a))) ↔
      PlainHost address ∧ IsPort port ∧ 1 ≤ natValue port ∧ natValue port ≤ 65535 := by
  have hvalue : (written W K.transport value (withPort W K address port a)).db.get K.transport =
      some value := written_get hthird
  have hport : (written W K.transport value (withPort W K address port a)).db.get K.port =
      some port := by
    rw [written_other hS.portTransport]
    exact written_get hsecond
  have haddress : (written W K.transport value (withPort W K address port a)).db.get K.address =
      some address := by
    rw [written_other hS.addressTransport, written_other hS.addressPort, written_get hfirst]
  constructor
  · intro hsettles
    generalize hres : some (Except.ok (), written W K.transport value (withPort W K address port a))
      = res at hsettles
    cases hsettles with
    | refused => cases hres
    | stored hurl hdenotes hscheme' haddress' hport' hvalue' hadmitted =>
      cases hres
      cases hurl
      rw [haddress, Option.some.injEq] at haddress'
      rw [hport, Option.some.injEq] at hport'
      subst haddress' hport'
      obtain ⟨-, text, htext, heq⟩ := hdenotes.cut h
      exact ⟨htext.plain_of_eq heq, hdenotes.port, (admitted_iff hdenotes.port).mp hadmitted⟩
  · rintro ⟨hhost, hdigits, hrange⟩
    exact .stored rfl ⟨⟨address, .plain hhost, h.eq⟩, scheme_colon hscheme, hdigits⟩ hscheme haddress
      hport hvalue ((admitted_iff hdigits).mpr hrange) (transportProtocol_supported hscheme)

/-- A URL in three parts. -/
theorem settles_cut (hS : ServerParams S K) (h : Cut url scheme address port) :
    Settles K (some url) a (setDefaultServer S W (some url) a) ↔
      port.length < portSize ∧ Handled W K a scheme address port := by
  by_cases hroom : port.length < portSize
  swap
  · rw [run_overflow h hroom]
    simp only [hroom, false_and, iff_false]
    intro hsettles
    cases hsettles
  simp only [hroom, true_and]
  cases hfirst : W.setFails a.calls with
  | true =>
    rw [run_first hS h hroom hfirst, refused_iff, written_failed hfirst]
    simp only [and_self, true_iff]
    exact .first hfirst
  | false =>
    cases hsecond : W.setFails (a.calls + 1) with
    | true =>
      rw [run_second hS h hroom hfirst hsecond,
        refused_address address hS hfirst (written_failed hsecond)]
      constructor
      · exact .second hfirst hsecond
      · intro hhandled
        cases hhandled <;> simp_all
    | false =>
      cases hscheme : transportProtocol scheme with
      | none =>
        rw [run_scheme hS h hroom hfirst hsecond hscheme,
          refused_port address port hS hfirst hsecond rfl]
        constructor
        · rintro ⟨haddress, hport⟩
          exact .third hfirst hsecond (.inl hscheme) haddress hport
        · intro hhandled
          cases hhandled <;> simp_all
      | some value =>
        rw [run_third hS h hroom hfirst hsecond hscheme]
        cases hthird : W.setFails (a.calls + 2) with
        | true =>
          rw [if_pos rfl, refused_port address port hS hfirst hsecond
            (written_failed hthird)]
          constructor
          · rintro ⟨haddress, hport⟩
            exact .third hfirst hsecond (.inr hthird) haddress hport
          · intro hhandled
            cases hhandled <;> simp_all
        | false =>
          rw [if_neg Bool.false_ne_true, stored_iff hS h hfirst hsecond hthird hscheme]
          constructor
          · rintro ⟨hhost, hport, hle, hlt⟩
            exact .stored hfirst hsecond hthird (by simp [hscheme]) hhost hport hle hlt
          · intro hhandled
            cases hhandled <;> simp_all

end Settled

/-- A call settles every URL that is not in three parts, and the others as `Handled` says. -/
theorem setDefaultServer_settles_iff {S : DmTree} {K : Keys} (hS : ServerParams S K) (W : World)
    (mqttServerUrl : Option Str) (a : State) :
    Settles K mqttServerUrl a (setDefaultServer S W mqttServerUrl a) ↔
      ∀ url scheme address port, mqttServerUrl = some url → Cut url scheme address port →
        port.length < portSize ∧ Handled W K a scheme address port := by
  constructor
  · rintro hsettles url scheme address port rfl hcut
    exact (settles_cut hS hcut).mp hsettles
  · intro h
    cases mqttServerUrl with
    | none => exact refused_iff.mpr ⟨rfl, rfl, rfl⟩
    | some url =>
      cases hcut : cutUrl (some url) with
      | none =>
        rw [run_uncut hcut]
        exact refused_iff.mpr ⟨rfl, rfl, rfl⟩
      | some parts =>
        have hparts := cutUrl_eq_some.mp hcut
        exact (settles_cut hS hparts).mpr (h url _ _ _ rfl hparts)

/-- The table of MQTT clients with the three parameters. -/
def clientTable : List Registration :=
  [tableRegistration "Device.MQTT.Client.{i}",
    { path := "Device.MQTT.Client.{i}.BrokerAddress".toList, type := .dbParamReadWrite, flags := {} },
    { path := "Device.MQTT.Client.{i}.BrokerPort".toList, type := .dbParamReadWrite, flags := {} },
    { path := "Device.MQTT.Client.{i}.TransportProtocol".toList, type := .dbParamReadWrite,
      flags := {} }]

def clientSchema : DmTree := registerAll initialTree clientTable

/-- The rows of the first client. -/
def clientRows : Keys :=
  ⟨rowKey clientSchema 4 [(3, 1)], rowKey clientSchema 5 [(3, 1)], rowKey clientSchema 6 [(3, 1)]⟩

theorem clientSchema_params : ServerParams clientSchema clientRows where
  address := ⟨4, [(3, 1)], by decide +kernel, by decide +kernel, rfl, by decide +kernel,
    by decide +kernel⟩
  port := ⟨5, [(3, 1)], by decide +kernel, by decide +kernel, rfl, by decide +kernel,
    by decide +kernel⟩
  transport := ⟨6, [(3, 1)], by decide +kernel, by decide +kernel, rfl, by decide +kernel,
    by decide +kernel⟩
  addressPort := by decide +kernel
  addressTransport := by decide +kernel
  portTransport := by decide +kernel

theorem setDefaultServer_settles_plain :
    Settles clientRows (some "tcp://broker:1883".toList) initialState
      (setDefaultServer clientSchema quietWorld (some "tcp://broker:1883".toList) initialState) := by
  rw [setDefaultServer_settles_iff clientSchema_params]
  rintro url scheme address port ⟨⟩ hcut
  have hparts := cutUrl_eq_some.mpr hcut
  rw [show cutUrl (some "tcp://broker:1883".toList) =
    some ⟨"tcp".toList, "broker".toList, "1883".toList⟩ by decide] at hparts
  cases hparts
  refine ⟨by decide, .stored rfl rfl rfl (by decide) ⟨by decide, by decide, ?_⟩ ⟨by decide, ?_⟩
    (by decide) (by decide)⟩
  · simp [reserved]
  · simp

/-- A path behind the port does not fit the buffer, and a scheme that is not known is seen
after two writes. -/
theorem path_and_scheme_unsettled :
    ¬Settles clientRows (some "tcp://broker:1883/mqtt".toList) initialState
      (setDefaultServer clientSchema quietWorld (some "tcp://broker:1883/mqtt".toList)
        initialState) ∧
    ¬Settles clientRows (some "ws://broker:1883".toList) initialState
      (setDefaultServer clientSchema quietWorld (some "ws://broker:1883".toList) initialState) := by
  constructor
  · rw [show setDefaultServer clientSchema quietWorld (some "tcp://broker:1883/mqtt".toList)
      initialState = none from rfl]
    intro h
    cases h
  · have hcut : Cut "ws://broker:1883".toList "ws".toList "broker".toList "1883".toList :=
      cutUrl_eq_some.mp (by decide)
    rw [settles_cut clientSchema_params hcut]
    rintro ⟨-, hhandled⟩
    cases hhandled with
    | first hfirst => cases hfirst
    | second _ hsecond => cases hsecond
    | third _ _ _ haddress => cases haddress
    | stored _ _ _ hscheme => exact hscheme (by decide)

end MqttServer
