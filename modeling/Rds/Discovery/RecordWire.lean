import Rds.Discovery.Clock

/-!
# Signed endpoint records

The two mutations an endpoint signs: a record of where it can be reached, and a deletion
(`rds-discovery/src/record_wire.rs`). Both carry the signed payload as bytes, so what is
checked is what was signed. `EndpointRecord.verify` and `DeleteRequest.verify` are the only way
from the bytes to their content. The signature rule is that of every signed document
(`authority.rs`): a signature covers a domain string and the payload bytes.
-/

namespace Rds.Discovery

open Framework Postcard

namespace Authority

/-- `authority::sign`. -/
def sign (x : Crates) (domain payload : Bytes) (key : SigningKey) : Bytes :=
  (x.sign key (domain ++ payload)).val

/-- `authority::verify`. -/
def verify (x : Crates) (domain payload signature : Bytes) (key : EndpointKey) (limit : ℕ) :
    Except DiscoveryError Unit :=
  if payload.length > limit then throw (invalid "signed payload exceeds limit")
  else if h : signature.length = 64 then
    if x.verifyStrict key (domain ++ payload) ⟨signature, h⟩ then pure ()
    else throw .badSignature
  else throw (invalid "signature is not 64 bytes")

theorem verify_eq_ok {x : Crates} {domain payload signature : Bytes} {key : EndpointKey} {limit : ℕ} :
    verify x domain payload signature key limit = .ok () ↔ payload.length ≤ limit ∧
        ∃ h : signature.length = 64, x.verifyStrict key (domain ++ payload) ⟨signature, h⟩ = true := by
  unfold verify
  rw [ite_throw_eq_ok, Nat.not_lt]
  refine and_congr_right fun _ => ?_
  split
  · next h =>
    by_cases hv : x.verifyStrict key (domain ++ payload) ⟨signature, h⟩ = true
    · rw [if_pos hv]
      exact ⟨fun _ => ⟨h, hv⟩, fun _ => rfl⟩
    · rw [if_neg hv]
      exact ⟨fun h => absurd h (by simp [throw, throwThe, MonadExceptOf.throw]), fun ⟨_, h⟩ => absurd h hv⟩
  · next h =>
    exact ⟨fun h => absurd h (by simp [throw, throwThe, MonadExceptOf.throw]), fun ⟨h', _⟩ => absurd h' h⟩

end Authority

/-- `RECORD_VERSION`. -/
def recordVersion : UInt16 := 1

/-- `MAX_RECORD_TTL`. -/
def maxRecordTtl : UInt64 := 3600

/-- `DELETE_TTL`. -/
def deleteTtl : UInt64 := 300

/-- `MAX_RECORD_BYTES`. -/
def maxRecordBytes : ℕ := 8192

/-- `MAX_DIRECT_ADDRS`. -/
def maxDirectAddrs : ℕ := 32

/-- `MAX_RELAY_URLS`. -/
def maxRelayUrls : ℕ := 8

/-- `MAX_RELAY_URL_BYTES`. -/
def maxRelayUrlBytes : ℕ := 512

/-- `RECORD_DOMAIN`. -/
def recordDomain : Bytes := utf8 "rds/endpoint-record/v1" ++ [0]

/-- `DELETE_DOMAIN`. -/
def deleteDomain : Bytes := utf8 "rds/endpoint-delete/v1" ++ [0]

/-- `Service`. -/
inductive Service where
  | ping
  | info
  | tcpForward
  | desktop
  | audio
  | sync
  deriving DecidableEq

/-- `EndpointRecord`. -/
structure EndpointRecord where
  /-- Untrusted verification hint; the signed payload must contain this key. -/
  key : EndpointKey
  payload : Bytes
  signature : Bytes
  deriving DecidableEq

/-- `Payload`. -/
structure Payload where
  version : UInt16
  key : EndpointKey
  revision : UInt64
  addrs : List SocketAddr
  relayUrls : List Bytes
  services : List Service
  issuedAt : UInt64
  expiresAt : UInt64
  deriving DecidableEq

/-- `DeleteRequest`. -/
structure DeleteRequest where
  key : EndpointKey
  payload : Bytes
  signature : Bytes
  deriving DecidableEq

/-- `DeletePayload`. -/
structure DeletePayload where
  version : UInt16
  key : EndpointKey
  revision : UInt64
  issuedAt : UInt64
  expiresAt : UInt64
  deriving DecidableEq

/-! ### Formats -/

/-- What postcard keeps of a `SocketAddr`: the address and the port. -/
inductive WireAddr where
  | v4 (ip : { b : Bytes // b.length = 4 }) (port : UInt16)
  | v6 (ip : { b : Bytes // b.length = 16 }) (port : UInt16)

/-- The format of an address. -/
def wireAddrCodec : Codec WireAddr :=
  .enum
    [.mk _ ((Codec.fixed 4).pair .word16) (fun r => .v4 r.1 r.2)
        fun | .v4 ip port => some (ip, port) | _ => none,
      .mk _ ((Codec.fixed 16).pair .word16) (fun r => .v6 r.1 r.2)
        fun | .v6 ip port => some (ip, port) | _ => none]

/-- An address as it is written. -/
def SocketAddr.toWire : SocketAddr → WireAddr
  | .v4 ip port => .v4 ip port
  | .v6 ip port _ _ => .v6 ip port

/-- An address as it is read: without flow label and scope. -/
def WireAddr.toSocket : WireAddr → SocketAddr
  | .v4 ip port => .v4 ip port
  | .v6 ip port => .v6 ip port 0 0

/-- What is read of an address that was written. -/
def SocketAddr.wired (addr : SocketAddr) : SocketAddr := addr.toWire.toSocket

/-- `SocketAddr` in postcard. -/
def socketAddrCodec : Codec SocketAddr :=
  wireAddrCodec.view WireAddr.toSocket SocketAddr.toWire (fun addr => addr.wired = addr)
    fun _ h => h

/-- `String` in postcard. -/
def textCodec : Codec Bytes := .bytes Json.isUtf8

/-- `Service` in postcard. -/
def serviceCodec : Codec Service :=
  .enum
    [.mk _ .nothing (fun _ => .ping) fun | .ping => some () | _ => none,
      .mk _ .nothing (fun _ => .info) fun | .info => some () | _ => none,
      .mk _ .nothing (fun _ => .tcpForward) fun | .tcpForward => some () | _ => none,
      .mk _ .nothing (fun _ => .desktop) fun | .desktop => some () | _ => none,
      .mk _ .nothing (fun _ => .audio) fun | .audio => some () | _ => none,
      .mk _ .nothing (fun _ => .sync) fun | .sync => some () | _ => none]

/-- `Payload` in postcard. -/
def payloadCodec : Codec Payload :=
  (Codec.word16.pair (keyCodec.pair (Codec.word64.pair
      ((Codec.limited maxDirectAddrs socketAddrCodec).pair
        ((Codec.limited maxRelayUrls textCodec).pair
          ((Codec.limited 6 serviceCodec).pair (Codec.word64.pair .word64))))))).iso
    (fun r => ⟨r.1, r.2.1, r.2.2.1, r.2.2.2.1, r.2.2.2.2.1, r.2.2.2.2.2.1, r.2.2.2.2.2.2.1,
      r.2.2.2.2.2.2.2⟩)
    (fun p => (p.version, p.key, p.revision, p.addrs, p.relayUrls, p.services, p.issuedAt,
      p.expiresAt))
    fun _ => rfl

/-- `DeletePayload` in postcard. -/
def deletePayloadCodec : Codec DeletePayload :=
  (Codec.word16.pair (keyCodec.pair (Codec.word64.pair (Codec.word64.pair .word64)))).iso
    (fun r => ⟨r.1, r.2.1, r.2.2.1, r.2.2.2.1, r.2.2.2.2⟩)
    (fun p => (p.version, p.key, p.revision, p.issuedAt, p.expiresAt)) fun _ => rfl

/-- A signed mutation in postcard: its key, its payload and its signature. -/
def signedCodec (limit : ℕ) : Codec (EndpointKey × Bytes × Bytes) :=
  keyCodec.pair ((Codec.limited limit .byte).pair (Codec.limited 64 .byte))

/-- `EndpointRecord` in postcard. -/
def recordCodec : Codec EndpointRecord :=
  (signedCodec maxRecordBytes).iso (fun r => ⟨r.1, r.2.1, r.2.2⟩)
    (fun r => (r.key, r.payload, r.signature)) fun _ => rfl

/-- `DeleteRequest` in postcard. -/
def deleteCodec : Codec DeleteRequest :=
  (signedCodec 128).iso (fun r => ⟨r.1, r.2.1, r.2.2⟩)
    (fun r => (r.key, r.payload, r.signature)) fun _ => rfl

namespace RecordWire

/-- `record_wire::decode`. -/
def decode {α : Type} (codec : Codec α) (bytes : Bytes) : Except DiscoveryError α :=
  match codec.decode bytes with
  | none => throw (invalidFrom .postcard)
  | some (value, rest) =>
    if rest ≠ [] then throw (invalid "trailing signed record bytes") else pure value

/-- `payload_version`: the leading version of a payload. -/
def payloadVersion (bytes : Bytes) : Except DiscoveryError UInt16 :=
  match Codec.word16.decode bytes with
  | none => throw (invalidFrom .postcard)
  | some (version, _) => pure version

theorem decode_encode {α : Type} {codec : Codec α} {a : α} (ha : codec.Valid a) :
    decode codec (codec.encode a) = .ok a := by
  have hread := codec.decode_encode a [] ha
  rw [List.append_nil] at hread
  unfold decode
  rw [hread]
  exact if_neg (not_not.mpr rfl)

theorem payloadVersion_append (version : UInt16) (rest : Bytes) :
    payloadVersion (Codec.word16.encode version ++ rest) = .ok version := by
  unfold payloadVersion
  rw [Codec.word16.decode_encode version rest (Codec.valid_word16 version)]
  rfl

/-- `record_wire::metadata`: the checks both payloads share. -/
def metadata (version : UInt16) (revision issued expires ttl : UInt64) :
    Except DiscoveryError Unit :=
  if version ≠ recordVersion ∨ revision = 0 then
    throw (invalid "unsupported record version or zero revision")
  else if expires ≤ issued ∨ expires - issued > ttl then
    throw (invalid "invalid record validity interval")
  else pure ()

theorem metadata_eq_ok {version : UInt16} {revision issued expires ttl : UInt64} :
    metadata version revision issued expires ttl = .ok () ↔
      version = recordVersion ∧ revision ≠ 0 ∧ issued < expires ∧ expires - issued ≤ ttl := by
  unfold metadata
  rw [ite_throw_eq_ok, ite_throw_eq_ok, not_or, not_or, not_not, UInt64.not_le, UInt64.not_lt]
  exact ⟨fun ⟨⟨hv, hr⟩, ⟨hi, ht⟩, _⟩ => ⟨hv, hr, hi, ht⟩, fun ⟨hv, hr, hi, ht⟩ => ⟨⟨hv, hr⟩, ⟨hi, ht⟩, rfl⟩⟩

/-- The error of a payload of another version. -/
def unsupported (version : UInt16) : DiscoveryError :=
  invalid s!"unsupported record version {version}"

/-- The verification both mutations share: the signature before the payload is decoded, its
version before the rest of it, and its key against the one that verified it. -/
def verifyWith {α : Type} (x : Crates) (domain : Bytes) (limit : ℕ) (codec : Codec α)
    (keyOf : α → EndpointKey) (check : α → Except DiscoveryError Unit) (key : EndpointKey)
    (payload signature : Bytes) : Except DiscoveryError α :=
  if ¬ x.validKey key then throw .badSignature
  else do
    Authority.verify x domain payload signature key limit
    let version ← payloadVersion payload
    if version ≠ recordVersion then throw (unsupported version)
    else do
      let value ← decode codec payload
      if keyOf value ≠ key then throw .badSignature
      else do
        check value
        pure value

/-- **What a verified mutation is.** -/
theorem verifyWith_eq_ok {α : Type} {x : Crates} {domain : Bytes} {limit : ℕ} {codec : Codec α}
    {keyOf : α → EndpointKey} {check : α → Except DiscoveryError Unit} {key : EndpointKey}
    {payload signature : Bytes} {value : α} :
    verifyWith x domain limit codec keyOf check key payload signature = .ok value ↔
      x.validKey key = true ∧ Authority.verify x domain payload signature key limit = .ok () ∧
        payloadVersion payload = .ok recordVersion ∧ decode codec payload = .ok value ∧
        keyOf value = key ∧ check value = .ok () := by
  unfold verifyWith
  rw [ite_throw_eq_ok, not_not, check_bind_eq_ok]
  refine and_congr_right fun _ => and_congr_right fun _ => ?_
  rw [bind_eq_ok]
  constructor
  · rintro ⟨version, hversion, h⟩
    obtain ⟨heq, h⟩ := ite_throw_eq_ok.mp h
    rw [not_not] at heq
    obtain ⟨v, hdecode, h⟩ := bind_eq_ok.mp h
    obtain ⟨hkey, h⟩ := ite_throw_eq_ok.mp h
    obtain ⟨hvalid, h⟩ := check_bind_eq_ok.mp h
    cases h
    exact ⟨heq ▸ hversion, hdecode, not_not.mp hkey, hvalid⟩
  · rintro ⟨hversion, hdecode, hkey, hvalid⟩
    refine ⟨recordVersion, hversion, ite_throw_eq_ok.mpr ⟨not_not.mpr rfl, ?_⟩⟩
    refine bind_eq_ok.mpr ⟨value, hdecode, ite_throw_eq_ok.mpr ⟨not_not.mpr hkey, ?_⟩⟩
    exact check_bind_eq_ok.mpr ⟨hvalid, rfl⟩

end RecordWire

/-! ### Relay locators -/

/-- `OwnedRelayRoute`. -/
structure OwnedRelayRoute where
  key : EndpointKey
  addr : SocketAddr

/-- The value of a hexadecimal digit. -/
def hexValue (b : UInt8) : Option UInt8 :=
  if 48 ≤ b ∧ b ≤ 57 then some (b - 48)
  else if 97 ≤ b ∧ b ≤ 102 then some (b - 87)
  else if 65 ≤ b ∧ b ≤ 70 then some (b - 55)
  else none

/-- The bytes a string of hexadecimal digits stands for. -/
def hexBytes : Bytes → Option Bytes
  | [] => some []
  | [_] => none
  | hi :: lo :: rest =>
    (hexValue hi).bind fun hi => (hexValue lo).bind fun lo =>
      (hexBytes rest).map fun bytes => (hi * 16 + lo) :: bytes

/-- `OwnedRelayRoute::from_str`. -/
def OwnedRelayRoute.fromStr (x : Crates) (raw : Bytes) : Except DiscoveryError OwnedRelayRoute :=
  if raw.length > maxRelayUrlBytes then throw (invalid "owned relay locator exceeds limit")
  else
    match x.parseUrl raw with
    | none => throw (invalid "invalid owned relay locator")
    | some url =>
      if url.scheme ≠ utf8 "rds-relay" ∨ url.password.isSome ∨
          ¬ (url.path = [] ∨ url.path = utf8 "/") ∨ url.query.isSome ∨ url.fragment.isSome then
        throw (invalid "invalid owned relay locator fields")
      else if url.username.length ≠ 64 ∨ ¬ url.username.all fun b => (hexValue b).isSome then
        throw (invalid "owned relay requires a 32-byte hex identity")
      else
        match hexBytes url.username with
        | none => throw (invalid "invalid owned relay identity")
        | some bytes =>
          if h : bytes.length = 32 then
            if ¬ x.validKey ⟨bytes, h⟩ then throw (invalid "invalid owned relay identity")
            else do
              let ip ← match url.host with
                | none => throw (invalid "missing relay host")
                | some (.ipv4 ip) => pure (IpAddr.v4 ip)
                | some (.ipv6 ip) => pure (IpAddr.v6 ip)
                | some (.domain host) =>
                  match x.parseIp host with
                  | none => throw (invalid "owned relay requires an IP literal")
                  | some ip => pure ip
              match url.port with
              | none => throw (invalid "missing owned relay port")
              | some port =>
                if port = 0 ∨ ip.isUnspecified ∨ ip.isMulticast then
                  throw (invalid "invalid owned relay socket")
                else
                  pure ⟨⟨bytes, h⟩, match ip with
                    | .v4 ip => .v4 ip port
                    | .v6 ip => .v6 ip port 0 0⟩
          else throw (invalid "invalid owned relay identity")

/-! ### Payloads -/

namespace Payload

/-- The check of one direct address, given those before it. -/
def checkAddr (before : List SocketAddr) (addr : SocketAddr) : Except DiscoveryError Unit :=
  if addr.port = 0 ∨ addr.ip.isUnspecified ∨ addr.ip.isMulticast ∨ addr ∈ before then
    throw (invalid "invalid or repeated direct address")
  else pure ()

/-- The check of one relay URL, given those before it. -/
def checkRelayUrl (x : Crates) (before : List Bytes) (raw : Bytes) : Except DiscoveryError Unit :=
  if raw.length > maxRelayUrlBytes ∨ raw ∈ before then
    throw (invalid "oversized or repeated relay URL")
  else
    match x.parseUrl raw with
    | none => throw (invalid "invalid relay URL")
    | some url =>
      if url.scheme = utf8 "rds-relay" then do
        let _ ← OwnedRelayRoute.fromStr x raw
        pure ()
      else if ¬ (url.scheme = utf8 "http" ∨ url.scheme = utf8 "https") ∨ url.host.isNone ∨
          url.username ≠ [] ∨ url.password.isSome ∨ url.path ≠ utf8 "/" ∨ url.query.isSome ∨
          url.fragment.isSome ∨ url.portOrKnownDefault = some 0 then
        throw (invalid "relay must be an HTTP(S) origin without credentials")
      else pure ()

/-- The check of one service, given those before it. -/
def checkService (before : List Service) (service : Service) : Except DiscoveryError Unit :=
  if service ∈ before then throw (invalid "repeated service") else pure ()

/-- Check the elements of a list in turn, each against those before it. -/
def checkEach {α : Type} (check : List α → α → Except DiscoveryError Unit) :
    List α → List α → Except DiscoveryError Unit
  | _, [] => pure ()
  | before, a :: l => do
    check before a
    checkEach check (before ++ [a]) l

/-- `Payload::validate`. -/
def validate (x : Crates) (self : Payload) : Except DiscoveryError Unit := do
  RecordWire.metadata self.version self.revision self.issuedAt self.expiresAt maxRecordTtl
  if self.addrs.length > maxDirectAddrs ∨ self.relayUrls.length > maxRelayUrls ∨
      self.services.length > 6 then
    throw (invalid "record collection exceeds limit")
  else do
    checkEach checkAddr [] self.addrs
    checkEach (checkRelayUrl x) [] self.relayUrls
    checkEach checkService [] self.services

end Payload

/-! ### Records and deletions -/

namespace EndpointRecord

/-- `EndpointRecord::verify`. -/
def verify (x : Crates) (self : EndpointRecord) : Except DiscoveryError Payload :=
  RecordWire.verifyWith x recordDomain maxRecordBytes payloadCodec Payload.key
    (fun payload => payload.validate x) self.key self.payload self.signature

theorem metadata_of_verify {x : Crates} {self : EndpointRecord} {payload : Payload}
    (h : self.verify x = .ok payload) :
    RecordWire.metadata payload.version payload.revision payload.issuedAt payload.expiresAt
      maxRecordTtl = .ok () := by
  obtain ⟨-, -, -, -, -, hvalid⟩ := RecordWire.verifyWith_eq_ok.mp h
  exact (check_bind_eq_ok.mp hvalid).1

end EndpointRecord

namespace DeleteRequest

/-- `DeleteRequest::sign`. -/
def sign (x : Crates) (payload : DeletePayload) (key : SigningKey) :
    Except DiscoveryError DeleteRequest := do
  RecordWire.metadata payload.version payload.revision payload.issuedAt payload.expiresAt deleteTtl
  if payload.key ≠ x.verifyingKey key then throw .badSignature
  else
    let bytes := deletePayloadCodec.encode payload
    pure
      { key := payload.key, signature := Authority.sign x deleteDomain bytes key, payload := bytes }

/-- `DeleteRequest::verify`. -/
def verify (x : Crates) (self : DeleteRequest) : Except DiscoveryError DeletePayload :=
  RecordWire.verifyWith x deleteDomain 128 deletePayloadCodec DeletePayload.key
    (fun payload =>
      RecordWire.metadata payload.version payload.revision payload.issuedAt payload.expiresAt
        deleteTtl)
    self.key self.payload self.signature

theorem length_deletePayloadCodec_le (p : DeletePayload) :
    (deletePayloadCodec.encode p).length ≤ 128 := by
  have hversion : (Codec.word16.encode p.version).length ≤ 3 := length_varintLoop_le _ _
  have hword : ∀ w : UInt64, (Codec.word64.encode w).length ≤ 10 := fun w => length_varintLoop_le _ _
  have hkey := p.key.property
  have h1 := hword p.revision
  have h2 := hword p.issuedAt
  have h3 := hword p.expiresAt
  show (Codec.word16.encode p.version ++ (p.key.val ++ (Codec.word64.encode p.revision ++
    (Codec.word64.encode p.issuedAt ++ Codec.word64.encode p.expiresAt)))).length ≤ 128
  simp only [List.length_append]
  omega

/-- **A deletion that was signed verifies**, as the payload that was signed. -/
theorem verify_of_sign {x : Crates} {p : DeletePayload} {key : SigningKey} (hx : x.Signs key)
    {t : DeleteRequest} (h : sign x p key = .ok t) : t.verify x = .ok p := by
  obtain ⟨hmeta, h⟩ := check_bind_eq_ok.mp h
  obtain ⟨hkey, h⟩ := ite_throw_eq_ok.mp h
  rw [not_not] at hkey
  cases h
  obtain ⟨hversion, -⟩ := RecordWire.metadata_eq_ok.mp hmeta
  refine RecordWire.verifyWith_eq_ok.mpr ⟨?_, ?_, ?_, ?_, rfl, hmeta⟩
  · rw [hkey]
    exact hx.validKey
  · refine Authority.verify_eq_ok.mpr ⟨length_deletePayloadCodec_le p, ?_⟩
    refine ⟨(x.sign key (deleteDomain ++ deletePayloadCodec.encode p)).property, ?_⟩
    rw [hkey]
    exact hx.verifyStrict _
  · rw [← hversion]
    exact RecordWire.payloadVersion_append p.version _
  · refine RecordWire.decode_encode (a := p) ?_
    exact ⟨Codec.valid_word16 _, True.intro, Codec.valid_word64 _, Codec.valid_word64 _, Codec.valid_word64 _⟩

end DeleteRequest

end Rds.Discovery
