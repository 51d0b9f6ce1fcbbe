import Rds.Agent.Grant
import Rds.Discovery.RecordWire
import Rds.Framework.Postcard

/-!
# Verifying a grant

`Grant::verify` (`rds-core/src/grant.rs`) decodes the payload, of the current version or the one before,
checks its bounds, that the issuer is trusted and has signed the payload in the domain of its version, and
that subject, audience, interval and lifetime fit. `authorize` (`rds-agent/src/authz.rs`) then compares the
claims with the tenant and the policy revision that the agent is pinned to. `trusted_of_admitted` is what an
admitted grant satisfies.
-/

namespace Rds.Agent

open Framework Postcard Discovery

/-- `GRANT_VERSION`. -/
def grantVersion : UInt16 := 3

/-- `GRANT_VERSION_MIN`. -/
def grantVersionMin : UInt16 := 2

/-- `MAX_PAYLOAD_LEN`. -/
def maxPayloadLen : ℕ := 4096

/-- `MAX_SERVICES`. -/
def maxServices : ℕ := 32

/-- `MAX_TCP_PORTS`. -/
def maxTcpPorts : ℕ := 128

/-- `MAX_DISPLAYS`. -/
def maxDisplays : ℕ := 32

/-- `MAX_TENANT_LEN`. -/
def maxTenantLen : ℕ := 64

/-- `MAX_SYNC_PATHS`. -/
def maxSyncPaths : ℕ := 64

/-- `DOMAIN_V2`. -/
def domainV2 : Bytes := utf8 "rds/capability-grant/v2\x00"

/-- `DOMAIN_V3`. -/
def domainV3 : Bytes := utf8 "rds/capability-grant/v3\x00"

/-- `ID_DOMAIN`. -/
def idDomain : Bytes := utf8 "rds/grant-session/v2\x00"

/-- `Grant`. -/
structure Grant where
  payload : Bytes
  signature : Bytes

/-! ### Formats -/

/-- `ServiceKind` in postcard. -/
def serviceKindCodec : Codec ServiceKind :=
  .enum
    [.mk _ .nothing (fun _ => .ping) fun | .ping => some () | _ => none,
      .mk _ .nothing (fun _ => .info) fun | .info => some () | _ => none,
      .mk _ .nothing (fun _ => .tcp) fun | .tcp => some () | _ => none,
      .mk _ .nothing (fun _ => .desktop) fun | .desktop => some () | _ => none,
      .mk _ .nothing (fun _ => .sync) fun | .sync => some () | _ => none,
      .mk _ .nothing (fun _ => .audio) fun | .audio => some () | _ => none,
      .mk _ .nothing (fun _ => .syncRead) fun | .syncRead => some () | _ => none,
      .mk _ .nothing (fun _ => .syncWrite) fun | .syncWrite => some () | _ => none,
      .mk _ .nothing (fun _ => .desktopView) fun | .desktopView => some () | _ => none,
      .mk _ .nothing (fun _ => .desktopControl) fun | .desktopControl => some () | _ => none]

/-- The first nine fields, the same in both versions. -/
abbrev GrantHead :=
  UInt16 × UInt64 × EndpointKey × EndpointKey × EndpointKey × Id16 × List ServiceKind × UInt64 × UInt64

/-- The format of the head. -/
def grantHeadCodec : Codec GrantHead :=
  Codec.word16.pair (Codec.word64.pair (keyCodec.pair (keyCodec.pair (keyCodec.pair
    ((Codec.fixed 16).pair (serviceKindCodec.list.pair (Codec.word64.pair .word64)))))))

/-- `GrantConstraintsV2`. -/
abbrev ConstraintsV2 := Option UInt64 × Option (List UInt16) × Option (List UInt32)

/-- The format of the constraints of version 2. -/
def constraintsV2Codec : Codec ConstraintsV2 :=
  Codec.word64.option.pair (Codec.word16.list.option.pair Codec.word32.list.option)

/-- A payload from its head and the rest. -/
def GrantPayload.ofHead (head : GrantHead) (constraints : GrantConstraints) (tenant : Option Bytes)
    (policyRevision : Option UInt64) : GrantPayload :=
  let (version, revision, issuer, subject, audience, nonce, services, notBefore, expiresAt) := head
  { version, revision, issuer, subject, audience, nonce, services, notBefore, expiresAt, constraints,
    tenant, policyRevision }

/-- `GrantPayloadV2`, and what `From` makes of it: the claims are absent. -/
def takeV2 (input : Bytes) : Option (GrantPayload × Bytes) :=
  ((grantHeadCodec.pair constraintsV2Codec).decode input).map fun ((head, bps, ports, displays), rest) =>
    (.ofHead head ⟨bps, ports, displays, none⟩ none none, rest)

/-- `GrantPayload` in postcard. -/
def takeV3 (input : Bytes) : Option (GrantPayload × Bytes) :=
  ((grantHeadCodec.pair (constraintsV2Codec.pair (textCodec.list.option.pair
      (textCodec.option.pair Codec.word64.option)))).decode input).map
    fun ((head, (bps, ports, displays), paths, tenant, policyRevision), rest) =>
      (.ofHead head ⟨bps, ports, displays, paths⟩ tenant policyRevision, rest)

/-! ### Verification -/

/-- What other crates say about an error. -/
structure Texts where
  /-- `postcard::Error`. -/
  postcard : Bytes → List Piece
  /-- The error of `VerifyingKey::from_bytes`. -/
  key : EndpointKey → List Piece

/-- The end of a payload: nothing follows it. -/
def complete (texts : Texts) (input : Bytes) :
    Option (GrantPayload × Bytes) → Except GrantError GrantPayload
  | none => throw (.malformed (texts.postcard input))
  | some (payload, trailing) =>
    if trailing ≠ [] then throw (.malformed [.text "trailing grant bytes"]) else pure payload

/-- The part of `Grant::decode` that depends on the version. -/
def decodeVersion (texts : Texts) (input : Bytes) : Except GrantError GrantPayload :=
  match Codec.word16.decode input with
  | none => throw (.malformed (texts.postcard input))
  | some (version, _) =>
    if version = grantVersionMin then complete texts input (takeV2 input)
    else if version = grantVersion then complete texts input (takeV3 input)
    else throw .version

/-- A tenant that `Grant::decode` refuses. -/
def badTenant (tenant : Bytes) : Bool := tenant.isEmpty || tenant.any fun b => b < 0x21 || b = 0x7f

/-- The bounds of `Grant::decode`. -/
def checkBounds (payload : GrantPayload) : Except GrantError Unit :=
  if payload.revision = 0 then throw .invalidRevision
  else if payload.expiresAt ≤ payload.notBefore then throw .invalidInterval
  else if payload.services.length > maxServices ∨
      (payload.constraints.tcpPorts.any fun p => p.length > maxTcpPorts) ∨
      (payload.constraints.displays.any fun d => d.length > maxDisplays) ∨
      (payload.constraints.syncPaths.any fun s => s.length > maxSyncPaths) ∨
      (payload.tenant.any fun t => t.length > maxTenantLen) then throw .oversized
  else if payload.tenant.any badTenant then
    throw (.malformed [.text "tenant contains control or whitespace bytes"])
  else (payload.constraints.syncPaths.getD []).forM checkScopePath

/-- `signature_message`. -/
def signatureMessage (version : UInt16) (payload : Bytes) : Bytes :=
  (if version = grantVersionMin then domainV2 else domainV3) ++ payload

/-- `GrantPayload::id`. -/
def GrantPayload.id (x : Crates) (self : GrantPayload) : GrantId :=
  x.blake3 (idDomain ++ self.issuer.val ++ self.subject.val ++ self.audience.val ++ self.nonce.val)

namespace Grant

/-- `Grant::decode`. -/
def decode (texts : Texts) (self : Grant) : Except GrantError GrantPayload :=
  if self.payload.length > maxPayloadLen then throw .oversized
  else do
    let payload ← decodeVersion texts self.payload
    checkBounds payload
    pure payload

/-- The signature of a grant, by the key in its payload. -/
def checkSignature (x : Crates) (texts : Texts) (self : Grant) (payload : GrantPayload) :
    Except GrantError Unit :=
  if !x.validKey payload.issuer then throw (.malformed (texts.key payload.issuer))
  else if h : self.signature.length = 64 then
    if !x.verifyStrict payload.issuer (signatureMessage payload.version self.payload)
        ⟨self.signature, h⟩ then throw .badSignature
    else pure ()
  else throw (.malformed [.text "signature is not 64 bytes"])

/-- The checks of `Grant::verify` after the signature. -/
def checkClaims (payload : GrantPayload) (subject audience : EndpointKey) (maxTtl : Duration) (now : UInt64) :
    Except GrantError Unit :=
  if payload.subject ≠ subject then throw .wrongSubject
  else if payload.audience ≠ audience then throw .wrongAudience
  else if saturatingAdd now skewSecs < payload.notBefore then throw .notYetValid
  else if now ≥ payload.expiresAt then throw .expired
  else if payload.expiresAt.toNat - payload.notBefore.toNat > maxTtl.asSecs.toNat then
    throw (.ttlExceeded (payload.expiresAt.toNat - payload.notBefore.toNat))
  else pure ()

/-- `Grant::verify`. -/
def verify (x : Crates) (texts : Texts) (self : Grant) (issuers : Finset EndpointKey)
    (subject audience : EndpointKey) (maxTtl : Duration) (now : UInt64) :
    Except GrantError VerifiedGrant := do
  let payload ← self.decode texts
  if payload.issuer ∉ issuers then throw .untrustedIssuer
  else do
    self.checkSignature x texts payload
    checkClaims payload subject audience maxTtl now
    pure ⟨payload, payload.id x⟩

end Grant

/-- What `authorize` reads of the `AgentPolicy`. -/
structure AuthorizePolicy where
  issuers : Finset EndpointKey
  grantMaxTtl : Duration
  tenant : Option Bytes
  minPolicyRevision : Option UInt64

/-- The grant `authorize` goes on with: verified, and with the pinned claims. -/
def admitted (x : Crates) (texts : Texts) (policy : AuthorizePolicy) (remote audience : EndpointKey)
    (grant : Grant) (now : UInt64) : Except GrantError VerifiedGrant := do
  let verified ← grant.verify x texts policy.issuers remote audience policy.grantMaxTtl now
  if policy.tenant.any fun tenant => verified.payload.tenant ≠ some tenant then throw .tenantMismatch
  else if policy.minPolicyRevision.any fun floor => verified.payload.policyRevision.all (· < floor) then
    throw .policyRevisionStale
  else pure verified

/-- A trusted issuer signed the grant for this peer and this device, and it has the pinned tenant and a
policy revision that is not below the floor. -/
structure Trusted (x : Crates) (texts : Texts) (policy : AuthorizePolicy) (remote audience : EndpointKey)
    (verified : VerifiedGrant) : Prop where
  issuer : verified.payload.issuer ∈ policy.issuers
  signed : ∃ (bytes : Bytes) (signature : Signature), decodeVersion texts bytes = .ok verified.payload ∧
    x.verifyStrict verified.payload.issuer (signatureMessage verified.payload.version bytes) signature = true
  subject : verified.payload.subject = remote
  audience : verified.payload.audience = audience
  id : verified.id = verified.payload.id x
  tenant : ∀ tenant, policy.tenant = some tenant → verified.payload.tenant = some tenant
  policyRevision : ∀ floor, policy.minPolicyRevision = some floor →
    ∃ revision, verified.payload.policyRevision = some revision ∧ floor ≤ revision

variable {x : Crates} {texts : Texts} {policy : AuthorizePolicy} {remote audience : EndpointKey}
  {grant : Grant} {payload : GrantPayload} {verified : VerifiedGrant} {now : UInt64}

theorem decode_eq_ok (h : grant.decode texts = .ok payload) :
    decodeVersion texts grant.payload = .ok payload := by
  obtain ⟨-, h⟩ := ite_throw_eq_ok.mp h
  obtain ⟨decoded, hdecoded, h⟩ := bind_eq_ok.mp h
  obtain ⟨-, h⟩ := check_bind_eq_ok.mp h
  cases h
  exact hdecoded

theorem checkSignature_eq_ok (h : grant.checkSignature x texts payload = .ok ()) :
    ∃ signature : Signature,
      x.verifyStrict payload.issuer (signatureMessage payload.version grant.payload) signature = true := by
  obtain ⟨-, h⟩ := ite_throw_eq_ok.mp h
  split at h
  · next hlen =>
    obtain ⟨hverify, -⟩ := ite_throw_eq_ok.mp h
    exact ⟨⟨grant.signature, hlen⟩, by simpa using hverify⟩
  · cases h

theorem checkClaims_eq_ok {maxTtl : Duration}
    (h : Grant.checkClaims payload remote audience maxTtl now = .ok ()) :
    payload.subject = remote ∧ payload.audience = audience := by
  obtain ⟨hsubject, h⟩ := ite_throw_eq_ok.mp h
  obtain ⟨haudience, -⟩ := ite_throw_eq_ok.mp h
  exact ⟨not_not.mp hsubject, not_not.mp haudience⟩

/-- **What an admitted grant satisfies.** -/
theorem trusted_of_admitted (h : admitted x texts policy remote audience grant now = .ok verified) :
    Trusted x texts policy remote audience verified := by
  obtain ⟨checked, hverify, h⟩ := bind_eq_ok.mp h
  obtain ⟨htenant, h⟩ := ite_throw_eq_ok.mp h
  obtain ⟨hfloor, h⟩ := ite_throw_eq_ok.mp h
  cases h
  obtain ⟨payload, hdecode, hverify⟩ := bind_eq_ok.mp hverify
  obtain ⟨hissuer, hverify⟩ := ite_throw_eq_ok.mp hverify
  obtain ⟨hsigned, hverify⟩ := check_bind_eq_ok.mp hverify
  obtain ⟨hclaims, hverify⟩ := check_bind_eq_ok.mp hverify
  cases hverify
  obtain ⟨signature, hsignature⟩ := checkSignature_eq_ok hsigned
  obtain ⟨hsubject, haudience⟩ := checkClaims_eq_ok hclaims
  refine ⟨not_not.mp hissuer, ⟨grant.payload, signature, decode_eq_ok hdecode, hsignature⟩, hsubject,
    haudience, rfl, ?_, ?_⟩
  · intro tenant hpinned
    simpa [hpinned] using htenant
  intro floor hpinned
  cases hrevision : payload.policyRevision with
  | none => simp [hpinned, hrevision] at hfloor
  | some revision => exact ⟨revision, rfl, by simpa [hpinned, hrevision] using hfloor⟩

end Rds.Agent
