import Rds.Agent.Revocations
import Rds.Agent.SyncScope

/-!
# Verified grants

What an agent keeps of a grant whose signature it has checked (`rds-core/src/grant.rs`), and the relation
between a grant and its renewal: same session and scope, a later revision, a later end.
-/

namespace Rds.Agent

open Framework Discovery

/-- `SKEW_SECS`. -/
def skewSecs : UInt64 := 30

/-- `ServiceKind`. -/
inductive ServiceKind where
  | ping
  | info
  | tcp
  | desktop
  | sync
  | audio
  | syncRead
  | syncWrite
  | desktopView
  | desktopControl
  deriving DecidableEq

/-- `GrantConstraints`. -/
structure GrantConstraints where
  maxBps : Option UInt64
  tcpPorts : Option (List UInt16)
  displays : Option (List UInt32)
  syncPaths : Option (List Bytes)
  deriving DecidableEq

/-- `GrantPayload`. -/
structure GrantPayload where
  version : UInt16
  revision : UInt64
  issuer : EndpointKey
  subject : EndpointKey
  audience : EndpointKey
  nonce : Id16
  services : List ServiceKind
  notBefore : UInt64
  expiresAt : UInt64
  constraints : GrantConstraints
  tenant : Option Bytes
  policyRevision : Option UInt64
  deriving DecidableEq

/-- `VerifiedGrant`. -/
structure VerifiedGrant where
  payload : GrantPayload
  id : GrantId
  deriving DecidableEq

/-- `u64::saturating_add`. -/
def saturatingAdd (a b : UInt64) : UInt64 :=
  if a.toNat + b.toNat < 2 ^ 64 then a + b else UInt64.ofNat (2 ^ 64 - 1)

namespace VerifiedGrant

/-- `VerifiedGrant::permits_renewal`. -/
def permitsRenewal (self next : VerifiedGrant) : Except GrantError Bool :=
  if self.payload = next.payload then pure false
  else if self.id ≠ next.id ∨ self.payload.services ≠ next.payload.services ∨
      self.payload.constraints ≠ next.payload.constraints ∨
      self.payload.tenant ≠ next.payload.tenant ∨
      self.payload.policyRevision ≠ next.payload.policyRevision ∨
      next.payload.revision ≤ self.payload.revision ∨
      next.payload.notBefore < self.payload.notBefore ∨
      next.payload.expiresAt ≤ self.payload.expiresAt then throw .invalidRenewal
  else pure true

/-- `VerifiedGrant::live_at`. -/
def liveAt (self : VerifiedGrant) (now : UInt64) : Bool :=
  saturatingAdd now skewSecs ≥ self.payload.notBefore && now < self.payload.expiresAt

end VerifiedGrant

end Rds.Agent
