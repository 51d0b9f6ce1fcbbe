import Rds.Framework.Fallible
import Rds.Framework.JsonCodec
import Rds.Framework.OrderedMap

/-!
# Identities, errors and libraries of `rds-discovery`

The identity of an endpoint is its Ed25519 verifying key (`rds-discovery/src/lib.rs`). The
functions of other crates are collected in `Crates`: signatures, BLAKE3, URL parsing and the
JSON parser. Nothing is assumed of them here; a result that depends on what one of them does
states it as a hypothesis.
-/

namespace Rds.Discovery

open Framework Postcard

/-- `EndpointKey`: the raw Ed25519 verifying key. -/
abbrev EndpointKey := { b : Bytes // b.length = 32 }

/-- A BLAKE3 digest. -/
abbrev Digest := { b : Bytes // b.length = 32 }

/-- A random or system identifier of sixteen bytes. -/
abbrev Id16 := { b : Bytes // b.length = 16 }

/-- The bytes of an Ed25519 signature. -/
abbrev Signature := { b : Bytes // b.length = 64 }

/-- An Ed25519 secret key. -/
abbrev SigningKey := { b : Bytes // b.length = 32 }

/-! ### Errors -/

/-- The source of an error text that is not the repository's own. -/
inductive Crate where
  | postcard
  | json
  | redb
  | ed25519
  | system
  deriving DecidableEq

/-- The text of an error: the repository's own, or what another crate shows. -/
inductive Message where
  | text (s : String)
  | foreign (crate : Crate)
  deriving DecidableEq

/-- `DiscoveryError`. -/
inductive DiscoveryError where
  | busy
  | configuration (message : Message)
  | badSignature
  | invalidRecord (message : Message)
  | expired
  | stale
  | notFound
  | unreachable (message : Message)
  | http (status : UInt16) (message : Message)
  | rateLimited
  | notEnrolled
  | store (message : Message)
  | storageUnavailable
  deriving DecidableEq

/-- The error comes from the storage of a store, or from what it keeps there. -/
def DiscoveryError.IsStore : DiscoveryError → Prop
  | .store _ => True
  | .storageUnavailable => True
  | _ => False

/-- `authority::invalid`. -/
def invalid (message : String) : DiscoveryError := .invalidRecord (.text message)

/-- An error text of another crate in a malformed record. -/
def invalidFrom (crate : Crate) : DiscoveryError := .invalidRecord (.foreign crate)

/-- `records::error` and `persist::store` of a text. -/
def storeError (message : String) : DiscoveryError := .store (.text message)

/-- `records::error` and `persist::store` of another crate's error. -/
def storeErrorFrom (crate : Crate) : DiscoveryError := .store (.foreign crate)

/-- Identities of 32 bytes are the keys of ordered maps. -/
instance instTransOrdIdentity : Std.TransOrd { a : Bytes // a.length = 32 } := inferInstance

/-! ### Addresses -/

/-- `std::net::IpAddr`. -/
inductive IpAddr where
  | v4 (octets : { b : Bytes // b.length = 4 })
  | v6 (octets : { b : Bytes // b.length = 16 })
  deriving DecidableEq

namespace IpAddr

/-- `IpAddr::is_unspecified`. -/
def isUnspecified : IpAddr → Bool
  | .v4 octets => octets.val.all (· == 0)
  | .v6 octets => octets.val.all (· == 0)

/-- `IpAddr::is_multicast`: `224.0.0.0/4` and `ff00::/8`. -/
def isMulticast : IpAddr → Bool
  | .v4 octets => octets.val.head?.any fun b => 224 ≤ b && b ≤ 239
  | .v6 octets => octets.val.head?.any (· == 255)

end IpAddr

/-- `std::net::SocketAddr`. An IPv6 address carries a flow label and a scope. -/
inductive SocketAddr where
  | v4 (ip : { b : Bytes // b.length = 4 }) (port : UInt16)
  | v6 (ip : { b : Bytes // b.length = 16 }) (port : UInt16) (flowinfo scopeId : UInt32)
  deriving DecidableEq

namespace SocketAddr

/-- `SocketAddr::ip`. -/
def ip : SocketAddr → IpAddr
  | .v4 ip _ => .v4 ip
  | .v6 ip _ _ _ => .v6 ip

/-- `SocketAddr::port`. -/
def port : SocketAddr → UInt16
  | .v4 _ port => port
  | .v6 _ port _ _ => port

end SocketAddr

/-- `url::Host`. -/
inductive Host where
  | domain (name : Bytes)
  | ipv4 (octets : { b : Bytes // b.length = 4 })
  | ipv6 (octets : { b : Bytes // b.length = 16 })

/-- What the `url` crate answers about a parsed URL. -/
structure Url where
  scheme : Bytes
  username : Bytes
  password : Option Bytes
  host : Option Host
  port : Option UInt16
  portOrKnownDefault : Option UInt16
  path : Bytes
  query : Option Bytes
  fragment : Option Bytes

/-! ### Libraries -/

/-- The functions of other crates, and the address parser of the standard library. -/
structure Crates where
  /-- `VerifyingKey::from_bytes` succeeds. -/
  validKey : EndpointKey → Bool
  /-- `VerifyingKey::verify_strict`. -/
  verifyStrict : EndpointKey → Bytes → Signature → Bool
  /-- `SigningKey::verifying_key`. -/
  verifyingKey : SigningKey → EndpointKey
  /-- `SigningKey::sign`. -/
  sign : SigningKey → Bytes → Signature
  /-- `blake3::hash`. -/
  blake3 : Bytes → Digest
  /-- `url::Url::parse`. -/
  parseUrl : Bytes → Option Url
  /-- `str::parse::<IpAddr>`. -/
  parseIp : Bytes → Option IpAddr
  /-- The reader of `serde_json`. -/
  parseJson : Bytes → Option Json

/-- **The contract of Ed25519**: a key pair's verifying key is valid and accepts the pair's
own signatures. -/
structure Crates.Signs (x : Crates) (key : SigningKey) : Prop where
  validKey : x.validKey (x.verifyingKey key) = true
  verifyStrict : ∀ msg, x.verifyStrict (x.verifyingKey key) msg (x.sign key msg) = true

/-- `EndpointKey` and digests in postcard. -/
def keyCodec : Codec EndpointKey := .fixed 32

/-- `EndpointKey` and digests in JSON. -/
def keyJson : JsonCodec EndpointKey := .fixed 32

end Rds.Discovery
