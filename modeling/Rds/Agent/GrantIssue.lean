import Rds.Agent.GrantVerify

/-!
# Issuing a grant

`Grant::issue_at` (`rds-core/src/grant.rs`) signs the bytes of a payload in the domain of the payload's
version. The verifier has only bytes: it peeks the version, and the version selects the layout and the
domain. `grant_issue_verify` puts the two together.

The peeked version is the one in the decoded payload (`version_of_takeV2`, `version_of_takeV3`), and the two
domains differ and have one length. So a signed message determines the version and the bytes
(`signatureMessage_inj`), and a signature that a key made over one version's bytes is none over the other's.
That signatures cannot be forged is assumed of single ones (`Unforged`): no scheme with signatures of fixed
length has it for all messages at once. The preimage of an id consists of pieces of fixed length, hence
determines them (`idMessage_inj`).
-/

namespace Rds.Agent

open Framework Postcard Discovery List

/-! ### Issuing -/

/-- The head of a payload. -/
def GrantPayload.head (self : GrantPayload) : GrantHead :=
  (self.version, self.revision, self.issuer, self.subject, self.audience, self.nonce, self.services,
    self.notBefore, self.expiresAt)

/-- `postcard::to_stdvec` of a payload, whatever its version. -/
def GrantPayload.encode (self : GrantPayload) : Bytes :=
  (grantHeadCodec.pair (constraintsV2Codec.pair (textCodec.list.option.pair
      (textCodec.option.pair Codec.word64.option)))).encode
    (self.head, (self.constraints.maxBps, self.constraints.tcpPorts, self.constraints.displays),
      self.constraints.syncPaths, self.tenant, self.policyRevision)

/-- `Grant::issue_at`. -/
def Grant.issueAt (x : Crates) (issuer : SigningKey) (payload : GrantPayload) : Grant where
  payload := payload.encode
  signature := (x.sign issuer (signatureMessage payload.version payload.encode)).val

/-- The texts of a payload are `String`s. -/
structure GrantPayload.Strings (payload : GrantPayload) : Prop where
  tenant : ∀ tenant, payload.tenant = some tenant → Json.isUtf8 tenant = true
  syncPaths : ∀ paths, payload.constraints.syncPaths = some paths → ∀ path ∈ paths, Json.isUtf8 path = true

/-! ### The bounds of a payload -/

section Bounds

variable {payload : GrantPayload}

theorem checkBounds_eq_ok (h : checkBounds payload = .ok ()) :
    payload.services.length ≤ maxServices ∧
      (∀ ports, payload.constraints.tcpPorts = some ports → ports.length ≤ maxTcpPorts) ∧
      (∀ displays, payload.constraints.displays = some displays → displays.length ≤ maxDisplays) ∧
      (∀ paths, payload.constraints.syncPaths = some paths →
        paths.length ≤ maxSyncPaths ∧ ∀ path ∈ paths, path.length ≤ maxScopePathLen) ∧
      ∀ tenant, payload.tenant = some tenant → tenant.length ≤ maxTenantLen := by
  obtain ⟨-, h⟩ := ite_throw_eq_ok.mp h
  obtain ⟨-, h⟩ := ite_throw_eq_ok.mp h
  obtain ⟨hsizes, h⟩ := ite_throw_eq_ok.mp h
  obtain ⟨-, hpaths⟩ := ite_throw_eq_ok.mp h
  simp only [not_or] at hsizes
  obtain ⟨hservices, hports, hdisplays, hsync, htenant⟩ := hsizes
  refine ⟨Nat.not_lt.mp hservices, fun ports heq => ?_, fun displays heq => ?_, fun paths heq => ⟨?_, ?_⟩,
    fun tenant heq => ?_⟩
  · simpa [heq] using hports
  · simpa [heq] using hdisplays
  · simpa [heq] using hsync
  · intro path hpath
    rw [heq] at hpaths
    have hscope := forM_eq_ok.mp hpaths path hpath
    obtain ⟨hlen, -⟩ := ite_throw_eq_ok.mp hscope
    exact Nat.not_lt.mp (not_or.mp hlen).2
  · simpa [heq] using htenant

theorem valid_serviceKindCodec (service : ServiceKind) : serviceKindCodec.Valid service := by
  cases service <;> exact True.intro

theorem valid_list {α : Type} {c : Codec α} {l : List α} {bound : ℕ} (hlen : l.length ≤ bound)
    (hbound : bound < 2 ^ 63) (hl : ∀ a ∈ l, c.Valid a) : c.list.Valid l := by
  refine ⟨?_, hl⟩
  show l.length < 128 ^ 9 * 2
  omega

theorem valid_text {text : Bytes} {bound : ℕ} (hlen : text.length ≤ bound) (hbound : bound < 2 ^ 63)
    (hutf8 : Json.isUtf8 text = true) : textCodec.Valid text := by
  refine ⟨?_, hutf8⟩
  show text.length < 128 ^ 9 * 2
  omega

/-- **A payload within the bounds survives its encoding.** -/
theorem takeV3_encode (hstrings : payload.Strings) (hbounds : checkBounds payload = .ok ()) :
    takeV3 payload.encode = some (payload, []) := by
  obtain ⟨hservices, hports, hdisplays, hsync, htenant⟩ := checkBounds_eq_ok hbounds
  have hread := (grantHeadCodec.pair (constraintsV2Codec.pair (textCodec.list.option.pair
      (textCodec.option.pair Codec.word64.option)))).decode_encode
    (payload.head, (payload.constraints.maxBps, payload.constraints.tcpPorts, payload.constraints.displays),
      payload.constraints.syncPaths, payload.tenant, payload.policyRevision) [] ?_
  · rw [append_nil] at hread
    unfold takeV3 GrantPayload.encode
    rw [hread]
    rfl
  refine ⟨⟨Codec.valid_word16 _, Codec.valid_word64 _, True.intro, True.intro, True.intro, True.intro,
    valid_list hservices (by decide) fun service _ => valid_serviceKindCodec service,
    Codec.valid_word64 _, Codec.valid_word64 _⟩, ⟨?_, ?_, ?_⟩, ?_, ?_, ?_⟩
  · exact fun _ _ => Codec.valid_word64 _
  · exact fun ports heq => valid_list (hports ports heq) (by decide) fun _ _ => Codec.valid_word16 _
  · exact fun displays heq => valid_list (hdisplays displays heq) (by decide) fun _ _ => Codec.valid_word32 _
  · intro paths heq
    obtain ⟨hcount, heach⟩ := hsync paths heq
    exact valid_list hcount (by decide) fun path hpath =>
      valid_text (heach path hpath) (by decide) (hstrings.syncPaths paths heq path hpath)
  · exact fun tenant heq => valid_text (htenant tenant heq) (by decide) (hstrings.tenant tenant heq)
  · exact fun _ _ => Codec.valid_word64 _

end Bounds

/-! ### The version of the bytes -/

variable {input rest : Bytes} {payload : GrantPayload} {texts : Texts}

theorem decode_pair {α β : Type} {a : Codec α} {b : Codec β} {v : α × β}
    (h : (a.pair b).decode input = some (v, rest)) :
    ∃ mid, a.decode input = some (v.1, mid) ∧ b.decode mid = some (v.2, rest) := by
  obtain ⟨left, hleft, h⟩ := Option.bind_eq_some_iff.mp h
  obtain ⟨right, hright, h⟩ := Option.map_eq_some_iff.mp h
  cases h
  exact ⟨left.2, hleft, hright⟩

theorem version_of_head {β : Type} {tail : Codec β} {head : GrantHead} {v : β}
    (h : (grantHeadCodec.pair tail).decode input = some ((head, v), rest)) :
    ∃ mid, Codec.word16.decode input = some (head.1, mid) := by
  obtain ⟨mid, hhead, -⟩ := decode_pair h
  obtain ⟨mid', hversion, -⟩ := decode_pair hhead
  exact ⟨mid', hversion⟩

theorem version_of_takeV2 (h : takeV2 input = some (payload, rest)) :
    ∃ mid, Codec.word16.decode input = some (payload.version, mid) := by
  obtain ⟨⟨⟨head, v⟩, rest'⟩, hdecode, h⟩ := Option.map_eq_some_iff.mp h
  cases h
  exact version_of_head hdecode

theorem version_of_takeV3 (h : takeV3 input = some (payload, rest)) :
    ∃ mid, Codec.word16.decode input = some (payload.version, mid) := by
  obtain ⟨⟨⟨head, v⟩, rest'⟩, hdecode, h⟩ := Option.map_eq_some_iff.mp h
  cases h
  exact version_of_head hdecode

theorem complete_eq_ok {input : Bytes} {taken : Option (GrantPayload × Bytes)}
    (h : complete texts input taken = .ok payload) : taken = some (payload, []) := by
  unfold complete at h
  split at h
  · cases h
  · obtain ⟨htrailing, h⟩ := ite_throw_eq_ok.mp h
    cases h
    rw [not_not.mp htrailing]

/-- The layout a version selects, and nothing after it. -/
def Layout (payload : GrantPayload) (input : Bytes) : Prop :=
  payload.version = grantVersionMin ∧ takeV2 input = some (payload, []) ∨
    payload.version = grantVersion ∧ takeV3 input = some (payload, [])

/-- **The layout is that of the payload's own version.** -/
theorem layout_of_decodeVersion {input : Bytes}
    (h : decodeVersion texts input = .ok payload) : Layout payload input := by
  unfold decodeVersion at h
  split at h
  · cases h
  next version mid hpeek =>
  split at h
  · next hmin =>
    have htake := complete_eq_ok h
    obtain ⟨mid', hversion⟩ := version_of_takeV2 htake
    rw [hpeek] at hversion
    cases hversion
    exact .inl ⟨hmin, htake⟩
  split at h
  · next hcurrent =>
    have htake := complete_eq_ok h
    obtain ⟨mid', hversion⟩ := version_of_takeV3 htake
    rw [hpeek] at hversion
    cases hversion
    exact .inr ⟨hcurrent, htake⟩
  · cases h

theorem Layout.version {input : Bytes} (h : Layout payload input) :
    payload.version = grantVersionMin ∨ payload.version = grantVersion :=
  h.imp And.left And.left

/-! ### Messages -/

/-- **A signed message determines its version and its bytes.** The domains have one length and differ. -/
theorem signatureMessage_inj {v w : UInt16} {b c : Bytes} (hv : v = grantVersionMin ∨ v = grantVersion)
    (hw : w = grantVersionMin ∨ w = grantVersion) (h : signatureMessage v b = signatureMessage w c) :
    v = w ∧ b = c := by
  have hne : grantVersion ≠ grantVersionMin := by decide
  unfold signatureMessage at h
  rcases hv with rfl | rfl <;> rcases hw with rfl | rfl <;> simp only [if_neg hne] at h
  · exact ⟨rfl, append_cancel_left h⟩
  · exact absurd (append_inj_left h (by decide)) (by decide)
  · exact absurd (append_inj_left h (by decide)) (by decide)
  · exact ⟨rfl, append_cancel_left h⟩

/-- What an id is the hash of. -/
def GrantPayload.idMessage (self : GrantPayload) : Bytes :=
  idDomain ++ self.issuer.val ++ self.subject.val ++ self.audience.val ++ self.nonce.val

/-- The fields of two payloads that their ids are made from. -/
def SameSession (p q : GrantPayload) : Prop :=
  p.issuer = q.issuer ∧ p.subject = q.subject ∧ p.audience = q.audience ∧ p.nonce = q.nonce

/-- **The preimage of an id determines the session.** -/
theorem idMessage_inj {p q : GrantPayload} : p.idMessage = q.idMessage ↔ SameSession p q := by
  constructor
  · intro h
    -- the pieces have fixed lengths: split from the right
    obtain ⟨h, hnonce⟩ := append_inj' h (p.nonce.property.trans q.nonce.property.symm)
    obtain ⟨h, haudience⟩ := append_inj' h (p.audience.property.trans q.audience.property.symm)
    obtain ⟨h, hsubject⟩ := append_inj' h (p.subject.property.trans q.subject.property.symm)
    obtain ⟨-, hissuer⟩ := append_inj' h (p.issuer.property.trans q.issuer.property.symm)
    exact ⟨Subtype.ext hissuer, Subtype.ext hsubject, Subtype.ext haudience, Subtype.ext hnonce⟩
  · rintro ⟨hissuer, hsubject, haudience, hnonce⟩
    unfold GrantPayload.idMessage
    rw [hissuer, hsubject, haudience, hnonce]

/-! ### Verification -/

/-- **What is verified.** The payload is the whole of the bytes in the layout of its version, and the
signature is the issuer's over the domain of that version and those bytes. -/
theorem verify_sound {x : Crates} {grant : Grant} {issuers : Finset EndpointKey}
    {subject audience : EndpointKey} {maxTtl : Duration} {now : UInt64} {verified : VerifiedGrant}
    (h : grant.verify x texts issuers subject audience maxTtl now = .ok verified) :
    Layout verified.payload grant.payload ∧ verified.id = x.blake3 verified.payload.idMessage ∧
      ∃ signature : Signature, signature.val = grant.signature ∧
        x.verifyStrict verified.payload.issuer (signatureMessage verified.payload.version grant.payload)
          signature = true := by
  obtain ⟨payload, hdecode, h⟩ := bind_eq_ok.mp h
  obtain ⟨-, h⟩ := ite_throw_eq_ok.mp h
  obtain ⟨hsigned, h⟩ := check_bind_eq_ok.mp h
  obtain ⟨-, h⟩ := check_bind_eq_ok.mp h
  cases h
  refine ⟨layout_of_decodeVersion (decode_eq_ok hdecode), rfl, ?_⟩
  obtain ⟨-, hsigned⟩ := ite_throw_eq_ok.mp hsigned
  split at hsigned
  · next hlen =>
    obtain ⟨hverify, -⟩ := ite_throw_eq_ok.mp hsigned
    exact ⟨⟨grant.signature, hlen⟩, rfl, by simpa using hverify⟩
  · cases hsigned

/-- **What is issued verifies.** -/
theorem verify_issueAt {x : Crates} {key : SigningKey}
    {issuers : Finset EndpointKey} {maxTtl : Duration} {now : UInt64} (hx : x.Signs key)
    (hissuer : payload.issuer = x.verifyingKey key) (hversion : payload.version = grantVersion)
    (hstrings : payload.Strings) (hsize : payload.encode.length ≤ maxPayloadLen)
    (hbounds : checkBounds payload = .ok ()) (htrusted : payload.issuer ∈ issuers)
    (hstart : payload.notBefore ≤ saturatingAdd now skewSecs) (hend : now < payload.expiresAt)
    (httl : payload.expiresAt.toNat - payload.notBefore.toNat ≤ maxTtl.asSecs.toNat) :
    (Grant.issueAt x key payload).verify x texts issuers payload.subject payload.audience maxTtl now =
      .ok ⟨payload, payload.id x⟩ := by
  have htake := takeV3_encode hstrings hbounds
  obtain ⟨mid, hpeek⟩ := version_of_takeV3 htake
  have hdecode : (Grant.issueAt x key payload).decode texts = .ok payload := by
    refine ite_throw_eq_ok.mpr ⟨Nat.not_lt.mpr hsize, bind_eq_ok.mpr ⟨payload, ?_, ?_⟩⟩
    · show decodeVersion texts payload.encode = .ok payload
      unfold decodeVersion
      have hne : payload.version ≠ grantVersionMin := by
        rw [hversion]
        decide
      rw [hpeek]
      dsimp only
      rw [if_neg hne, if_pos hversion, htake]
      rfl
    · exact check_bind_eq_ok.mpr ⟨hbounds, rfl⟩
  have hsigned : (Grant.issueAt x key payload).checkSignature x texts payload = .ok () := by
    refine ite_throw_eq_ok.mpr ⟨?_, ?_⟩
    · rw [hissuer, hx.validKey]
      decide
    have hlen : (Grant.issueAt x key payload).signature.length = 64 := (x.sign key _).property
    rw [dif_pos hlen]
    refine ite_throw_eq_ok.mpr ⟨?_, rfl⟩
    have hverify := hx.verifyStrict (signatureMessage payload.version payload.encode)
    show ¬ (!x.verifyStrict payload.issuer (signatureMessage payload.version payload.encode)
      (x.sign key (signatureMessage payload.version payload.encode))) = true
    rw [hissuer, hverify]
    decide
  have hclaims : Grant.checkClaims payload payload.subject payload.audience maxTtl now = .ok () := by
    refine ite_throw_eq_ok.mpr ⟨not_not.mpr rfl, ite_throw_eq_ok.mpr ⟨not_not.mpr rfl, ?_⟩⟩
    refine ite_throw_eq_ok.mpr ⟨UInt64.not_lt.mpr hstart, ite_throw_eq_ok.mpr ⟨UInt64.not_le.mpr hend, ?_⟩⟩
    exact ite_throw_eq_ok.mpr ⟨Nat.not_lt.mpr httl, rfl⟩
  refine bind_eq_ok.mpr ⟨payload, hdecode, ite_throw_eq_ok.mpr ⟨not_not.mpr htrusted, ?_⟩⟩
  exact check_bind_eq_ok.mpr ⟨hsigned, check_bind_eq_ok.mpr ⟨hclaims, rfl⟩⟩

/-- The signature of a key over a message verifies for no other key and no other message. -/
def Unforged (x : Crates) (key : SigningKey) (message : Bytes) : Prop :=
  ∀ k m, x.verifyStrict k m (x.sign key message) = true → k = x.verifyingKey key ∧ m = message

/-- **Grants, issued and verified.** Every version 3 payload within the bounds that a key issues verifies as
itself. Every grant that verifies carries its issuer's signature over the domain of its own version and
exactly its bytes, which are one payload in the layout of that version. The messages of different versions
or bytes differ, so a signature that a key made over some version's bytes, and that is not forged, is
accepted only as that key's grant of that version and of those bytes. Two verified grants have one id
exactly if issuer, subject, audience and nonce agree, unless the hash collides on them. -/
theorem grant_issue_verify (x : Crates) (texts : Texts) :
    (∀ (key : SigningKey) (payload : GrantPayload) (issuers : Finset EndpointKey) (maxTtl : Duration)
        (now : UInt64), x.Signs key → payload.issuer = x.verifyingKey key →
      payload.version = grantVersion → payload.Strings → payload.encode.length ≤ maxPayloadLen →
      checkBounds payload = .ok () → payload.issuer ∈ issuers →
      payload.notBefore ≤ saturatingAdd now skewSecs → now < payload.expiresAt →
      payload.expiresAt.toNat - payload.notBefore.toNat ≤ maxTtl.asSecs.toNat →
      (Grant.issueAt x key payload).verify x texts issuers payload.subject payload.audience maxTtl now =
        .ok ⟨payload, payload.id x⟩) ∧
    (∀ v w b c, (v = grantVersionMin ∨ v = grantVersion) → (w = grantVersionMin ∨ w = grantVersion) →
      signatureMessage v b = signatureMessage w c → v = w ∧ b = c) ∧
    (∀ grant issuers subject audience maxTtl now verified,
      Grant.verify x texts grant issuers subject audience maxTtl now = .ok verified →
      Layout verified.payload grant.payload ∧
      (∃ signature : Signature, signature.val = grant.signature ∧ x.verifyStrict verified.payload.issuer
          (signatureMessage verified.payload.version grant.payload) signature = true) ∧
      ∀ key version bytes, (version = grantVersionMin ∨ version = grantVersion) →
        grant.signature = (x.sign key (signatureMessage version bytes)).val →
        Unforged x key (signatureMessage version bytes) →
        verified.payload.issuer = x.verifyingKey key ∧ verified.payload.version = version ∧
          grant.payload = bytes) ∧
    (∀ grant issuers subject audience maxTtl now verified grant' issuers' subject' audience' maxTtl' now'
        verified',
      Grant.verify x texts grant issuers subject audience maxTtl now = .ok verified →
      Grant.verify x texts grant' issuers' subject' audience' maxTtl' now' = .ok verified' →
      (x.blake3 verified.payload.idMessage = x.blake3 verified'.payload.idMessage →
        verified.payload.idMessage = verified'.payload.idMessage) →
      (verified.id = verified'.id ↔ SameSession verified.payload verified'.payload)) := by
  refine ⟨?_, fun v w b c => signatureMessage_inj, ?_, ?_⟩
  · intro key payload issuers maxTtl now hx hissuer hversion hstrings hsize hbounds htrusted hstart hend httl
    exact verify_issueAt hx hissuer hversion hstrings hsize hbounds htrusted hstart hend httl
  · intro grant issuers subject audience maxTtl now verified h
    obtain ⟨hlayout, -, signature, hsignature, hverify⟩ := verify_sound h
    refine ⟨hlayout, ⟨signature, hsignature, hverify⟩, fun key version bytes hversion hissued hunforged => ?_⟩
    -- the accepted signature is the issued one, which verifies one message only
    obtain rfl : signature = x.sign key (signatureMessage version bytes) :=
      Subtype.ext (hsignature.trans hissued)
    obtain ⟨hkey, hmessage⟩ := hunforged _ _ hverify
    exact ⟨hkey, signatureMessage_inj hlayout.version hversion hmessage⟩
  intro grant issuers subject audience maxTtl now verified grant' issuers' subject' audience' maxTtl' now'
    verified' h h' hcollision
  obtain ⟨-, hid, -⟩ := verify_sound h
  obtain ⟨-, hid', -⟩ := verify_sound h'
  rw [hid, hid', ← idMessage_inj]
  exact ⟨hcollision, fun heq => by rw [heq]⟩

/-- A grant of an hour with every optional field. -/
def hourGrant : GrantPayload :=
  ⟨3, 1, repeated 32 1, repeated 32 2, repeated 32 7, repeated 16 4, [.ping, .syncRead], 1000, 4600,
    ⟨some 5000000, some [22, 80], some [0], some [utf8 "photos/2026"]⟩, some (utf8 "home"), some 12⟩

/-- The grant of an hour has a signature of its own; all other messages share one. -/
@[irreducible]
def hourSignature (message : Bytes) : Signature :=
  if message = signatureMessage 3 hourGrant.encode then repeated 64 1 else repeated 64 0

/-- Crates with one key pair. -/
def oneKeyCrates : Crates where
  validKey _ := true
  verifyStrict key message signature := key = repeated 32 1 ∧ signature = hourSignature message
  verifyingKey _ := repeated 32 1
  sign _ message := hourSignature message
  blake3 _ := repeated 32 9
  parseUrl _ := none
  parseIp _ := none
  parseJson _ := none

theorem unforged_hourGrant :
    Unforged oneKeyCrates (repeated 32 0) (signatureMessage 3 hourGrant.encode) := by
  intro k m hverify
  obtain ⟨hkey, hsignature⟩ := of_decide_eq_true hverify
  refine ⟨hkey, ?_⟩
  by_contra hne
  dsimp only [oneKeyCrates] at hsignature
  unfold hourSignature at hsignature
  rw [if_pos rfl, if_neg hne] at hsignature
  exact absurd hsignature (by decide +kernel)

/-- The grant is issued and verified, and its signature was made over version 3 and its bytes. -/
theorem grant_issue_verify_hourGrant :
    let grant := Grant.issueAt oneKeyCrates (repeated 32 0) hourGrant
    grant.verify oneKeyCrates ⟨fun _ => [], fun _ => []⟩
        {repeated 32 1} (repeated 32 2) (repeated 32 7) (.fromSecs 3600) 2000 =
      .ok ⟨hourGrant, hourGrant.id oneKeyCrates⟩ ∧
    Layout hourGrant grant.payload ∧
    hourGrant.issuer = oneKeyCrates.verifyingKey (repeated 32 0) ∧ hourGrant.version = 3 ∧
      grant.payload = hourGrant.encode := by
  obtain ⟨hissue, -, hverify, -⟩ := grant_issue_verify oneKeyCrates ⟨fun _ => [], fun _ => []⟩
  have hround := hissue (repeated 32 0) hourGrant {repeated 32 1} (.fromSecs 3600) 2000
    ⟨rfl, fun _ => decide_eq_true ⟨rfl, rfl⟩⟩ rfl rfl ⟨by rintro _ ⟨⟩; decide, by rintro _ ⟨⟩; decide⟩
    (by decide +kernel) (by decide +kernel) (by decide) (by decide) (by decide) (by decide +kernel)
  obtain ⟨hlayout, -, hmade⟩ := hverify _ _ _ _ _ _ _ hround
  have hsigned := congrArg (fun version => (oneKeyCrates.sign (repeated 32 0)
    (signatureMessage version hourGrant.encode)).val) (rfl : hourGrant.version = 3)
  exact ⟨hround, hlayout, hmade (repeated 32 0) 3 hourGrant.encode (.inr rfl) hsigned unforged_hourGrant⟩

end Rds.Agent
