import Rds.Discovery.RecordWire

/-!
# Stored entries

What a record store keeps for an endpoint key and how one access changes it
(`rds-discovery/src/records/entry.rs`). A stored entry is the signed mutation with its lease,
or, once the lease has lapsed, what is left of it: the revision, the digest of the mutation and
whether it was a deletion. `Records.decide` is the decision both stores share.

The *floor* of an entry is its revision. `verify_of_retire` says that retiring keeps floor and
digest, and `decide_spec` lists what a decision can be: keep the entry, retire it, or replace
it by a fresh mutation above the floor.
-/

namespace Rds.Discovery

open Framework Postcard Codec Option

/-- `MAX_CELL`. -/
def maxCell : ℕ := 256 * 1024

/-- `Entry`: a signed mutation. -/
inductive Entry where
  | record (record : EndpointRecord)
  | deleted (tomb : DeleteRequest)
  deriving DecidableEq

/-- What `Entry::details` returns. -/
structure Details where
  revision : UInt64
  issued : UInt64
  expires : UInt64

/-- `Stored`. -/
inductive Stored where
  | active (entry : Entry) (lease : Lease)
  | retired (revision : UInt64) (digest : Digest) (deleted : Bool)
  deriving DecidableEq

/-! ### Formats -/

/-- `Entry` in postcard. -/
def entryCodec : Codec Entry :=
  .enum
    [.mk _ recordCodec .record fun | .record r => some r | _ => none,
      .mk _ deleteCodec .deleted fun | .deleted t => some t | _ => none]

/-- `Stored` in postcard. -/
def storedCodec : Codec Stored :=
  .enum
    [.mk _ (entryCodec.pair leaseCodec) (fun r => .active r.1 r.2)
        fun | .active e l => some (e, l) | _ => none,
      .mk _ (Codec.word64.pair (keyCodec.pair .bool)) (fun r => .retired r.1 r.2.1 r.2.2)
        fun | .retired r d t => some (r, d, t) | _ => none]

/-! ### Entries -/

namespace Entry

/-- `Entry::details`. -/
def details (x : Crates) (key : EndpointKey) : Entry → Except DiscoveryError Details
  | .record r => do
    let p ← r.verify x
    if p.key ≠ key then throw .badSignature else pure ⟨p.revision, p.issuedAt, p.expiresAt⟩
  | .deleted t => do
    let p ← t.verify x
    if p.key ≠ key then throw .badSignature else pure ⟨p.revision, p.issuedAt, p.expiresAt⟩

/-- `Entry::digest`. -/
def digest (x : Crates) (self : Entry) : Digest := x.blake3 (entryCodec.encode self)

/-- The entry is a deletion. -/
def isDeleted : Entry → Bool
  | .record _ => false
  | .deleted _ => true

/-- What a mutation that verifies is: signed by a valid key, with a positive revision and of
bounded size. -/
theorem details_spec {x : Crates} {key : EndpointKey} {entry : Entry} {d : Details}
    (h : entry.details x key = .ok d) :
    x.validKey key = true ∧ d.revision ≠ 0 ∧ entryCodec.Valid entry ∧
      (entryCodec.encode entry).length ≤ 8400 := by
  have hsize : ∀ (n : ℕ) (k : EndpointKey) (p s : Bytes), p.length ≤ 8192 → s.length = 64 →
      (u32.encode n ++ (signedCodec 0).encode (k, p, s)).length ≤ 8400 := by
    intro n k p s hp hs
    have htag : (u32.encode n).length ≤ 5 := length_varintLoop_le _ _
    have hpay := byte.length_encode_list_le (k := 1) (fun _ => le_rfl) p
    have hsig := byte.length_encode_list_le (k := 1) (fun _ => le_rfl) s
    have hcat : ((signedCodec 0).encode (k, p, s)).length =
        k.val.length + ((byte.list.encode p).length + (byte.list.encode s).length) := by
      show (k.val ++ (byte.list.encode p ++ byte.list.encode s)).length = _
      rw [List.length_append, List.length_append]
    rw [List.length_append]
    omega
  cases entry with
  | record r =>
    obtain ⟨p, hp, hrest⟩ := bind_eq_ok.mp h
    obtain ⟨hkey, hd⟩ := ite_throw_eq_ok.mp hrest
    rw [not_not] at hkey
    cases hd
    have hmeta := RecordWire.metadata_eq_ok.mp (EndpointRecord.metadata_of_verify hp)
    obtain ⟨hvalid, hsig, -, -, heq, -⟩ := RecordWire.verifyWith_eq_ok.mp hp
    obtain ⟨hlen, hslen, -⟩ := Authority.verify_eq_ok.mp hsig
    refine ⟨by rw [← hkey, heq]; exact hvalid, hmeta.2.1, ?_, hsize 0 r.key r.payload _ hlen hslen⟩
    refine ⟨True.intro, ⟨hlen, ?_, fun _ _ => True.intro⟩, hslen.le, ?_, fun _ _ => True.intro⟩
    · exact Nat.lt_of_le_of_lt hlen (by decide)
    · exact Nat.lt_of_le_of_lt hslen.le (by decide)
  | deleted t =>
    obtain ⟨p, hp, hrest⟩ := bind_eq_ok.mp h
    obtain ⟨hkey, hd⟩ := ite_throw_eq_ok.mp hrest
    rw [not_not] at hkey
    cases hd
    obtain ⟨hvalid, hsig, -, -, heq, hmeta⟩ := RecordWire.verifyWith_eq_ok.mp hp
    obtain ⟨hlen, hslen, -⟩ := Authority.verify_eq_ok.mp hsig
    refine ⟨by rw [← hkey, heq]; exact hvalid, (RecordWire.metadata_eq_ok.mp hmeta).2.1, ?_,
      hsize 1 t.key t.payload _ (Nat.le_trans hlen (by decide)) hslen⟩
    refine ⟨True.intro, ⟨hlen, ?_, fun _ _ => True.intro⟩, hslen.le, ?_, fun _ _ => True.intro⟩
    · exact Nat.lt_of_le_of_lt hlen (by decide)
    · exact Nat.lt_of_le_of_lt hslen.le (by decide)

end Entry

/-! ### Stored entries -/

namespace Stored

/-- `Stored::verify`: the entry's revision. -/
def verify (x : Crates) (key : EndpointKey) : Stored → Except DiscoveryError UInt64
  | .active entry lease => do
    let d ← entry.details x key
    if ¬ lease.matchesInterval d.issued d.expires then
      throw (storeError "stored record lease disagrees with signed interval")
    else pure d.revision
  | .retired revision _ _ =>
    if ¬ x.validKey key then throw .badSignature
    else if revision = 0 then throw (storeError "retired record has no revision floor")
    else pure revision

/-- `Stored::live`. -/
def live : Stored → Bool
  | .active (.record _) _ => true
  | _ => false

/-- The entry is `Stored::Active`. -/
def isActive : Stored → Bool
  | .active _ _ => true
  | .retired _ _ _ => false

/-- `Stored::accepted_wall`. -/
def acceptedWall : Stored → Duration
  | .active _ lease => lease.acceptedWall
  | .retired _ _ _ => .zero

/-- `Stored::digest`. -/
def digest (x : Crates) : Stored → Digest
  | .active entry _ => entry.digest x
  | .retired _ digest _ => digest

/-- `Stored::retire`. -/
def retire (x : Crates) (key : EndpointKey) (now : Reading) (self : Stored) :
    Except DiscoveryError (Option Stored) :=
  match self with
  | .active entry lease =>
    if ¬ lease.validAt now then do
      let revision ← self.verify x key
      pure (some (.retired revision (entry.digest x) entry.isDeleted))
    else pure none
  | .retired _ _ _ => pure none

/-- `Stored::read`. -/
def read : Stored → Except DiscoveryError (Option EndpointRecord)
  | .active (.record r) _ => pure (some r)
  | .retired _ _ false => throw .expired
  | _ => throw .notFound

variable {x : Crates} {key : EndpointKey}

/-- **A verified entry can be stored**: it is read back, and fits into a cell. -/
theorem valid_of_verify {s : Stored} {r : UInt64} (h : s.verify x key = .ok r) :
    storedCodec.Valid s ∧ (storedCodec.encode s).length ≤ maxCell := by
  cases s with
  | active entry lease =>
    obtain ⟨d, hd, -⟩ := bind_eq_ok.mp h
    obtain ⟨-, -, hvalid, hlen⟩ := Entry.details_spec hd
    refine ⟨⟨hvalid, valid_leaseCodec lease⟩, ?_⟩
    have hlease : (leaseCodec.encode lease).length ≤ 100 := by
      have hword : ∀ w : UInt64, (word64.encode w).length ≤ 10 :=
        fun w => length_varintLoop_le _ _
      have hdur : ∀ d : Duration, (duration.encode d).length ≤ 15 := by
        intro d
        have hnanos : (word32.encode d.subsecNanos).length ≤ 5 := length_varintLoop_le _ _
        have hsecs := hword d.asSecs
        show (word64.encode d.asSecs ++ word32.encode d.subsecNanos).length ≤ 15
        rw [List.length_append]
        omega
      have hboot := lease.boot.property
      have h1 := hword lease.issuedAt
      have h2 := hword lease.expiresAt
      have h3 := hdur lease.acceptedWall
      have h4 := hdur lease.acceptedContinuous
      have h5 := hdur lease.deadline
      show (lease.boot.val ++ (word64.encode lease.issuedAt ++
        (word64.encode lease.expiresAt ++ (duration.encode lease.acceptedWall ++
        (duration.encode lease.acceptedContinuous ++ duration.encode lease.deadline))))).length ≤ 100
      simp only [List.length_append]
      omega
    have htag : (u32.encode 0).length ≤ 5 := length_varintLoop_le _ _
    show (u32.encode 0 ++ (entryCodec.encode entry ++ leaseCodec.encode lease)).length ≤ _
    rw [List.length_append, List.length_append]
    unfold maxCell
    omega
  | retired revision digest deleted =>
    refine ⟨⟨valid_word64 _, True.intro, True.intro⟩, ?_⟩
    have htag : (u32.encode 1).length ≤ 5 := length_varintLoop_le _ _
    have hrev : (word64.encode revision).length ≤ 10 := length_varintLoop_le _ _
    show (u32.encode 1 ++ (word64.encode revision ++ (digest.val ++ [if deleted then 1 else 0]))).length ≤ _
    simp only [List.length_append, List.length_singleton]
    unfold maxCell
    omega

theorem verify_retired {revision : UInt64} {digest : Digest}
    {deleted : Bool} (hkey : x.validKey key = true) (hr : revision ≠ 0) :
    (retired revision digest deleted).verify x key = .ok revision := by
  unfold verify
  dsimp only
  rw [if_neg (not_not.mpr hkey), if_neg hr]
  rfl

theorem verify_active {entry : Entry} {lease : Lease}
    {d : Details} {now : Reading} (hd : entry.details x key = .ok d)
    (hlease : Lease.new d.issued d.expires now = .ok lease) :
    (active entry lease).verify x key = .ok d.revision := by
  refine bind_eq_ok.mpr ⟨d, hd, ?_⟩
  rw [if_neg (not_not.mpr (Lease.matchesInterval_new hlease))]
  rfl

/-- **Retiring keeps the floor and the digest**, and happens to entries whose lease has
lapsed. -/
theorem retire_spec {s : Stored} {r : UInt64} (now : Reading) (hs : s.verify x key = .ok r) :
    s.retire x key now = .ok none ∧ (∀ e l, s = active e l → l.validAt now = true) ∨
      ∃ entry lease, s = active entry lease ∧ lease.validAt now = false ∧
        s.retire x key now = .ok (some (retired r (entry.digest x) entry.isDeleted)) ∧
        (retired r (entry.digest x) entry.isDeleted).verify x key = .ok r := by
  cases s with
  | retired revision digest deleted =>
    exact .inl ⟨rfl, fun e l h => absurd h (by simp)⟩
  | active entry lease =>
    by_cases hlease : lease.validAt now = true
    · refine .inl ⟨if_neg (not_not.mpr hlease), ?_⟩
      rintro _ _ ⟨rfl, rfl⟩
      exact hlease
    refine .inr ⟨entry, lease, rfl, Bool.not_eq_true _ ▸ hlease, ?_, ?_⟩
    · unfold retire
      dsimp only
      rw [if_pos hlease, hs]
      rfl
    obtain ⟨d, hd, hrest⟩ := bind_eq_ok.mp hs
    obtain ⟨hkey, hne, -⟩ := Entry.details_spec hd
    obtain ⟨-, hr⟩ := ite_throw_eq_ok.mp hrest
    cases hr
    exact verify_retired hkey hne

end Stored

/-! ### Decisions -/

namespace Records

/-- `Decision`. -/
structure Decision where
  replacement : Option Stored
  result : Except DiscoveryError (Option EndpointRecord)

/-- The decision of an access, given what was stored (`current`) and what expired of it
(`retired`). -/
def settle (x : Crates) (retired current : Option Stored) (incoming : Option Entry)
    (key : EndpointKey) (now : Reading) : Except DiscoveryError Decision :=
  match incoming with
  | none =>
    pure ⟨retired, match current with
      | none => .error .notFound
      | some stored => stored.read⟩
  | some entry => do
    let d ← entry.details x key
    match Lease.new d.issued d.expires now with
    | .error e => pure ⟨retired, .error e⟩
    | .ok lease => do
      let previous ← current.mapM (Stored.verify x key)
      if previous.all fun previous => d.revision > previous then
        pure ⟨some (.active entry lease), .ok none⟩
      else if previous = some d.revision ∧
          current.map (Stored.digest x) = some (entry.digest x) then
        pure ⟨retired,
          if current.any fun stored => !stored.isActive then .error .expired else .ok none⟩
      else pure ⟨retired, .error .stale⟩

/-- `decide`: retire before returning an observed expiry, even on a refused mutation. A retry
can acknowledge an existing lease but can never create a new one. -/
def decide (x : Crates) (old : Option Stored) (incoming : Option Entry) (key : EndpointKey)
    (now : Reading) : Except DiscoveryError Decision := do
  let retired ← old.mapM (Stored.retire x key now)
  settle x retired.join (retired.join.or old) incoming key now

/-- `exact`. -/
def exact {α : Type} (codec : Codec α) (bytes : Bytes) : Except DiscoveryError α :=
  match codec.decode bytes with
  | none => throw (storeErrorFrom .postcard)
  | some (value, remaining) =>
    if remaining ≠ [] then throw (storeError "trailing stored record bytes") else pure value

/-- `decode`. -/
def decode (x : Crates) (bytes : Bytes) (key : EndpointKey) : Except DiscoveryError Stored :=
  if bytes.length > maxCell then throw (storeError "stored record exceeds limit")
  else do
    let entry ← exact storedCodec bytes
    let _ ← entry.verify x key
    pure entry

/-- `observe`: the wall clock the store has seen, after a reading. -/
def observe (floor observed : Duration) (now : Reading) : Except DiscoveryError Duration :=
  if now.wall < floor ∨ now.wall < observed then
    throw (storeError "record store wall clock moved backwards")
  else pure now.wall

theorem observe_eq_ok {floor observed wall : Duration} {now : Reading} :
    observe floor observed now = .ok wall ↔ floor ≤ now.wall ∧ observed ≤ now.wall ∧ wall = now.wall := by
  unfold observe
  rw [ite_throw_eq_ok, not_or, not_lt, not_lt, and_assoc]
  refine and_congr_right fun _ => and_congr_right fun _ => ?_
  exact ⟨fun h => (Except.ok.inj h).symm, fun h => h ▸ rfl⟩

theorem isStore_of_observe {floor observed : Duration} {now : Reading} {e : DiscoveryError}
    (h : observe floor observed now = .error e) : e.IsStore := by
  unfold observe at h
  split at h
  · cases h
    exact True.intro
  · exact absurd h (by simp [pure, Except.pure])

/-! ### What a decision can be -/

theorem exact_encode {α : Type} (codec : Codec α) {a : α} (ha : codec.Valid a) :
    exact codec (codec.encode a) = .ok a := by
  have hread := codec.decode_encode a [] ha
  rw [List.append_nil] at hread
  unfold exact
  rw [hread]
  exact if_neg (not_not.mpr rfl)

/-- **A verified entry passes `decode`** after a round trip. -/
theorem decode_encode {x : Crates} {key : EndpointKey} {s : Stored} {r : UInt64}
    (h : s.verify x key = .ok r) : decode x (storedCodec.encode s) key = .ok s := by
  obtain ⟨hvalid, hlen⟩ := Stored.valid_of_verify h
  unfold decode
  rw [if_neg (Nat.not_lt.mpr hlen), exact_encode storedCodec hvalid]
  refine bind_eq_ok.mpr ⟨s, rfl, bind_eq_ok.mpr ⟨r, h, rfl⟩⟩

/-- What a look at the clock does to a stored entry: nothing, or the entry has lapsed and is
retired with its floor and its digest. -/
inductive Observed (x : Crates) (key : EndpointKey) (now : Reading) :
    Option Stored → Option Stored → Option Stored → Prop where
  | absent : Observed x key now none none none
  | kept (s : Stored) (r : UInt64) (hs : s.verify x key = .ok r)
      (hvalid : ∀ e l, s = .active e l → l.validAt now = true) :
      Observed x key now (some s) none (some s)
  | lapsed (e : Entry) (l : Lease) (r : UInt64) (hs : (Stored.active e l).verify x key = .ok r)
      (hlapsed : l.validAt now = false)
      (hr : (Stored.retired r (e.digest x) e.isDeleted).verify x key = .ok r) :
      Observed x key now (some (.active e l)) (some (.retired r (e.digest x) e.isDeleted))
        (some (.retired r (e.digest x) e.isDeleted))

/-- The decision once the clock has been looked at. -/
inductive Decided (x : Crates) (key : EndpointKey) (now : Reading) (retired current : Option Stored) :
    Option Entry → Decision → Prop where
  | read (result : Except DiscoveryError (Option EndpointRecord))
      (h : result = match current with
        | none => .error .notFound
        | some stored => stored.read) :
      Decided x key now retired current none ⟨retired, result⟩
  | noLease (entry : Entry) (d : Details) (e : DiscoveryError) (hd : entry.details x key = .ok d)
      (hlease : Lease.new d.issued d.expires now = .error e) :
      Decided x key now retired current (some entry) ⟨retired, .error e⟩
  | accept (entry : Entry) (d : Details) (lease : Lease) (hd : entry.details x key = .ok d)
      (hlease : Lease.new d.issued d.expires now = .ok lease)
      (hfloor : ∀ s r, current = some s → s.verify x key = .ok r → r < d.revision) :
      Decided x key now retired current (some entry) ⟨some (.active entry lease), .ok none⟩
  | retry (entry : Entry) (d : Details) (s : Stored) (hd : entry.details x key = .ok d)
      (hs : current = some s) (hr : s.verify x key = .ok d.revision)
      (hdigest : s.digest x = entry.digest x) :
      Decided x key now retired current (some entry)
        ⟨retired, if !s.isActive then .error .expired else .ok none⟩
  | stale (entry : Entry) (d : Details) (s : Stored) (r : UInt64)
      (hd : entry.details x key = .ok d) (hs : current = some s) (hr : s.verify x key = .ok r)
      (hle : d.revision ≤ r) (hne : d.revision = r → s.digest x ≠ entry.digest x) :
      Decided x key now retired current (some entry) ⟨retired, .error .stale⟩

variable {x : Crates} {key : EndpointKey} {now : Reading} {old : Option Stored}
  {incoming : Option Entry} {decision : Decision}

theorem exists_observed (now : Reading) (hold : ∀ s, old = some s → ∃ r, s.verify x key = .ok r) :
    ∃ retired current, Observed x key now old retired current ∧
      ∀ incoming, decide x old incoming key now = settle x retired current incoming key now := by
  cases old with
  | none => exact ⟨none, none, .absent, fun _ => rfl⟩
  | some s =>
    obtain ⟨r, hr⟩ := hold s rfl
    have heq : ∀ o, s.retire x key now = .ok o → ∀ incoming,
        decide x (some s) incoming key now = settle x o (o.or (some s)) incoming key now := by
      intro o ho incoming
      unfold decide
      rw [mapM_some, ho]
      rfl
    rcases Stored.retire_spec now hr with ⟨hnone, hvalid⟩ | ⟨e, l, rfl, hl, hret, hver⟩
    · exact ⟨none, some s, .kept s r hr hvalid, heq none hnone⟩
    · exact ⟨_, _, .lapsed e l r hr hl hver, heq _ hret⟩

variable {retired current : Option Stored}

theorem Observed.verify (h : Observed x key now old retired current) {s : Stored} (hs : current = some s) :
    ∃ r, s.verify x key = .ok r := by
  cases h with
  | absent => exact absurd hs (by simp)
  | kept s' r hr _ | lapsed e l r _ _ hr =>
    cases hs
    exact ⟨r, hr⟩

theorem Observed.verify_retired
    (h : Observed x key now old retired current) {s : Stored} (hs : retired = some s) :
    (∃ r, s.verify x key = .ok r) ∧ s.acceptedWall = .zero := by
  cases h with
  | absent | kept _ _ _ _ => exact absurd hs (by simp)
  | lapsed e l r _ _ hr =>
    cases hs
    exact ⟨⟨r, hr⟩, rfl⟩

/-- **What a decision can be.** -/
theorem settle_cases (hcur : ∀ s, current = some s → ∃ r, s.verify x key = .ok r)
    (h : settle x retired current incoming key now = .ok decision) :
    Decided x key now retired current incoming decision := by
  cases incoming with
  | none =>
    cases h
    exact .read _ rfl
  | some entry =>
    obtain ⟨d, hd, h⟩ := bind_eq_ok.mp h
    cases hlease : Lease.new d.issued d.expires now with
    | error e =>
      rw [hlease] at h
      cases h
      exact .noLease entry d e hd hlease
    | ok lease =>
      rw [hlease] at h
      obtain ⟨previous, hprevious, h⟩ := bind_eq_ok.mp h
      cases current with
      | none =>
        cases hprevious
        cases h
        exact .accept entry d lease hd hlease fun s r hs => absurd hs (by simp)
      | some s =>
        obtain ⟨r, hr⟩ := hcur s rfl
        rw [mapM_some, hr] at hprevious
        cases hprevious
        dsimp only [all_some, map_some] at h
        by_cases hgt : d.revision > r
        · rw [if_pos (decide_eq_true hgt)] at h
          cases h
          refine .accept entry d lease hd hlease fun s' r' hs' hr' => ?_
          cases hs'
          rw [hr] at hr'
          cases hr'
          exact hgt
        rw [if_neg (by simpa using hgt)] at h
        split at h
        · next heq =>
          rw [some.injEq, some.injEq] at heq
          cases h
          exact .retry entry d s hd rfl (heq.1 ▸ hr) heq.2
        next hne =>
        cases h
        refine .stale entry d s r hd rfl hr (UInt64.not_lt.mp hgt) fun hrev hdig => hne ?_
        rw [hrev, hdig]
        exact ⟨rfl, rfl⟩

/-- **A fresh mutation is accepted** if it holds a lease and its revision is above the floor. -/
theorem decide_of_fresh {entry : Entry} {d : Details} {lease : Lease}
    (hd : entry.details x key = .ok d) (hlease : Lease.new d.issued d.expires now = .ok lease)
    (hold : ∀ s, old = some s → ∃ r, s.verify x key = .ok r ∧ r < d.revision) :
    decide x old (some entry) key now = .ok ⟨some (.active entry lease), .ok none⟩ := by
  obtain ⟨retired, current, hobs, heq⟩ :=
    exists_observed now fun s hs => (hold s hs).imp fun _ h => h.1
  -- what the look at the clock left has the same floor
  have hcurrent : ∀ s, current = some s → ∃ r, s.verify x key = .ok r ∧ r < d.revision := by
    intro s hs
    cases hobs with
    | absent => exact absurd hs (by simp)
    | kept s' r hr _ => exact hold s hs
    | lapsed e l r hr _ hr' =>
      obtain ⟨r', hr₁, hlt⟩ := hold _ rfl
      rw [hr] at hr₁
      cases hr₁
      cases hs
      exact ⟨r, hr', hlt⟩
  rw [heq]
  refine bind_eq_ok.mpr ⟨d, hd, ?_⟩
  rw [hlease]
  cases hcur : current with
  | none => rfl
  | some s =>
    obtain ⟨r, hr, hlt⟩ := hcurrent s hcur
    refine bind_eq_ok.mpr ⟨some r, ?_, ?_⟩
    · rw [mapM_some, hr]
      rfl
    · exact if_pos (decide_eq_true hlt)

end Records

end Rds.Discovery
