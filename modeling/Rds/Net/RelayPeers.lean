import Rds.Discovery.Basic
import Rds.Framework.Machine
import Rds.Framework.Table

/-!
# Pinned peers of a relay attachment

The relay gives every peer a synthetic address (`rds-net/src/backends/noq/relay.rs`), and a bounded
registry remembers which peer an address stands for (`relay/peers.rs`). A connection holds a `PeerLease`
for its peer. An entry with leases is pinned: no pressure and no expiry takes it out, and its pin count
is the number of the leases. Only `peer_gone` removes it.

A lease that outlives `peer_gone` is *stale*. Its entry is gone, but when it is dropped it looks for an
entry by address and peer, and it finds the one that a later lease has created: it takes that lease's
pin. `pinned_run_iff` says that pinning works in exactly the runs that drop no stale lease while a later
lease of the same peer is alive, and `pinned_staleDrop` is a run that does.
-/

namespace Rds.Relay

open Framework Discovery List Table

/-- `EndpointId`. -/
abbrev EndpointId := { b : Bytes // b.length = 32 }

/-- The largest `usize`. -/
def maxUsize : ℕ := 2 ^ 64 - 1

/-- `PeerRegistrationError`. -/
inductive PeerRegistrationError where
  | capacity
  | collision
  | referenceLimit
  deriving DecidableEq

/-- How an operation of the registry fails: it is refused, or it panics because the instant at which
an entry would expire cannot be represented. -/
inductive Fault where
  | refused (e : PeerRegistrationError)
  | overflow
  deriving DecidableEq

/-- `Entry`. The field `born` numbers the entries that were ever created; no code reads it. -/
structure Entry where
  peer : EndpointId
  pins : ℕ
  expires : ℕ
  born : ℕ
  deriving DecidableEq

/-- What a `PeerRegistry` is made with, and the latest instant of the platform. -/
structure PeerRegistry where
  blake3 : Bytes → { b : Bytes // b.length = 32 }
  slot : UInt8
  capacity : ℕ
  grace : ℕ
  lastInstant : ℕ

/-- The entries of a registry, and how many were created. -/
structure State where
  entries : Table SocketAddr Entry
  born : ℕ

/-- `canonical`: an IPv4-mapped address is the IPv4 address. -/
def canonical : SocketAddr → SocketAddr
  | .v6 ip port flow scope =>
    if h : ip.val.take 12 = List.replicate 10 0 ++ [255, 255] then
      .v4 ⟨ip.val.drop 12, by rw [List.length_drop, ip.property]⟩ port
    else .v6 ip port flow scope
  | address => address

namespace PeerRegistry

variable (self : PeerRegistry)

/-- `synthetic_for`. -/
def syntheticFor (id : EndpointId) : SocketAddr :=
  let h := (self.blake3 (utf8 "rds-relay-slot" ++ [self.slot] ++ id.val)).val
  .v4 ⟨[198, 19, self.slot, 1 + h.getD 0 0 % 254], rfl⟩
    (max (UInt16.ofNat (256 * (h.getD 1 0).toNat + (h.getD 2 0).toNat)) 1)

/-- `now + grace`, which panics if it cannot be represented. -/
def afterGrace (now : ℕ) : Option ℕ :=
  if now + self.grace ≤ self.lastInstant then some (now + self.grace) else none

end PeerRegistry

/-- The entry may be taken out. -/
def Entry.expired (self : Entry) (now : ℕ) : Bool := self.pins = 0 ∧ self.expires ≤ now

namespace State

variable (r : PeerRegistry)

/-- Take an expired entry out. -/
def sweep (entries : Table SocketAddr Entry) (address : SocketAddr) (now : ℕ) :
    Table SocketAddr Entry :=
  if (entries.get address).any (Entry.expired · now) then entries.remove address else entries

/-- The unpinned entries that expire first. -/
def oldest (entries : Table SocketAddr Entry) : List SocketAddr :=
  let unpinned := entries.rows.filter fun e => e.2.pins = 0
  (unpinned.filter fun e => unpinned.all fun e' => e.2.expires ≤ e'.2.expires).map Prod.fst

/-- Make room for an entry. If several unpinned entries expire first, which one goes depends on the
order of the table: it is `victim` if that is one of them. -/
def makeRoom (entries : Table SocketAddr Entry) (now : ℕ) (victim : SocketAddr) :
    Except PeerRegistrationError Unit × Table SocketAddr Entry :=
  if entries.size = r.capacity then
    let entries := entries.retain fun _ e => e.pins > 0 ∨ e.expires > now
    if entries.size = r.capacity then
      let oldest := oldest entries
      match if victim ∈ oldest then some victim else oldest.head? with
      | none => (.error .capacity, entries)
      | some address => (.ok (), entries.remove address)
    else (.ok (), entries)
  else (.ok (), entries)

/-- `State::admit`. -/
def admitPeer (self : State) (peer : EndpointId) (pin : Bool) (now : ℕ) (victim : SocketAddr) :
    Except Fault SocketAddr × State :=
  let address := r.syntheticFor peer
  let entries := sweep self.entries address now
  match entries.get address with
  | some entry =>
    if entry.peer ≠ peer then (.error (.refused .collision), { self with entries })
    else if pin ∧ entry.pins = maxUsize then
      (.error (.refused .referenceLimit), { self with entries })
    else
      let entry := { entry with pins := entry.pins + if pin then 1 else 0 }
      match r.afterGrace now with
      -- the pin is counted before the panic
      | none => (.error .overflow, { self with entries := entries.insert address entry })
      | some expires =>
        (.ok address, { self with entries := entries.insert address { entry with expires } })
  | none =>
    match makeRoom r entries now victim with
    | (.error e, entries) => (.error (.refused e), { self with entries })
    | (.ok (), entries) =>
      match r.afterGrace now with
      | none => (.error .overflow, { self with entries })
      | some expires =>
        (.ok address,
          { entries := entries.insert address ⟨peer, if pin then 1 else 0, expires, self.born⟩
            born := self.born + 1 })

/-- `State::get`. -/
def get (self : State) (address : SocketAddr) (now : ℕ) :
    Except Fault (Option EndpointId) × State :=
  let address := canonical address
  let entries := sweep self.entries address now
  match entries.get address with
  | none => (.ok none, { self with entries })
  | some entry =>
    match r.afterGrace now with
    | none => (.error .overflow, { self with entries })
    | some expires =>
      (.ok (some entry.peer), { self with entries := entries.insert address { entry with expires } })

/-- `PeerRegistry::peer_gone`. -/
def peerGone (self : State) (peer : EndpointId) : State :=
  { self with entries := self.entries.retain fun _ e => e.peer ≠ peer }

/-- `PeerLease::drop`. -/
def release (self : State) (address : SocketAddr) (peer : EndpointId) (now : ℕ) : State :=
  match self.entries.get address with
  | some entry =>
    if entry.peer = peer ∧ entry.pins > 0 then
      let entry := { entry with pins := entry.pins - 1 }
      let entry :=
        if entry.pins = 0 then { entry with expires := (r.afterGrace now).getD entry.expires }
        else entry
      { self with entries := self.entries.insert address entry }
    else self
  | none => self

end State

/-! ### Runs -/

/-- `PeerLease`. The entry it was acquired under, and whether `peer_gone` was not called for its peer
since, are not part of it: no code reads them. -/
structure PeerLease where
  address : SocketAddr
  peer : EndpointId
  under : ℕ
  fresh : Bool
  deriving DecidableEq

/-- A registry and the leases that are alive. -/
structure World where
  state : State
  leases : List PeerLease

/-- What can happen, and when. -/
inductive Act where
  | acquire (peer : EndpointId) (now : ℕ) (victim : SocketAddr)
  | observe (peer : EndpointId) (now : ℕ) (victim : SocketAddr)
  | get (address : SocketAddr) (now : ℕ)
  | peerGone (peer : EndpointId)
  | drop (i : ℕ) (now : ℕ)

namespace World

variable (r : PeerRegistry)

/-- A new registry. -/
def fresh : World := ⟨⟨.empty, 0⟩, []⟩

/-- The lease of an address. -/
def leaseOf (state : State) (address : SocketAddr) (peer : EndpointId) : PeerLease where
  address := address
  peer := peer
  under := ((state.entries.get address).map Entry.born).getD 0
  fresh := true

/-- `peer_gone` makes leases stale. -/
def outlive (peer : EndpointId) (l : PeerLease) : PeerLease :=
  if l.peer = peer then { l with fresh := false } else l

/-- One operation. -/
def step (w : World) : Act → World
  | .acquire peer now victim =>
    match w.state.admitPeer r peer true now victim with
    | (.ok address, state) => ⟨state, leaseOf state address peer :: w.leases⟩
    | (.error _, state) => ⟨state, w.leases⟩
  | .observe peer now victim => ⟨(w.state.admitPeer r peer false now victim).2, w.leases⟩
  | .get address now => ⟨(w.state.get r address now).2, w.leases⟩
  | .peerGone peer => ⟨w.state.peerGone peer, w.leases.map (outlive peer)⟩
  | .drop i now =>
    match w.leases[i]? with
    | none => w
    | some l => ⟨w.state.release r l.address l.peer now, w.leases.eraseIdx i⟩

/-- A run. -/
def run (w : World) (acts : List Act) : World := acts.foldl (step r) w

end World

/-! ### What a run keeps -/

/-- The leases that were acquired under an entry. -/
def holders (leases : List PeerLease) (born : ℕ) : ℕ := leases.countP fun l => l.under = born

/-- A table lost only entries without pins. -/
structure Shrinks (t t' : Table SocketAddr Entry) : Prop where
  kept : ∀ a e, t'.get a = some e → t.get a = some e
  pinned : ∀ a e, t.get a = some e → 0 < e.pins → t'.get a = some e
  size : t'.size ≤ t.size

namespace Shrinks

variable {t t' t'' : Table SocketAddr Entry}

theorem refl : Shrinks t t := ⟨fun _ _ h => h, fun _ _ h _ => h, le_rfl⟩

theorem trans (h : Shrinks t t') (h' : Shrinks t' t'') : Shrinks t t'' where
  kept a e he := h.kept a e (h'.kept a e he)
  pinned a e he hpins := h'.pinned a e (h.pinned a e he hpins) hpins
  size := h'.size.trans h.size

theorem retain {p : SocketAddr → Entry → Bool} (hp : ∀ a e, 0 < e.pins → p a e) :
    Shrinks t (t.retain p) where
  kept a e he := by
    rw [get_retain, Option.filter_eq_some_iff] at he
    exact he.1
  pinned a e he hpins := by
    rw [get_retain, Option.filter_eq_some_iff]
    exact ⟨he, hp a e hpins⟩
  size := size_retain_le p

theorem remove {a : SocketAddr} {e : Entry} (he : t.get a = some e) (hpins : e.pins = 0) :
    Shrinks t (t.remove a) where
  kept a' e' he' := Table.get_of_get_remove he'
  pinned a' e' he' hpins' := by
    rw [get_remove, if_neg]
    · exact he'
    rintro rfl
    rw [he] at he'
    cases he'
    omega
  size := size_retain_le _

end Shrinks

namespace State

variable {r : PeerRegistry} {t : Table SocketAddr Entry}

theorem sweep_shrinks (a : SocketAddr) (now : ℕ) : Shrinks t (sweep t a now) := by
  unfold sweep
  cases he : t.get a with
  | none => exact .refl
  | some e =>
    rw [Option.any_some]
    split
    · next hexp =>
      rw [Entry.expired, decide_eq_true_eq] at hexp
      exact .remove he hexp.1
    · exact .refl

theorem mem_oldest {a : SocketAddr} (h : a ∈ oldest t) : ∃ e, t.get a = some e ∧ e.pins = 0 := by
  obtain ⟨⟨a', e⟩, hmem, rfl⟩ := mem_map.mp h
  have hrow := mem_filter.mp (mem_filter.mp hmem).1
  exact ⟨e, get_eq_some_iff.mpr hrow.1, of_decide_eq_true hrow.2⟩

/-- **Making room** takes out unpinned entries only, and if it succeeds there is room. -/
theorem makeRoom_spec (ht : t.size ≤ r.capacity) (now : ℕ) (victim : SocketAddr) :
    Shrinks t (makeRoom r t now victim).2 ∧
      ((makeRoom r t now victim).1 = .ok () → (makeRoom r t now victim).2.size < r.capacity) := by
  unfold makeRoom
  split
  · have hretain : Shrinks t (t.retain fun _ e => e.pins > 0 ∨ e.expires > now) :=
      .retain fun a e hpins => decide_eq_true (Or.inl hpins)
    generalize t.retain (fun _ e => decide (e.pins > 0 ∨ e.expires > now)) = t' at hretain ⊢
    dsimp only
    split
    · next hfull =>
      split
      · exact ⟨hretain, nofun⟩
      next a ha =>
      have hmem : a ∈ oldest t' := by
        split at ha
        next hv => cases ha; exact hv
        · exact mem_of_head? ha
      obtain ⟨e, he, hpins⟩ := mem_oldest hmem
      have hsize := size_remove_of_get he
      exact ⟨hretain.trans (.remove he hpins), fun _ => by dsimp only; omega⟩
    · have := hretain.size
      exact ⟨hretain, fun _ => by dsimp only; omega⟩
  · exact ⟨.refl, fun _ => by dsimp only; omega⟩

end State

/-- **The invariant.** The entries carry as many pins as they have leases, and a lease holds on to its
entry until `peer_gone`. -/
structure Inv (r : PeerRegistry) (w : World) : Prop where
  size : w.state.entries.size ≤ r.capacity
  entry : ∀ a e, w.state.entries.get a = some e →
    a = r.syntheticFor e.peer ∧ e.born < w.state.born ∧ e.pins = holders w.leases e.born
  apart : ∀ a e a' e', w.state.entries.get a = some e → w.state.entries.get a' = some e' →
    e.born = e'.born → a = a'
  lease : ∀ l ∈ w.leases, l.address = r.syntheticFor l.peer ∧ l.under < w.state.born
  fresh : ∀ l ∈ w.leases, l.fresh →
    ∃ e, w.state.entries.get l.address = some e ∧ e.peer = l.peer ∧ e.born = l.under
  stale : ∀ l ∈ w.leases, l.fresh = false → ∀ a e, w.state.entries.get a = some e → e.born ≠ l.under

namespace Inv

variable {r : PeerRegistry} {t t' : Table SocketAddr Entry} {b : ℕ} {ls : List PeerLease}

theorem holders_pos {l : PeerLease} (hl : l ∈ ls) : 0 < holders ls l.under :=
  countP_pos_iff.mpr ⟨l, hl, decide_eq_true rfl⟩

theorem shrink (h : Inv r ⟨⟨t, b⟩, ls⟩) (ht : Shrinks t t') : Inv r ⟨⟨t', b⟩, ls⟩ where
  size := ht.size.trans h.size
  entry a e he := h.entry a e (ht.kept a e he)
  apart a e a' e' he he' := h.apart a e a' e' (ht.kept a e he) (ht.kept a' e' he')
  lease := h.lease
  fresh l hl hf := by
    obtain ⟨e, he, hpeer, hborn⟩ := h.fresh l hl hf
    -- the lease itself is one of the pins
    have hpins : 0 < e.pins := by
      rw [(h.entry _ _ he).2.2, hborn]
      exact holders_pos hl
    exact ⟨e, ht.pinned _ _ he hpins, hpeer, hborn⟩
  stale l hl hf a e he := h.stale l hl hf a e (ht.kept a e he)

/-- **An entry is written**, for a peer that has none or over the one of its number, and the leases change
with it. -/
theorem put {a : SocketAddr} {e : Entry} {b' : ℕ} {ls' : List PeerLease} (h : Inv r ⟨⟨t, b⟩, ls⟩)
    (hsize : (t.insert a e).size ≤ r.capacity) (ha : a = r.syntheticFor e.peer) (hborn : e.born < b')
    (hb : b ≤ b') (hpins : e.pins = holders ls' e.born)
    (hapart : ∀ a₁ e₁, t.get a₁ = some e₁ → e₁.born = e.born → a₁ = a)
    (hfresh : ∀ l ∈ ls, l.fresh → l.address = a → e.peer = l.peer ∧ e.born = l.under)
    (hstale : ∀ l ∈ ls, l.fresh = false → e.born ≠ l.under)
    (hls : ∀ l ∈ ls', l ∈ ls ∨ l = ⟨a, e.peer, e.born, true⟩)
    (hothers : ∀ n ≠ e.born, holders ls' n = holders ls n) :
    Inv r ⟨⟨t.insert a e, b'⟩, ls'⟩ where
  size := hsize
  entry a₁ e₁ h₁ := by
    change (t.insert a e).get a₁ = some e₁ at h₁
    rw [get_insert] at h₁
    split at h₁
    next heq =>
      cases h₁
      exact ⟨heq.trans ha, hborn, hpins⟩
    next hne =>
      obtain ⟨haddr, hlt, hcount⟩ := h.entry a₁ e₁ h₁
      exact ⟨haddr, hlt.trans_le hb, hcount.trans (hothers _ fun heq => hne (hapart a₁ e₁ h₁ heq)).symm⟩
  apart a₁ e₁ a₂ e₂ h₁ h₂ heq := by
    rcases get_insert_cases h₁ with ⟨rfl, rfl⟩ | hold₁ <;>
      rcases get_insert_cases h₂ with ⟨rfl, rfl⟩ | hold₂
    · rfl
    · exact (hapart a₂ e₂ hold₂ heq.symm).symm
    · exact hapart a₁ e₁ hold₁ heq
    · exact h.apart a₁ e₁ a₂ e₂ hold₁ hold₂ heq
  lease l hl := by
    rcases hls l hl with hl | rfl
    · exact ⟨(h.lease l hl).1, (h.lease l hl).2.trans_le hb⟩
    · exact ⟨ha, hborn⟩
  fresh l hl hf := by
    show ∃ e₁, (t.insert a e).get l.address = some e₁ ∧ _
    rw [get_insert]
    rcases hls l hl with hl | rfl
    · split
      next heq => exact ⟨e, rfl, hfresh l hl hf heq⟩
      next => exact h.fresh l hl hf
    · exact ⟨e, if_pos rfl, rfl, rfl⟩
  stale l hl hf a₁ e₁ h₁ := by
    rcases hls l hl with hmem | rfl
    · rcases get_insert_cases h₁ with ⟨-, rfl⟩ | hold
      · exact hstale l hmem hf
      · exact h.stale l hmem hf a₁ e₁ hold
    · cases hf

theorem rewrite {a : SocketAddr} {e : Entry} {pins expires : ℕ} {ls' : List PeerLease}
    (h : Inv r ⟨⟨t, b⟩, ls⟩) (he : t.get a = some e) (hpins : pins = holders ls' e.born)
    (hls : ∀ l ∈ ls', l ∈ ls ∨ l = ⟨a, e.peer, e.born, true⟩)
    (hothers : ∀ n ≠ e.born, holders ls' n = holders ls n) :
    Inv r ⟨⟨t.insert a { e with pins, expires }, b⟩, ls'⟩ := by
  obtain ⟨ha, hlt, -⟩ := h.entry a e he
  refine h.put ?_ ha hlt le_rfl hpins (fun a₁ e₁ h₁ => h.apart a₁ e₁ a e h₁ he) ?_
    (fun l hl hf => h.stale l hl hf a e he) hls hothers
  · have := size_remove_of_get he
    have := h.size
    dsimp only [World.state] at this
    rw [size_insert]
    omega
  · intro l hl hf heq
    obtain ⟨e₀, h₀, hsame⟩ := h.fresh l hl hf
    cases he.symm.trans (heq ▸ h₀)
    exact hsame

theorem touch {a : SocketAddr} {e : Entry} {expires : ℕ} (h : Inv r ⟨⟨t, b⟩, ls⟩)
    (he : t.get a = some e) : Inv r ⟨⟨t.insert a { e with expires }, b⟩, ls⟩ :=
  h.rewrite he (h.entry a e he).2.2 (fun _ => Or.inl) fun _ _ => rfl

theorem leaseOf_insert (a : SocketAddr) (e : Entry) (peer : EndpointId) :
    World.leaseOf ⟨t.insert a e, b⟩ a peer = ⟨a, peer, e.born, true⟩ := by
  unfold World.leaseOf
  rw [get_insert, if_pos rfl]
  rfl

theorem holders_cons (l : PeerLease) (n : ℕ) :
    holders (l :: ls) n = holders ls n + if l.under = n then 1 else 0 := by
  unfold holders
  rw [countP_cons]
  simp only [decide_eq_true_eq]

theorem holders_eraseIdx {l : PeerLease} {i : ℕ} (hl : ls[i]? = some l) (n : ℕ) :
    holders ls n = holders (ls.eraseIdx i) n + if l.under = n then 1 else 0 := by
  obtain ⟨hi, rfl⟩ := List.getElem?_eq_some_iff.mp hl
  rw [← holders_cons]
  exact ((getElem_cons_eraseIdx_perm hi).countP_eq _).symm

section

variable (h : Inv r ⟨⟨t, b⟩, ls⟩)
include h

theorem pin {a : SocketAddr} {e : Entry} {peer : EndpointId} {expires : ℕ} (he : t.get a = some e)
    (hpeer : e.peer = peer) :
    let s : State := ⟨t.insert a { e with pins := e.pins + 1, expires }, b⟩
    Inv r ⟨s, World.leaseOf s a peer :: ls⟩ := by
  dsimp only
  rw [leaseOf_insert, ← hpeer]
  refine h.rewrite he ?_ (fun l hl => (mem_cons.mp hl).symm) fun n hn => ?_
  · rw [holders_cons, if_pos rfl, (h.entry a e he).2.2]
  · rw [holders_cons, if_neg hn.symm, Nat.add_zero]

theorem unpin {i expires : ℕ} {l : PeerLease} {e : Entry} (hl : ls[i]? = some l)
    (he : t.get l.address = some e) (hunder : e.born = l.under) (hpins : 0 < e.pins) :
    Inv r ⟨⟨t.insert l.address { e with pins := e.pins - 1, expires }, b⟩, ls.eraseIdx i⟩ := by
  refine h.rewrite he ?_ (fun l' hl' => Or.inl (mem_of_mem_eraseIdx hl')) fun n hn => ?_
  · have hcount := holders_eraseIdx hl e.born
    rw [if_pos hunder.symm, ← (h.entry _ _ he).2.2] at hcount
    omega
  · have hcount := holders_eraseIdx hl n
    rw [if_neg (by rw [← hunder]; exact hn.symm)] at hcount
    omega

theorem forget {i : ℕ} {l : PeerLease} (hl : ls[i]? = some l)
    (hstale : l.fresh = false) : Inv r ⟨⟨t, b⟩, ls.eraseIdx i⟩ where
  size := h.size
  entry a e he := by
    have hentry := h.entry a e he
    have hcount := holders_eraseIdx hl e.born
    rw [if_neg (h.stale l (mem_of_getElem? hl) hstale a e he).symm] at hcount
    exact ⟨hentry.1, hentry.2.1, hentry.2.2.trans hcount⟩
  apart := h.apart
  lease l' hl' := h.lease l' (mem_of_mem_eraseIdx hl')
  fresh l' hl' := h.fresh l' (mem_of_mem_eraseIdx hl')
  stale l' hl' := h.stale l' (mem_of_mem_eraseIdx hl')

theorem holders_born : holders ls b = 0 := by
  refine countP_eq_zero.mpr fun l hl => ?_
  have := (h.lease l hl).2
  rw [decide_eq_true_eq]
  exact this.ne

theorem create {peer : EndpointId} {pins expires : ℕ} {ls' : List PeerLease}
    (hnone : t.get (r.syntheticFor peer) = none) (hroom : t.size < r.capacity)
    (hpins : pins = holders ls' b) (hls : ∀ l ∈ ls', l ∈ ls ∨ l = ⟨r.syntheticFor peer, peer, b, true⟩)
    (hothers : ∀ n ≠ b, holders ls' n = holders ls n) :
    Inv r ⟨⟨t.insert (r.syntheticFor peer) ⟨peer, pins, expires, b⟩, b + 1⟩, ls'⟩ := by
  refine h.put ?_ rfl (Nat.lt_succ_self b) (Nat.le_succ b) hpins
    (fun a₁ e₁ h₁ heq => absurd heq (h.entry a₁ e₁ h₁).2.1.ne) ?_
    (fun l hl _ => (h.lease l hl).2.ne') hls hothers
  · rw [size_insert, size_remove_of_none hnone]
    omega
  · intro l hl hf heq
    obtain ⟨e₀, h₀, -⟩ := h.fresh l hl hf
    cases hnone.symm.trans (heq ▸ h₀)

/-- A peer that is gone loses its entry, and its leases become stale together. -/
theorem gone (peer : EndpointId) :
    Inv r ⟨⟨t.retain fun _ e => e.peer ≠ peer, b⟩, ls.map (World.outlive peer)⟩ := by
  have hget : ∀ a e, (t.retain fun _ e => decide (e.peer ≠ peer)).get a = some e ↔
      t.get a = some e ∧ e.peer ≠ peer := by
    intro a e
    rw [get_retain, Option.filter_eq_some_iff, decide_eq_true_eq]
  -- a lease keeps everything but its freshness
  have hunder : ∀ l, (World.outlive peer l).under = l.under := by
    intro l
    unfold World.outlive
    split <;> rfl
  have hholders : ∀ n, holders (ls.map (World.outlive peer)) n = holders ls n := by
    intro n
    unfold holders
    rw [countP_map]
    exact countP_congr fun l _ => by simp [hunder]
  refine ⟨(size_retain_le _).trans h.size, ?_, ?_, ?_, ?_, ?_⟩
  · intro a e he
    obtain ⟨he, -⟩ := (hget a e).mp he
    rw [hholders]
    exact h.entry a e he
  · intro a e a' e' he he'
    exact h.apart a e a' e' ((hget a e).mp he).1 ((hget a' e').mp he').1
  · intro l hl
    obtain ⟨l, hl₀, rfl⟩ := mem_map.mp hl
    have := h.lease l hl₀
    unfold World.outlive
    split <;> exact this
  · intro l hl hf
    obtain ⟨l, hl₀, rfl⟩ := mem_map.mp hl
    unfold World.outlive at hf ⊢
    split at hf
    · cases hf
    next hne =>
    rw [if_neg hne]
    obtain ⟨e, he, hp, hb⟩ := h.fresh l hl₀ hf
    exact ⟨e, (hget _ e).mpr ⟨he, by rw [hp]; exact hne⟩, hp, hb⟩
  intro l hl hf a e he
  obtain ⟨l, hl₀, rfl⟩ := mem_map.mp hl
  obtain ⟨he, hpeer⟩ := (hget a e).mp he
  rw [hunder]
  unfold World.outlive at hf
  split at hf
  · next heq =>
    intro hborn
    -- a lease that was fresh held on to an entry of its own peer
    cases hfresh : l.fresh with
    | false => exact h.stale l hl₀ hfresh a e he hborn
    | true =>
      obtain ⟨e', he', hp, hb⟩ := h.fresh l hl₀ hfresh
      have ha := h.apart a e _ e' he he' (hborn.trans hb.symm)
      rw [ha] at he
      cases he.symm.trans he'
      exact hpeer (hp.trans heq)
  · exact h.stale l hl₀ hf a e he

end

end Inv

/-! ### The steps -/

/-- The leases after an admission. -/
def admitted (pin : Bool) (l : PeerLease) (ls : List PeerLease) : List PeerLease :=
  if pin then l :: ls else ls

/-- The invariant after an admission, with the lease if it gave one. -/
def InvAfter (r : PeerRegistry) (peer : EndpointId) (pin : Bool) (ls : List PeerLease) :
    Except Fault SocketAddr × State → Prop
  | (.ok a, s) => Inv r ⟨s, admitted pin (World.leaseOf s a peer) ls⟩
  | (.error _, s) => Inv r ⟨s, ls⟩

namespace Inv

variable {r : PeerRegistry} {s : State} {ls : List PeerLease}

theorem start : Inv r World.fresh where
  size := Nat.zero_le _
  entry _ _ he := nomatch he
  apart _ _ _ _ he := nomatch he
  lease _ hl := nomatch hl
  fresh _ hl := nomatch hl
  stale _ hl := nomatch hl

/-- **An admission.** With a pin, the instant it is made at has to leave room for the grace. -/
theorem admitPeer (h : Inv r ⟨s, ls⟩) (peer : EndpointId) (pin : Bool) (now : ℕ)
    (victim : SocketAddr) (hgrace : pin → (r.afterGrace now).isSome) :
    InvAfter r peer pin ls (s.admitPeer r peer pin now victim) := by
  have hswept := h.shrink (State.sweep_shrinks (r.syntheticFor peer) now)
  unfold State.admitPeer
  dsimp only
  generalize State.sweep s.entries (r.syntheticFor peer) now = t at hswept ⊢
  cases he : t.get (r.syntheticFor peer) with
  | some e =>
    dsimp only
    split
    · exact hswept
    next hpeer =>
    split
    · exact hswept
    cases pin with
    | true =>
      obtain ⟨expires, hat⟩ := Option.isSome_iff_exists.mp (hgrace rfl)
      rw [hat]
      exact hswept.pin he (not_not.mp hpeer)
    | false =>
      -- only an observation can be so late that it panics
      cases r.afterGrace now <;> exact hswept.touch he
  | none =>
    have hroom := State.makeRoom_spec hswept.size now victim
    have hnone : (State.makeRoom r t now victim).2.get (r.syntheticFor peer) = none := by
      refine Option.eq_none_iff_forall_ne_some.mpr fun e he' => ?_
      cases he.symm.trans (hroom.1.kept _ _ he')
    have hmade := hswept.shrink hroom.1
    generalize State.makeRoom r t now victim = made at hroom hnone hmade ⊢
    obtain ⟨outcome, t'⟩ := made
    cases outcome with
    | error e => exact hmade
    | ok _ =>
      dsimp only
      cases r.afterGrace now with
      | none => exact hmade
      | some expires =>
        cases pin with
        | true =>
          show Inv r ⟨_, World.leaseOf ⟨t'.insert _ _, _⟩ _ _ :: ls⟩
          rw [leaseOf_insert]
          refine hmade.create hnone (hroom.2 rfl) ?_ (fun l hl => (mem_cons.mp hl).symm) fun n hn => ?_
          · show 1 = _
            rw [holders_cons, if_pos rfl, hmade.holders_born]
          · rw [holders_cons, if_neg hn.symm, Nat.add_zero]
        | false =>
          exact hmade.create hnone (hroom.2 rfl) hmade.holders_born.symm (fun _ => Or.inl) fun _ _ => rfl

theorem get (h : Inv r ⟨s, ls⟩) (address : SocketAddr) (now : ℕ) :
    Inv r ⟨(s.get r address now).2, ls⟩ := by
  have hswept := h.shrink (State.sweep_shrinks (canonical address) now)
  unfold State.get
  dsimp only
  generalize State.sweep s.entries (canonical address) now = t at hswept ⊢
  cases he : t.get (canonical address) with
  | none => exact hswept
  | some e =>
    cases r.afterGrace now with
    | none => exact hswept
    | some expires => exact hswept.touch he

theorem pins_of_stale {l : PeerLease} {e : Entry} (h : Inv r ⟨s, ls⟩)
    (halone : ∀ l' ∈ ls, l'.fresh → l'.peer ≠ l.peer) (he : s.entries.get l.address = some e)
    (hpeer : e.peer = l.peer) : e.pins = 0 := by
  refine Nat.eq_zero_of_not_pos fun hpins => ?_
  rw [(h.entry _ _ he).2.2] at hpins
  obtain ⟨l', hl', hunder⟩ := countP_pos_iff.mp hpins
  rw [decide_eq_true_eq] at hunder
  cases hfresh : l'.fresh with
  | false => exact h.stale l' hl' hfresh _ e he hunder.symm
  | true =>
    obtain ⟨e', he', hp, hb⟩ := h.fresh l' hl' hfresh
    have ha := h.apart _ e' _ e he' he (hb.trans hunder)
    rw [ha] at he'
    cases he.symm.trans he'
    exact halone l' hl' hfresh (hp.symm.trans hpeer)

end Inv

/-- The instant of an acquisition leaves room for the grace. -/
def Act.Timely (r : PeerRegistry) : Act → Prop
  | .acquire _ now _ => (r.afterGrace now).isSome
  | _ => True

/-- The step drops no stale lease while a fresh lease of the same peer is alive. -/
def Act.Careful (w : World) : Act → Prop
  | .drop i _ => ∀ l, w.leases[i]? = some l → l.fresh = false →
      ∀ l' ∈ w.leases, l'.fresh → l'.peer ≠ l.peer
  | _ => True

variable {r : PeerRegistry}

/-- **One step keeps the invariant.** -/
theorem Inv.step {w : World} (h : Inv r w) (act : Act) (htimely : act.Timely r)
    (hcareful : act.Careful w) : Inv r (w.step r act) := by
  obtain ⟨s, ls⟩ := w
  cases act with
  | acquire peer now victim =>
    have hadmit := h.admitPeer peer true now victim fun _ => htimely
    show Inv r (match s.admitPeer r peer true now victim with
      | (.ok a, s') => ⟨s', World.leaseOf s' a peer :: ls⟩
      | (.error _, s') => ⟨s', ls⟩)
    generalize s.admitPeer r peer true now victim = result at hadmit
    obtain ⟨_ | a, s'⟩ := result
    · exact hadmit
    · exact hadmit
  | observe peer now victim =>
    have hadmit := h.admitPeer peer false now victim nofun
    show Inv r ⟨(s.admitPeer r peer false now victim).2, ls⟩
    generalize s.admitPeer r peer false now victim = result at hadmit
    obtain ⟨_ | a, s'⟩ := result
    · exact hadmit
    · exact hadmit
  | get address now => exact h.get address now
  | peerGone peer => exact h.gone peer
  | drop i now =>
    show Inv r (match ls[i]? with | none => ⟨s, ls⟩ | some l => ⟨s.release r l.address l.peer now, _⟩)
    cases hl : ls[i]? with
    | none => exact h
    | some l =>
      have hmem := mem_of_getElem? hl
      dsimp only
      cases hfresh : l.fresh with
      | false =>
        have hnoop : s.release r l.address l.peer now = s := by
          unfold State.release
          cases he : s.entries.get l.address with
          | none => rfl
          | some e =>
            refine if_neg fun hfound => ?_
            have := h.pins_of_stale (hcareful l hl hfresh) he hfound.1
            omega
        rw [hnoop]
        exact h.forget hl hfresh
      | true =>
        obtain ⟨e, he, hpeer, hunder⟩ := h.fresh l hmem hfresh
        have hpins : 0 < e.pins := by
          rw [(h.entry _ _ he).2.2, hunder]
          exact holders_pos hmem
        unfold State.release
        rw [he]
        dsimp only
        rw [if_pos ⟨hpeer, hpins⟩]
        split <;> exact h.unpin hl he hunder hpins

/-! ### Pinning -/

/-- **Pinning.** The registry is within its capacity, and a lease of a peer that is not gone since it was
acquired has its entry: that of its peer, the one it was acquired under, with a pin for every lease
acquired under it, and a lookup answers with the peer. -/
def Pinned (r : PeerRegistry) (w : World) : Prop :=
  w.state.entries.size ≤ r.capacity ∧
    ∀ l ∈ w.leases, l.fresh → ∃ e, w.state.entries.get l.address = some e ∧ e.peer = l.peer ∧
      e.born = l.under ∧ e.pins = holders w.leases e.born ∧
      ∀ now, (r.afterGrace now).isSome → (w.state.get r l.address now).1 = .ok (some l.peer)

theorem canonical_syntheticFor (r : PeerRegistry) (id : EndpointId) :
    canonical (r.syntheticFor id) = r.syntheticFor id := rfl

theorem State.get_of_pins {s : State} {a : SocketAddr} {e : Entry} {now : ℕ}
    (he : s.entries.get (canonical a) = some e) (hpins : 0 < e.pins)
    (hnow : (r.afterGrace now).isSome) : (s.get r a now).1 = .ok (some e.peer) := by
  have hswept := (sweep_shrinks (canonical a) now).pinned _ _ he hpins
  obtain ⟨expires, hat⟩ := Option.isSome_iff_exists.mp hnow
  unfold State.get
  dsimp only
  rw [hswept, hat]

theorem Inv.pinned {w : World} (h : Inv r w) : Pinned r w := by
  refine ⟨h.size, fun l hl hf => ?_⟩
  obtain ⟨e, he, hpeer, hunder⟩ := h.fresh l hl hf
  have hcount := (h.entry _ _ he).2.2
  have hpins : 0 < e.pins := by
    rw [hcount, hunder]
    exact holders_pos hl
  refine ⟨e, he, hpeer, hunder, hcount, fun now hnow => ?_⟩
  rw [← hpeer]
  refine State.get_of_pins ?_ hpins hnow
  rw [(h.lease l hl).1, canonical_syntheticFor, ← (h.lease l hl).1]
  exact he

/-- The converse: a step after which the leases are pinned was a careful one. -/
theorem careful_of_pinned {w : World} (h : Inv r w) (act : Act)
    (hpinned : Pinned r (w.step r act)) : act.Careful w := by
  obtain ⟨s, ls⟩ := w
  cases act with
  | drop i now =>
    intro l hl hstale l' hl' hf' hsame
    have hmem := mem_of_getElem? hl
    obtain ⟨e, he, hpeer, hunder⟩ := h.fresh l' hl' hf'
    have hcount := (h.entry _ _ he).2.2
    -- both leases have the address of the peer
    have haddr : l.address = l'.address := by
      rw [(h.lease l hmem).1, (h.lease l' hl').1, hsame]
    have hpins : 0 < e.pins := by
      rw [hcount, hunder]
      exact Inv.holders_pos hl'
    have hstep : (World.step r ⟨s, ls⟩ (.drop i now)) =
        ⟨s.release r l.address l.peer now, ls.eraseIdx i⟩ := by
      unfold World.step
      dsimp only at hl ⊢
      rw [hl]
    have hafter : ∃ e', (s.release r l.address l.peer now).entries.get l'.address = some e' ∧
        e'.born = e.born ∧ e'.pins + 1 = e.pins := by
      unfold State.release
      rw [haddr, he]
      dsimp only
      rw [if_pos ⟨hpeer.trans hsame, hpins⟩]
      refine ⟨_, by rw [get_insert, if_pos rfl], ?_, ?_⟩
      · split <;> rfl
      · split <;> exact Nat.sub_add_cancel hpins
    -- the later lease is still there
    have hstill : l' ∈ ls.eraseIdx i := by
      obtain ⟨hi, hli⟩ := List.getElem?_eq_some_iff.mp hl
      have hperm := getElem_cons_eraseIdx_perm hi
      have : l' ∈ ls[i] :: ls.eraseIdx i := hperm.mem_iff.mpr hl'
      rcases mem_cons.mp this with heq | hin
      · rw [heq, hli, hstale] at hf'
        cases hf'
      · exact hin
    rw [hstep] at hpinned
    obtain ⟨e', he', hborn', hpins'⟩ := hafter
    obtain ⟨e'', he'', -, -, hcount'', -⟩ := hpinned.2 l' hstill hf'
    cases he'.symm.trans he''
    have hholders := Inv.holders_eraseIdx hl e.born
    rw [if_neg (h.stale l hmem hstale _ e he).symm] at hholders
    dsimp only at hcount hcount'' hholders
    rw [hborn'] at hcount''
    omega
  | acquire _ _ _ => trivial
  | observe _ _ _ => trivial
  | get _ _ => trivial
  | peerGone _ => trivial

/-- **A whole run keeps the invariant** as far as its steps are careful. -/
theorem Inv.run {acts : List Act} (htimely : ∀ act ∈ acts, act.Timely r) :
    ∀ n, (∀ k < n, ∀ act, acts[k]? = some act → act.Careful (World.run r .fresh (acts.take k))) →
      Inv r (World.run r .fresh (acts.take n)) := by
  refine foldl_take_induction (P := fun n w => (∀ k < n, ∀ act, acts[k]? = some act →
    act.Careful (World.run r .fresh (acts.take k))) → Inv r w) (fun _ => Inv.start) ?_ ?_
  · intro n act hact ih hcareful
    exact (ih fun k hk => hcareful k (Nat.lt_succ_of_lt hk)).step act
      (htimely act (mem_of_getElem? hact)) (hcareful n (Nat.lt_succ_self n) act hact)
  · intro n _ ih hcareful
    exact ih fun k hk => hcareful k (Nat.lt_succ_of_lt hk)

/-- **Pinning works in every state of a run exactly if** no step of the run drops a stale lease while a
lease of the same peer that was acquired after `peer_gone` is alive. -/
theorem pinned_run_iff (r : PeerRegistry) (acts : List Act) (htimely : ∀ act ∈ acts, act.Timely r) :
    (∀ n, Pinned r (World.run r .fresh (acts.take n))) ↔
      ∀ (n : ℕ) (act : Act), acts[n]? = some act → act.Careful (World.run r .fresh (acts.take n)) := by
  constructor
  · intro hpinned n
    induction n using Nat.strong_induction_on with
    | _ n ih =>
      intro act hact
      have hinv := Inv.run htimely n fun k hk => ih k hk
      refine careful_of_pinned hinv act ?_
      have hnext := hpinned (n + 1)
      rw [World.run, foldl_take_succ hact] at hnext
      exact hnext
  · intro hcareful n
    exact (Inv.run htimely n fun k _ => hcareful k).pinned

/-- The public key of the secret key `[1; 32]`. -/
def somePeer : EndpointId :=
  ⟨[138, 136, 227, 221, 116, 9, 241, 149, 253, 82, 219, 45, 60, 186, 93, 114, 202, 103, 9, 191, 29, 148,
    18, 27, 243, 116, 136, 1, 180, 15, 111, 92], rfl⟩

/-- A registry of two peers with a grace of thirty seconds. The hash is that of `somePeer` in slot 0. -/
def twoPeers : PeerRegistry where
  blake3 _ := ⟨[117, 110, 161, 97, 93, 65, 89, 197, 210, 190, 0, 93, 243, 226, 180, 149, 20, 83, 121, 199,
    250, 21, 52, 106, 210, 150, 198, 59, 77, 179, 36, 19], rfl⟩
  slot := 0
  capacity := 2
  grace := 30
  lastInstant := 2 ^ 63 - 1

/-- An address that no entry has. -/
def nobody : SocketAddr := .v4 ⟨[0, 0, 0, 0], rfl⟩ 0

/-- The peer is leased, reported gone and leased again, and the first lease is dropped in between. -/
def earlyDrop : List Act :=
  [.acquire somePeer 1 nobody, .peerGone somePeer, .drop 0 2, .acquire somePeer 3 nobody]

/-- The same, but the first lease is dropped last. -/
def staleDrop : List Act :=
  [.acquire somePeer 1 nobody, .peerGone somePeer, .acquire somePeer 2 nobody, .drop 1 3]

/-- A stale lease that is dropped in time does no harm. -/
theorem pinned_run_iff_earlyDrop :
    (∀ act ∈ earlyDrop, act.Timely twoPeers) ∧
      ∀ n, Pinned twoPeers (World.run twoPeers .fresh (earlyDrop.take n)) := by
  have htimely : ∀ act ∈ earlyDrop, act.Timely twoPeers := by
    have hsome : ∀ now ≤ 3, (twoPeers.afterGrace now).isSome := by decide
    simp [earlyDrop, Act.Timely, hsome]
  refine ⟨htimely, (pinned_run_iff twoPeers earlyDrop htimely).mpr ?_⟩
  · intro n act hact
    match n, hact with
    | 0, hact => cases hact; trivial
    | 1, hact => cases hact; trivial
    | 2, hact =>
      cases hact
      intro l _ _ l' hl' hf'
      -- the only lease there is is stale
      have hstale : (World.run twoPeers .fresh (earlyDrop.take 2)).leases.all fun l => !l.fresh := by
        decide +kernel
      have := all_eq_true.mp hstale l' hl'
      simp [hf'] at this
    | 3, hact => cases hact; trivial

/-- **A stale lease takes the pin of the lease that is alive**: its entry has no pin left, and once the
grace is over a lookup finds no peer. -/
theorem pinned_staleDrop :
    ((World.run twoPeers .fresh staleDrop).leases.map fun l => (l.peer, l.fresh))
        = [(somePeer, true)] ∧
      ((World.run twoPeers .fresh staleDrop).state.get twoPeers (twoPeers.syntheticFor somePeer) 100).1
        = .ok none ∧
      ¬ ∀ n, Pinned twoPeers (World.run twoPeers .fresh (staleDrop.take n)) := by
  refine ⟨by decide +kernel, by decide +kernel, fun hpinned => ?_⟩
  have hlast := hpinned 4
  have hmem : ⟨twoPeers.syntheticFor somePeer, somePeer, 1, true⟩
      ∈ (World.run twoPeers .fresh (staleDrop.take 4)).leases := by decide +kernel
  obtain ⟨e, he, -, -, -, hget⟩ := hlast.2 _ hmem rfl
  have hnone : ((World.run twoPeers .fresh (staleDrop.take 4)).state.get twoPeers
      (twoPeers.syntheticFor somePeer) 100).1 = .ok none := by decide +kernel
  cases hnone.symm.trans (hget 100 (by decide))

end Rds.Relay
