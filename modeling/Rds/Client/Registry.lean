import Rds.Client.Sessions

/-!
# The invariant of the session registry

`Registered` is what holds of the state, the channels and the live reservations
between any two critical sections. Its clauses need each other: that a session is
renewed by at most one reservation rests on `admitted`, since `commit` clears
`renewing` whoever calls it, and `admitted` rests on the channel of a session being
the one of its admission, which holds because session ids are not drawn twice
(`unused`).

* `Registered.restrict` and `Registered.forget` are the two ways to lose something:
  sessions disappear, reservations are dropped.
* `Registered.admission`, `Registered.renew`, `Registered.commitRenewal` and
  `Registered.commitAdmission` are the ways to change an entry.
* `registered_step` puts them together for every action.
-/

namespace Rds.Local

open Framework Std List Multiset Option Manager State ExtTreeMap

/-! ### The invariant -/

/-- The reservation is a renewal of `id` that is not committed. -/
def Reservation.Renews (id : SessionId) (r : Reservation) : Prop :=
  r.id = id ∧ r.ready = none ∧ r.committed = false

instance (id : SessionId) : DecidablePred (Reservation.Renews id) :=
  fun _ => inferInstanceAs (Decidable (_ ∧ _ ∧ _))

/-- The value of a channel. -/
def channelValue (channels : List Bool) (c : ℕ) : Bool := channels[c]?.getD false

/-- What holds between two critical sections, if no id of `future` was drawn before. -/
structure Registered (s : State) (channels : List Bool) (live : Multiset Reservation)
    (future : List SessionId) : Prop where
  size_le : s.entries.size ≤ maxSessions
  peer_inj : ∀ (i j : SessionId) (e f : Entry), s.entries[i]? = some e → s.entries[j]? = some f →
    e.peer = f.peer → i = j
  selected : ∀ id, s.selected = some id → ∃ e, s.entries[id]? = some e
  stopped : s.stopped = true → ∀ id : SessionId, s.entries[id]? = none
  renewals : ∀ (id : SessionId) (e : Entry), s.entries[id]? = some e →
    live.countP (Reservation.Renews id) = if e.renewing then 1 else 0
  /-- A session that is not ready waits for its admission, and is not renewed. -/
  admitted : ∀ (id : SessionId) (e : Entry), s.entries[id]? = some e →
    channelValue channels e.ready = false → e.renewing = false ∧
      ∃ r ∈ live, r.id = id ∧ r.ready = some e.ready ∧ r.committed = false
  /-- An admission has the channel of its session, and only `commit` sends on it. -/
  channel : ∀ r ∈ live, ∀ c, r.ready = some c → c < channels.length ∧
    (r.committed = false → channelValue channels c = false) ∧
    ∀ e, s.entries[r.id]? = some e → e.ready = c
  senders : (live.filterMap Reservation.ready).Nodup
  unused : ∀ id ∈ future, s.entries[id]? = none ∧ ∀ r ∈ live, r.id ≠ id

/-- The entries differ at most in their credential and connection. -/
structure Entry.Like (e' e : Entry) : Prop where
  peer : e'.peer = e.peer
  ready : e'.ready = e.ready
  renewing : e'.renewing = e.renewing

theorem State.entries_update (s : State) (id j : SessionId) (e' : Entry) :
    (s.update id e').entries[j]? = if id = j then some e' else s.entries[j]? := lookup_insert

theorem State.lookup_update {s : State} {id j : SessionId} {e' f : Entry}
    (h : (s.update id e').entries[j]? = some f) :
    j = id ∧ f = e' ∨ j ≠ id ∧ s.entries[j]? = some f := by
  rw [entries_update] at h
  split at h
  next hid => exact .inl ⟨hid.symm, (some.inj h).symm⟩
  next hid => exact .inr ⟨fun hj => hid hj.symm, h⟩

theorem State.exists_update {s : State} {id j : SessionId} {e' : Entry}
    (h : ∃ f, s.entries[j]? = some f) : ∃ f, (s.update id e').entries[j]? = some f := by
  rw [entries_update]
  split
  · exact ⟨e', rfl⟩
  · exact h

theorem channelValue_concat (channels : List Bool) (c : ℕ) :
    channelValue (channels ++ [false]) c = channelValue channels c := by
  unfold channelValue
  rw [getElem?_append]
  split
  · rfl
  · next hlt =>
    rw [getElem?_eq_none (Nat.not_lt.mp hlt)]
    cases c - channels.length <;> rfl

theorem channelValue_set_self {channels : List Bool} {c : ℕ} (h : c < channels.length) :
    channelValue (channels.set c true) c = true := by
  unfold channelValue
  rw [getElem?_set_self h]
  rfl

theorem channelValue_set_ne {channels : List Bool} {c d : ℕ} (h : c ≠ d) :
    channelValue (channels.set c true) d = channelValue channels d := by
  unfold channelValue
  rw [getElem?_set_ne h]

namespace Registered

variable {s s' : State} {channels : List Bool} {live : Multiset Reservation}
  {future : List SessionId} {r : Reservation} {id : SessionId} {e : Entry}

theorem new (instance_ : SessionId) (endpoint : Bytes) (future : List SessionId) :
    Registered (.new instance_ endpoint) [] 0 future where
  size_le := by
    exact Nat.zero_le _
  peer_inj i j e f he := by simp [State.new] at he
  selected id h := by simp [State.new] at h
  stopped h := by simp [State.new] at h
  renewals id e he := by simp [State.new] at he
  admitted id e he := by simp [State.new] at he
  channel r hr := absurd hr (notMem_zero r)
  senders := nodup_zero
  unused id _ := ⟨by simp [State.new], fun r hr => absurd hr (notMem_zero r)⟩

theorem changed (h : Registered s channels live future) :
    Registered s.changed channels live future := { h with }

/-- **Sessions disappear**, or get a connection or a credential. -/
theorem restrict (h : Registered s channels live future)
    (hsub : ∀ (id : SessionId) (e' : Entry), s'.entries[id]? = some e' →
      ∃ e, s.entries[id]? = some e ∧ e'.Like e) (hsize : s'.entries.size ≤ s.entries.size)
    (hsel : ∀ id, s'.selected = some id → ∃ e, s'.entries[id]? = some e)
    (hstop : s'.stopped = true → ∀ id : SessionId, s'.entries[id]? = none) :
    Registered s' channels live future where
  size_le := hsize.trans h.size_le
  peer_inj i j e' f' he' hf' hpeer := by
    obtain ⟨e, he, hlike⟩ := hsub i e' he'
    obtain ⟨f, hf, hlike'⟩ := hsub j f' hf'
    exact h.peer_inj i j e f he hf (hlike.peer.symm.trans (hpeer.trans hlike'.peer))
  selected := hsel
  stopped := hstop
  renewals id e' he' := by
    obtain ⟨e, he, hlike⟩ := hsub id e' he'
    rw [hlike.renewing]
    exact h.renewals id e he
  admitted id e' he' hready := by
    obtain ⟨e, he, hlike⟩ := hsub id e' he'
    rw [hlike.ready] at hready ⊢
    rw [hlike.renewing]
    exact h.admitted id e he hready
  channel r hr c hc := by
    obtain ⟨hlt, hvalue, hentry⟩ := h.channel r hr c hc
    refine ⟨hlt, hvalue, fun e' he' => ?_⟩
    obtain ⟨e, he, hlike⟩ := hsub r.id e' he'
    exact hlike.ready.trans (hentry e he)
  senders := h.senders
  unused id hid := by
    obtain ⟨hentry, hlive⟩ := h.unused id hid
    refine ⟨eq_none_iff_forall_ne_some.mpr fun e' he' => ?_, hlive⟩
    obtain ⟨e, he, -⟩ := hsub id e' he'
    exact absurd (he.symm.trans hentry) (some_ne_none e)

/-- **A reservation is dropped** whose session is gone, or that was committed. -/
theorem forget (h : Registered s channels (r ::ₘ live) future)
    (hr : r.committed = true ∨ s.entries[r.id]? = none) :
    Registered s channels live future where
  size_le := h.size_le
  peer_inj := h.peer_inj
  selected := h.selected
  stopped := h.stopped
  renewals id e he := by
    -- no session that is left was renewed by this reservation
    have hnot : ¬ r.Renews id := by
      rintro ⟨rfl, -, hcommitted⟩
      cases hr with
      | inl hc => exact absurd (hc.symm.trans hcommitted) (by decide)
      | inr hnone => exact absurd (he.symm.trans hnone) (some_ne_none e)
    rw [← h.renewals id e he, countP_cons_of_neg _ hnot]
  admitted id e he hready := by
    obtain ⟨hrenewing, q, hq, hid, hsender, hcommitted⟩ := h.admitted id e he hready
    refine ⟨hrenewing, q, ?_, hid, hsender, hcommitted⟩
    -- nor did it admit one
    cases Multiset.mem_cons.mp hq with
    | inr hq => exact hq
    | inl hq =>
      subst hq
      cases hr with
      | inl hc => exact absurd (hc.symm.trans hcommitted) (by decide)
      | inr hnone => exact absurd (he.symm.trans (hid ▸ hnone)) (some_ne_none e)
  channel q hq := h.channel q (mem_cons_of_mem hq)
  senders := by
    have hnodup := h.senders
    cases hready : r.ready with
    | none => rwa [filterMap_cons_none _ _ hready] at hnodup
    | some c =>
      rw [Multiset.filterMap_cons_some _ _ _ hready] at hnodup
      exact (Multiset.nodup_cons.mp hnodup).2
  unused id hid :=
    let ⟨hentry, hlive⟩ := h.unused id hid
    ⟨hentry, fun q hq => hlive q (mem_cons_of_mem hq)⟩

theorem peer_inj_update {e' : Entry} (h : Registered s channels live future)
    (hpeer : ∀ (j : SessionId) (f : Entry), s.entries[j]? = some f → f.peer = e'.peer → j = id) :
    ∀ (i j : SessionId) (e f : Entry), (s.update id e').entries[i]? = some e →
      (s.update id e').entries[j]? = some f → e.peer = f.peer → i = j := by
  intro i j e f he hf heq
  rcases lookup_update he with ⟨rfl, rfl⟩ | ⟨-, he'⟩ <;> rcases lookup_update hf with ⟨rfl, rfl⟩ | ⟨-, hf'⟩
  · rfl
  · exact (hpeer j f hf' heq.symm).symm
  · exact hpeer i e he' heq
  · exact h.peer_inj i j e f he' hf' heq

/-- **A new session.** -/
theorem admission (h : Registered s channels live (id :: future)) (hnodup : id ∉ future)
    (hsize : s.entries.size < maxSessions) (hstop : s.stopped = false)
    (peer : EndpointId) (credential : Option Credential) (cancel : ℕ)
    (hpeer : ∀ (j : SessionId) (f : Entry), s.entries[j]? = some f → f.peer ≠ peer) :
    Registered (s.update id ⟨peer, credential, false, cancel, none, channels.length⟩)
      (channels ++ [false]) (⟨id, cancel, false, some channels.length⟩ ::ₘ live) future where
  size_le := by
    show (s.entries.insert id _).size ≤ maxSessions
    rw [size_insert]
    split <;> omega
  peer_inj := h.peer_inj_update fun j f hf heq => absurd heq (hpeer j f hf)
  selected j hj := exists_update (h.selected j hj)
  stopped hs := absurd (hstop.symm.trans hs) (by decide)
  renewals j f hf := by
    -- the admission renews nothing, and nobody has renewed a session of this id
    rw [countP_cons_of_neg _ fun hr => some_ne_none _ hr.2.1]
    rcases lookup_update hf with ⟨rfl, rfl⟩ | ⟨-, hf'⟩
    · exact countP_eq_zero.mpr fun q hq hr =>
        (h.unused j mem_cons_self).2 q hq hr.1
    · exact h.renewals j f hf'
  admitted j f hf hready := by
    rcases lookup_update hf with ⟨rfl, rfl⟩ | ⟨-, hf'⟩
    · exact ⟨rfl, _, mem_cons_self _ _, rfl, rfl, rfl⟩
    · rw [channelValue_concat] at hready
      obtain ⟨hrenewing, q, hq, hadmits⟩ := h.admitted j f hf' hready
      exact ⟨hrenewing, q, mem_cons_of_mem hq, hadmits⟩
  channel q hq c hc := by
    rw [length_append, channelValue_concat]
    rcases Multiset.mem_cons.mp hq with rfl | hq
    · obtain rfl := some.inj hc
      refine ⟨Nat.lt_succ_self _, fun _ => ?_, fun f hf => ?_⟩
      · show channels[channels.length]?.getD false = false
        rw [getElem?_eq_none (Nat.le_refl _)]
        rfl
      · rcases lookup_update hf with ⟨-, rfl⟩ | ⟨hne, -⟩
        · rfl
        · exact absurd rfl hne
    · obtain ⟨hlt, hvalue, hentry⟩ := h.channel q hq c hc
      refine ⟨Nat.lt_succ_of_lt hlt, hvalue, fun f hf => ?_⟩
      rcases lookup_update hf with ⟨hid, -⟩ | ⟨-, hf'⟩
      · exact absurd hid ((h.unused id mem_cons_self).2 q hq)
      · exact hentry f hf'
  senders := by
    rw [Multiset.filterMap_cons_some Reservation.ready _ _ rfl]
    refine Multiset.nodup_cons.mpr ⟨fun hmem => ?_, h.senders⟩
    obtain ⟨q, hq, hc⟩ := (mem_filterMap _ _).mp hmem
    exact absurd (h.channel q hq _ hc).1 (Nat.lt_irrefl _)
  unused j hj := by
    obtain ⟨hentry, hlive⟩ := h.unused j (mem_cons_of_mem _ hj)
    have hne : id ≠ j := fun hid => hnodup (hid ▸ hj)
    refine ⟨?_, fun q hq => ?_⟩
    · rw [entries_update, if_neg hne]
      exact hentry
    · rcases Multiset.mem_cons.mp hq with rfl | hq
      · exact hne
      · exact hlive q hq

/-- **A renewal starts or ends** for a session that is ready. The admissions among the
reservations are the same as before. -/
theorem setRenewing {live' : Multiset Reservation} (h : Registered s channels live future)
    (he : s.entries[id]? = some e) (hready : channelValue channels e.ready = true) (b : Bool)
    (hcount : live'.countP (Reservation.Renews id) = if b then 1 else 0)
    (hother : ∀ j ≠ id, live'.countP (Reservation.Renews j) = live.countP (Reservation.Renews j))
    (hmem : ∀ q c, q.ready = some c → (q ∈ live' ↔ q ∈ live))
    (hsenders : live'.filterMap Reservation.ready = live.filterMap Reservation.ready)
    (hids : ∀ q ∈ live', q.id = id ∨ q ∈ live) :
    Registered (s.update id { e with renewing := b }) channels live' future where
  size_le := by
    show (s.entries.insert id _).size ≤ maxSessions
    rw [size_insert_of_lookup he]
    exact h.size_le
  peer_inj := h.peer_inj_update fun j f hf heq => h.peer_inj j id f e hf he heq
  selected j hj := exists_update (h.selected j hj)
  stopped hs := absurd (he.symm.trans (h.stopped hs id)) (some_ne_none e)
  renewals j f hf := by
    rcases lookup_update hf with ⟨rfl, rfl⟩ | ⟨hne, hf'⟩
    · exact hcount
    · rw [hother j hne]
      exact h.renewals j f hf'
  admitted j f hf hfalse := by
    rcases lookup_update hf with ⟨rfl, rfl⟩ | ⟨-, hf'⟩
    · exact absurd (hready.symm.trans hfalse) (by decide)
    · obtain ⟨hrenewing, q, hq, hid, hsender, hcommitted⟩ := h.admitted j f hf' hfalse
      exact ⟨hrenewing, q, (hmem q _ hsender).mpr hq, hid, hsender, hcommitted⟩
  channel q hq c hc := by
    obtain ⟨hlt, hvalue, hentry⟩ := h.channel q ((hmem q c hc).mp hq) c hc
    refine ⟨hlt, hvalue, fun f hf => ?_⟩
    rcases lookup_update hf with ⟨hid, rfl⟩ | ⟨-, hf'⟩
    · exact hentry e (hid ▸ he)
    · exact hentry f hf'
  senders := hsenders ▸ h.senders
  unused j hj := by
    obtain ⟨hentry, hlive⟩ := h.unused j hj
    have hne : id ≠ j := by
      rintro rfl
      exact absurd (he.symm.trans hentry) (some_ne_none e)
    refine ⟨?_, fun q hq => ?_⟩
    · rw [entries_update, if_neg hne]
      exact hentry
    · rcases hids q hq with hid | hq'
      · exact fun hqj => hne (hid.symm.trans hqj)
      · exact hlive q hq'

/-- **A renewal starts.** -/
theorem renew (h : Registered s channels live future) (he : s.entries[id]? = some e)
    (hready : channelValue channels e.ready = true) (hrenewing : e.renewing = false) (cancel : ℕ) :
    Registered (s.update id { e with renewing := true }) channels
      (⟨id, cancel, false, none⟩ ::ₘ live) future := by
  apply h.setRenewing he hready
  · have hnone := h.renewals id e he
    rw [hrenewing] at hnone
    rw [countP_cons_of_pos _ ⟨rfl, rfl, rfl⟩, hnone]
    rfl
  · intro j hj
    exact countP_cons_of_neg _ fun hr => hj hr.1.symm
  · intro q c hc
    refine ⟨fun hq => ?_, mem_cons_of_mem⟩
    rcases Multiset.mem_cons.mp hq with rfl | hq
    · exact absurd hc.symm (some_ne_none c)
    · exact hq
  · exact filterMap_cons_none _ _ rfl
  · intro q hq
    rcases Multiset.mem_cons.mp hq with rfl | hq
    · exact .inl rfl
    · exact .inr hq

/-- **A renewal is committed.** It is the one that set the flag `commit` clears. -/
theorem commitRenewal (h : Registered s channels (r ::ₘ live) future) (hr : r.ready = none)
    (hc : r.committed = false) (he : s.entries[r.id]? = some e) :
    e.renewing = true ∧ Registered (s.update r.id { e with renewing := false }) channels
        ({ r with committed := true } ::ₘ live) future := by
  have hcount := h.renewals r.id e he
  rw [countP_cons_of_pos _ ⟨rfl, hr, hc⟩] at hcount
  have hrenewing : e.renewing = true := by
    by_contra hnot
    rw [if_neg hnot] at hcount
    exact absurd hcount (Nat.succ_ne_zero _)
  rw [if_pos hrenewing] at hcount
  have hready : channelValue channels e.ready = true := by
    by_contra hnot
    have hfalse := (h.admitted r.id e he (Bool.not_eq_true _ ▸ hnot)).1
    exact absurd (hfalse.symm.trans hrenewing) (by decide)
  refine ⟨hrenewing, ?_⟩
  apply h.setRenewing he hready
  · rw [countP_cons_of_neg _ fun hr' => Bool.noConfusion hr'.2.2]
    exact Nat.succ.inj hcount
  · intro j hj
    rw [countP_cons_of_neg _ fun hr' => hj hr'.1.symm, countP_cons_of_neg _ fun hr' => hj hr'.1.symm]
  · intro q c hq
    have hne : q.ready ≠ none := fun hnone => some_ne_none c (hq.symm.trans hnone)
    rw [Multiset.mem_cons, Multiset.mem_cons]
    exact or_congr_left ⟨fun heq => absurd (heq ▸ hr) hne, fun heq => absurd (heq ▸ hr) hne⟩
  · rw [filterMap_cons_none _ _ hr]
    exact filterMap_cons_none _ _ hr
  intro q hq
  rcases Multiset.mem_cons.mp hq with rfl | hq
  · exact .inl rfl
  · exact .inr (mem_cons_of_mem hq)

/-- **An admission is committed.** Its session is not renewed yet, so there is no flag
to clear. -/
theorem commitAdmission {c : ℕ} (h : Registered s channels (r ::ₘ live) future)
    (hr : r.ready = some c) (hc : r.committed = false) (he : s.entries[r.id]? = some e) :
    e.renewing = false ∧
      Registered s (channels.set c true) ({ r with committed := true } ::ₘ live) future := by
  obtain ⟨hlt, hvalue, hentry⟩ := h.channel r (mem_cons_self _ _) c hr
  have hrenewing := (h.admitted r.id e he (hentry e he ▸ hvalue hc)).1
  have hsenders := h.senders
  rw [Multiset.filterMap_cons_some Reservation.ready _ _ hr, Multiset.nodup_cons] at hsenders
  -- each channel has one sender, so no other reservation sees it change
  have hother : ∀ q ∈ live, ∀ d, q.ready = some d → c ≠ d := by
    rintro q hq d hd rfl
    exact hsenders.1 ((mem_filterMap _ _).mpr ⟨q, hq, hd⟩)
  refine ⟨hrenewing, ?_⟩
  exact {
    size_le := h.size_le
    peer_inj := h.peer_inj
    selected := h.selected
    stopped := h.stopped
    renewals := fun j f hf => by
      have hneg : ∀ b, ¬ Reservation.Renews j { r with committed := b } :=
        fun b hrenews => some_ne_none c (hr.symm.trans hrenews.2.1)
      rw [← h.renewals j f hf, countP_cons_of_neg _ (hneg true)]
      exact (countP_cons_of_neg _ (hneg r.committed)).symm
    admitted := fun j f hf hfalse => by
      have hne : c ≠ f.ready := by
        rintro rfl
        exact absurd ((channelValue_set_self hlt).symm.trans hfalse) (by decide)
      rw [channelValue_set_ne hne] at hfalse
      obtain ⟨hnot, q, hq, hid, hsender, hcommitted⟩ := h.admitted j f hf hfalse
      refine ⟨hnot, q, ?_, hid, hsender, hcommitted⟩
      rcases Multiset.mem_cons.mp hq with rfl | hq
      · exact absurd (some.inj (hr.symm.trans hsender)) hne
      · exact mem_cons_of_mem hq
    channel := fun q hq d hd => by
      rw [length_set]
      rcases Multiset.mem_cons.mp hq with rfl | hq
      · obtain rfl := some.inj (hr.symm.trans hd)
        exact ⟨hlt, fun hfalse => Bool.noConfusion hfalse, hentry⟩
      · rw [channelValue_set_ne (hother q hq d hd)]
        exact h.channel q (mem_cons_of_mem hq) d hd
    senders := by
      rw [Multiset.filterMap_cons_some Reservation.ready { r with committed := true } _ hr]
      exact Multiset.nodup_cons.mpr hsenders
    unused := fun j hj => by
      obtain ⟨hnone, hlive⟩ := h.unused j hj
      refine ⟨hnone, fun q hq => ?_⟩
      rcases Multiset.mem_cons.mp hq with rfl | hq
      · exact hlive r (mem_cons_self _ _)
      · exact hlive q (mem_cons_of_mem hq) }

theorem mono {future' : List SessionId} (h : Registered s channels live future)
    (hsub : ∀ id ∈ future', id ∈ future) : Registered s channels live future' :=
  { h with unused := fun id hid => h.unused id (hsub id hid) }

/-! ### Losing sessions -/

theorem prune (h : Registered s channels live future) (isClosed : ℕ → Bool) :
    Registered (s.prune isClosed) channels live future := by
  let kept := s.entries.filter fun _ e => !e.conn.any isClosed
  have hsub : ∀ (id : SessionId) (e' : Entry), kept[id]? = some e' →
      ∃ e, s.entries[id]? = some e ∧ e'.Like e := by
    intro id e' he'
    rw [lookup_filter] at he'
    exact ⟨e', (filter_eq_some_iff.mp he').1, rfl, rfl, rfl⟩
  have hsize : kept.size ≤ s.entries.size := size_filter_le_size
  have hstop : s.stopped = true → ∀ id : SessionId, kept[id]? = none := by
    intro hs id
    rw [lookup_filter, h.stopped hs id]
    rfl
  unfold State.prune
  dsimp only
  split
  · refine (h.restrict hsub hsize (fun id hid => ?_) hstop).changed
    -- the selection survives only if its entry does
    split at hid
    · exact absurd hid.symm (some_ne_none id)
    · next hany =>
      rw [hid, any_some, Bool.not_eq_true', Bool.not_eq_false, contains_eq_isSome_getElem?] at hany
      exact isSome_iff_exists.mp hany
  next hall =>
  have hkept : kept = s.entries :=
    filter_eq_self_iff.mpr
      (size_filter_eq_size_iff.mp (not_not.mp hall))
  refine h.restrict hsub hsize (fun id hid => ?_) hstop
  show ∃ e, kept[id]? = some e
  rw [hkept]
  exact h.selected id hid

theorem remove (h : Registered s channels live future) (id : SessionId) :
    Registered (s.remove id).2 channels live future ∧ (s.remove id).2.entries[id]? = none := by
  unfold State.remove
  split
  next hnone => exact ⟨h, hnone⟩
  have herase : ∀ j : SessionId, (s.entries.erase id)[j]? = if id = j then none else s.entries[j]? :=
    fun _ => lookup_erase
  refine ⟨(h.restrict (fun j e he => ?_) size_erase_le (fun j hj => ?_)
    (fun hs j => ?_)).changed, ?_⟩
  · rw [herase] at he
    split at he
    · exact absurd he.symm (some_ne_none e)
    · exact ⟨e, he, rfl, rfl, rfl⟩
  · split at hj
    · exact absurd hj.symm (some_ne_none j)
    · next hne =>
      rw [herase, if_neg fun hid : id = j => hne (hid ▸ hj)]
      exact h.selected j hj
  · rw [herase, h.stopped hs j]
    exact ite_self _
  · exact (herase id).trans (if_pos rfl)

end Registered

/-! ### Critical sections -/

/-- A critical section that started in `m` ends in `m'`, with the reservations `live`. -/
structure Keeps (m : Manager) (live : Multiset Reservation) (future : List SessionId)
    (m' : Manager) : Prop where
  registered : Registered m'.state m'.channels live future
  workers : m'.workers = m.workers
  stopped : m.state.stopped = true → m'.state.stopped = true

/-- The reservations, and one more if there is one. -/
def holding (r : Option Reservation) (live : Multiset Reservation) : Multiset Reservation :=
  r.elim live (· ::ₘ live)

/-- The reservation `reserve` made. -/
def Reserved.reservation : Reserved → Option Reservation
  | .new r => some r.1
  | .existing _ | .pending _ => none

section Sections

variable {m m' : Manager} {live : Multiset Reservation} {future : List SessionId}
  {r : Reservation} {id : SessionId}

/-- The rule for `lock`: a caller that gets the guard finds a pruned state that is not
stopped. -/
theorem Manager.locked_rule {α : Type} {body : Manager → Except ErrorCode α × Manager}
    {P : Except ErrorCode α × Manager → Prop} (herror : ∀ e, P (.error e, m))
    (hbody : m.state.stopped = false → P (body m.prune)) : P (m.locked body) := by
  unfold locked
  split
  · exact herror _
  · split
    · exact herror _
    next hstop => exact hbody (Bool.not_eq_true _ ▸ hstop)

theorem State.stopped_prune (s : State) (isClosed : ℕ → Bool) :
    (s.prune isClosed).stopped = s.stopped := by
  unfold State.prune
  dsimp only
  split <;> rfl

theorem Registered.update {s : State} {channels : List Bool} {e e' : Entry}
    (h : Registered s channels live future) (he : s.entries[id]? = some e) (hlike : e'.Like e) :
    Registered (s.update id e') channels live future := by
  refine h.restrict (fun j f hf => ?_) (Nat.le_of_eq (size_insert_of_lookup he))
    (fun j hj => exists_update (h.selected j hj))
    (fun hs => absurd (he.symm.trans (h.stopped hs id)) (some_ne_none e))
  rcases lookup_update hf with ⟨rfl, rfl⟩ | ⟨-, hf'⟩
  · exact ⟨e, he, hlike⟩
  · exact ⟨f, hf', rfl, rfl, rfl⟩

theorem Registered.select {s : State} {channels : List Bool} {selected : Option SessionId}
    (h : Registered s channels live future)
    (hsel : ∀ id, selected = some id → ∃ e, s.entries[id]? = some e) :
    Registered { s with selected } channels live future := { h with selected := hsel }

theorem existing_ne_new (m : Manager) (peer : EndpointId) (credential : Option Credential)
    (r : Uncommitted) : (m.existing peer credential).1 ≠ .ok (some (.new r)) := by
  refine locked_rule (P := fun x => x.1 ≠ .ok (some (Reserved.new r))) (fun _ => nofun)
    fun _ => ?_
  unfold existingIn
  split
  · exact nofun
  split
  · exact nofun
  · split
    · exact nofun
    · split <;> exact nofun

theorem State.lookup_of_connection {s : State} {ready : ℕ → Bool} {x : SessionId × ℕ}
    (h : s.connection ready (some id) = .ok x) : ∃ e, s.entries[id]? = some e := by
  unfold connection at h
  rw [some_or] at h
  dsimp only at h
  split at h
  · exact nomatch h
  next entry he => exact ⟨entry, he⟩

section

variable (h : Registered m.state m.channels live future)
include h

theorem Keeps.refl : Keeps m live future m :=
  ⟨h, rfl, id⟩

theorem Keeps.prune :
    Keeps m live future m.prune :=
  ⟨h.prune m.isClosed, rfl, fun hs => (m.state.stopped_prune m.isClosed).trans hs⟩

theorem Keeps.locked {α : Type} {body : Manager → Except ErrorCode α × Manager}
    (hbody : Keeps m live future m.prune → Keeps m live future (body m.prune).2) :
    Keeps m live future (m.locked body).2 :=
  locked_rule (P := fun x => Keeps m live future x.2) (fun _ => .refl h)
    fun _ => hbody (.prune h)

/-- If nothing is found, the peer has no entry and the manager still runs. -/
theorem existing_spec (peer : EndpointId) (credential : Option Credential) :
    Keeps m live future (m.existing peer credential).2 ∧ ((m.existing peer credential).1 = .ok none →
        (m.existing peer credential).2.state.stopped = false ∧
        ∀ (j : SessionId) (f : Entry),
          (m.existing peer credential).2.state.entries[j]? = some f → f.peer ≠ peer) := by
  refine locked_rule
    (P := fun x => Keeps m live future x.2 ∧ (x.1 = .ok none → x.2.state.stopped = false ∧
      ∀ (j : SessionId) (f : Entry), x.2.state.entries[j]? = some f → f.peer ≠ peer))
    (fun e => ⟨.refl h, fun hok => nomatch hok⟩) fun hstop => ⟨.prune h, fun hok => ?_⟩
  refine ⟨(m.state.stopped_prune m.isClosed).trans hstop, fun j f hf hpeer => ?_⟩
  unfold existingIn at hok
  split at hok
  · next hnone =>
    have hmem := mem_toList_iff_getElem?_eq_some.mpr hf
    exact absurd (decide_eq_true hpeer) (find?_eq_none.mp hnone (j, f) hmem)
  -- the peer was found, so the answer is an error or a session
  split at hok
  · exact nomatch hok
  · split at hok
    · exact nomatch hok
    · split at hok <;> exact nomatch hok

theorem attach_spec (r : Reservation) (conn : ℕ) :
    Keeps m live future (m.attach r conn).2 := by
  refine Keeps.locked h fun hp => ?_
  split
  · exact hp
  next entry he =>
  have hup : Registered (m.prune.state.update r.id { entry with conn := some conn })
      m.prune.channels live future := hp.registered.update he ⟨rfl, rfl, rfl⟩
  refine ⟨(hup.select fun j hj => ?_).changed, hp.workers, hp.stopped⟩
  split at hj
  · obtain rfl := some.inj hj
    exact exists_update ⟨entry, he⟩
  · exact hup.selected j hj

theorem authorized_spec (r : Reservation)
    (credential : Credential) : Keeps m live future (m.authorized r credential).2 := by
  refine Keeps.locked h fun hp => ?_
  split
  · exact hp
  next entry he => exact ⟨hp.registered.update he ⟨rfl, rfl, rfl⟩, hp.workers, hp.stopped⟩

theorem select_spec (session : SessionId) :
    Keeps m live future (m.select session).2 := by
  refine Keeps.locked h fun hp => ?_
  split
  · exact hp
  next hconn =>
  split
  · refine ⟨(hp.registered.select fun j hj => ?_).changed, hp.workers, hp.stopped⟩
    obtain rfl := some.inj hj
    exact lookup_of_connection hconn
  · exact hp

theorem remove_spec (id : SessionId) :
    Keeps m live future (m.remove id).2 where
  registered := (h.remove id).1
  workers := rfl
  stopped hs := by
    show (m.state.remove id).2.stopped = true
    unfold State.remove
    split <;> exact hs

theorem disconnect_spec (session : SessionId) :
    Keeps m live future (m.disconnect session).2 := by
  refine Keeps.locked h fun hp => ?_
  have hr := remove_spec hp.registered session
  have hkeeps : Keeps m live future (m.prune.remove session).2 :=
    ⟨hr.registered, hr.workers.trans hp.workers, fun hs => hr.stopped (hp.stopped hs)⟩
  generalize m.prune.remove session = x at hkeeps
  obtain ⟨_ | _, m₁⟩ := x <;> exact hkeeps

theorem dropOwner_spec :
    Keeps m live future m.dropOwner where
  registered := by
    refine (h.restrict (fun id e he => ?_) ?_ (fun id hid => ?_) (fun _ id => ?_)).changed
    · exact absurd he.symm (by simp)
    · exact Nat.zero_le _
    · exact absurd hid.symm (some_ne_none id)
    · exact getElem?_empty
  workers := rfl
  stopped _ := rfl

/-- `renew` makes a reservation, or leaves everything as it was. -/
theorem renew_spec (session : SessionId) :
    Keeps m (holding ((m.renew session).1.toOption.map (·.1.1)) live) future (m.renew session).2 := by
  refine locked_rule (P := fun x : Except ErrorCode (Uncommitted × ℕ) × Manager =>
    Keeps m (holding (x.1.toOption.map (·.1.1)) live) future x.2) (fun _ => .refl h) fun _ => ?_
  have hp := Keeps.prune h
  split
  · exact hp
  next entry he =>
  split
  · exact hp
  next hready =>
  split
  · exact hp
  next hrenewing =>
  split
  · exact hp
  split
  · exact hp
  have hvalue : channelValue m.prune.channels entry.ready = true := by
    simpa [ready, channelValue] using hready
  exact ⟨(hp.registered.renew he hvalue (by simpa using hrenewing) entry.cancel).changed,
    hp.workers, hp.stopped⟩

end

theorem dropReservation_spec (h : Registered m.state m.channels (r ::ₘ live) future) :
    Keeps m live future (m.dropReservation r) := by
  unfold dropReservation
  split
  next hc => exact .refl (h.forget (.inl hc))
  · have hr := remove_spec h r.id
    exact ⟨hr.registered.forget (.inr (h.remove r.id).2), hr.workers, hr.stopped⟩

/-- `commit` marks its reservation, or leaves everything as it was. -/
theorem commit_spec {r : Uncommitted} (h : Registered m.state m.channels (r.1 ::ₘ live) future) :
    Keeps m ((m.commit r).1.toOption.getD r.1 ::ₘ live) future (m.commit r).2 := by
  refine locked_rule (P := fun x => Keeps m (x.1.toOption.getD r.1 ::ₘ live) future x.2)
    (fun _ => .refl h) fun _ => ?_
  have hp := Keeps.prune h
  split
  · exact hp
  next entry he =>
  dsimp only [Except.toOption, Option.getD]
  cases hr : r.1.ready with
  | none =>
    obtain ⟨hrenewing, hreg⟩ := hp.registered.commitRenewal hr r.2 he
    rw [hr] at hreg
    rw [if_pos hrenewing]
    exact ⟨hreg.changed, hp.workers, hp.stopped⟩
  | some c =>
    obtain ⟨hrenewing, hreg⟩ := hp.registered.commitAdmission hr r.2 he
    rw [hr] at hreg
    rw [if_neg (by rw [hrenewing]; decide)]
    exact ⟨hreg.changed, hp.workers, hp.stopped⟩

/-- `reserve` makes a reservation for a new session. -/
theorem reserve_spec {draws : List SessionId}
    (h : Registered m.state m.channels live (draws ++ future)) (hnodup : (draws ++ future).Nodup)
    {peer : EndpointId} {credential : Option Credential} {x : Except ErrorCode Reserved × Manager}
    (hx : m.reserve peer credential draws = some x) :
    Keeps m (holding (x.1.toOption.bind Reserved.reservation) live) future x.2 := by
  obtain ⟨hkeeps, hnone⟩ := existing_spec h peer credential
  have hnew := existing_ne_new m peer credential
  have hkept : Keeps m live future (m.existing peer credential).2 :=
    { hkeeps with registered := hkeeps.registered.mono fun _ => mem_append_right _ }
  unfold reserve at hx
  generalize m.existing peer credential = found at hkeeps hnone hnew hkept hx
  obtain ⟨_ | _ | reserved, m₁⟩ := found
  · obtain rfl := some.inj hx
    exact hkept
  · obtain ⟨hstop, hpeer⟩ := hnone rfl
    dsimp only at hx
    split at hx
    · obtain rfl := some.inj hx
      exact hkept
    next hsize =>
    obtain ⟨id, hid, rfl⟩ := map_eq_some_iff.mp hx
    -- the id was drawn now, so it is new and not drawn again
    have hmem : id ∈ draws := mem_of_find?_eq_some hid
    have hfuture : id ∉ future := fun hf => (nodup_append.mp hnodup).2.2 id hmem id hf rfl
    have hreg : Registered m₁.state m₁.channels live (id :: future) :=
      hkeeps.registered.mono fun j hj => by
        rcases mem_cons.mp hj with rfl | hj
        · exact mem_append_left _ hmem
        · exact mem_append_right _ hj
    exact ⟨(hreg.admission hfuture (Nat.not_le.mp hsize) hstop peer credential _ hpeer).changed,
      hkeeps.workers, hkeeps.stopped⟩
  · obtain rfl := some.inj hx
    cases reserved with
    | existing | pending => exact hkept
    | new r => exact absurd rfl (hnew r)

end Sections

/-! ### Actions -/

section Actions

variable {m m' : Manager} {future : List SessionId} {r : Reservation} {w : Worker}

/-- An action on `m` ended in `m'`. -/
structure Manager.Steps (m : Manager) (future : List SessionId) (m' : Manager) : Prop where
  registered : Registered m'.state m'.channels m'.live future
  stopped : m.state.stopped = true → m'.state.stopped = true

theorem Manager.live_spawn (m : Manager) (w : Worker) :
    (m.spawn w).live = holding w.reservation m.live := by
  cases hw : w.reservation with
  | none => exact filterMap_cons_none _ _ hw
  | some r => exact Multiset.filterMap_cons_some _ _ _ hw

theorem Keeps.live_eq {live : Multiset Reservation} (h : Keeps m live future m') :
    m'.live = m.live := congrArg (Multiset.filterMap Worker.reservation) h.workers

theorem Keeps.steps (h : Keeps m m.live future m') : m.Steps future m' :=
  ⟨h.live_eq ▸ h.registered, h.stopped⟩

theorem Keeps.spawn (h : Keeps m (holding w.reservation m.live) future m') :
    m.Steps future (m'.spawn w) := by
  refine ⟨?_, h.stopped⟩
  rw [live_spawn, h.live_eq]
  exact h.registered

theorem Manager.resume_eq_some (h : m.resume w = some m') :
    m'.state = m.state ∧ m'.channels = m.channels ∧ m.workers = w ::ₘ m'.workers := by
  unfold resume at h
  split at h
  · next hw =>
    obtain rfl := some.inj h
    exact ⟨rfl, rfl, (cons_erase hw).symm⟩
  · exact nomatch h

theorem Manager.registered_resume (h : Registered m.state m.channels m.live future)
    (hm : m.resume w = some m') :
    Registered m'.state m'.channels (holding w.reservation m'.live) future := by
  obtain ⟨hstate, hchannels, hworkers⟩ := resume_eq_some hm
  rw [← live_spawn, hstate, hchannels]
  unfold live at h
  rwa [hworkers] at h

theorem Manager.Steps.of_resume {m₀ : Manager} (hm : m.resume w = some m₀)
    (h : m₀.Steps future m') : m.Steps future m' :=
  ⟨h.registered, fun hs => h.stopped ((congrArg State.stopped (resume_eq_some hm).1).trans hs)⟩

theorem Keeps.reused (h : Keeps m m.live future m') (reserved : Reserved) :
    m.Steps future (m'.reused reserved).2 := by
  cases reserved with
  | existing id => exact h.steps
  | pending pending => exact h.spawn (w := .waiting pending)
  | new r => exact h.steps

theorem connect_steps (h : Registered m.state m.channels m.live future) (call : ConnectCall) :
    m.Steps future (m.connect call).2 := by
  unfold connect
  split
  · exact (Keeps.refl h).steps
  split
  · exact (Keeps.refl h).steps
  split
  · exact (Keeps.refl h).spawn (w := .resolving call)
  next pinned _ =>
  have hkeeps := (existing_spec h pinned call.credential).1
  generalize m.existing pinned call.credential = found at hkeeps
  obtain ⟨_ | _ | reserved, m₁⟩ := found
  · exact hkeeps.steps
  · exact hkeeps.spawn (w := .resolving call)
  · exact hkeeps.reused reserved

theorem connectPeer_steps {draws : List SessionId} {call : ConnectCall} {answer : Option EndpointId}
    {x : Except ErrorCode Unit × Manager}
    (h : Registered m.state m.channels m.live (draws ++ future)) (hnodup : (draws ++ future).Nodup)
    (hx : m.connectPeer call answer draws = some x) : m.Steps future x.2 := by
  unfold connectPeer at hx
  split at hx
  · obtain rfl := some.inj hx
    exact (Keeps.refl (h.mono fun _ => mem_append_right _)).steps
  obtain ⟨y, hy, rfl⟩ := map_eq_some_iff.mp hx
  have hkeeps := reserve_spec h hnodup hy
  obtain ⟨_ | _ | _ | r, m₁⟩ := y
  · exact hkeeps.steps
  · exact hkeeps.reused (.existing _)
  · exact hkeeps.reused (.pending _)
  · exact hkeeps.spawn (w := .dialing r)

theorem wait_steps (h : Registered m.state m.channels m.live future) (pending : Pending) :
    m.Steps future (m.wait pending).2 := by
  unfold wait
  split
  · refine (Keeps.locked h fun hp => ?_).steps
    split <;> exact hp
  split
  · exact (Keeps.refl h).steps
  · split
    · exact (Keeps.refl h).steps
    · exact (Keeps.refl h).spawn (w := .waiting pending)

theorem dialed_steps {r : Uncommitted} (h : Registered m.state m.channels (r.1 ::ₘ m.live) future)
    (conn : ℕ) : m.Steps future (m.dialed r conn) := by
  have hkeeps := attach_spec h r.1 conn
  unfold dialed
  generalize m.attach r conn = x at hkeeps
  obtain ⟨_ | _, m₁⟩ := x
  · exact hkeeps.spawn (w := .closing r)
  · exact hkeeps.spawn (w := .replying r)

theorem startRenew_steps (h : Registered m.state m.channels m.live future) (session : SessionId)
    (credential : Credential) : m.Steps future (m.startRenew session credential).2 := by
  have hkeeps := renew_spec h session
  unfold startRenew
  generalize m.renew session = x at hkeeps
  obtain ⟨_ | ⟨r, conn⟩, m₁⟩ := x
  · exact hkeeps.steps
  · exact hkeeps.spawn (w := .authorizing r credential)

theorem renewed_steps {r : Uncommitted} (h : Registered m.state m.channels (r.1 ::ₘ m.live) future)
    (credential : Credential) : m.Steps future (m.renewed r credential) := by
  have hkeeps := authorized_spec h r.1 credential
  unfold renewed
  generalize m.authorized r credential = x at hkeeps
  obtain ⟨_ | _, m₁⟩ := x
  · exact hkeeps.spawn (w := .closing r)
  · exact hkeeps.spawn (w := .replying r)

theorem replied_steps {r : Uncommitted}
    (h : Registered m.state m.channels (r.1 ::ₘ m.live) future) : m.Steps future (m.replied r) := by
  have hkeeps := commit_spec h
  unfold replied
  generalize m.commit r = x at hkeeps
  obtain ⟨_ | r', m₁⟩ := x
  · exact hkeeps.spawn (w := .closing r)
  · exact hkeeps.spawn (w := .closing r')

/-- **Every action keeps the invariant.** The ids it draws leave the future. -/
theorem registered_step {a : Action} (h : Registered m.state m.channels m.live (a.draws ++ future))
    (hnodup : (a.draws ++ future).Nodup) (hm : step a m = some m') : m.Steps future m' := by
  cases a with
  | look =>
    obtain rfl := some.inj hm
    exact (Keeps.locked h fun hp => hp).steps
  | connect call =>
    obtain rfl := some.inj hm
    exact connect_steps h call
  | connectPeer call answer draws =>
    obtain ⟨m₀, hres, hm⟩ := bind_eq_some_iff.mp hm
    obtain ⟨x, hx, rfl⟩ := map_eq_some_iff.mp hm
    exact (connectPeer_steps (registered_resume h hres) hnodup hx).of_resume hres
  | wait pending =>
    obtain ⟨m₀, hres, rfl⟩ := map_eq_some_iff.mp hm
    exact (wait_steps (registered_resume h hres) pending).of_resume hres
  | dialed r conn =>
    obtain ⟨m₀, hres, rfl⟩ := map_eq_some_iff.mp hm
    exact (dialed_steps (registered_resume h hres) conn).of_resume hres
  | renew session credential =>
    obtain rfl := some.inj hm
    exact startRenew_steps h session credential
  | renewed r credential =>
    obtain ⟨m₀, hres, rfl⟩ := map_eq_some_iff.mp hm
    exact (renewed_steps (registered_resume h hres) credential).of_resume hres
  | replied r =>
    obtain ⟨m₀, hres, rfl⟩ := map_eq_some_iff.mp hm
    exact (replied_steps (registered_resume h hres)).of_resume hres
  | exit w =>
    obtain ⟨m₀, hres, rfl⟩ := map_eq_some_iff.mp hm
    refine Manager.Steps.of_resume hres ?_
    have hreg := registered_resume h hres
    unfold exit
    generalize w.reservation = held at hreg
    cases held with
    | none => exact (Keeps.refl hreg).steps
    | some r => exact (dropReservation_spec hreg).steps
  | select session =>
    obtain rfl := some.inj hm
    exact (select_spec h session).steps
  | disconnect session =>
    obtain rfl := some.inj hm
    exact (disconnect_spec h session).steps
  | close conn | poison =>
    obtain rfl := some.inj hm
    exact ⟨h, id⟩
  | dropOwner =>
    change (if m.state.stopped then none else some m.dropOwner) = some m' at hm
    split at hm
    · exact nomatch hm
    · obtain rfl := some.inj hm
      exact (dropOwner_spec h).steps

theorem stopped_of_dropOwner (hm : step .dropOwner m = some m') : m'.state.stopped = true := by
  change (if m.state.stopped then none else some m.dropOwner) = some m' at hm
  split at hm
  · exact nomatch hm
  · obtain rfl := some.inj hm
    rfl

end Actions

/-- **The registry under every interleaving.** From a new manager, whatever its workers
do and whenever the runner stops it, as long as no session id is drawn twice: there are
at most `MAX_SESSIONS` sessions and one per peer; the selection is none or a session;
a session is being renewed exactly when one renewal that is not committed is alive; one
that is not ready has an admission that is not committed; and once the owner is dropped
there is no session. -/
theorem sessions_registered (endpointId : EndpointId) (instance_ : SessionId) (endpoint : Bytes)
    (acts : List Action) (hdraws : (acts.flatMap Action.draws).Nodup) (m : Manager)
    (hrun : machine.run acts (.new endpointId instance_ endpoint) = some m) :
    m.state.entries.size ≤ maxSessions ∧ (∀ (i j : SessionId) (e f : Entry), m.state.entries[i]? = some e →
        m.state.entries[j]? = some f → e.peer = f.peer → i = j) ∧
      (∀ id, m.state.selected = some id → ∃ e, m.state.entries[id]? = some e) ∧
      (∀ (id : SessionId) (e : Entry), m.state.entries[id]? = some e →
        (e.renewing = true ↔ m.live.countP (Reservation.Renews id) = 1)) ∧
      (∀ (id : SessionId) (e : Entry), m.state.entries[id]? = some e → m.ready e.ready = false →
        ∃ r ∈ m.live, r.id = id ∧ r.ready = some e.ready ∧ r.committed = false) ∧
      (.dropOwner ∈ acts → m.state.entries = ∅) := by
  let P : List Action → Manager → Prop := fun rest m =>
    (rest.flatMap Action.draws).Nodup ∧ Registered m.state m.channels m.live (rest.flatMap Action.draws) ∧
      (.dropOwner ∈ acts → .dropOwner ∈ rest ∨ m.state.stopped = true)
  have hstep : ∀ a rest s t, P (a :: rest) s → machine.step a s = some t → P rest t := by
    rintro a rest s t ⟨hnodup, hreg, hdrop⟩ ht
    have hsteps := registered_step hreg hnodup ht
    refine ⟨(nodup_append.mp hnodup).2.1, hsteps.registered, fun hmem => ?_⟩
    rcases hdrop hmem with hrest | hstop
    · rcases mem_cons.mp hrest with rfl | hrest
      · exact .inr (stopped_of_dropOwner ht)
      · exact .inl hrest
    · exact .inr (hsteps.stopped hstop)
  obtain ⟨-, hreg, hdrop⟩ := Machine.run_induction hstep
    ⟨hdraws, .new instance_ endpoint _, .inl⟩ hrun
  refine ⟨hreg.size_le, hreg.peer_inj, hreg.selected, fun id e he => ?_,
    fun id e he hready => (hreg.admitted id e he hready).2, fun hmem => ?_⟩
  · rw [hreg.renewals id e he]
    cases e.renewing <;> decide
  rcases hdrop hmem with hnil | hstop
  · exact nomatch hnil
  · exact ext_getElem? fun id =>
      (hreg.stopped hstop id).trans getElem?_empty.symm

/-- One session is admitted, its reservation dropped after the commit, and a renewal
of it started. -/
def renewingActs : List Action :=
  let peer : EndpointId := ⟨.replicate 32 7, rfl⟩
  let id : SessionId := ⟨.replicate 16 1, rfl⟩
  let credential : Credential := ⟨.replicate 32 9, rfl⟩
  let call : ConnectCall := ⟨some peer, some credential, false⟩
  let admission : Uncommitted := ⟨⟨id, 0, false, some 0⟩, rfl⟩
  [.connect call, .connectPeer call (some peer) [id], .dialed admission 4, .replied admission,
    .exit (.closing { admission.1 with committed := true }), .renew id credential]

theorem sessions_registered_renewingActs :
    ∃ m, machine.run renewingActs (.new ⟨.replicate 32 0, rfl⟩ ⟨.replicate 16 0, rfl⟩ []) = some m ∧
      ∃ e, m.state.entries[(⟨.replicate 16 1, rfl⟩ : SessionId)]? = some e ∧ e.renewing = true ∧
        m.live.countP (Reservation.Renews ⟨.replicate 16 1, rfl⟩) = 1 := by
  have hsome : (machine.run renewingActs
      (.new ⟨.replicate 32 0, rfl⟩ ⟨.replicate 16 0, rfl⟩ [])).isSome = true := by decide +kernel
  have hentry : ((machine.run renewingActs (.new ⟨.replicate 32 0, rfl⟩ ⟨.replicate 16 0, rfl⟩
      [])).bind fun m => m.state.entries[(⟨.replicate 16 1, rfl⟩ : SessionId)]?) =
      some ⟨⟨.replicate 32 7, rfl⟩, some ⟨.replicate 32 9, rfl⟩, true, 0, some 4, 0⟩ := by
    decide +kernel
  obtain ⟨m, hm⟩ := isSome_iff_exists.mp hsome
  rw [hm] at hentry
  have hdraws : (renewingActs.flatMap Action.draws).Nodup := by decide
  obtain ⟨-, -, -, hrenewing, -, -⟩ := sessions_registered _ _ _ renewingActs hdraws m hm
  exact ⟨m, hm, _, hentry, rfl, (hrenewing _ _ hentry).mp rfl⟩

end Rds.Local
