import Rds.Discovery.FileEffects

/-!
# What a call to the store on disk does

An operation of a `FileStore` is a preparation, which leaves the directory as it is, at most one
commit, and a rest that only concerns the caller: `access_eq` and `collect_eq`. So the directory
after an operation is the one before it, or what its commit leaves.

On any storage a call has one of the effects `RecordStore` lists, and the store is still an open
store afterwards (`called`). `run_cases` says the same about the directory: a call comes to no
commit and leaves the directory untouched, or it comes to one commit, of changes that can be
committed, and leaves what the commit leaves.
-/

namespace Rds.Discovery

open Framework Postcard Prog

namespace FileStore

variable {ω : Type} {x : Crates} {o : FileHost ω} {c : Metadata × Entries}
  {now : Reading} {clock : ClockRead}

/-! ### Operations as commits -/

/-- What an operation has computed before its commit: the changes to commit, the reading, and what
the rest of it needs. -/
structure Prepared (β : Type) where
  changes : List (EndpointKey × Stored)
  now : Reading
  rest : β

/-- The start of an operation and its read of the database. -/
def opening {γ : Type} (now : ClockRead) (read : Reading → Run ω γ) :
    Run ω (Reading × γ) := do
  let now ← start now
  let a ← guarded (read now)
  pure (now, a)

/-- An access before its commit. -/
def prepareAccess (x : Crates) (key : EndpointKey) (entry : Option Entry)
    (now : ClockRead) (admission : Callback ω) :
    Run ω (Prepared (Except DiscoveryError (Option EndpointRecord))) := do
  let r ← opening now fun _ => lookup x key
  let decision ← Prog.ofExcept (Records.decide x r.2 entry key r.1)
  match decision.replacement with
  | none => pure ⟨[], r.1, decision.result⟩
  | some replacement => do
    let inner ← Device.get fun o : FileHost ω => o.mem.inner
    if r.2.isNone ∧ inner.metadata.identities.toNat ≥ maxIdentities then
      Prog.fail (storeError "record identity capacity exceeded")
    else do
      Prog.when replacement.isActive (ask admission r.2.isSome)
      pure ⟨[(key, replacement)], r.1, decision.result⟩

/-- A collection before its commit. -/
def prepareCollect (x : Crates) (now : ClockRead) :
    Run ω (Prepared (Option EndpointKey)) := do
  let r ← opening now (scan x)
  pure ⟨r.2.2, r.1, nextCursor r.2.1⟩

/-- The commit of an operation, if it has something to commit. -/
def settle {β : Type} (x : Crates) (p : Prepared β) : Run ω Unit :=
  Prog.when (p.changes ≠ []) (commit x p.changes p.now)

theorem settle_nil {β : Type} (now : Reading) (rest : β) :
    (settle x ⟨[], now, rest⟩ : Run ω Unit) = pure () :=
  when_of_not (not_not.mpr rfl) _

/-- **An access is a preparation, a commit and a result.** -/
theorem access_eq (key : EndpointKey) (entry : Option Entry) (admission : Callback ω) :
    access x key entry clock admission = prepareAccess x key entry clock admission >>= fun p =>
      settle x p >>= fun _ => Prog.ofExcept p.rest := by
  unfold access prepareAccess opening
  simp only [bind_assoc]
  refine congrArg (start clock >>= ·) (funext fun now => ?_)
  refine congrArg (guarded (lookup x key) >>= ·) (funext fun old => ?_)
  refine congrArg (ofExcept _ >>= ·) (funext fun decision => ?_)
  cases decision.replacement with
  | none => rw [pure_bind, settle_nil, pure_bind]
  | some s =>
    rw [bind_assoc]
    refine congrArg (Device.get _ >>= ·) (funext fun inner => ?_)
    split
    · rfl
    · rw [bind_assoc]
      refine congrArg (when _ _ >>= ·) (funext fun _ => ?_)
      exact congrArg (· >>= _) (when_of (by simp) _).symm

/-- **A collection is a preparation, a commit and a new position.** -/
theorem collect_eq :
    collect x clock = (prepareCollect x clock : Run ω _) >>= fun p => settle x p >>= fun _ =>
      (update fun inner => { inner with cursor := p.rest }) >>= fun _ => pure p.changes.length := by
  unfold collect prepareCollect opening
  simp only [bind_assoc]
  rfl

/-! ### Preparations -/

/-- The end of a run that returned nothing. -/
def ending {α : Type} : Option DiscoveryError → Outcome DiscoveryError α
  | some e => .err e
  | none => .stopped

theorem failed_ending {α : Type} {e : Option DiscoveryError}
    (h : ∀ e', e = some e' → e'.IsStore) : Failed (ending e : Outcome DiscoveryError α) := by
  cases e with
  | none => exact True.intro
  | some e => exact h e rfl

section Effect

variable {α β : Type} (x) (clock) (effect : Reading → Outcome DiscoveryError α → Catalog → Prop)

/-- An operation ended before its commit, for a reason of the clock, of the store or of its own. -/
structure Aborted (o : FileHost ω) (e : Option DiscoveryError)
    (q : FileHost ω) : Prop where
  untouched : Untouched o q
  effect : AtReading clock (catalogOf x o.db) (ending e : Outcome DiscoveryError α)
    (catalogOf x o.db) fun now => effect now (ending e) (catalogOf x o.db)

/-- What a preparation offers can be committed. -/
structure Offered (o : FileHost ω) (c : Metadata × Entries) (p : Prepared β) :
    Prop where
  healthy : o.mem.inner.failed = false
  reading : clock = .ok p.now
  applicable : Applicable x c.1 c.2 p.changes p.now

end Effect

section Prepare

variable {α : Type} {effect : Reading → Outcome DiscoveryError α → Catalog → Prop}

variable {e : Option DiscoveryError}

theorem aborted_start (he : ∃ e', e = some e' ∧ (clock = .error e' ∨ e'.IsStore)) :
    Aborted x clock effect o e o := by
  obtain ⟨e', rfl, hclock | hstore⟩ := he
  · exact ⟨.refl o, .inl ⟨e', hclock, rfl, rfl⟩⟩
  · exact ⟨.refl o, .inr (.inl ⟨hstore, rfl⟩)⟩

theorem untouched_observing (now : Reading) (o : FileHost ω) :
    Untouched o (observing now o) :=
  ⟨rfl, rfl, rfl, id⟩

theorem untouched_reading (now : Reading) (hf : o.mem.inner.failed = false) :
    Untouched o (setFailed true (observing now o)) :=
  ⟨rfl, rfl, rfl, fun _ => hf⟩

theorem aborted_broken {q : FileHost ω}
    (hq : Broken (· = setFailed true (observing now o)) e q) : Aborted x clock effect o e q := by
  obtain ⟨hstore, rfl⟩ := hq
  exact ⟨⟨rfl, rfl, rfl, fun h => absurd h (by simp [setFailed, setInner])⟩,
    .inr (.inl ⟨failed_ending hstore, rfl⟩)⟩

theorem aborted_decided {q : FileHost ω} (hq : Untouched o q) (hclock : clock = .ok now)
    (h : effect now (ending e) (catalogOf x o.db)) : Aborted x clock effect o e q :=
  ⟨hq, .inr (.inr ⟨now, hclock, h⟩)⟩

/-- **The opening of an operation.** What is read is `value`. -/
theorem opening_ends {γ : Type} {read : Reading → Run ω γ} (value : Reading → γ)
    (hread : ∀ now, o.mem.inner.failed = false →
      Ends (Device.On (· = setFailed true (observing now o))) (read now)
        (fun a => Device.On fun q => q = setFailed true (observing now o) ∧ a = value now)
        fun e => Device.On (Broken (· = setFailed true (observing now o)) e)) :
    Ends (Device.On (· = o)) (opening clock read)
      (fun r => Device.On fun q => q = observing r.1 o ∧ clock = .ok r.1 ∧
        o.mem.inner.failed = false ∧ r.2 = value r.1)
      fun e => Device.On (Aborted x clock effect o e) := by
  refine .bind (start_ends.relax fun e d hd => ?_) fun now => ?_
  · obtain ⟨hq, he⟩ := hd
    show Aborted x clock effect o e d.state
    rw [hq]
    exact aborted_start he
  refine .given (φ := clock = .ok now ∧ o.mem.inner.failed = false)
    (fun d hd => ⟨hd.1, hd.2.1⟩) ?_
  rintro ⟨hclock, hfailed⟩
  -- the mark set for the time of the read is taken away again
  have hclean : setFailed false (observing now o) = observing now o := by
    unfold setFailed observing setInner
    rw [← hfailed]
  refine .bind ((guarded_ends (hread now hfailed)).imp (fun d hd => hd.2.2)
    (fun _ _ h => h) fun e d hd => aborted_broken hd) fun a => ?_
  refine .pure fun d hd => ⟨?_, hclock, hfailed, hd.2⟩
  rw [hd.1, hclean]

/-- What an access commits, decided on a catalogue. -/
def AccessPlan (x : Crates) (entries : Entries) (key : EndpointKey) (entry : Option Entry)
    (p : Prepared (Except DiscoveryError (Option EndpointRecord))) : Prop :=
  ∃ d, Records.decide x entries[key]? entry key p.now = .ok d ∧
    p.changes = (d.replacement.map fun s => (key, s)).toList ∧ p.rest = d.result

/-- **The preparation of an access**, on any storage. -/
theorem prepareAccess_ends (clock : ClockRead) (h : Live x o c) (key : EndpointKey)
    (entry : Option Entry) (admission : Callback ω) :
    Ends (Device.On (· = o)) (prepareAccess x key entry clock admission)
      (fun p => Device.On fun q => Untouched o q ∧ Offered x clock o c p ∧ AccessPlan x c.2 key entry p)
      fun e => Device.On (Aborted x clock
        (fun now => Accessed x key entry now (catalogOf x o.db)) o e) := by
  have hkey : catalogOf x o.db key = c.2[key]? := congrFun h.holds.catalogOf key
  refine .bind (opening_ends (fun _ => c.2[key]?) fun now hf => ?_) fun r => ?_
  · have hready := (h.ready hf).untouched (untouched_reading now hf)
    exact lookup_ends hready.db hready.balanced key
  obtain ⟨now, old⟩ := r
  refine .given (φ := clock = .ok now ∧ o.mem.inner.failed = false ∧ old = c.2[key]?)
    (fun d hd => hd.2) ?_
  rintro ⟨hclock, hfailed, rfl⟩
  have hready := h.ready hfailed
  have hobs := untouched_observing now o
  refine .bind (Q := fun d => Device.On fun q => q = observing now o ∧
    Records.decide x c.2[key]? entry key now = .ok d)
    (Ends.ofExcept (fun d _ hok hd => ⟨hd.1, hok⟩) fun e d herr hd => ?_) fun decision => ?_
  · refine aborted_decided (hd.1 ▸ hobs) hclock (.undecided e ?_)
    rw [hkey]
    exact herr
  refine .given (φ := Records.decide x c.2[key]? entry key now = .ok decision)
    (fun d hd => hd.2) fun hdec => ?_
  cases hrep : decision.replacement with
  | none =>
    refine .pure fun d hd => ⟨hd.1 ▸ hobs, ⟨hfailed, hclock, ?_⟩, decision, hdec, ?_, rfl⟩
    · exact ⟨by simp, by simp, by simp⟩
    · rw [hrep]
      rfl
  | some s =>
    refine .bind (Device.get_ends (R := fun inner q => q = observing now o ∧
      inner = (observing now o).mem.inner) fun q hq => ⟨hq.1, hq.1 ▸ rfl⟩) fun inner => ?_
    refine .given (φ := inner = (observing now o).mem.inner) (fun d hd => hd.2) ?_
    rintro rfl
    split
    · refine .fail fun d hd => aborted_decided (hd.1 ▸ hobs) hclock (.failed _ True.intro)
    next hroom =>
    have happ : Applicable x c.1 c.2 [(key, s)] now := by
      rw [← h.metadata hfailed]
      exact applicable_decide hready.balanced hdec hrep hroom
    -- only a fresh entry is put to the callback, which changes the caller's state
    refine .bind (Q := fun _ => Device.On (Untouched o))
      (Ends.when (fun hactive => ?_) fun _ d hd => show Untouched o d.state from hd.1 ▸ hobs)
      fun _ => ?_
    · refine (ask_ends (o := observing now o) admission _).imp (fun d hd => hd.1)
        (fun _ d hd => ?_) fun e d hd => ?_
      · obtain ⟨env, hq⟩ := hd
        exact show Untouched o d.state from hq ▸ ⟨rfl, rfl, rfl, id⟩
      · obtain ⟨⟨e', rfl⟩, env, hq⟩ := hd
        refine aborted_decided (hq ▸ ⟨rfl, rfl, rfl, id⟩) hclock ?_
        exact .refused decision s e' (hkey ▸ hdec) hrep hactive
    · refine .pure fun d hd => ⟨hd, ⟨hfailed, hclock, happ⟩, decision, hdec, ?_, rfl⟩
      rw [hrep]
      rfl

/-- What a collection commits, decided on a catalogue. -/
def CollectPlan (x : Crates) (entries : Entries) (cursor : Option EndpointKey)
    (p : Prepared (Option EndpointKey)) : Prop :=
  p.changes = lapsed x p.now (collectBatch entries cursor) ∧
    p.rest = nextCursor (collectBatch (encodeEntries entries) cursor)

/-- **The preparation of a collection**, on any storage. -/
theorem prepareCollect_ends (clock : ClockRead)
    (effect : Reading → Outcome DiscoveryError α → Catalog → Prop) (h : Live x o c) :
    Ends (Device.On (· = o)) (prepareCollect x clock)
      (fun p => Device.On fun q => Untouched o q ∧ Offered x clock o c p ∧
        CollectPlan x c.2 o.mem.inner.cursor p)
      fun e => Device.On (Aborted x clock effect o e) := by
  refine .bind (opening_ends (fun now => (collectBatch (encodeEntries c.2) o.mem.inner.cursor,
    lapsed x now (collectBatch c.2 o.mem.inner.cursor))) fun now hf => ?_) fun r => ?_
  · have hready := (h.ready hf).untouched (untouched_reading now hf)
    exact scan_ends hready.db hready.balanced
  obtain ⟨now, scanned⟩ := r
  refine .given (φ := clock = .ok now ∧ o.mem.inner.failed = false ∧
    scanned = (collectBatch (encodeEntries c.2) o.mem.inner.cursor,
      lapsed x now (collectBatch c.2 o.mem.inner.cursor))) (fun d hd => hd.2) ?_
  rintro ⟨hclock, hfailed, rfl⟩
  refine .pure fun d hd => ⟨hd.1 ▸ untouched_observing now o, ⟨hfailed, hclock, ?_⟩, rfl, rfl⟩
  rw [← h.metadata hfailed]
  exact applicable_lapsed now (h.ready hfailed).balanced _

end Prepare

/-! ### The end of a commit -/

variable {d : Device (FileHost ω)} {changes : List (EndpointKey × Stored)}

/-- The content of a directory after a commit. -/
def afterCommit (c : Metadata × Entries) (changes : List (EndpointKey × Stored)) (now : Reading) :
    Metadata × Entries :=
  (committedMetadata c.1 c.2 changes now, insertAll c.2 changes)

/-- What is left by a run that came to a commit of these changes, with this outcome: it was committed,
or it was interrupted, over the content before or after it, and the store knows. -/
inductive Settled (x : Crates) (c : Metadata × Entries) (changes : List (EndpointKey × Stored))
    (now : Reading) (out : Outcome DiscoveryError Unit) {α : Type}
    (r : Outcome DiscoveryError α × Device (FileHost ω)) : Prop where
  | committed (hok : out = .ok ()) (h : Live x r.2.state (afterCommit c changes now))
  | interrupted (hfail : out ≠ .ok ()) (hfailed : r.2.state.mem.inner.failed = true)
      (hout : Failed r.1) (h : Live x r.2.state c ∨ Live x r.2.state (afterCommit c changes now))

theorem Settled.andThen {α β : Type} {out : Outcome DiscoveryError Unit}
    {r : Outcome DiscoveryError α × Device (FileHost ω)}
    (h : Settled x c changes now out r) (f : α → Except DiscoveryError β) :
    Settled x c changes now out (r.1.andThen f, r.2) := by
  cases h with
  | committed hok h => exact .committed hok h
  | interrupted hfail hfailed hout h => exact .interrupted hfail hfailed (hout.andThen f) h

/-- **A commit settles**, on any storage. -/
theorem commit_settled (hx : Json.ReadsBack x.parseJson) (h : Ready x d.state c.2)
    (hmd : d.state.mem.inner.metadata = c.1) (happ : Applicable x c.1 c.2 changes now) :
    Settled x c changes now (commit x changes now d).1 (commit x changes now d) := by
  obtain ⟨md, entries⟩ := c
  subst hmd
  have hcommit := commit_ends hx h happ d rfl
  rcases hrun : commit x changes now d with ⟨out, d₁⟩
  rw [hrun] at hcommit
  cases out with
  | ok _ =>
    obtain ⟨hd₁, hgen⟩ := hcommit
    refine .committed rfl ?_
    show Live x d₁.state _
    rw [hd₁]
    exact (h.committed happ hgen).live
  | err e | stopped =>
    -- the store has failed, so nothing is known of its memory
    obtain ⟨hstore, htorn⟩ := hcommit
    have hmark : d₁.state.mem.inner.failed ≠ false := ne_false_of_eq_true htorn.failed
    have hlive : ∀ c', Holds x d₁.state.file d₁.state.db (some c') → Live x d₁.state c' :=
      fun c' hc' => ⟨hc', fun hf => absurd hf hmark, fun hf => absurd hf hmark⟩
    exact .interrupted nofun htorn.failed (failed_ending hstore) (htorn.holds.imp (hlive _) (hlive _))

/-! ### The end of an operation -/

section Operation

variable {α β : Type} {prepare : Run ω (Prepared β)} {finish : Prepared β → Run ω α}
  {plan : Prepared β → Prop} {result : Prepared β → Except DiscoveryError α}
  {effect : Reading → Outcome DiscoveryError α → Catalog → Prop}
  {r : Outcome DiscoveryError α × Device (FileHost ω)}

/-- **How an operation ends**: it was aborted before it had a plan, or its plan has nothing to commit,
or the plan was committed or interrupted. -/
inductive Operated (x : Crates) (clock : ClockRead) (c : Metadata × Entries)
    (d : Device (FileHost ω)) (prepare : Run ω (Prepared β)) (plan : Prepared β → Prop)
    (result : Prepared β → Except DiscoveryError α)
    (effect : Reading → Outcome DiscoveryError α → Catalog → Prop)
    (r : Outcome DiscoveryError α × Device (FileHost ω)) : Prop where
  | aborted (e : Option DiscoveryError) (hprepare : ∀ p d₁, prepare d ≠ (.ok p, d₁))
      (hr : r.1 = ending e) (h : Aborted x clock effect d.state e r.2.state)
  | idle (p : Prepared β) (d₁ : Device (FileHost ω)) (hprepare : prepare d = (.ok p, d₁))
      (hclock : clock = .ok p.now) (hplan : plan p) (hnil : p.changes = [])
      (hr : r.1 = outcomeOf (result p)) (h : Live x r.2.state c)
  | settled (p : Prepared β) (d₁ : Device (FileHost ω)) (hprepare : prepare d = (.ok p, d₁))
      (hclock : clock = .ok p.now) (hplan : plan p) (hne : p.changes ≠ [])
      (hr : (commit x p.changes p.now d₁).1 = .ok () → r.1 = outcomeOf (result p))
      (h : Settled x c p.changes p.now (commit x p.changes p.now d₁).1 r)

/-- **An operation comes to at most one commit**, on any storage. -/
theorem operated (hx : Json.ReadsBack x.parseJson) (h : Live x d.state c)
    (hprepare : Ends (Device.On (· = d.state)) prepare
      (fun p => Device.On fun q => Untouched d.state q ∧ Offered x clock d.state c p ∧ plan p)
      fun e => Device.On (Aborted x clock effect d.state e))
    (hfinish : ∀ p d, ∃ q, finish p d = (outcomeOf (result p), q) ∧ Untouched d.state q.state) :
    Operated x clock c d prepare plan result effect
      ((prepare >>= fun p => settle x p >>= fun _ => finish p) d) := by
  have hd := hprepare d rfl
  rw [bind_apply]
  rcases hm : prepare d with ⟨out, d₁⟩
  rw [hm] at hd
  cases out with
  | err e => exact .aborted (some e) (by simp [hm]) rfl hd
  | stopped => exact .aborted none (by simp [hm]) rfl hd
  | ok p =>
    obtain ⟨hbefore, hoffer, hplan⟩ := hd
    dsimp only
    by_cases hnil : p.changes = []
    · obtain ⟨q, hq, hrest⟩ := hfinish p d₁
      have hsettle : (settle x p : Run ω Unit) = pure () := when_of_not (not_not.mpr hnil) _
      rw [hsettle, pure_bind, hq]
      exact .idle p d₁ hm hoffer.reading hplan hnil rfl (h.untouched (hbefore.trans hrest))
    have hsettle : (settle x p : Run ω Unit) = commit x p.changes p.now := when_of hnil _
    have hmd := hbefore.metadata.trans (h.metadata hoffer.healthy)
    have hcommit := commit_settled hx ((h.ready hoffer.healthy).untouched hbefore) hmd hoffer.applicable
    rw [hsettle, bind_apply]
    rcases hrun : commit x p.changes p.now d₁ with ⟨out, d₂⟩
    rw [hrun] at hcommit
    cases hcommit with
    | committed hok hlive =>
      obtain ⟨q, hq, hrest⟩ := hfinish p d₂
      dsimp only at hok ⊢
      subst hok
      dsimp only
      rw [hq]
      exact .settled p d₁ hm hoffer.reading hplan hnil (fun _ => rfl)
        (.committed (congrArg Prod.fst hrun) (hlive.untouched hrest))
    | interrupted hfail hfailed hout hlive =>
      have hfail' : (commit x p.changes p.now d₁).1 ≠ .ok () := hrun ▸ hfail
      refine .settled p d₁ hm hoffer.reading hplan hnil (fun hok => absurd hok hfail') ?_
      cases out with
      | ok _ => exact absurd rfl hfail
      | err e | stopped => exact .interrupted hfail' hfailed hout hlive

/-- **The effect of an operation**: the effect of its plan, or that of a failed store, before or
after the commit. -/
theorem Operated.atReading (h : Operated x clock c d prepare plan result effect r)
    (hdone : ∀ p, plan p →
      effect p.now (outcomeOf (result p)) fun k => (insertAll c.2 p.changes)[k]?)
    (htorn : ∀ p out, plan p → Failed out → effect p.now out (fun k => c.2[k]?) ∧
      effect p.now out fun k => (insertAll c.2 p.changes)[k]?) :
    AtReading clock (catalogOf x d.state.db) r.1 (catalogOf x r.2.state.db) fun now =>
      effect now r.1 (catalogOf x r.2.state.db) := by
  cases h with
  | aborted e _ hr h =>
    rw [hr, h.untouched.db]
    exact h.effect
  | idle p _ _ hclock hplan hnil hr h =>
    have heffect := hdone p hplan
    rw [hnil] at heffect
    rw [hr, h.holds.catalogOf]
    exact .inr (.inr ⟨p.now, hclock, heffect⟩)
  | settled p _ _ hclock hplan _ hr h =>
    refine .inr (.inr ⟨p.now, hclock, ?_⟩)
    cases h with
    | committed hok h =>
      rw [hr hok, h.holds.catalogOf]
      exact hdone p hplan
    | interrupted _ _ hout h =>
      obtain ⟨hbefore, hafter⟩ := htorn p r.1 hplan hout
      rcases h with h | h <;> rw [h.holds.catalogOf]
      · exact hbefore
      · exact hafter

/-- **The directory after an operation**: it is as before, or what a commit left. -/
theorem Operated.content (h : Live x d.state c) (hop : Operated x clock c d prepare plan result effect r) :
    (Live x r.2.state c ∧ ∀ p d₁, prepare d = (.ok p, d₁) → p.changes = []) ∨
      ∃ p d₁, prepare d = (.ok p, d₁) ∧ p.changes ≠ [] ∧ clock = .ok p.now ∧
        Settled x c p.changes p.now (commit x p.changes p.now d₁).1 r := by
  cases hop with
  | aborted e hprepare _ haborted =>
    exact .inl ⟨h.untouched haborted.untouched, fun p d₁ hp => absurd hp (hprepare p d₁)⟩
  | idle p d₁ hprepare _ _ hnil _ hlive =>
    refine .inl ⟨hlive, fun p' d₂ hp => ?_⟩
    cases hprepare.symm.trans hp
    exact hnil
  | settled p d₁ hprepare hclock _ hne _ hsettled => exact .inr ⟨p, d₁, hprepare, hne, hclock, hsettled⟩

end Operation

theorem access_operated (hx : Json.ReadsBack x.parseJson) (h : Live x d.state c) (key : EndpointKey)
    (entry : Option Entry) (admission : Callback ω) :
    Operated x clock c d (prepareAccess x key entry clock admission) (AccessPlan x c.2 key entry)
      Prepared.rest (fun now => Accessed x key entry now (catalogOf x d.state.db))
      (access x key entry clock admission d) := by
  rw [access_eq]
  refine operated hx h (prepareAccess_ends clock h key entry admission) fun p d => ⟨d, ?_, .refl _⟩
  cases p.rest <;> rfl

theorem collect_operated (hx : Json.ReadsBack x.parseJson) (h : Live x d.state c) :
    Operated x clock c d (prepareCollect x clock) (CollectPlan x c.2 d.state.mem.inner.cursor)
      (fun p => .ok p.changes.length) (fun now _ => Collected x now (catalogOf x d.state.db))
      (collect x clock d) := by
  rw [collect_eq]
  exact operated hx h (prepareCollect_ends clock _ h) fun p d => ⟨_, rfl, ⟨rfl, rfl, rfl, id⟩⟩

theorem collected_lapsed (x : Crates) (now : Reading) (entries : Entries) (cursor : Option EndpointKey) :
    Collected x now (fun k => entries[k]?)
      fun k => (insertAll entries (lapsed x now (collectBatch entries cursor)))[k]? := by
  intro key
  rcases lookup_insertAll entries (lapsed x now (collectBatch entries cursor)) key with
    heq | ⟨s', hs', heq⟩
  · exact .inl heq
  · obtain ⟨s, hs, hret⟩ := mem_lapsed.mp hs'
    exact .inr ⟨s, s', mem_of_mem_collectBatch hs, hret, heq⟩

/-! ### Calls -/

/-- **The effect of a call to the store on disk**, on any storage. -/
theorem called (hx : Json.ReadsBack x.parseJson) (h : Live x d.state c) (call : Call ω) :
    Called x clock (catalogOf x d.state.db) call (call.run (ops x) x clock d).1
      (catalogOf x (call.run (ops x) x clock d).2.state.db) := by
  have hcat := h.holds.catalogOf
  refine called_run (fun d : Device (FileHost ω) => catalogOf x d.state.db)
    (fun key entry admission => (access_operated hx h key entry admission).atReading ?_ ?_)
    ((collect_operated hx h).atReading ?_ ?_) call <;> rw [hcat]
  · rintro p ⟨d, hdec, hchanges, hrest⟩
    rw [hchanges, hrest]
    cases hrep : d.replacement with
    | none => exact .kept d hdec hrep
    | some s =>
      rw [Option.map_some, Option.toList_some, lookup_insertAll_singleton]
      exact .replaced d s hdec hrep
  · rintro p out ⟨d, hdec, hchanges, -⟩ hout
    rw [hchanges]
    refine ⟨.failed out hout, ?_⟩
    cases hrep : d.replacement with
    | none => exact .failed out hout
    | some s =>
      rw [Option.map_some, Option.toList_some, lookup_insertAll_singleton]
      exact .torn d s out hdec hrep hout
  · rintro p ⟨hchanges, -⟩
    rw [hchanges]
    exact collected_lapsed x p.now c.2 _
  · rintro p out ⟨hchanges, -⟩ -
    rw [hchanges]
    exact ⟨fun _ => .inl rfl, collected_lapsed x p.now c.2 _⟩

/-- The call comes to a commit of these changes. -/
def Reaches (x : Crates) (clock : ClockRead) (call : Call ω)
    (d : Device (FileHost ω)) (changes : List (EndpointKey × Stored)) (now : Reading)
    (d₁ : Device (FileHost ω)) : Prop :=
  changes ≠ [] ∧
    match call.target x with
    | none => ∃ rest, prepareCollect x clock d = (.ok ⟨changes, now, rest⟩, d₁)
    | some (.ok target) =>
      ∃ rest, prepareAccess x target.1 target.2 clock call.callback d
        = (.ok ⟨changes, now, rest⟩, d₁)
    | some (.error _) => False

/-- **The directory after a call**: the call comes to no commit and leaves it, or it leaves what its
commit leaves. -/
theorem run_content (hx : Json.ReadsBack x.parseJson) (clock : ClockRead)
    (h : Live x d.state c) (call : Call ω) :
    (Live x (call.run (ops x) x clock d).2.state c ∧
        ∀ changes now d₁, ¬ Reaches x clock call d changes now d₁) ∨
      ∃ changes now d₁, Reaches x clock call d changes now d₁ ∧ clock = .ok now ∧
        Settled x c changes now (commit x changes now d₁).1 (call.run (ops x) x clock d) := by
  unfold Reaches
  cases htarget : call.target x with
  | none =>
    rw [Call.run_collect htarget]
    rcases (collect_operated hx h).content h with
      ⟨hlive, hnil⟩ | ⟨p, d₁, hprepare, hne, hclock, hsettled⟩
    · exact .inl ⟨hlive, fun _ _ d₁ ⟨hne, rest, hprepare⟩ => hne (hnil _ d₁ hprepare)⟩
    · exact .inr ⟨p.changes, p.now, d₁, ⟨hne, p.rest, hprepare⟩, hclock, hsettled.andThen _⟩
  | some target =>
    cases target with
    | error e =>
      rw [Call.run_unverified htarget]
      exact .inl ⟨h, fun _ _ _ hr => hr.2⟩
    | ok target =>
      rw [Call.run_access htarget]
      rcases (access_operated hx h target.1 target.2 call.callback).content h with
        ⟨hlive, hnil⟩ | ⟨p, d₁, hprepare, hne, hclock, hsettled⟩
      · exact .inl ⟨hlive, fun _ _ d₁ ⟨hne, rest, hprepare⟩ => hne (hnil _ d₁ hprepare)⟩
      · exact .inr ⟨p.changes, p.now, d₁, ⟨hne, p.rest, hprepare⟩, hclock, hsettled.andThen _⟩

/-- **A store that has failed answers no call.** -/
theorem run_failed (x : Crates) (clock : ClockRead)
    (h : d.state.mem.inner.failed = true) (call : Call ω) :
    ∃ e, call.run (ops x) x clock d = (.err e, d) := by
  have hstart : (start clock : Run ω Reading) d
      = (.err (storeError "record commit outcome uncertain; reopen required"), d) := by
    refine bind_of_error_except ?_
    exact if_pos h
  cases htarget : call.target x with
  | none =>
    have hrun : collect x clock d
      = (.err (storeError "record commit outcome uncertain; reopen required"), d) :=
      bind_of_err hstart
    rw [Call.run_collect htarget]
    show ∃ e, (((collect x clock d).1.andThen _, (collect x clock d).2) :
      Outcome DiscoveryError Reply × _) = (.err e, d)
    rw [hrun]
    exact ⟨_, rfl⟩
  | some target =>
    cases target with
    | error e => exact ⟨e, Call.run_unverified htarget⟩
    | ok target =>
      have hrun : access x target.1 target.2 clock call.callback d
        = (.err (storeError "record commit outcome uncertain; reopen required"), d) :=
        bind_of_err hstart
      rw [Call.run_access htarget]
      show ∃ e, (((access x target.1 target.2 clock call.callback d).1.andThen _,
        (access x target.1 target.2 clock call.callback d).2) :
        Outcome DiscoveryError Reply × _) = (.err e, d)
      rw [hrun]
      exact ⟨_, rfl⟩

end FileStore

end Rds.Discovery
