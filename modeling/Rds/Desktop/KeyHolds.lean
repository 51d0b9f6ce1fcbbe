import Rds.Framework.ByteBits
import Rds.Framework.Machine
import Rds.Framework.Table

/-!
# Shared key holds on an X server

The sinks of a process inject into one X server (`rds-desktop/src/input/x11.rs`). A key is pressed once,
however many sinks hold it, and its auto-repeat is off meanwhile. Who holds a key is counted in a map of the
process, with the setting of the key before the first press. A `Hold` is one share; it is given back when it
is dropped.

A step is one critical section of that map, or what happens between two of them: a sink is made, its keymap
is loaded again, a hold is taken out of a sink (`keyUp`), and a sink is dropped with all its holds
(`close`). Each X call may fail; `Shared` is what holds between critical sections when none does.

The process has one `DISPLAY`, hence one name for the server.
-/

namespace Rds.Desktop

open Framework List Table

/-- `DesktopError`, as far as input uses it. -/
inductive DesktopError
  | input (message : String)
  deriving DecidableEq

namespace X11

/-! ### The X server -/

/-- What becomes of a call. -/
inductive CallFate
  | done
  /-- The server refuses the request. -/
  | refused
  /-- The request takes effect, but no answer arrives. -/
  | lost
  deriving DecidableEq

/-- The part of the X server that holds are about, and the fates of the calls to come. Calls beyond the list
are done. -/
structure XServer where
  down : UInt8 → Bool
  /-- `per_key_repeat` of the XKB controls. -/
  repeats : ByteBits
  fates : List CallFate

/-- `error` of `repeat.rs`. -/
def error : DesktopError := .input "X11 keyboard repeat state failed"

/-- One call. -/
def XServer.call (x : XServer) (effect : XServer → XServer) : Except DesktopError Unit × XServer :=
  match x.fates with
  | [] => (.ok (), effect x)
  | .done :: fates => (.ok (), effect { x with fates })
  | .refused :: fates => (.error error, { x with fates })
  | .lost :: fates => (.error error, effect { x with fates })

/-- `mode`. Two calls; nobody else writes the array between them. -/
def mode (x : XServer) (key : UInt8) (on : Bool) : Except DesktopError Bool × XServer :=
  match x.call id with
  | (.error e, x) => (.error e, x)
  | (.ok (), x) =>
    let previous := x.repeats.bit key
    if previous = on then (.ok previous, x)
    else
      match x.call fun x => { x with repeats := x.repeats.write key on } with
      | (.error e, x) => (.error e, x)
      | (.ok (), x) => (.ok previous, x)

/-- `fake`. -/
def fake (x : XServer) (key : UInt8) (press : Bool) : Except DesktopError Unit × XServer :=
  x.call fun x => { x with down := Function.update x.down key press }

/-! ### Holds -/

/-- `State`. -/
structure Owners where
  owners : ℕ
  repeats : Bool
  deriving DecidableEq

/-- The map of `HOLDS`. -/
abbrev Holds := Table (String × UInt8) Owners

/-- `Hold`, without its connection. -/
structure Hold where
  server : String
  key : UInt8
  released : Bool
  deriving DecidableEq

/-- A key is released and pressed. -/
def pulse (x : XServer) (key : UInt8) : Except DesktopError Unit × XServer :=
  match fake x key false with
  | (.error e, x) => (.error e, x)
  | (.ok (), x) => fake x key true

/-- `Hold::press`. -/
def press (holds : Holds) (x : XServer) (server : String) (key : UInt8) (modifier : Bool) :
    Except DesktopError Hold × Holds × XServer :=
  match holds.get (server, key) with
  | some state =>
    if state.owners + 1 ≥ 2 ^ 32 then (.error error, holds, x)
    else
      let next := { state with owners := state.owners + 1 }
      if modifier then (.ok ⟨server, key, false⟩, holds.insert (server, key) next, x)
      else
        match pulse x key with
        | (.error e, x) => (.error e, holds, x)
        | (.ok (), x) => (.ok ⟨server, key, false⟩, holds.insert (server, key) next, x)
  | none =>
    match mode x key false with
    | (.error e, x) => (.error e, holds, x)
    | (.ok setting, x) =>
      match fake x key true with
      | (.error e, x) => (.error e, holds, (mode x key setting).2)
      | (.ok (), x) => (.ok ⟨server, key, false⟩, holds.insert (server, key) ⟨1, setting⟩, x)

/-- `Hold::repeat`. -/
def Hold.repeats (self : Hold) (x : XServer) (modifier : Bool) : Except DesktopError Unit × XServer :=
  if modifier then (.ok (), x) else pulse x self.key

/-- `Hold::release`. -/
def Hold.release (self : Hold) (holds : Holds) (x : XServer) : Except DesktopError Unit × Holds × XServer :=
  if self.released then (.ok (), holds, x)
  else
    match holds.get (self.server, self.key) with
    | none => (.ok (), holds, x)
    | some state =>
      if state.owners > 1 then
        (.ok (), holds.insert (self.server, self.key) { state with owners := state.owners - 1 }, x)
      else
        let (release, x) := fake x self.key false
        let (restore, x) := mode x self.key state.repeats
        (do release; discard restore, holds.remove (self.server, self.key), x)

/-! ### Sinks -/

/-- The keys whose repeated presses are not pulses: modifiers and locks. -/
def isModifier (code : UInt32) : Bool := code ∈ [29, 42, 54, 56, 97, 100, 125, 126, 58, 69, 70]

/-- `KeyMap`. -/
abbrev KeyMap := UInt32 → Option UInt8

/-- The sinks of a process, and what they share. -/
structure Desk where
  holds : Holds
  x : XServer
  /-- The sinks that are not dropped, with their keymaps. -/
  sinks : Table ℕ KeyMap
  /-- `keys` of all sinks. -/
  keys : Table (ℕ × UInt32) Hold
  /-- Holds that were taken out of their sinks and will be dropped. -/
  loose : List Hold

namespace Desk

/-- `XtestInput::key` for a press. `focus` is what `keyboard_on_screen` finds. -/
def keyDown (d : Desk) (server : String) (sink : ℕ) (keymap : KeyMap) (code : UInt32)
    (focus : Except DesktopError Unit) : Except DesktopError Unit × Desk :=
  match d.keys.get (sink, code), keymap code, focus with
  | none, none, _ => (.error (.input "evdev key has no physical mapping in the XKB keyboard"), d)
  | _, _, .error e => (.error e, d)
  | some hold, _, .ok () =>
    let (result, x) := hold.repeats d.x (isModifier code)
    (result, { d with x })
  | none, some key, .ok () =>
    match press d.holds d.x server key (isModifier code) with
    | (.error e, holds, x) => (.error e, { d with holds, x })
    | (.ok hold, holds, x) => (.ok (), { d with holds, x, keys := d.keys.insert (sink, code) hold })

/-- `XtestInput::key` for a release, up to the critical section. -/
def keyUp (d : Desk) (sink : ℕ) (keymap : KeyMap) (code : UInt32) : Except DesktopError Unit × Desk :=
  match d.keys.get (sink, code) with
  | none =>
    match keymap code with
    | none => (.error (.input "evdev key has no physical mapping in the XKB keyboard"), d)
    | some _ => (.ok (), d)
  | some hold => (.ok (), { d with keys := d.keys.remove (sink, code), loose := hold :: d.loose })

/-- `Drop for XtestInput`, up to the critical sections. -/
def close (d : Desk) (sink : ℕ) : Desk :=
  { d with
    sinks := d.sinks.remove sink
    keys := d.keys.retain fun k _ => !decide (k.1 = sink)
    loose := (d.keys.rows.filter fun r => decide (r.1.1 = sink)).map Prod.snd ++ d.loose }

/-- A hold that was taken out is released, and gone. -/
def drop (d : Desk) (hold : Hold) : Except DesktopError Unit × Desk :=
  let (result, holds, x) := hold.release d.holds d.x
  (result, { d with holds, x, loose := d.loose.erase hold })

end Desk

/-- What happens. The lists are the fates of the calls. -/
inductive Act
  | create (sink : ℕ) (keymap : KeyMap)
  | mapping (sink : ℕ) (keymap : KeyMap)
  | keyDown (sink : ℕ) (code : UInt32) (focus : Except DesktopError Unit) (fates : List CallFate)
  | keyUp (sink : ℕ) (code : UInt32)
  | drop (hold : Hold) (fates : List CallFate)
  | close (sink : ℕ)

/-- The calls of an action succeed. -/
def Act.Succeeds : Act → Prop
  | .keyDown _ _ _ fates => fates = []
  | .drop _ fates => fates = []
  | _ => True

/-- One action of a process whose server is `server`. -/
def step (server : String) : Act → Desk → Option Desk
  | .create sink keymap, d =>
    if (d.sinks.get sink).isNone then some { d with sinks := d.sinks.insert sink keymap } else none
  | .mapping sink keymap, d =>
    (d.sinks.get sink).map fun _ => { d with sinks := d.sinks.insert sink keymap }
  | .keyDown sink code focus fates, d =>
    (d.sinks.get sink).map fun keymap =>
      (Desk.keyDown { d with x := { d.x with fates } } server sink keymap code focus).2
  | .keyUp sink code, d => (d.sinks.get sink).map fun keymap => (d.keyUp sink keymap code).2
  | .drop hold fates, d =>
    if hold ∈ d.loose then some (Desk.drop { d with x := { d.x with fates } } hold).2 else none
  | .close sink, d => (d.sinks.get sink).map fun _ => d.close sink

/-- The process. -/
def process (server : String) : Machine Desk Act := ⟨step server⟩

/-- No sinks yet; no key is down. -/
def Desk.start (repeats : ByteBits) : Desk := ⟨.empty, ⟨fun _ => false, repeats, []⟩, .empty, .empty, []⟩

/-! ### Calls that succeed -/

section Calls

variable {x : XServer} {key : UInt8} {on : Bool}

theorem call_eq (h : x.fates = []) (effect : XServer → XServer) : x.call effect = (.ok (), effect x) := by
  unfold XServer.call
  rw [h]

theorem fake_eq (h : x.fates = []) (key : UInt8) (press : Bool) :
    fake x key press = (.ok (), { x with down := Function.update x.down key press }) := call_eq h _

theorem pulse_eq (h : x.fates = []) (key : UInt8) :
    pulse x key = (.ok (), { x with down := Function.update x.down key true }) := by
  unfold pulse
  rw [fake_eq h]
  dsimp only
  rw [fake_eq (by exact h), Function.update_idem]

theorem mode_eq (h : x.fates = []) (key : UInt8) (on : Bool) :
    ∃ repeats : ByteBits, mode x key on = (.ok (x.repeats.bit key), { x with repeats }) ∧
      ∀ m, repeats.bit m = if m = key then on else x.repeats.bit m := by
  unfold mode
  rw [call_eq h]
  dsimp only [id]
  by_cases hsame : x.repeats.bit key = on
  · refine ⟨x.repeats, by rw [if_pos hsame], fun m => ?_⟩
    split
    next heq => rw [heq, hsame]
    next => rfl
  · refine ⟨x.repeats.write key on, by rw [if_neg hsame, call_eq h], fun m => ?_⟩
    exact ByteBits.bit_write _ _ _ _

end Calls

/-! ### The map and the server agree -/

/-- The map counts the holds of each key, the server has the key down, and its auto-repeat off, as long as
there is one. `setting` are the auto-repeat bits nobody else changes. -/
structure Agree (server : String) (setting : ByteBits) (count : UInt8 → ℕ) (holds : Holds) (x : XServer) :
    Prop where
  entry : ∀ key, holds.get (server, key) = if count key = 0 then none else some ⟨count key, setting.bit key⟩
  down : ∀ key, x.down key = decide (0 < count key)
  repeats : ∀ key, x.repeats.bit key = (setting.bit key && decide (count key = 0))

namespace Agree

variable {server : String} {setting : ByteBits} {count : UInt8 → ℕ} {holds holds' : Holds} {x x' : XServer}
  {key : UInt8} {hold : Hold}

theorem get_insert_row (owners : Owners) (m : UInt8) :
    (holds.insert (server, key) owners).get (server, m) =
      if m = key then some owners else holds.get (server, m) := by
  rw [get_insert]
  simp only [Prod.mk.injEq, true_and]

theorem get_remove_row (m : UInt8) :
    (holds.remove (server, key)).get (server, m) = if m = key then none else holds.get (server, m) := by
  rw [get_remove]
  simp only [Prod.mk.injEq, true_and]

variable (h : Agree server setting count holds x)
include h

theorem update {n : ℕ} (hentry : ∀ m, holds'.get (server, m) =
      if m = key then (if n = 0 then none else some ⟨n, setting.bit key⟩) else holds.get (server, m))
    (hdown : ∀ m, x'.down m = if m = key then decide (0 < n) else x.down m)
    (hrepeats : ∀ m, x'.repeats.bit m = if m = key then (setting.bit key && decide (n = 0)) else x.repeats.bit m) :
    Agree server setting (Function.update count key n) holds' x' where
  entry m := by
    rw [hentry, Function.update_apply]
    split
    next heq => rw [heq]
    next => exact h.entry m
  down m := by
    rw [hdown, Function.update_apply]
    split
    · rfl
    · exact h.down m
  repeats m := by
    rw [hrepeats, Function.update_apply]
    split
    next heq => rw [heq]
    next => exact h.repeats m

theorem get_of_pos (hpos : 0 < count key) :
    holds.get (server, key) = some ⟨count key, setting.bit key⟩ := by
  rw [h.entry, if_neg (by omega)]

theorem pulse (hpos : 0 < count key) (down : UInt8 → Bool)
    (hdown : down = Function.update x.down key true) : Agree server setting count holds { x with down } where
  entry := h.entry
  down m := by
    rw [hdown]
    dsimp only
    rw [Function.update_apply]
    split
    next heq => rw [heq, decide_eq_true hpos]
    next => exact h.down m
  repeats := h.repeats

/-- **A press** makes a hold, or nothing if there are too many. -/
theorem press (hx : x.fates = []) (key : UInt8) (modifier : Bool) :
    X11.press holds x server key modifier = (.error error, holds, x) ∨
    ∃ holds' x', X11.press holds x server key modifier = (.ok ⟨server, key, false⟩, holds', x') ∧
      Agree server setting (Function.update count key (count key + 1)) holds' x' := by
  unfold X11.press
  by_cases hzero : count key = 0
  · -- the first press saves the setting and turns it off
    have hbit : x.repeats.bit key = setting.bit key := by
      rw [h.repeats, decide_eq_true hzero, Bool.and_true]
    obtain ⟨repeats, hmode, hrepeats⟩ := mode_eq hx key false
    rw [h.entry, if_pos hzero]
    rw [hmode]
    dsimp only
    rw [fake_eq (by exact hx)]
    refine .inr ⟨_, _, rfl, h.update (fun m => ?_) (fun m => ?_) fun m => ?_⟩
    · rw [get_insert_row, hzero, hbit]
      rfl
    · exact Function.update_apply _ _ _ _
    · rw [hzero, decide_eq_false Nat.one_ne_zero, Bool.and_false]
      exact hrepeats m
  have hpos : 0 < count key := Nat.pos_of_ne_zero hzero
  have hdown : x.down key = true := by rw [h.down, decide_eq_true hpos]
  have hoff : x.repeats.bit key = (setting.bit key && decide (count key + 1 = 0)) := by
    rw [h.repeats, decide_eq_false hzero, decide_eq_false (Nat.succ_ne_zero _)]
  rw [h.get_of_pos hpos]
  dsimp only
  split
  · exact .inl rfl
  right
  have hentry : ∀ m, (holds.insert (server, key) ⟨count key + 1, setting.bit key⟩).get (server, m) =
      if m = key then (if count key + 1 = 0 then none else some ⟨count key + 1, setting.bit key⟩)
      else holds.get (server, m) := fun m => get_insert_row _ m
  have hrepeats : ∀ m, x.repeats.bit m = if m = key then
      (setting.bit key && decide (count key + 1 = 0)) else x.repeats.bit m := by
    intro m
    split
    next heq => rw [heq, hoff]
    next => rfl
  split
  · refine ⟨_, _, rfl, h.update hentry (fun m => ?_) hrepeats⟩
    split
    next heq => rw [heq, hdown, decide_eq_true (Nat.succ_pos _)]
    next => rfl
  · rw [pulse_eq hx]
    refine ⟨_, _, rfl, h.update hentry (fun m => ?_) hrepeats⟩
    exact Function.update_apply _ _ _ _

/-- **A repeat** changes nothing. -/
theorem repeats_hold (hx : x.fates = []) (hpos : 0 < count hold.key)
    (modifier : Bool) : Agree server setting count holds (hold.repeats x modifier).2 := by
  unfold Hold.repeats
  split
  · exact h
  · rw [pulse_eq hx]
    exact h.pulse hpos _ rfl

/-- **A release** takes one hold away; the last one takes the press and the setting back. -/
theorem release (hx : x.fates = []) (hserver : hold.server = server)
    (hreleased : hold.released = false) (hpos : 0 < count hold.key) :
    ∃ holds' x', hold.release holds x = (.ok (), holds', x') ∧
      Agree server setting (Function.update count hold.key (count hold.key - 1)) holds' x' := by
  unfold Hold.release
  rw [hreleased, hserver, if_neg Bool.false_ne_true, h.get_of_pos hpos]
  dsimp only
  split
  next hmore =>
    have hne : count hold.key - 1 ≠ 0 := by omega
    refine ⟨_, _, rfl, h.update (fun m => ?_) (fun m => ?_) fun m => ?_⟩
    · rw [get_insert_row, if_neg hne]
    · split
      next heq => rw [heq, h.down, decide_eq_true hpos, decide_eq_true (Nat.pos_of_ne_zero hne)]
      next => rfl
    · split
      next heq => rw [heq, h.repeats, decide_eq_false (by omega), decide_eq_false hne]
      next => rfl
  next hlast =>
  have hone : count hold.key - 1 = 0 := by omega
  obtain ⟨repeats, hmode, hrepeats⟩ :=
    mode_eq (x := { x with down := Function.update x.down hold.key false }) hx hold.key (setting.bit hold.key)
  rw [fake_eq hx]
  rw [hmode]
  refine ⟨_, _, rfl, h.update (fun m => ?_) (fun m => ?_) fun m => ?_⟩
  · rw [get_remove_row, if_pos hone]
  · rw [hone]
    exact Function.update_apply _ _ _ _
  · rw [hone, decide_eq_true rfl, Bool.and_true]
    exact hrepeats m

theorem setFates (fates : List CallFate) :
    Agree server setting count holds { x with fates } := ⟨h.entry, h.down, h.repeats⟩

end Agree

/-! ### The process -/

/-- One for the holds of a key. -/
def onKey (key : UInt8) (hold : Hold) : ℕ := if hold.key = key then 1 else 0

/-- The number of holds of a key: in the sinks, and taken out of them but not released. -/
def Desk.count (d : Desk) (key : UInt8) : ℕ := d.keys.weight (onKey key) + (d.loose.map (onKey key)).sum

/-- **The invariant**, between critical sections. -/
structure Shared (server : String) (setting : ByteBits) (d : Desk) : Prop where
  agree : Agree server setting d.count d.holds d.x
  keys : ∀ k hold, d.keys.get k = some hold → hold.server = server ∧ hold.released = false
  loose : ∀ hold ∈ d.loose, hold.server = server ∧ hold.released = false
  /-- A sink that is dropped holds nothing. -/
  sinks : ∀ k hold, d.keys.get k = some hold → ∃ keymap, d.sinks.get k.1 = some keymap

section Process

variable {server : String} {setting : ByteBits} {d d' : Desk} {k : ℕ × UInt32} {hold : Hold} {sink : ℕ}
  {code : UInt32} {keymap : KeyMap}

theorem count_pos_of_get (h : d.keys.get k = some hold) : 0 < d.count hold.key := by
  have hweight := weight_remove (onKey hold.key) h
  have hone : onKey hold.key hold = 1 := if_pos rfl
  unfold Desk.count
  omega

theorem count_pos_of_mem (h : hold ∈ d.loose) : 0 < d.count hold.key := by
  have hsum := sum_map_erase (onKey hold.key) h
  have hone : onKey hold.key hold = 1 := if_pos rfl
  unfold Desk.count
  omega

theorem count_insert (h : d.keys.get k = none) (holds : Holds) (x : XServer) :
    Desk.count { d with holds, x, keys := d.keys.insert k hold } =
      Function.update d.count hold.key (d.count hold.key + 1) := by
  funext key
  unfold Desk.count
  dsimp only
  rw [weight_insert_of_none _ h, Function.update_apply]
  unfold onKey
  split
  next heq =>
    rw [heq, if_pos rfl]
    omega
  next hne =>
    rw [if_neg (Ne.symm hne)]
    omega

theorem count_keyUp (h : d.keys.get k = some hold) :
    Desk.count { d with keys := d.keys.remove k, loose := hold :: d.loose } = d.count := by
  funext key
  have hweight := weight_remove (onKey key) h
  unfold Desk.count
  dsimp only
  rw [map_cons, sum_cons]
  omega

theorem count_close : (d.close sink).count = d.count := by
  funext key
  have hsplit := ((filter_append_perm (fun r => decide (r.1.1 = sink)) d.keys.rows).map fun r => onKey key r.2).sum_eq
  rw [map_append, sum_append] at hsplit
  show ((d.keys.rows.filter fun r => !decide (r.1.1 = sink)).map fun r => onKey key r.2).sum +
    (((d.keys.rows.filter fun r => decide (r.1.1 = sink)).map Prod.snd ++ d.loose).map (onKey key)).sum =
      (d.keys.rows.map fun r => onKey key r.2).sum + (d.loose.map (onKey key)).sum
  rw [map_append, sum_append, map_map]
  unfold Function.comp
  omega

theorem count_drop (h : hold ∈ d.loose) (holds : Holds) (x : XServer) :
    Desk.count { d with holds, x, loose := d.loose.erase hold } =
      Function.update d.count hold.key (d.count hold.key - 1) := by
  funext key
  have hsum := sum_map_erase (onKey key) h
  unfold Desk.count
  dsimp only
  rw [Function.update_apply]
  unfold onKey at hsum ⊢
  split
  next heq =>
    rw [heq] at hsum ⊢
    rw [if_pos rfl] at hsum
    omega
  next hne =>
    rw [if_neg (Ne.symm hne)] at hsum
    omega

namespace Shared

theorem start (server : String) (setting : ByteBits) : Shared server setting (.start setting) where
  agree := ⟨fun _ => rfl, fun _ => rfl, fun key => (Bool.and_true _).symm⟩
  keys _ _ h := by cases h
  loose _ h := by cases h
  sinks _ _ h := by cases h

variable (h : Shared server setting d)
include h

theorem setFates (fates : List CallFate) :
    Shared server setting { d with x := { d.x with fates } } :=
  ⟨h.agree.setFates fates, h.keys, h.loose, h.sinks⟩

/-- A press that is refused leaves no hold, and a repeated one adds none. -/
theorem keyDown (hx : d.x.fates = []) (hsink : d.sinks.get sink = some keymap)
    (focus : Except DesktopError Unit) :
    Shared server setting (d.keyDown server sink keymap code focus).2 := by
  unfold Desk.keyDown
  cases hget : d.keys.get (sink, code) with
  | some hold =>
    cases focus with
    | error e => exact h
    | ok _ => exact ⟨h.agree.repeats_hold hx (count_pos_of_get hget) _, h.keys, h.loose, h.sinks⟩
  | none =>
    cases keymap code with
    | none => exact h
    | some key =>
      cases focus with
      | error e => exact h
      | ok _ =>
        dsimp only
        rcases h.agree.press hx key (isModifier code) with hpress | ⟨holds', x', hpress, hagree⟩
        · rw [hpress]
          exact ⟨h.agree, h.keys, h.loose, h.sinks⟩
        rw [hpress]
        refine ⟨?_, fun k hold hk => ?_, h.loose, fun k hold hk => ?_⟩
        · rw [count_insert hget]
          exact hagree
        · rw [get_insert] at hk
          split at hk
          · cases hk
            exact ⟨rfl, rfl⟩
          · exact h.keys k hold hk
        rw [get_insert] at hk
        split at hk
        next heq =>
          rw [heq]
          exact ⟨keymap, hsink⟩
        next => exact h.sinks k hold hk

theorem keyUp : Shared server setting (d.keyUp sink keymap code).2 := by
  unfold Desk.keyUp
  split
  · split <;> exact h
  next hold hget =>
  refine ⟨?_, fun k' hold' hk => ?_, fun hold' hmem => ?_, fun k' hold' hk => ?_⟩
  · rw [count_keyUp hget]
    exact h.agree
  · rw [get_remove, Option.ite_none_left_eq_some] at hk
    exact h.keys k' hold' hk.2
  · rcases mem_cons.mp hmem with rfl | hmem
    · exact h.keys _ _ hget
    · exact h.loose hold' hmem
  · rw [get_remove, Option.ite_none_left_eq_some] at hk
    exact h.sinks k' hold' hk.2

theorem close : Shared server setting (d.close sink) := by
  have hkept : ∀ k hold, (d.close sink).keys.get k = some hold → d.keys.get k = some hold ∧ k.1 ≠ sink := by
    intro k hold hk
    have hk' : (d.keys.retain fun k _ => !decide (k.1 = sink)).get k = some hold := hk
    rw [get_retain, Option.filter_eq_some_iff] at hk'
    exact ⟨hk'.1, by simpa using hk'.2⟩
  refine ⟨?_, fun k hold hk => h.keys k hold (hkept k hold hk).1, fun hold hmem => ?_, fun k hold hk => ?_⟩
  · rw [count_close]
    exact h.agree
  · rcases mem_append.mp hmem with hmem | hmem
    · obtain ⟨r, hr, rfl⟩ := mem_map.mp hmem
      exact h.keys r.1 r.2 (get_eq_some_iff.mpr (mem_filter.mp hr).1)
    · exact h.loose hold hmem
  obtain ⟨hget, hne⟩ := hkept k hold hk
  obtain ⟨keymap, hkeymap⟩ := h.sinks k hold hget
  refine ⟨keymap, ?_⟩
  show (d.sinks.remove sink).get k.1 = some keymap
  rw [get_remove, if_neg hne]
  exact hkeymap

theorem drop (hx : d.x.fates = []) (hmem : hold ∈ d.loose) :
    Shared server setting (d.drop hold).2 := by
  obtain ⟨hserver, hreleased⟩ := h.loose hold hmem
  obtain ⟨holds', x', hrelease, hagree⟩ := h.agree.release hx hserver hreleased (count_pos_of_mem hmem)
  unfold Desk.drop
  rw [hrelease]
  refine ⟨?_, h.keys, fun hold' hmem' => h.loose hold' (mem_of_mem_erase hmem'), h.sinks⟩
  rw [count_drop hmem]
  exact hagree

theorem setKeymap : Shared server setting { d with sinks := d.sinks.insert sink keymap } where
  agree := h.agree
  keys := h.keys
  loose := h.loose
  sinks k hold hk := by
    rw [get_insert]
    split
    · exact ⟨keymap, rfl⟩
    · exact h.sinks k hold hk

/-- **The step lemma.** -/
theorem step {act : Act} (hact : act.Succeeds) (hstep : X11.step server act d = some d') :
    Shared server setting d' := by
  cases act with
  | create sink keymap =>
    obtain ⟨-, hstep⟩ := Option.ite_none_right_eq_some.mp hstep
    cases hstep
    exact h.setKeymap
  | mapping sink keymap =>
    obtain ⟨_, -, rfl⟩ := Option.map_eq_some_iff.mp hstep
    exact h.setKeymap
  | keyDown sink code focus fates =>
    cases hact
    obtain ⟨keymap, hkeymap, rfl⟩ := Option.map_eq_some_iff.mp hstep
    exact (h.setFates []).keyDown rfl hkeymap focus
  | keyUp sink code =>
    obtain ⟨keymap, -, rfl⟩ := Option.map_eq_some_iff.mp hstep
    exact h.keyUp
  | drop hold fates =>
    cases hact
    obtain ⟨hmem, hstep⟩ := Option.ite_none_right_eq_some.mp hstep
    cases hstep
    exact (h.setFates []).drop rfl hmem
  | close sink =>
    obtain ⟨_, -, rfl⟩ := Option.map_eq_some_iff.mp hstep
    exact h.close

/-- **The run lemma.** -/
theorem run {acts : List Act} (hacts : ∀ act ∈ acts, act.Succeeds)
    (hrun : (process server).run acts d = some d') : Shared server setting d' := by
  refine (Machine.run_induction (P := fun acts d => (∀ act ∈ acts, act.Succeeds) ∧ Shared server setting d)
    (fun act acts d d' hd hstep => ?_) ⟨hacts, h⟩ hrun).2
  obtain ⟨hall, hshared⟩ := hd
  exact ⟨fun a ha => hall a (mem_cons_of_mem _ ha), hshared.step (hall act mem_cons_self) hstep⟩

end Shared

/-- **Shared key holds.** In every run in which the X calls succeed: a key is down iff it has a hold; the map
has the number of its holds, and the auto-repeat setting the key had before; the auto-repeat of a key is off as
long as it has a hold, and as it was otherwise; and when all sinks are dropped, and their holds, no key is
down. -/
theorem key_holds (server : String) (setting : ByteBits) (acts : List Act) (d : Desk)
    (hrun : (process server).run acts (.start setting) = some d) (hacts : ∀ act ∈ acts, act.Succeeds) :
    (∀ key, d.x.down key = true ↔ 0 < d.count key) ∧
    (∀ key, d.holds.get (server, key) = if d.count key = 0 then none else some ⟨d.count key, setting.bit key⟩) ∧
    (∀ key, 0 < d.count key → d.x.repeats.bit key = false) ∧
    (∀ key, d.count key = 0 → d.x.repeats.bit key = setting.bit key) ∧
    (d.sinks = .empty → d.loose = [] → ∀ key, d.x.down key = false) := by
  have h := (Shared.start server setting).run hacts hrun
  refine ⟨fun key => ?_, h.agree.entry, fun key hpos => ?_, fun key hzero => ?_, fun hsinks hloose key => ?_⟩
  · rw [h.agree.down, decide_eq_true_eq]
  · rw [h.agree.repeats, decide_eq_false (by omega), Bool.and_false]
  · rw [h.agree.repeats, decide_eq_true hzero, Bool.and_true]
  -- nobody is left to hold a key
  have hrows : d.keys.rows = [] := by
    rw [eq_nil_iff_forall_not_mem]
    rintro ⟨k, hold⟩ hmem
    obtain ⟨keymap, hkeymap⟩ := h.sinks k hold (get_eq_some_iff.mpr hmem)
    rw [hsinks] at hkeymap
    cases hkeymap
  have hcount : d.count key = 0 := by
    unfold Desk.count weight
    rw [hrows, hloose]
    rfl
  rw [h.agree.down, hcount]
  rfl

end Process

/-- Two sinks hold the key of code 30, and one lets go. -/
def twoSinks : List Act :=
  let keymap : KeyMap := fun code => if code = 30 then some 38 else none
  [.create 0 keymap, .create 1 keymap, .keyDown 0 30 (.ok ()) [], .keyDown 1 30 (.ok ()) [], .keyUp 0 30,
    .drop ⟨":0", 38, false⟩ []]

/-- Then the key is still down, and its auto-repeat off. -/
theorem key_holds_twoSinks :
    ∃ d, (process ":0").run twoSinks (.start fun _ => 255) = some d ∧ d.count 38 = 1 ∧ d.x.down 38 = true ∧
      d.x.repeats.bit 38 = false ∧ d.x.repeats.bit 39 = true := by
  have hsome : ((process ":0").run twoSinks (.start fun _ => 255)).isSome = true := by decide +kernel
  obtain ⟨d, hd⟩ := Option.isSome_iff_exists.mp hsome
  have hcount : ((process ":0").run twoSinks (.start fun _ => 255)).map (fun d => (d.count 38, d.count 39)) =
      some (1, 0) := by decide +kernel
  rw [hd, Option.map_some, Option.some.injEq, Prod.mk.injEq] at hcount
  obtain ⟨hdown, -, hoff, hkept, -⟩ := key_holds ":0" (fun _ => 255) twoSinks d hd (by
    intro act hact
    simp only [twoSinks, mem_cons, not_mem_nil, or_false] at hact
    rcases hact with rfl | rfl | rfl | rfl | rfl | rfl <;> trivial)
  have hpos : 0 < d.count 38 := by omega
  exact ⟨d, hd, hcount.1, (hdown 38).mpr hpos, hoff 38 hpos, (hkept 39 hcount.2).trans (by decide +kernel)⟩

end X11

end Rds.Desktop
