import Rds.Desktop.KeyHolds
import Rds.Framework.Fallible
import Rds.Framework.OrderedMap

/-!
# Holds on the devices of a compositor

One actor injects the input of all sessions through the devices of a compositor
(`rds-desktop/src/portal/input.rs`). Each session has a lease, and the actor remembers which keys and buttons
each lease holds. A key that several leases hold is pressed once. When a lease ends, what only it held is
released.

A step is one event of the compositor, one pass over the ended leases, one request, or the end of a lease,
which a session may cause at any time. An iteration of `run` is a sequence of such steps: its events, a pass,
and at most one request. A step that is `none` ends the actor with an error.

`Held` is the invariant: what is pressed on the resumed devices is what the leases hold. A device that is
paused or removed ends all leases, and the pass that follows releases what they hold. It rests on two
conditions. A pause makes the actor forget all keys, also those of another keyboard (`invalidateDevice`), and
a button counts as held before the device is asked whether it has buttons (`applyButton`).

The devices belong to a library. Their capabilities are constant while they are there, but what the library
answers for a device that it reports as removed is its own business: it may have dropped the interfaces of
the device by then, so `removed` takes that as a parameter. If it has, the keys are not forgotten but
released on the keyboard that is left, and without one the actor ends with an error.
-/

namespace Rds.Desktop.Portal

open Framework Function Std List

/-- `error`. -/
def error : DesktopError := .input "Wayland input unavailable or no longer authorized"

/-- `MAX_DEVICES`. -/
def maxDevices : ℕ := 64

/-- `MAX_MONITORS` of the session. -/
def maxMonitors : ℕ := 16

/-! ### Devices and leases -/

/-- A device: its capabilities, which are its interfaces, and the mapping ids of its regions. -/
structure Device where
  id : ℕ
  keyboard : Bool
  pointerAbsolute : Bool
  button : Bool
  scroll : Bool
  regions : List (Option String)
  deriving DecidableEq

/-- `NativeDevice`. -/
structure NativeDevice where
  device : Device
  resumed : Bool
  deriving DecidableEq

/-- `Holds`, without the fractions of a scroll step. -/
structure Holds where
  keys : Finset ℕ
  buttons : Finset ℕ
  pointer : Option Device
  deriving DecidableEq

/-- A lease that holds nothing. -/
def Holds.none : Holds := ⟨∅, ∅, .none⟩

/-- `InputKind`. Of a position and of a scroll delta only whether they are accepted matters. -/
inductive InputKind
  | keyDown (code : ℕ)
  | keyUp (code : ℕ)
  | pointerMove (mapped : Bool)
  | pointerMotion
  | pointerButton (button : ℤ) (pressed : Bool)
  | scroll (accepted : Bool)
  deriving DecidableEq

/-- `Request`, without the channel of its reply. -/
structure Request where
  lease : ℕ
  era : ℕ
  index : ℕ
  extent : ℕ × ℕ
  action : InputKind
  deriving DecidableEq

/-- `Actor`, with what it shares and what the compositor has pressed. -/
structure Actor where
  devices : List NativeDevice
  holds : ExtTreeMap ℕ Holds compare
  sequence : ℕ
  mappings : List (ℕ × String)
  era : ℕ
  /-- The leases whose `live` is false. -/
  ended : Finset ℕ
  keysDown : Device → Finset ℕ
  buttonsDown : Device → Finset ℕ

namespace Actor

/-- `Actor::keyboard`. -/
def keyboard (self : Actor) : Except DesktopError Device :=
  match self.devices.filter fun n => n.resumed && n.device.keyboard with
  | [n] => pure n.device
  | _ => throw error

/-- `Actor::pointer`, without the geometry of the region. -/
def pointer (self : Actor) (index : ℕ) : Except DesktopError Device :=
  match self.mappings.lookup index with
  | none => throw error
  | some mapping =>
    match (self.devices.filter (·.resumed)).flatMap fun n =>
        (n.device.regions.filter (· = some mapping)).map fun _ => n.device with
    | [device] => if ¬ device.pointerAbsolute then throw error else pure device
    | _ => throw error

/-- `Actor::ready`. -/
def ready (self : Actor) : Bool :=
  self.keyboard.isOk && self.mappings.all fun m => (self.pointer m.1).isOk

/-- Does a lease hold the key? -/
def heldKey (self : Actor) (code : ℕ) : Bool := self.holds.toList.any fun x => code ∈ x.2.keys

/-- Does a lease hold the button on the device? -/
def heldButton (self : Actor) (device : Device) (button : ℕ) : Bool :=
  self.holds.toList.any fun x => x.2.pointer = some device ∧ button ∈ x.2.buttons

/-- A key event is sent. -/
def sendKey (self : Actor) (device : Device) (code : ℕ) (press : Bool) : Actor :=
  { self with
    keysDown := update self.keysDown device
      (if press then insert code (self.keysDown device) else (self.keysDown device).erase code) }

/-- A button event is sent. -/
def sendButton (self : Actor) (device : Device) (button : ℕ) (press : Bool) : Actor :=
  { self with
    buttonsDown := update self.buttonsDown device
      (if press then insert button (self.buttonsDown device) else (self.buttonsDown device).erase button) }

/-- What `Actor::invalidate_device` leaves of a lease. -/
def invalidateHold (device : Device) (hasKeyboard : Bool) (hold : Holds) : Holds :=
  { hold with
    keys := if hasKeyboard then ∅ else hold.keys
    buttons := if hold.pointer = some device then ∅ else hold.buttons }

/-- `Actor::invalidate_device`. `hasKeyboard` is what the library answers for the keyboard capability of the
device at that time. -/
def invalidateDevice (self : Actor) (device : Device) (hasKeyboard : Bool) : Actor :=
  { self with
    ended := self.ended ∪ self.holds.keys.toFinset
    holds := self.holds.map fun _ => invalidateHold device hasKeyboard }

/-! ### Ended leases -/

/-- A key of an ended lease. -/
def releaseKey (self : Actor) (key : ℕ) : Except DesktopError Actor :=
  if self.heldKey key then pure self
  else do
    let device ← self.keyboard
    if ¬ device.keyboard then throw error else pure (self.sendKey device key false)

/-- A button of an ended lease. -/
def releaseButton (pointer : Option Device) (self : Actor) (button : ℕ) : Except DesktopError Actor :=
  match pointer with
  | none => throw error
  | some device =>
    if self.heldButton device button then pure self
    else if ¬ device.button then throw error
    else pure (self.sendButton device button false)

/-- One iteration of `release_closed`. -/
def releaseLease (self : Actor) (lease : ℕ) : Except DesktopError Actor :=
  match self.holds[lease]? with
  | none => pure self
  | some held => do
    let actor ← held.keys.sort.foldlM releaseKey { self with holds := self.holds.erase lease }
    held.buttons.sort.foldlM (releaseButton held.pointer) actor

/-- `Actor::release_closed`. -/
def releaseClosed (self : Actor) : Except DesktopError Actor :=
  (self.holds.keys.filter (· ∈ self.ended)).foldlM releaseLease self

/-! ### Requests -/

/-- Write a lease back. -/
def setHold (self : Actor) (lease : ℕ) (hold : Holds) : Actor :=
  { self with holds := self.holds.insert lease hold }

/-- The keys of `Actor::apply`. -/
def applyKey (self : Actor) (lease code : ℕ) (down : Bool) : Except DesktopError Unit × Actor :=
  if code = 0 ∨ code > 0x2ff then (.error error, self)
  else
    match self.holds[lease]? with
    | none => (.error error, self)
    | some held =>
      let keys := if down then insert code held.keys else held.keys.erase code
      let actor := self.setHold lease { held with keys }
      if self.heldKey code = actor.heldKey code then (.ok (), actor)
      else
        match actor.keyboard with
        | .error e => (.error e, actor)
        | .ok device =>
          if ¬ device.keyboard then (.error error, actor)
          else (.ok (), actor.sendKey device code (actor.heldKey code))

/-- The buttons of `Actor::apply`. -/
def applyButton (self : Actor) (lease index : ℕ) (button : ℤ) (pressed : Bool) :
    Except DesktopError Unit × Actor :=
  if ¬ (0x110 ≤ button ∧ button ≤ 0x117) then (.error error, self)
  else
    let button := button.toNat
    match self.pointer index with
    | .error e => (.error e, self)
    | .ok device =>
      match self.holds[lease]? with
      | none => (.error error, self)
      | some held =>
        if held.pointer.any (· ≠ device) then (.error error, self)
        else
          let buttons := if pressed then insert button held.buttons else held.buttons.erase button
          let actor := self.setHold lease { held with buttons, pointer := some device }
          if self.heldButton device button = actor.heldButton device button then (.ok (), actor)
          else if ¬ device.button then (.error error, actor)
          else (.ok (), actor.sendButton device button (actor.heldButton device button))

/-- The entry that `Actor::apply` makes. -/
def entry (self : Actor) (lease : ℕ) : Actor :=
  if self.holds.contains lease then self else self.setHold lease .none

/-- `Actor::apply`. `extent` is what the slot of the request's display says. -/
def apply (self : Actor) (request : Request) (extent : Except DesktopError (Option (ℕ × ℕ))) :
    Except DesktopError Unit × Actor :=
  match self.mappings.lookup request.index, extent with
  | none, _ => (.error error, self)
  | some _, .error e => (.error e, self)
  | some _, .ok extent =>
    if extent ≠ some request.extent then (.error error, self)
    else
      let self := self.entry request.lease
      match request.action with
      | .keyDown code => self.applyKey request.lease code true
      | .keyUp code => self.applyKey request.lease code false
      | .pointerMove mapped =>
        match self.pointer request.index with
        | .error e => (.error e, self)
        | .ok _ => if ¬ mapped then (.error error, self) else (.ok (), self)
      | .pointerMotion =>
        (.error (.input "relative pointer input is not scoped by this portal region"), self)
      | .pointerButton button pressed => self.applyButton request.lease request.index button pressed
      | .scroll accepted =>
        if ¬ accepted then (.error error, self)
        else
          match self.pointer request.index with
          | .error e => (.error e, self)
          | .ok device => if ¬ device.scroll then (.error error, self) else (.ok (), self)

end Actor

/-! ### The loop -/

/-- What happens. -/
inductive Act
  /-- The sink of a lease is dropped or gives up. -/
  | ended (lease : ℕ)
  | added (device : Device)
  | resumed (device : Device)
  | paused (device : Device)
  /-- A device is removed. `drained` says that the library has dropped its interfaces by then. -/
  | removed (device : Device) (drained : Bool)
  /-- The pass over the ended leases of an iteration. -/
  | closed
  /-- A request is received. `late` says that its deadline has passed. -/
  | request (request : Request) (late : Bool) (extent : Except DesktopError (Option (ℕ × ℕ)))

namespace Actor

/-- The compositor releases everything on a device. -/
def neutral (self : Actor) (device : Device) : Actor :=
  { self with
    keysDown := update self.keysDown device ∅
    buttonsDown := update self.buttonsDown device ∅ }

/-- The device after an event. -/
def setResumed (self : Actor) (device : Device) (resumed : Bool) : Actor :=
  { self with
    devices := self.devices.map fun n => if n.device = device then { n with resumed } else n }

/-- `EiEvent::DeviceAdded`. -/
def added (self : Actor) (device : Device) : Except DesktopError Actor :=
  if self.devices.length ≥ maxDevices ∨ device.regions.length > maxMonitors then throw error
  else pure { self with devices := self.devices ++ [⟨device, false⟩] }

/-- `EiEvent::DeviceResumed`. -/
def resumed (self : Actor) (device : Device) : Except DesktopError Actor :=
  if self.devices.any (·.device = device) then
    if self.sequence + 1 ≥ 2 ^ 32 then throw error
    else pure { self.setResumed device true with sequence := self.sequence + 1 }
  else pure self

/-- `EiEvent::DevicePaused`. -/
def paused (self : Actor) (device : Device) : Except DesktopError Actor :=
  let actor := ((self.neutral device).invalidateDevice device device.keyboard).setResumed device false
  releaseClosed { actor with era := actor.era + 1 }

/-- `EiEvent::DeviceRemoved`. -/
def removed (self : Actor) (device : Device) (drained : Bool) : Except DesktopError Actor :=
  let actor := (self.neutral device).invalidateDevice device (device.keyboard && !drained)
  releaseClosed { actor with devices := actor.devices.filter (·.device ≠ device), era := actor.era + 1 }

/-- A request is received. -/
def receive (self : Actor) (request : Request) (late : Bool) (extent : Except DesktopError (Option (ℕ × ℕ))) :
    Except DesktopError Unit × Actor :=
  if ¬ self.ready ∨ request.lease ∈ self.ended ∨ request.era ≠ self.era ∨ late then (.error error, self)
  else self.apply request extent

end Actor

/-- One step. The compositor makes each device once. -/
def step : Act → Actor → Option Actor
  | .ended lease, a => some { a with ended := insert lease a.ended }
  | .added device, a =>
    if a.devices.any (·.device = device) then none else (a.added device).toOption
  | .resumed device, a => (a.resumed device).toOption
  | .paused device, a => (a.paused device).toOption
  | .removed device drained, a => (a.removed device drained).toOption
  | .closed, a => a.releaseClosed.toOption
  | .request request late extent, a => some (a.receive request late extent).2

/-- The loop. -/
def actor : Machine Actor Act := ⟨step⟩

/-- The actor before its first event. -/
def Actor.start (mappings : List (ℕ × String)) : Actor := ⟨[], ∅, 0, mappings, 0, ∅, fun _ => ∅, fun _ => ∅⟩

/-! ### What is held and what is pressed -/

/-- A lease holds the key. -/
def Actor.HoldsKey (a : Actor) (code : ℕ) : Prop :=
  ∃ (lease : ℕ) (hold : Holds), a.holds[lease]? = some hold ∧ code ∈ hold.keys

/-- A lease holds the button on the device. -/
def Actor.HoldsButton (a : Actor) (device : Device) (button : ℕ) : Prop :=
  ∃ (lease : ℕ) (hold : Holds), a.holds[lease]? = some hold ∧ hold.pointer = some device ∧ button ∈ hold.buttons

/-- The device is there and resumed. -/
def Actor.Resumed (a : Actor) (device : Device) : Prop := ∃ n ∈ a.devices, n.device = device ∧ n.resumed = true

/-- The key is pressed on a resumed keyboard. -/
def Actor.PressedKey (a : Actor) (code : ℕ) : Prop :=
  ∃ device, a.Resumed device ∧ device.keyboard = true ∧ code ∈ a.keysDown device

/-- What holds of the devices, whatever is sent to them. -/
structure Framed (a : Actor) : Prop where
  /-- Nothing is pressed on other devices than the resumed ones. -/
  idle : ∀ device, ¬ a.Resumed device → a.keysDown device = ∅ ∧ a.buttonsDown device = ∅
  /-- Buttons are held on resumed devices. -/
  pointed : ∀ (lease : ℕ) (hold : Holds), a.holds[lease]? = some hold → ∀ button ∈ hold.buttons,
    ∃ device, hold.pointer = some device ∧ a.Resumed device
  /-- What moves the pointer has buttons. -/
  buttoned : ∀ n ∈ a.devices, n.device.pointerAbsolute = true → n.device.button = true

/-- What a lease holds is pressed. -/
structure Backed (a : Actor) : Prop where
  keys : ∀ code, a.HoldsKey code → a.PressedKey code
  buttons : ∀ device, a.Resumed device → ∀ button, a.HoldsButton device button → button ∈ a.buttonsDown device

/-- **The invariant**, while keys and buttons are owed: they were held by a lease that is gone, and may still
be pressed. What is pressed is held or owed. The converse holds of runs that did not just lose a device,
which is what `full` stands for. -/
structure HeldWith (full : Prop) (keys buttons : List ℕ) (pointer : Option Device) (a : Actor) : Prop where
  keys : ∀ code, a.PressedKey code → a.HoldsKey code ∨ code ∈ keys
  buttons : ∀ device, a.Resumed device → ∀ button ∈ a.buttonsDown device,
    a.HoldsButton device button ∨ pointer = some device ∧ button ∈ buttons
  backed : full → Backed a
  framed : Framed a

/-- Nothing is owed, and what is held is pressed. -/
abbrev Held (a : Actor) : Prop := HeldWith True [] [] none a

section Held

variable {a a' : Actor} {device : Device} {code button lease : ℕ} {full : Prop} {ks bs : List ℕ}
  {pointer : Option Device}

/-- Some lease has such holds. -/
def AnyHold (holds : ExtTreeMap ℕ Holds compare) (P : Holds → Prop) : Prop :=
  ∃ (lease : ℕ) (hold : Holds), holds[lease]? = some hold ∧ P hold

section AnyHold

variable {holds : ExtTreeMap ℕ Holds compare} {held hold : Holds} {P : Holds → Prop}

theorem anyHold_of_lookup (hget : holds[lease]? = some held) :
    AnyHold holds P ↔ AnyHold (holds.erase lease) P ∨ P held := by
  constructor
  · rintro ⟨l, x, hx, hP⟩
    by_cases hl : lease = l
    · subst hl
      rw [hget] at hx
      cases hx
      exact .inr hP
    · exact .inl ⟨l, x, by rw [lookup_erase, if_neg hl, hx], hP⟩
  · rintro (⟨l, x, hx, hP⟩ | hP)
    · rw [lookup_erase, Option.ite_none_left_eq_some] at hx
      exact ⟨l, x, hx.2, hP⟩
    · exact ⟨lease, held, hget, hP⟩

theorem erase_of_lookup (hget : holds[lease]? = none) : holds.erase lease = holds := by
  refine ExtTreeMap.ext_getElem? fun l => ?_
  rw [lookup_erase]
  split
  next hl => rw [← hl, hget]
  next => rfl

theorem anyHold_insert : AnyHold (holds.insert lease hold) P ↔ AnyHold (holds.erase lease) P ∨ P hold := by
  have herase : (holds.insert lease hold).erase lease = holds.erase lease := by
    refine ExtTreeMap.ext_getElem? fun l => ?_
    rw [lookup_erase, lookup_erase, lookup_insert]
    split <;> rfl
  have hget : (holds.insert lease hold)[lease]? = some hold := by rw [lookup_insert, if_pos rfl]
  rw [anyHold_of_lookup hget, herase]

theorem anyHold_insert_congr (hget : holds[lease]? = some held) (hP : P hold ↔ P held) :
    AnyHold (holds.insert lease hold) P ↔ AnyHold holds P := by
  rw [anyHold_insert, anyHold_of_lookup hget, hP]

theorem anyHold_map {f : Holds → Holds} :
    AnyHold (holds.map fun _ => f) P ↔ AnyHold holds fun hold => P (f hold) := by
  unfold AnyHold
  simp only [ExtTreeMap.getElem?_map, Option.map_eq_some_iff]
  constructor
  · rintro ⟨l, _, ⟨hold, hhold, rfl⟩, hP⟩
    exact ⟨l, hold, hhold, hP⟩
  · rintro ⟨l, hold, hhold, hP⟩
    exact ⟨l, _, ⟨hold, hhold, rfl⟩, hP⟩

end AnyHold

/-- Without what is owed, the two directions are one. -/
theorem held_iff : Held a ↔ (∀ c, a.PressedKey c ↔ a.HoldsKey c) ∧
    (∀ d, a.Resumed d → ∀ b, b ∈ a.buttonsDown d ↔ a.HoldsButton d b) ∧ Framed a := by
  constructor
  · rintro ⟨hk, hb, hbacked, hframed⟩
    obtain ⟨hk', hb'⟩ := hbacked trivial
    refine ⟨fun c => ⟨fun hc => ?_, hk' c⟩, fun d hd b => ⟨fun hb₀ => ?_, hb' d hd b⟩, hframed⟩
    · exact (hk c hc).resolve_right not_mem_nil
    · exact (hb d hd b hb₀).resolve_right fun h => not_mem_nil h.2
  · rintro ⟨hk, hb, hframed⟩
    exact ⟨fun c hc => .inl ((hk c).mp hc), fun d hd b hb₀ => .inl ((hb d hd b).mp hb₀),
      fun _ => ⟨fun c => (hk c).mpr, fun d hd b => (hb d hd b).mpr⟩, hframed⟩

theorem heldKey_iff : a.heldKey code = true ↔ a.HoldsKey code := by
  unfold Actor.heldKey Actor.HoldsKey
  simp only [any_eq_true, Prod.exists, ExtTreeMap.mem_toList_iff_getElem?_eq_some, decide_eq_true_eq]

theorem heldButton_iff : a.heldButton device button = true ↔ a.HoldsButton device button := by
  unfold Actor.heldButton Actor.HoldsButton
  simp only [any_eq_true, Prod.exists, ExtTreeMap.mem_toList_iff_getElem?_eq_some, decide_eq_true_eq]

theorem keyboard_spec (h : a.keyboard = .ok device) :
    a.Resumed device ∧ device.keyboard = true ∧
      ∀ other, a.Resumed other → other.keyboard = true → other = device := by
  unfold Actor.keyboard at h
  split at h
  next n hfilter =>
    cases h
    have hn : n ∈ a.devices.filter fun n => n.resumed && n.device.keyboard := by
      rw [hfilter]
      exact mem_singleton_self n
    obtain ⟨hmem, hboth⟩ := mem_filter.mp hn
    obtain ⟨hresumed, hkeyboard⟩ := Bool.and_eq_true_iff.mp hboth
    refine ⟨⟨n, hmem, rfl, hresumed⟩, hkeyboard, ?_⟩
    rintro other ⟨m, hm, rfl, hresumed'⟩ hkeyboard'
    have hm' : m ∈ a.devices.filter fun n => n.resumed && n.device.keyboard :=
      mem_filter.mpr ⟨hm, Bool.and_eq_true_iff.mpr ⟨hresumed', hkeyboard'⟩⟩
    rw [hfilter] at hm'
    rw [mem_singleton.mp hm']
  next => cases h

theorem pointer_spec {index : ℕ} (h : a.pointer index = .ok device) :
    (∃ n ∈ a.devices, n.device = device ∧ n.resumed = true) ∧ device.pointerAbsolute = true := by
  unfold Actor.pointer at h
  split at h
  · cases h
  next mapping _ =>
  split at h
  next found hfound =>
    obtain ⟨hpointer, h⟩ := ite_throw_eq_ok.mp h
    cases h
    have hmem : device ∈ (a.devices.filter (·.resumed)).flatMap fun n =>
        (n.device.regions.filter (· = some mapping)).map fun _ => n.device := by
      rw [hfound]
      exact mem_singleton_self device
    obtain ⟨n, hn, hregion⟩ := mem_flatMap.mp hmem
    obtain ⟨_, -, rfl⟩ := mem_map.mp hregion
    obtain ⟨hdevices, hresumed⟩ := mem_filter.mp hn
    exact ⟨⟨n, hdevices, rfl, hresumed⟩, not_not.mp hpointer⟩
  next => cases h

theorem pressedKey_sendKey (h : a.keyboard = .ok device) (press : Bool) (c : ℕ) :
    (a.sendKey device code press).PressedKey c ↔ if c = code then press = true else a.PressedKey c := by
  obtain ⟨hresumed, hkeyboard, honly⟩ := keyboard_spec h
  have hiff : ∀ b : Actor, b.devices = a.devices → (b.PressedKey c ↔ c ∈ b.keysDown device) := by
    intro b hb
    constructor
    · rintro ⟨other, ⟨n, hn, hdevice, hother⟩, hother', hc⟩
      rw [hb] at hn
      rw [← honly other ⟨n, hn, hdevice, hother⟩ hother']
      exact hc
    · intro hc
      obtain ⟨n, hn, hdevice, hn'⟩ := hresumed
      exact ⟨device, ⟨n, hb ▸ hn, hdevice, hn'⟩, hkeyboard, hc⟩
  have hsent : (a.sendKey device code press).keysDown device =
      if press then insert code (a.keysDown device) else (a.keysDown device).erase code :=
    update_self ..
  rw [hiff (a.sendKey device code press) rfl, hiff a rfl, hsent]
  by_cases hc : c = code
  · cases press <;> simp [hc]
  · cases press <;> simp [hc]

theorem Framed.sendKey (h : Framed a) (hkeyboard : a.keyboard = .ok device) (press : Bool) :
    Framed (a.sendKey device code press) where
  idle d hd := by
    have hne : d ≠ device := by
      rintro rfl
      exact hd (keyboard_spec hkeyboard).1
    refine ⟨?_, (h.idle d hd).2⟩
    show update a.keysDown device _ d = ∅
    rw [update_of_ne hne]
    exact (h.idle d hd).1
  pointed := h.pointed
  buttoned := h.buttoned

theorem mem_buttonsDown_sendButton (press : Bool) (d : Device) (b : ℕ) :
    b ∈ (a.sendButton device button press).buttonsDown d ↔
      if d = device ∧ b = button then press = true else b ∈ a.buttonsDown d := by
  show b ∈ update a.buttonsDown device _ d ↔ _
  by_cases hd : d = device
  · subst hd
    by_cases hb : b = button
    · cases press <;> simp [hb]
    · cases press <;> simp [hb]
  · simp [hd]

theorem Framed.sendButton (h : Framed a) (press : Bool) (hresumed : press = true → a.Resumed device) :
    Framed (a.sendButton device button press) where
  idle d hd := by
    refine ⟨(h.idle d hd).1, ?_⟩
    rw [Finset.eq_empty_iff_forall_notMem]
    intro b hb
    rw [mem_buttonsDown_sendButton, (h.idle d hd).2] at hb
    split at hb
    next heq => exact hd (heq.1 ▸ hresumed hb)
    next => exact absurd hb (Finset.notMem_empty b)
  pointed := h.pointed
  buttoned := h.buttoned

/-! ### Ended leases -/

/-- One key of a lease that is gone is released, unless another lease holds it. -/
theorem HeldWith.releaseKey (h : HeldWith full (code :: ks) bs pointer a)
    (hrelease : a.releaseKey code = .ok a') : HeldWith full ks bs pointer a' ∧ a'.holds = a.holds := by
  unfold Actor.releaseKey at hrelease
  split at hrelease
  next hheld =>
    cases hrelease
    refine ⟨⟨fun c hc => ?_, h.buttons, h.backed, h.framed⟩, rfl⟩
    rcases h.keys c hc with hholds | hmem
    · exact .inl hholds
    rcases mem_cons.mp hmem with rfl | hmem
    · exact .inl (heldKey_iff.mp hheld)
    · exact .inr hmem
  next hheld =>
  obtain ⟨device, hkeyboard, hrelease⟩ := bind_eq_ok.mp hrelease
  obtain ⟨-, hrelease⟩ := ite_throw_eq_ok.mp hrelease
  cases hrelease
  have hpressed : ∀ c, (a.sendKey device code false).PressedKey c ↔ _ := pressedKey_sendKey hkeyboard false
  refine ⟨⟨fun c hc => ?_, h.buttons, fun hfull => ⟨fun c hc => ?_, (h.backed hfull).buttons⟩,
    h.framed.sendKey hkeyboard false⟩, rfl⟩
  · rw [hpressed] at hc
    split at hc
    · cases hc
    next hne => exact (h.keys c hc).imp_right fun hmem => (mem_cons.mp hmem).resolve_left hne
  · -- no lease holds the key that is released
    have hne : c ≠ code := by
      rintro rfl
      exact hheld (heldKey_iff.mpr hc)
    rw [hpressed, if_neg hne]
    exact (h.backed hfull).keys c hc

theorem HeldWith.releaseKeys (h : HeldWith full ks bs pointer a)
    (hrelease : ks.foldlM Actor.releaseKey a = .ok a') : HeldWith full [] bs pointer a' ∧ a'.holds = a.holds := by
  induction ks generalizing a with
  | nil =>
    cases hrelease
    exact ⟨h, rfl⟩
  | cons k ks ih =>
    obtain ⟨mid, hmid, hrest⟩ := bind_eq_ok.mp hrelease
    obtain ⟨hheld, hholds⟩ := h.releaseKey hmid
    exact ⟨(ih hheld hrest).1, (ih hheld hrest).2.trans hholds⟩

/-- One button of a lease that is gone is released, unless another lease holds it on the same device. -/
theorem HeldWith.releaseButton (h : HeldWith full ks (button :: bs) pointer a)
    (hrelease : Actor.releaseButton pointer a button = .ok a') :
    HeldWith full ks bs pointer a' ∧ a'.holds = a.holds := by
  unfold Actor.releaseButton at hrelease
  split at hrelease
  · cases hrelease
  next device =>
  split at hrelease
  next hheld =>
    cases hrelease
    refine ⟨⟨h.keys, fun d hd b hb => ?_, h.backed, h.framed⟩, rfl⟩
    rcases h.buttons d hd b hb with hholds | ⟨hpointer, hmem⟩
    · exact .inl hholds
    rcases mem_cons.mp hmem with rfl | hmem
    · cases hpointer
      exact .inl (heldButton_iff.mp hheld)
    · exact .inr ⟨hpointer, hmem⟩
  next hheld =>
  obtain ⟨-, hrelease⟩ := ite_throw_eq_ok.mp hrelease
  cases hrelease
  refine ⟨⟨h.keys, fun d hd b hb => ?_, fun hfull => ⟨(h.backed hfull).keys, fun d hd b hb => ?_⟩,
    h.framed.sendButton false nofun⟩, rfl⟩
  · rw [mem_buttonsDown_sendButton] at hb
    split at hb
    · cases hb
    next hne =>
    refine (h.buttons d hd b hb).imp_right fun ⟨hpointer, hmem⟩ => ⟨hpointer, ?_⟩
    exact (mem_cons.mp hmem).resolve_left fun heq => hne ⟨(Option.some.inj hpointer).symm, heq⟩
  · have hne : ¬ (d = device ∧ b = button) := by
      rintro ⟨rfl, rfl⟩
      exact hheld (heldButton_iff.mpr hb)
    rw [mem_buttonsDown_sendButton, if_neg hne]
    exact (h.backed hfull).buttons d hd b hb

theorem HeldWith.releaseButtons (h : HeldWith full ks bs pointer a)
    (hrelease : bs.foldlM (Actor.releaseButton pointer) a = .ok a') :
    HeldWith full ks [] pointer a' ∧ a'.holds = a.holds := by
  induction bs generalizing a with
  | nil =>
    cases hrelease
    exact ⟨h, rfl⟩
  | cons b bs ih =>
    obtain ⟨mid, hmid, hrest⟩ := bind_eq_ok.mp hrelease
    obtain ⟨hheld, hholds⟩ := h.releaseButton hmid
    exact ⟨(ih hheld hrest).1, (ih hheld hrest).2.trans hholds⟩

/-- A lease goes: what it held is owed. -/
theorem HeldWith.erase {hold : Holds} (h : HeldWith full [] [] none a) (hget : a.holds[lease]? = some hold) :
    HeldWith full hold.keys.sort hold.buttons.sort hold.pointer { a with holds := a.holds.erase lease } where
  keys c hc := by
    rw [Finset.mem_sort]
    exact (anyHold_of_lookup hget).mp ((h.keys c hc).resolve_right not_mem_nil)
  buttons d hd b hb := by
    rw [Finset.mem_sort]
    exact (anyHold_of_lookup hget).mp ((h.buttons d hd b hb).resolve_right fun hboth => not_mem_nil hboth.2)
  backed hfull :=
    ⟨fun c hc => (h.backed hfull).keys c ((anyHold_of_lookup hget).mpr (.inl hc)),
      fun d hd b hb => (h.backed hfull).buttons d hd b ((anyHold_of_lookup hget).mpr (.inl hb))⟩
  framed := by
    refine ⟨h.framed.idle, fun l x hx => ?_, h.framed.buttoned⟩
    rw [lookup_erase, Option.ite_none_left_eq_some] at hx
    exact h.framed.pointed l x hx.2

theorem HeldWith.releaseLease (h : HeldWith full [] [] none a) (hrelease : a.releaseLease lease = .ok a') :
    HeldWith full [] [] none a' ∧ a'.holds = a.holds.erase lease := by
  unfold Actor.releaseLease at hrelease
  split at hrelease
  next hnone =>
    cases hrelease
    exact ⟨h, (erase_of_lookup hnone).symm⟩
  next hold hget =>
  obtain ⟨mid, hkeys, hbuttons⟩ := bind_eq_ok.mp hrelease
  obtain ⟨hmid, hholds⟩ := (h.erase hget).releaseKeys hkeys
  obtain ⟨hlast, hholds'⟩ := hmid.releaseButtons hbuttons
  refine ⟨⟨hlast.keys, fun d hd b hb => ?_, hlast.backed, hlast.framed⟩, hholds'.trans hholds⟩
  exact (hlast.buttons d hd b hb).imp_right fun hboth => absurd hboth.2 not_mem_nil

/-- **A pass over the ended leases** keeps the invariant, and no ended lease is left. -/
theorem HeldWith.releaseClosed (h : HeldWith full [] [] none a) (hrelease : a.releaseClosed = .ok a') :
    HeldWith full [] [] none a' ∧
      ∀ (l : ℕ) (hold : Holds), a'.holds[l]? = some hold → a.holds[l]? = some hold ∧ l ∉ a.ended := by
  have hpass : ∀ {leases : List ℕ} {b : Actor}, HeldWith full [] [] none b →
      leases.foldlM Actor.releaseLease b = .ok a' → HeldWith full [] [] none a' ∧
        ∀ (l : ℕ) (hold : Holds), a'.holds[l]? = some hold → b.holds[l]? = some hold ∧ l ∉ leases := by
    intro leases
    induction leases with
    | nil =>
      intro b hb hrun
      cases hrun
      exact ⟨hb, fun l hold hget => ⟨hget, not_mem_nil⟩⟩
    | cons lease leases ih =>
      intro b hb hrun
      obtain ⟨mid, hmid, hrest⟩ := bind_eq_ok.mp hrun
      obtain ⟨hheld, hholds⟩ := hb.releaseLease hmid
      obtain ⟨hlast, hleft⟩ := ih hheld hrest
      refine ⟨hlast, fun l hold hget => ?_⟩
      obtain ⟨hbefore, hnot⟩ := hleft l hold hget
      rw [hholds, lookup_erase, Option.ite_none_left_eq_some] at hbefore
      exact ⟨hbefore.2, fun hmem => (mem_cons.mp hmem).elim (fun heq => hbefore.1 heq.symm) hnot⟩
  obtain ⟨hheld, hleft⟩ := hpass h hrelease
  refine ⟨hheld, fun l hold hget => ?_⟩
  obtain ⟨hbefore, hnot⟩ := hleft l hold hget
  refine ⟨hbefore, fun hended => hnot (mem_filter.mpr ⟨?_, decide_eq_true hended⟩)⟩
  exact ExtTreeMap.mem_keys.mpr (ExtTreeMap.mem_iff_isSome_getElem?.mpr (hbefore ▸ rfl))

/-! ### Requests -/

theorem Framed.setHold {hold : Holds} (h : Framed a)
    (hhold : ∀ b ∈ hold.buttons, ∃ d, hold.pointer = some d ∧ a.Resumed d) : Framed (a.setHold lease hold) where
  idle := h.idle
  pointed l x hx := by
    have hx' : (a.holds.insert lease hold)[l]? = some x := hx
    rw [lookup_insert] at hx'
    split at hx'
    · cases hx'
      exact hhold
    · exact h.pointed l x hx'
  buttoned := h.buttoned

theorem Held.entry (h : Held a) (lease : ℕ) : Held (a.entry lease) := by
  unfold Actor.entry
  split
  · exact h
  next hnone =>
  have hget : a.holds[lease]? = none := by
    rw [ExtTreeMap.contains_eq_isSome_getElem?] at hnone
    exact Option.not_isSome_iff_eq_none.mp hnone
  -- an entry that holds nothing adds nothing
  have hsame : ∀ P : Holds → Prop, ¬ P .none → (AnyHold a.holds P ↔ AnyHold (a.holds.insert lease .none) P) := by
    intro P hP
    rw [anyHold_insert, erase_of_lookup hget, or_iff_left hP]
  obtain ⟨hkeys, hbuttons, hframed⟩ := held_iff.mp h
  refine held_iff.mpr ⟨fun c => ?_, fun d hd b => ?_, hframed.setHold ?_⟩
  · exact (hkeys c).trans (hsame _ (by simp [Holds.none]))
  · exact (hbuttons d hd b).trans (hsame _ (by simp [Holds.none]))
  · simp [Holds.none]

theorem entry_keyboard (lease : ℕ) : (a.entry lease).keyboard = a.keyboard := by
  unfold Actor.entry
  split <;> rfl

section SetHold

variable {held hold : Holds}

theorem holdsKey_setHold (hget : a.holds[lease]? = some held) (hiff : code ∈ hold.keys ↔ code ∈ held.keys) :
    (a.setHold lease hold).HoldsKey code ↔ a.HoldsKey code :=
  anyHold_insert_congr hget hiff

theorem holdsButton_setHold (hget : a.holds[lease]? = some held)
    (hiff : hold.pointer = some device ∧ button ∈ hold.buttons ↔ held.pointer = some device ∧ button ∈ held.buttons) :
    (a.setHold lease hold).HoldsButton device button ↔ a.HoldsButton device button :=
  anyHold_insert_congr hget hiff

/-- A button request changes what the lease holds at one button of its device. The lease has no other
device, and without a device it holds no button. -/
theorem holdsButton_setButton (h : Framed a) (hget : a.holds[lease]? = some held)
    (hsame : ¬ held.pointer.any (· ≠ device) = true) (pressed : Bool) {d : Device} {b : ℕ}
    (hne : ¬ (d = device ∧ b = button)) :
    (a.setHold lease { held with
      buttons := if pressed then insert button held.buttons else held.buttons.erase button
      pointer := some device }).HoldsButton d b ↔ a.HoldsButton d b := by
  refine holdsButton_setHold hget ?_
  dsimp only
  by_cases hd : d = device
  · subst hd
    have hb : b ≠ button := fun hb => hne ⟨rfl, hb⟩
    have hmem : b ∈ (if pressed then insert button held.buttons else held.buttons.erase button) ↔
        b ∈ held.buttons := by
      cases pressed <;> simp [hb]
    rw [hmem]
    refine ⟨fun hboth => ⟨?_, hboth.2⟩, fun hboth => ⟨rfl, hboth.2⟩⟩
    obtain ⟨d', hd', -⟩ := h.pointed lease held hget b hboth.2
    rw [hd', Option.any_some, decide_eq_true_eq, not_not] at hsame
    rw [hd', hsame]
  · constructor
    · rintro ⟨heq, -⟩
      exact absurd (Option.some.inj heq).symm hd
    · rintro ⟨heq, -⟩
      rw [heq, Option.any_some, decide_eq_true_eq, not_not] at hsame
      exact absurd hsame hd

end SetHold

/-- **A key request.** The key is sent if its being held by some lease changes. -/
theorem Held.applyKey (h : Held a) (hready : a.keyboard = .ok device) (lease code : ℕ) (down : Bool) :
    Held (a.applyKey lease code down).2 := by
  unfold Actor.applyKey
  split
  · exact h
  split
  · exact h
  next held hget =>
  dsimp only
  generalize hhold : ({ held with
    keys := if down then insert code held.keys else held.keys.erase code } : Holds) = hold
  obtain ⟨hpressed, hdown, hframed₀⟩ := held_iff.mp h
  have hkeys : ∀ c, c ≠ code → ((a.setHold lease hold).HoldsKey c ↔ a.HoldsKey c) := by
    intro c hc
    refine holdsKey_setHold hget ?_
    rw [← hhold]
    cases down <;> simp [hc]
  have hbuttons : ∀ d, a.Resumed d → ∀ b, b ∈ a.buttonsDown d ↔ (a.setHold lease hold).HoldsButton d b := by
    intro d hd b
    refine (hdown d hd b).trans (holdsButton_setHold hget ?_).symm
    rw [← hhold]
  have hframed : Framed (a.setHold lease hold) := by
    refine hframed₀.setHold ?_
    rw [← hhold]
    exact hframed₀.pointed lease held hget
  split
  next hsame =>
    refine held_iff.mpr ⟨fun c => (hpressed c).trans ?_, hbuttons, hframed⟩
    by_cases hc : c = code
    · rw [hc, ← heldKey_iff, ← heldKey_iff, hsame]
    · exact (hkeys c hc).symm
  next hchanged =>
  have hkeyboard : (a.setHold lease hold).keyboard = .ok device := hready
  rw [hkeyboard]
  dsimp only
  rw [if_neg (not_not.mpr (keyboard_spec hready).2.1)]
  refine held_iff.mpr ⟨fun c => (pressedKey_sendKey hkeyboard _ c).trans ?_, hbuttons,
    hframed.sendKey hkeyboard _⟩
  split
  next hc =>
    rw [hc, heldKey_iff]
    rfl
  next hc => exact (hpressed c).trans (hkeys c hc).symm

/-- **A button request.** The button is sent if its being held on the device changes. -/
theorem Held.applyButton (h : Held a) (lease index : ℕ) (button : ℤ) (pressed : Bool) :
    Held (a.applyButton lease index button pressed).2 := by
  unfold Actor.applyButton
  split
  · exact h
  generalize button.toNat = button
  dsimp only
  split
  · exact h
  next device hpointer =>
  obtain ⟨⟨n, hn, rfl, hresumed⟩, habsolute⟩ := pointer_spec hpointer
  have hdevice : a.Resumed n.device := ⟨n, hn, rfl, hresumed⟩
  split
  · exact h
  next held hget =>
  split
  · exact h
  next hsame =>
  obtain ⟨hpressed, hdown, hframed₀⟩ := held_iff.mp h
  have hother : ∀ d b, ¬ (d = n.device ∧ b = button) → _ := fun d b =>
    holdsButton_setButton hframed₀ hget hsame pressed
  generalize hhold : ({ held with
    buttons := if pressed then insert button held.buttons else held.buttons.erase button
    pointer := some n.device } : Holds) = hold at hother
  have hkeys : ∀ c, a.PressedKey c ↔ (a.setHold lease hold).HoldsKey c := by
    intro c
    refine (hpressed c).trans (holdsKey_setHold hget ?_).symm
    rw [← hhold]
  have hframed : Framed (a.setHold lease hold) := by
    refine hframed₀.setHold fun b hb => ?_
    rw [← hhold]
    exact ⟨n.device, rfl, hdevice⟩
  split
  next hunchanged =>
    refine held_iff.mpr ⟨hkeys, fun d hd b => (hdown d hd b).trans ?_, hframed⟩
    by_cases hboth : d = n.device ∧ b = button
    · obtain ⟨rfl, rfl⟩ := hboth
      rw [← heldButton_iff, ← heldButton_iff, hunchanged]
    · exact (hother d b hboth).symm
  next hchanged =>
  rw [if_neg (not_not.mpr (hframed₀.buttoned n hn habsolute))]
  refine held_iff.mpr ⟨hkeys, fun d hd b => (mem_buttonsDown_sendButton _ d b).trans ?_,
    hframed.sendButton _ fun _ => hdevice⟩
  split
  next hboth =>
    obtain ⟨rfl, rfl⟩ := hboth
    rw [heldButton_iff]
    rfl
  next hboth => exact (hdown d hd b).trans (hother d b hboth).symm

/-- **A request.** -/
theorem Held.receive (h : Held a) (request : Request) (late : Bool)
    (extent : Except DesktopError (Option (ℕ × ℕ))) : Held (a.receive request late extent).2 := by
  unfold Actor.receive
  split
  · exact h
  next hgate =>
  -- the loop asked for the keyboard before it took the request
  have hready : a.keyboard.isOk = true := by
    have hboth : a.ready = true := by
      by_contra hnot
      exact hgate (.inl hnot)
    exact (Bool.and_eq_true_iff.mp hboth).1
  unfold Actor.apply
  split
  · exact h
  · exact h
  split
  · exact h
  have hentry := h.entry request.lease
  obtain ⟨device, hkeyboard⟩ : ∃ device, (a.entry request.lease).keyboard = .ok device := by
    rw [entry_keyboard]
    cases hk : a.keyboard with
    | error e =>
      rw [hk] at hready
      cases hready
    | ok device => exact ⟨device, rfl⟩
  dsimp only
  split
  · exact hentry.applyKey hkeyboard _ _ _
  · exact hentry.applyKey hkeyboard _ _ _
  · split
    · exact hentry
    · split <;> exact hentry
  · exact hentry
  · exact hentry.applyButton _ _ _ _
  split
  · exact hentry
  · split
    · exact hentry
    · split <;> exact hentry

/-! ### Devices come and go -/

/-- If the device that goes is seen as a keyboard, no other resumed keyboard has a key pressed. -/
def Actor.OnlyKeys (a : Actor) (device : Device) (hasKeyboard : Bool) : Prop :=
  hasKeyboard = true → ∀ other, a.Resumed other → other ≠ device → other.keyboard = true →
    a.keysDown other = ∅

/-- The actor `b` after a device went, before the pass over the leases it ended. -/
structure Gone (a b : Actor) (device : Device) (hasKeyboard : Bool) : Prop where
  resumed : ∀ d, b.Resumed d ↔ a.Resumed d ∧ d ≠ device
  buttoned : ∀ n ∈ b.devices, n.device.pointerAbsolute = true → n.device.button = true
  holds : b.holds = a.holds.map fun _ => Actor.invalidateHold device hasKeyboard
  ended : b.ended = a.ended ∪ a.holds.keys.toFinset
  keysDown : b.keysDown = update a.keysDown device ∅
  buttonsDown : b.buttonsDown = update a.buttonsDown device ∅

namespace Gone

variable {b : Actor} {hasKeyboard : Bool} (hgone : Gone a b device hasKeyboard) (h : Held a)

include hgone in
theorem anyHold {P : Holds → Prop} (hP : AnyHold a.holds fun hold => P (Actor.invalidateHold device hasKeyboard hold)) :
    AnyHold b.holds P := by
  rw [hgone.holds]
  exact anyHold_map.mpr hP

include hgone h in
theorem framed : Framed b := by
  refine ⟨fun d hd => ?_, fun l x hx button hbutton => ?_, hgone.buttoned⟩
  · rw [hgone.keysDown, hgone.buttonsDown]
    by_cases heq : d = device
    · rw [heq, update_self, update_self]
      exact ⟨rfl, rfl⟩
    · rw [update_of_ne heq, update_of_ne heq]
      exact h.framed.idle d fun hda => hd ((hgone.resumed d).mpr ⟨hda, heq⟩)
  · rw [hgone.holds] at hx
    obtain ⟨hold, hhold, rfl⟩ := Option.map_eq_some_iff.mp (ExtTreeMap.getElem?_map.symm.trans hx)
    by_cases hpointer : hold.pointer = some device
    · simp [Actor.invalidateHold, hpointer] at hbutton
    have hheld : button ∈ hold.buttons := by simpa [Actor.invalidateHold, hpointer] using hbutton
    obtain ⟨d, hd, hda⟩ := h.framed.pointed l hold hhold button hheld
    refine ⟨d, hd, (hgone.resumed d).mpr ⟨hda, ?_⟩⟩
    rintro rfl
    exact hpointer hd

include hgone h in
/-- What is still pressed is still held, if a keyboard that goes leaves no key pressed elsewhere. -/
theorem heldWith (hsafe : a.OnlyKeys device hasKeyboard) : HeldWith False [] [] none b := by
  obtain ⟨hkeys, hbuttons, -⟩ := held_iff.mp h
  refine ⟨?_, fun d hd button hbutton => .inl ?_, False.elim, hgone.framed h⟩
  · rintro c ⟨d, hd, hkeyboard, hc⟩
    obtain ⟨hda, hne⟩ := (hgone.resumed d).mp hd
    rw [hgone.keysDown, update_of_ne hne] at hc
    cases hasKeyboard with
    | true =>
      rw [hsafe rfl d hda hne hkeyboard] at hc
      exact absurd hc (Finset.notMem_empty c)
    | false => exact .inl (hgone.anyHold ((hkeys c).mp ⟨d, hda, hkeyboard, hc⟩))
  · obtain ⟨hda, hne⟩ := (hgone.resumed d).mp hd
    rw [hgone.buttonsDown, update_of_ne hne] at hbutton
    obtain ⟨l, hold, hhold, hpointer, hheld⟩ := (hbuttons d hda button).mp hbutton
    refine hgone.anyHold ⟨l, hold, hhold, hpointer, ?_⟩
    unfold Actor.invalidateHold
    rw [if_neg fun heq => hne (Option.some.inj (hpointer.symm.trans heq))]
    exact hheld

include hgone h in
/-- **A device goes.** All leases have ended, so nothing is held after the pass, and nothing is pressed. -/
theorem held (hsafe : a.OnlyKeys device hasKeyboard) (hrelease : b.releaseClosed = .ok a') : Held a' := by
  obtain ⟨hheld, hleft⟩ := (hgone.heldWith h hsafe).releaseClosed hrelease
  have hnone : ∀ P : Holds → Prop, ¬ AnyHold a'.holds P := by
    rintro P ⟨l, x, hx, -⟩
    obtain ⟨hbefore, hlive⟩ := hleft l x hx
    refine hlive ?_
    rw [hgone.holds] at hbefore
    obtain ⟨hold, hhold, -⟩ := Option.map_eq_some_iff.mp (ExtTreeMap.getElem?_map.symm.trans hbefore)
    rw [hgone.ended, Finset.mem_union, mem_toFinset]
    exact .inr (ExtTreeMap.mem_keys.mpr (ExtTreeMap.mem_iff_isSome_getElem?.mpr (hhold ▸ rfl)))
  exact ⟨hheld.keys, hheld.buttons, fun _ => ⟨fun c hc => absurd hc (hnone _),
    fun d _ b hb => absurd hb (hnone _)⟩, hheld.framed⟩

end Gone

theorem mem_setResumed {resumed : Bool} {n : NativeDevice} :
    n ∈ (a.setResumed device resumed).devices ↔
      ∃ m ∈ a.devices, n = if m.device = device then { m with resumed } else m := by
  show n ∈ a.devices.map _ ↔ _
  rw [mem_map]
  exact ⟨fun ⟨m, hm, heq⟩ => ⟨m, hm, heq.symm⟩, fun ⟨m, hm, heq⟩ => ⟨m, hm, heq.symm⟩⟩

theorem buttoned_setResumed {resumed : Bool}
    (h : ∀ n ∈ a.devices, n.device.pointerAbsolute = true → n.device.button = true) :
    ∀ n ∈ (a.setResumed device resumed).devices, n.device.pointerAbsolute = true → n.device.button = true := by
  intro n hn
  obtain ⟨m, hm, rfl⟩ := mem_setResumed.mp hn
  split <;> exact h m hm

theorem resumed_setResumed {resumed : Bool} (d : Device) :
    (a.setResumed device resumed).Resumed d ↔
      if d = device then resumed = true ∧ ∃ n ∈ a.devices, n.device = device else a.Resumed d := by
  constructor
  · rintro ⟨n, hn, hd, hresumed⟩
    obtain ⟨m, hm, rfl⟩ := mem_setResumed.mp hn
    by_cases heq : m.device = device
    · rw [if_pos heq] at hd hresumed
      rw [if_pos (hd.symm.trans heq)]
      exact ⟨hresumed, m, hm, heq⟩
    · rw [if_neg heq] at hd hresumed
      rw [if_neg fun h => heq (hd.trans h)]
      exact ⟨m, hm, hd, hresumed⟩
  intro h
  split at h
  next heq =>
    obtain ⟨hresumed, n, hn, hdevice⟩ := h
    refine ⟨{ n with resumed }, mem_setResumed.mpr ⟨n, hn, ?_⟩, hdevice.trans heq.symm, hresumed⟩
    rw [if_pos hdevice]
  next hne =>
  obtain ⟨n, hn, hd, hresumed⟩ := h
  refine ⟨n, mem_setResumed.mpr ⟨n, hn, ?_⟩, hd, hresumed⟩
  rw [if_neg fun heq => hne (hd.symm.trans heq)]

theorem Held.paused (h : Held a) (hsafe : a.OnlyKeys device device.keyboard)
    (hpaused : a.paused device = .ok a') : Held a' := by
  refine Gone.held ?_ h hsafe hpaused
  refine ⟨fun d => (resumed_setResumed d).trans ?_, buttoned_setResumed h.framed.buttoned, rfl, rfl, rfl, rfl⟩
  by_cases heq : d = device
  · simp [heq]
  · rw [if_neg heq]
    exact ⟨fun hd => ⟨hd, heq⟩, And.left⟩

theorem Held.removed {drained : Bool} (h : Held a) (hsafe : a.OnlyKeys device (device.keyboard && !drained))
    (hremoved : a.removed device drained = .ok a') : Held a' := by
  refine Gone.held ?_ h hsafe hremoved
  refine ⟨fun d => ⟨?_, ?_⟩, fun n hn => h.framed.buttoned n (mem_filter.mp hn).1, rfl, rfl, rfl, rfl⟩
  · rintro ⟨n, hn, rfl, hresumed⟩
    obtain ⟨hmem, hne⟩ := mem_filter.mp hn
    exact ⟨⟨n, hmem, rfl, hresumed⟩, of_decide_eq_true hne⟩
  · rintro ⟨⟨n, hn, rfl, hresumed⟩, hne⟩
    exact ⟨n, mem_filter.mpr ⟨hn, decide_eq_true hne⟩, rfl, hresumed⟩

/-- **More devices are resumed.** Nothing was pressed or held on them. -/
theorem Held.resumes {b : Actor} (h : Held a) (hresumed : ∀ d, a.Resumed d → b.Resumed d)
    (hbuttoned : ∀ n ∈ b.devices, n.device.pointerAbsolute = true → n.device.button = true)
    (hholds : b.holds = a.holds) (hkeysDown : b.keysDown = a.keysDown)
    (hbuttonsDown : b.buttonsDown = a.buttonsDown) :
    Held b := by
  obtain ⟨hkeys, hbuttons, hframed⟩ := held_iff.mp h
  have hany : ∀ P : Holds → Prop, AnyHold a.holds P ↔ AnyHold b.holds P := fun P => by rw [hholds]
  refine held_iff.mpr ⟨fun c => Iff.trans ?_ ((hkeys c).trans (hany _)), fun d hd button => ?_, fun d hd => ?_,
    fun l x hx button hbutton => ?_, hbuttoned⟩
  · constructor
    · rintro ⟨d, hd, hkeyboard, hc⟩
      rw [hkeysDown] at hc
      by_cases hda : a.Resumed d
      · exact ⟨d, hda, hkeyboard, hc⟩
      · rw [(hframed.idle d hda).1] at hc
        exact absurd hc (Finset.notMem_empty c)
    · rintro ⟨d, hd, hrest⟩
      exact ⟨d, hresumed d hd, hkeysDown ▸ hrest⟩
  · rw [hbuttonsDown]
    refine Iff.trans ?_ (hany _)
    by_cases hda : a.Resumed d
    · exact hbuttons d hda button
    rw [(hframed.idle d hda).2]
    refine iff_of_false (Finset.notMem_empty button) ?_
    rintro ⟨l, x, hx, hpointer, hbutton⟩
    obtain ⟨d', hd', hda'⟩ := hframed.pointed l x hx button hbutton
    rw [hpointer] at hd'
    cases hd'
    exact hda hda'
  · rw [hkeysDown, hbuttonsDown]
    exact hframed.idle d fun hda => hd (hresumed d hda)
  · obtain ⟨d, hd, hda⟩ := hframed.pointed l x (hholds ▸ hx) button hbutton
    exact ⟨d, hd, hresumed d hda⟩

theorem Held.added (h : Held a) (hsafe : device.pointerAbsolute = true → device.button = true)
    (hadded : a.added device = .ok a') : Held a' := by
  obtain ⟨-, hadded⟩ := ite_throw_eq_ok.mp hadded
  cases hadded
  refine h.resumes ?_ (fun n hn => ?_) rfl rfl rfl
  · rintro d ⟨n, hn, hrest⟩
    exact ⟨n, mem_append_left _ hn, hrest⟩
  rcases mem_append.mp hn with hn | hn
  · exact h.framed.buttoned n hn
  · rw [mem_singleton.mp hn]
    exact hsafe

theorem Held.resumed (h : Held a) (hresumed : a.resumed device = .ok a') : Held a' := by
  unfold Actor.resumed at hresumed
  split at hresumed
  next hthere =>
    obtain ⟨-, hresumed⟩ := ite_throw_eq_ok.mp hresumed
    cases hresumed
    obtain ⟨n, hn, hdevice⟩ := any_eq_true.mp hthere
    refine h.resumes (fun d hd => (resumed_setResumed d).mpr ?_) (buttoned_setResumed h.framed.buttoned) rfl rfl rfl
    split
    · exact ⟨rfl, n, hn, of_decide_eq_true hdevice⟩
    · exact hd
  next =>
    cases hresumed
    exact h

end Held

/-! ### The loop keeps the holds -/

/-- The condition on a step: what moves the pointer has buttons, and when a keyboard goes and is still seen as
one, no key is pressed on another. -/
def Actor.Safe (a : Actor) : Act → Prop
  | .added device => device.pointerAbsolute = true → device.button = true
  | .paused device => a.OnlyKeys device device.keyboard
  | .removed device drained => a.OnlyKeys device (device.keyboard && !drained)
  | _ => True

/-- All steps of a run meet the condition. -/
def Actor.AllSafe (a : Actor) : List Act → Prop
  | [] => True
  | act :: acts => a.Safe act ∧ ∀ a', step act a = some a' → a'.AllSafe acts

theorem held_start (mappings : List (ℕ × String)) : Held (.start mappings) := by
  have hnone : ∀ P : Holds → Prop, ¬ AnyHold (Actor.start mappings).holds P := by
    rintro P ⟨l, x, hx, -⟩
    exact nomatch ExtTreeMap.getElem?_empty.symm.trans hx
  have hresumed : ∀ d, ¬ (Actor.start mappings).Resumed d := by
    rintro d ⟨n, hn, -⟩
    cases hn
  refine held_iff.mpr ⟨fun c => iff_of_false ?_ (hnone _), fun d hd => absurd hd (hresumed d),
    fun _ _ => ⟨rfl, rfl⟩, fun l x hx => absurd ⟨l, x, hx, trivial⟩ (hnone fun _ => True), fun n hn => nomatch hn⟩
  rintro ⟨d, hd, -⟩
  exact hresumed d hd

/-- **The step lemma.** -/
theorem Held.step {a a' : Actor} {act : Act} (h : Held a) (hsafe : a.Safe act)
    (hstep : Portal.step act a = some a') : Held a' := by
  have hok : ∀ {x : Except DesktopError Actor}, x.toOption = some a' → x = .ok a' := by
    intro x hx
    cases x with
    | error e => cases hx
    | ok b =>
      cases hx
      rfl
  cases act with
  | ended lease =>
    cases hstep
    exact h.resumes (fun _ hd => hd) h.framed.buttoned rfl rfl rfl
  | added device =>
    obtain ⟨-, hstep⟩ := Option.ite_none_left_eq_some.mp hstep
    exact h.added hsafe (hok hstep)
  | resumed device => exact h.resumed (hok hstep)
  | paused device => exact h.paused hsafe (hok hstep)
  | removed device drained => exact h.removed hsafe (hok hstep)
  | closed => exact (h.releaseClosed (hok hstep)).1
  | request request late extent =>
    cases hstep
    exact h.receive request late extent

/-- **The run lemma.** -/
theorem Held.run {a a' : Actor} {acts : List Act} (h : Held a) (hsafe : a.AllSafe acts)
    (hrun : actor.run acts a = some a') : Held a' := by
  induction acts generalizing a with
  | nil =>
    cases hrun
    exact h
  | cons act acts ih =>
    obtain ⟨mid, hstep, hrest⟩ := Machine.run_cons_eq_some.mp hrun
    exact ih (h.step hsafe.1 hstep) (hsafe.2 mid hstep) hrest

/-- **What is held is what is pressed.** In every run whose steps meet the condition, the keys pressed on
resumed keyboards are those the leases hold, and the buttons pressed on a resumed device those the leases hold
on it. -/
theorem portal_holds (mappings : List (ℕ × String)) (acts : List Act) (a : Actor)
    (hrun : actor.run acts (.start mappings) = some a) (hsafe : (Actor.start mappings).AllSafe acts) :
    (∀ code, a.PressedKey code ↔ a.HoldsKey code) ∧
    (∀ device, a.Resumed device → ∀ button, button ∈ a.buttonsDown device ↔ a.HoldsButton device button) := by
  obtain ⟨hkeys, hbuttons, -⟩ := held_iff.mp ((held_start mappings).run hsafe hrun)
  exact ⟨hkeys, hbuttons⟩

/-! ### Two keyboards -/

/-- A device with everything, mapped to a monitor. -/
def desk : Device := ⟨0, true, true, true, true, [some "monitor"]⟩

/-- A second keyboard. -/
def spare : Device := ⟨1, true, false, false, false, []⟩

/-- Lease `lease` presses the key of code 30. -/
def pressA (lease : ℕ) : Act := .request ⟨lease, 0, 0, (8, 8), .keyDown 30⟩ false (.ok (some (8, 8)))

/-- Two leases hold a key, and one ends. -/
def sharedKey : List Act := [.added desk, .resumed desk, pressA 1, pressA 2, .ended 1, .closed]

theorem portal_holds_sharedKey :
    ∃ a, actor.run sharedKey (.start [(0, "monitor")]) = some a ∧ a.HoldsKey 30 ∧ a.PressedKey 30 := by
  have hsome : (actor.run sharedKey (.start [(0, "monitor")])).isSome = true := by decide +kernel
  have hheld : (actor.run sharedKey (.start [(0, "monitor")])).map (·.heldKey 30) = some true := by
    decide +kernel
  obtain ⟨a, ha⟩ := Option.isSome_iff_exists.mp hsome
  rw [ha, Option.map_some, Option.some.injEq, heldKey_iff] at hheld
  have hsafe : (Actor.start [(0, "monitor")]).AllSafe sharedKey :=
    ⟨fun _ => rfl, fun _ _ => ⟨trivial, fun _ _ => ⟨trivial, fun _ _ => ⟨trivial, fun _ _ => ⟨trivial,
      fun _ _ => ⟨trivial, fun _ _ => trivial⟩⟩⟩⟩⟩⟩
  exact ⟨a, ha, hheld, ((portal_holds _ _ a ha hsafe).1 30).mpr hheld⟩

/-- A key is pressed, and then a second keyboard comes and is paused. -/
def sparePauses : List Act :=
  [.added desk, .resumed desk, pressA 1, .added spare, .resumed spare, .paused spare]

/-- **A key is forgotten.** It stays pressed on the first keyboard, and no lease holds it any more. -/
theorem key_forgotten :
    ∃ a, actor.run sparePauses (.start [(0, "monitor")]) = some a ∧ a.PressedKey 30 ∧ ¬ a.HoldsKey 30 := by
  have hsome : (actor.run sparePauses (.start [(0, "monitor")])).isSome = true := by decide +kernel
  have hstate : (actor.run sparePauses (.start [(0, "monitor")])).map
      (fun a => (a.heldKey 30, a.devices, a.keysDown desk)) =
        some (false, [⟨desk, true⟩, ⟨spare, false⟩], {30}) := by
    decide +kernel
  obtain ⟨a, ha⟩ := Option.isSome_iff_exists.mp hsome
  rw [ha, Option.map_some, Option.some.injEq, Prod.mk.injEq, Prod.mk.injEq] at hstate
  obtain ⟨hheld, hdevices, hkeys⟩ := hstate
  refine ⟨a, ha, ⟨desk, ⟨⟨desk, true⟩, ?_, rfl, rfl⟩, rfl, ?_⟩, fun hholds => ?_⟩
  · rw [hdevices]
    exact mem_cons_self
  · rw [hkeys]
    exact Finset.mem_singleton_self 30
  · rw [← heldKey_iff, hheld] at hholds
    cases hholds

/-- The only keyboard is removed with a key pressed on it: the library has dropped its interfaces, so the key
is not forgotten, and there is no keyboard to release it on. -/
example :
    (actor.run [.added desk, .resumed desk, pressA 1, .removed desk true] (.start [(0, "monitor")])).isNone =
      true := by
  decide +kernel

/-- A pointer without buttons: the button is not pressed, but the lease holds it. -/
example : let pointer : Device := ⟨0, true, true, false, true, [some "monitor"]⟩
    (actor.run [.added pointer, .resumed pointer,
      .request ⟨1, 0, 0, (8, 8), .pointerButton 0x110 true⟩ false (.ok (some (8, 8)))]
      (.start [(0, "monitor")])).map (fun a => (a.heldButton pointer 0x110, a.buttonsDown pointer)) =
        some (true, ∅) := by
  decide +kernel

end Rds.Desktop.Portal
