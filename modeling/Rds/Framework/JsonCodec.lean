import Rds.Framework.Duration
import Rds.Framework.Json

/-!
# Values in JSON documents

How `serde` lays the values of a program out as JSON documents and reads them back:
machine words as numbers, byte arrays as arrays of numbers, structures as objects, options
as the value or `null`, enumerations as an object with the name of the variant.

A `JsonCodec` bounds the depth and the size of the documents of its valid values. `toVec` and
`fromSlice` go through a text, and `fromSlice_toVec` is the round trip.
-/

namespace Framework

open List

/-- A layout of a type, with the values on which reading undoes writing and bounds on
what is written for them. -/
structure JsonCodec (α : Type) where
  toJson : α → Json
  ofJson : Json → Option α
  Valid : α → Prop
  depth : ℕ
  size : ℕ
  ofJson_toJson : ∀ a, Valid a → ofJson (toJson a) = some a
  plain : ∀ a, Valid a → (toJson a).Plain depth
  size_le : ∀ a, Valid a → (toJson a).render.length ≤ size

namespace JsonCodec

open Json

variable {α β : Type}

/-- `serde_json::to_vec`. -/
def toVec (c : JsonCodec α) (a : α) : Bytes := (c.toJson a).render

/-- `serde_json::from_slice`. -/
def fromSlice (c : JsonCodec α) (parse : Bytes → Option Json) (bytes : Bytes) : Option α :=
  (parse bytes).bind c.ofJson

/-- **Round trip.** -/
theorem fromSlice_toVec (c : JsonCodec α) {parse : Bytes → Option Json} (hp : ReadsBack parse)
    (hd : c.depth ≤ maxDepth) {a : α} (ha : c.Valid a) :
    c.fromSlice parse (c.toVec a) = some a := by
  unfold fromSlice toVec
  rw [hp _ ((c.plain a ha).mono hd), Option.bind_some, c.ofJson_toJson a ha]

/-- A natural number below a bound, of at most `digits` digits. -/
def nat (bound digits : ℕ) (hb : bound ≤ 2 ^ 64) (hd : 0 < digits) (h : bound ≤ 10 ^ digits) :
    JsonCodec ℕ where
  toJson n := .num n
  ofJson
    | .num n => if n < bound then some n else none
    | _ => none
  Valid n := n < bound
  depth := 0
  size := digits
  ofJson_toJson _ hn := if_pos hn
  plain _ hn := Nat.lt_of_lt_of_le hn hb
  size_le _ hn := length_decimal_le hd (Nat.lt_of_lt_of_le hn h)

/-- A type whose values are read from those of another. -/
def refine (c : JsonCodec α) (f : α → Option β) (g : β → α) (h : ∀ b, f (g b) = some b) :
    JsonCodec β where
  toJson b := c.toJson (g b)
  ofJson v := (c.ofJson v).bind f
  Valid b := c.Valid (g b)
  depth := c.depth
  size := c.size
  ofJson_toJson b hb := by rw [c.ofJson_toJson _ hb, Option.bind_some, h]
  plain b hb := c.plain _ hb
  size_le b hb := c.size_le _ hb

/-- A type with the same values. -/
def iso (c : JsonCodec α) (f : α → β) (g : β → α) (h : ∀ b, f (g b) = b) : JsonCodec β :=
  c.refine (fun a => some (f a)) g fun b => congrArg some (h b)

/-- `u64`. -/
def word64 : JsonCodec UInt64 :=
  (nat (2 ^ 64) 20 le_rfl (by decide) (by decide)).iso UInt64.ofNat UInt64.toNat
    fun _ => UInt64.ofNat_toNat

/-- `u32`. -/
def word32 : JsonCodec UInt32 :=
  (nat (2 ^ 32) 10 (by decide) (by decide) (by decide)).iso UInt32.ofNat UInt32.toNat
    fun _ => UInt32.ofNat_toNat

/-- `u16`. -/
def word16 : JsonCodec UInt16 :=
  (nat (2 ^ 16) 5 (by decide) (by decide) (by decide)).iso UInt16.ofNat UInt16.toNat
    fun _ => UInt16.ofNat_toNat

/-- `u8`. -/
def byte : JsonCodec UInt8 :=
  (nat (2 ^ 8) 3 (by decide) (by decide) (by decide)).iso UInt8.ofNat UInt8.toNat
    fun _ => UInt8.ofNat_toNat

theorem valid_word64 (w : UInt64) : word64.Valid w := w.toNat_lt

theorem valid_word32 (w : UInt32) : word32.Valid w := w.toNat_lt

theorem valid_word16 (w : UInt16) : word16.Valid w := w.toNat_lt

theorem valid_byte (b : UInt8) : byte.Valid b := b.toNat_lt

/-! ### Arrays -/

theorem mapM_map_ofJson (c : JsonCodec α) (l : List α) (hl : ∀ a ∈ l, c.Valid a) :
    (l.map c.toJson).mapM c.ofJson = some l := by
  induction l with
  | nil => rfl
  | cons a l ih =>
    rw [map_cons, mapM_cons, c.ofJson_toJson a (hl a mem_cons_self),
      ih fun b hb => hl b (mem_cons_of_mem a hb)]
    rfl

theorem length_render_map_le (c : JsonCodec α) (l : List α) (hl : ∀ a ∈ l, c.Valid a) :
    ((Json.arr (l.map c.toJson)).render).length ≤ 2 + l.length * (c.size + 1) := by
  have hsum : ((renderItems (l.map c.toJson)).map fun t => t.length + 1).sum
      ≤ l.length * (c.size + 1) := by
    rw [renderItems_eq_map]
    induction l with
    | nil => exact Nat.zero_le _
    | cons a l ih =>
      have hhead := c.size_le a (hl a mem_cons_self)
      have htail := ih fun b hb => hl b (mem_cons_of_mem a hb)
      rw [map_cons, map_cons, map_cons, sum_cons, length_cons, Nat.succ_mul]
      omega
  have hjoin := length_intercalate_le 44 (renderItems (l.map c.toJson))
  rw [render, length_cons, length_append, length_singleton]
  omega

/-- `[u8; n]`. -/
def fixed (n : ℕ) : JsonCodec { b : Bytes // b.length = n } where
  toJson b := .arr (b.val.map byte.toJson)
  ofJson
    | .arr items =>
      (items.mapM byte.ofJson).bind fun b => if h : b.length = n then some ⟨b, h⟩ else none
    | _ => none
  Valid _ := True
  depth := 1
  size := 2 + n * 4
  ofJson_toJson b _ := by
    dsimp only
    rw [byte.mapM_map_ofJson b.val fun _ _ => valid_byte _, Option.bind_some, dif_pos b.property]
  plain b _ := by
    intro v hv
    obtain ⟨a, -, rfl⟩ := List.mem_map.mp hv
    exact byte.plain a (valid_byte a)
  size_le b _ := by
    have := byte.length_render_map_le b.val fun _ _ => valid_byte _
    rw [b.property] at this
    exact this

/-! ### Structures -/

/-- The fields of a structure: their names, and their documents in that order. -/
structure Fields (α : Type) where
  names : List Bytes
  values : α → List Json
  build : List Json → Option α
  Valid : α → Prop
  depth : ℕ
  size : ℕ
  length_values : ∀ a, (values a).length = names.length
  build_values : ∀ a, Valid a → build (values a) = some a
  plain : ∀ a, Valid a → ∀ v ∈ values a, v.Plain depth
  size_le : ∀ a, Valid a →
    ((renderFields (names.zip (values a))).map fun t => t.length + 1).sum ≤ size

namespace Fields

/-- No fields. -/
def nil : Fields Unit where
  names := []
  values _ := []
  build
    | [] => some ()
    | _ => none
  Valid _ := True
  depth := 0
  size := 0
  length_values _ := rfl
  build_values _ _ := rfl
  plain _ _ _ hv := absurd hv List.not_mem_nil
  size_le _ _ := le_rfl

theorem size_le_cons (name : Bytes) (c : JsonCodec α) (f : Fields β) (a : α × β)
    (ha : c.Valid a.1 ∧ f.Valid a.2) :
    ((renderFields ((name :: f.names).zip (c.toJson a.1 :: f.values a.2))).map
      fun t => t.length + 1).sum ≤ 6 * name.length + 4 + c.size + f.size := by
  have hname := length_quote_le name
  have hhead := c.size_le _ ha.1
  have htail := f.size_le _ ha.2
  rw [zip_cons_cons, renderFields, map_cons, sum_cons, length_append, length_cons]
  omega

/-- One more field in front. -/
def cons (name : Bytes) (c : JsonCodec α) (f : Fields β) : Fields (α × β) where
  names := name :: f.names
  values a := c.toJson a.1 :: f.values a.2
  build
    | [] => none
    | v :: vs => (c.ofJson v).bind fun a => (f.build vs).map fun b => (a, b)
  Valid a := c.Valid a.1 ∧ f.Valid a.2
  depth := max c.depth f.depth
  size := 6 * name.length + 4 + c.size + f.size
  length_values a := congrArg Nat.succ (f.length_values a.2)
  build_values a ha := by
    dsimp only
    rw [c.ofJson_toJson _ ha.1, Option.bind_some, f.build_values _ ha.2, Option.map_some]
  plain a ha v hv := by
    rcases List.mem_cons.mp hv with rfl | hv
    · exact (c.plain _ ha.1).mono (Nat.le_max_left _ _)
    · exact (f.plain _ ha.2 v hv).mono (Nat.le_max_right _ _)
  size_le a ha := size_le_cons name c f a ha

end Fields

/-- The value of a field. One that is absent reads as `null`, one that is repeated is
refused. -/
def field (fields : List (Bytes × Json)) (name : Bytes) : Option Json :=
  match fields.filter fun f => f.1 = name with
  | [] => some .null
  | [f] => some f.2
  | _ => none

theorem filter_name_eq {fields : List (Bytes × Json)} (h : (fields.map Prod.fst).Nodup)
    {f : Bytes × Json} (hf : f ∈ fields) : fields.filter (fun g => g.1 = f.1) = [f] := by
  induction fields with
  | nil => exact absurd hf not_mem_nil
  | cons g fields ih =>
    rw [map_cons, nodup_cons] at h
    rcases mem_cons.mp hf with rfl | hf
    · -- no other field has the name
      rw [filter_cons_of_pos (by simp)]
      refine congrArg _ (filter_eq_nil_iff.mpr fun g hg heq => h.1 ?_)
      rw [← of_decide_eq_true heq]
      exact mem_map_of_mem hg
    · have hne : g.1 ≠ f.1 := fun heq => h.1 (heq ▸ mem_map_of_mem hf)
      rw [filter_cons_of_neg (by simpa using hne)]
      exact ih h.2 hf

theorem mapM_field {fields : List (Bytes × Json)} (h : (fields.map Prod.fst).Nodup) :
    (fields.map Prod.fst).mapM (field fields) = some (fields.map Prod.snd) := by
  have hfind : ∀ l : List (Bytes × Json), (∀ f ∈ l, f ∈ fields) →
      (l.map Prod.fst).mapM (field fields) = some (l.map Prod.snd) := by
    intro l hl
    induction l with
    | nil => rfl
    | cons f l ih =>
      have hhead : field fields f.1 = some f.2 := by
        unfold field
        rw [filter_name_eq h (hl f mem_cons_self)]
      rw [map_cons, mapM_cons, hhead, ih fun g hg => hl g (mem_cons_of_mem f hg)]
      rfl
  exact hfind fields fun _ hf => hf

/-- **A structure.** It is written as an object, and read from an object or from the array
of its fields. -/
def object (f : Fields α) (hnames : f.names.Nodup) (hplain : ∀ n ∈ f.names, PlainName n) :
    JsonCodec α where
  toJson a := .obj (f.names.zip (f.values a))
  ofJson
    | .obj fields => (f.names.mapM (field fields)).bind f.build
    | .arr items => f.build items
    | _ => none
  Valid := f.Valid
  depth := f.depth + 1
  size := f.size + 2
  ofJson_toJson a ha := by
    have hlen := f.length_values a
    have hfst : (f.names.zip (f.values a)).map Prod.fst = f.names :=
      List.map_fst_zip hlen.ge
    have hsnd : (f.names.zip (f.values a)).map Prod.snd = f.values a :=
      List.map_snd_zip hlen.le
    have hread := mapM_field (hfst ▸ hnames)
    rw [hfst, hsnd] at hread
    dsimp only
    rw [hread, Option.bind_some, f.build_values a ha]
  plain a ha := by
    refine ⟨?_, fun g hg => ⟨hplain _ (List.of_mem_zip hg).1,
      f.plain a ha _ (List.of_mem_zip hg).2⟩⟩
    rw [List.map_fst_zip (f.length_values a).ge]
    exact hnames
  size_le a ha := by
    have hjoin := length_intercalate_le 44 (renderFields (f.names.zip (f.values a)))
    have hfields := f.size_le a ha
    rw [render, List.length_cons, List.length_append, List.length_singleton]
    omega

/-! ### Durations -/

/-- `Duration`: its seconds and its nanoseconds. -/
def duration : JsonCodec Duration :=
  (object (.cons (utf8 "secs") word64 (.cons (utf8 "nanos") word32 .nil)) (by decide)
      (by decide +kernel)).refine
    (fun r => Duration.ofParts r.1 r.2.1) (fun d => (d.asSecs, d.subsecNanos, ()))
    fun d => d.ofParts_self

theorem valid_duration (d : Duration) : duration.Valid d :=
  ⟨valid_word64 _, valid_word32 _, True.intro⟩

end JsonCodec

end Framework
