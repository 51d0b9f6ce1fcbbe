import Mathlib.Data.List.Basic
import Mathlib.Data.Nat.Basic
import Mathlib.Tactic.Linarith
import Rds.Framework.ByteString

/-!
# The postcard wire format

The `postcard` serialisation format: variable-length integers, byte strings,
fixed-size arrays, sequences and options. A structure is the concatenation of its
fields, an enumeration is the varint of its discriminant followed by the fields of
the variant.

A `Codec` pairs an encoder with a decoder that takes a value off the front of its
input, and carries the proof that the decoder undoes the encoder on the values the
type can hold. Codecs of composite types are built from those of their parts.
-/

namespace Framework.Postcard

open List

/-! ### Encoders -/

/-- The bounded loop behind every varint: seven bits a byte, least significant
first, the high bit set on all but the last. The bound is the largest number of
bytes the integer type can need. -/
def varintLoop : ℕ → ℕ → Bytes
  | 0, _ => []
  | fuel + 1, n =>
    if n < 128 then [UInt8.ofNat n]
    else UInt8.ofNat (n % 128 + 128) :: varintLoop fuel (n / 128)

/-- A `u32`, also the discriminant of an enumeration. -/
def varint32 (n : ℕ) : Bytes := varintLoop 5 n

/-- A `u64` or a `usize`. -/
def varint64 (n : ℕ) : Bytes := varintLoop 10 n

/-- A string or a byte vector: its length, then its bytes. -/
def encodeBytes (b : Bytes) : Bytes := varint64 b.length ++ b

/-- An option: a tag byte, then the value if there is one. -/
def encodeOption {α : Type} (encode : α → Bytes) : Option α → Bytes
  | none => [0]
  | some a => 1 :: encode a

theorem length_varintLoop_le (fuel n : ℕ) : (varintLoop fuel n).length ≤ fuel := by
  induction fuel generalizing n with
  | zero => exact le_rfl
  | succ fuel ih =>
    rw [varintLoop]
    split
    · exact Nat.succ_le_succ (Nat.zero_le fuel)
    · exact Nat.succ_le_succ (ih _)

/-! ### Varint decoders -/

/-- Take a varint of at most `fuel` bytes. A byte in the last place must not exceed
`last`, or the integer type would overflow. -/
def takeVarint (last : ℕ) : ℕ → Bytes → Option (ℕ × Bytes)
  | 0, _ => none
  | _ + 1, [] => none
  | fuel + 1, b :: rest =>
    if b.toNat < 128 then
      if fuel = 0 ∧ last < b.toNat then none else some (b.toNat, rest)
    else (takeVarint last fuel rest).map fun r => (b.toNat - 128 + 128 * r.1, r.2)

theorem takeVarint_varintLoop {last : ℕ} (hlast : last < 128) (fuel n : ℕ)
    (hn : n < 128 ^ fuel * (last + 1)) (rest : Bytes) :
    takeVarint last (fuel + 1) (varintLoop (fuel + 1) n ++ rest) = some (n, rest) := by
  induction fuel generalizing n with
  | zero =>
    have hlt : n < 128 := by omega
    have hnat : (UInt8.ofNat n).toNat = n := Nat.mod_eq_of_lt (by omega)
    rw [varintLoop, if_pos hlt, singleton_append, takeVarint, hnat, if_pos hlt, if_neg]
    omega
  | succ fuel ih =>
    rw [varintLoop]
    split
    · next hlt =>
      have hnat : (UInt8.ofNat n).toNat = n := Nat.mod_eq_of_lt (by omega)
      rw [singleton_append, takeVarint, hnat, if_pos hlt, if_neg]
      omega
    next hge =>
    -- the low seven bits with the continuation bit, then the rest of the number
    have hnat : (UInt8.ofNat (n % 128 + 128)).toNat = n % 128 + 128 :=
      Nat.mod_eq_of_lt (by omega)
    have hdiv : n / 128 < 128 ^ fuel * (last + 1) := by
      refine Nat.div_lt_of_lt_mul ?_
      rw [pow_succ] at hn
      linarith
    rw [cons_append, takeVarint, if_neg (by omega), ih _ hdiv, Option.map_some]
    congr 2
    omega

/-! ### Codecs -/

/-- An encoder, a decoder that takes a value off the front of its input, and the
values on which the one undoes the other. -/
structure Codec (α : Type) where
  encode : α → Bytes
  decode : Bytes → Option (α × Bytes)
  Valid : α → Prop
  decode_encode : ∀ a rest, Valid a → decode (encode a ++ rest) = some (a, rest)

namespace Codec

/-- An unsigned integer of at most `fuel + 1` bytes. -/
def varint (fuel last : ℕ) (h : last < 128) : Codec ℕ where
  encode := varintLoop (fuel + 1)
  decode := takeVarint last (fuel + 1)
  Valid n := n < 128 ^ fuel * (last + 1)
  decode_encode n rest hn := takeVarint_varintLoop h fuel n hn rest

/-- `u16`. -/
def u16 : Codec ℕ := varint 2 3 (by decide)

/-- `u32`, also the discriminant of an enumeration. -/
def u32 : Codec ℕ := varint 4 15 (by decide)

/-- `u64` and `usize`. -/
def u64 : Codec ℕ := varint 9 1 (by decide)

/-- `u8`: the byte itself. -/
def u8 : Codec ℕ where
  encode n := [UInt8.ofNat n]
  decode
    | [] => none
    | b :: rest => some (b.toNat, rest)
  Valid n := n < 256
  decode_encode n rest hn := by
    show some ((UInt8.ofNat n).toNat, rest) = some (n, rest)
    rw [show (UInt8.ofNat n).toNat = n from Nat.mod_eq_of_lt hn]

/-- `u8`, as the byte itself. -/
def byte : Codec UInt8 where
  encode b := [b]
  decode
    | [] => none
    | b :: rest => some (b, rest)
  Valid _ := True
  decode_encode _ _ _ := rfl

/-- `[u8; n]`: the bytes themselves. -/
def fixed (n : ℕ) : Codec { b : Bytes // b.length = n } where
  encode b := b.val
  decode input :=
    if h : n ≤ input.length then
      some (⟨input.take n, by rw [List.length_take]; omega⟩, input.drop n)
    else none
  Valid _ := True
  decode_encode b rest _ := by
    rw [dif_pos (by rw [List.length_append, b.property]; omega)]
    congr 2
    · exact Subtype.ext (List.take_left' b.property)
    · exact List.drop_left' b.property

/-- `String`: a length and bytes that pass the check. -/
def bytes (check : Bytes → Bool) : Codec Bytes where
  encode := encodeBytes
  decode input :=
    (u64.decode input).bind fun r =>
      if r.1 ≤ r.2.length ∧ check (r.2.take r.1) then some (r.2.take r.1, r.2.drop r.1) else none
  Valid b := u64.Valid b.length ∧ check b = true
  decode_encode b rest hb := by
    show (u64.decode (u64.encode b.length ++ b ++ rest)).bind _ = _
    rw [List.append_assoc, u64.decode_encode _ _ hb.1, Option.bind_some]
    dsimp only
    rw [List.take_left, List.drop_left, if_pos ⟨by rw [List.length_append]; omega, hb.2⟩]

variable {α β : Type}

/-- Two values, one after the other. -/
def pair (a : Codec α) (b : Codec β) : Codec (α × β) where
  encode v := a.encode v.1 ++ b.encode v.2
  decode input :=
    (a.decode input).bind fun r => (b.decode r.2).map fun q => ((r.1, q.1), q.2)
  Valid v := a.Valid v.1 ∧ b.Valid v.2
  decode_encode v rest hv := by
    rw [List.append_assoc, a.decode_encode _ _ hv.1, Option.bind_some,
      b.decode_encode _ _ hv.2, Option.map_some]

/-- A type with the same values. -/
def iso (c : Codec α) (f : α → β) (g : β → α) (h : ∀ b, f (g b) = b) : Codec β where
  encode b := c.encode (g b)
  decode input := (c.decode input).map fun r => (f r.1, r.2)
  Valid b := c.Valid (g b)
  decode_encode b rest hb := by rw [c.decode_encode _ _ hb, Option.map_some, h]

/-- A type that is encoded as another: the decoder finds back the values with `P`. -/
def view (c : Codec α) (f : α → β) (g : β → α) (P : β → Prop) (h : ∀ b, P b → f (g b) = b) :
    Codec β where
  encode b := c.encode (g b)
  decode input := (c.decode input).map fun r => (f r.1, r.2)
  Valid b := c.Valid (g b) ∧ P b
  decode_encode b rest hb := by rw [c.decode_encode _ _ hb.1, Option.map_some, h b hb.2]

/-- `u16`, as the machine word. -/
def word16 : Codec UInt16 :=
  u16.iso UInt16.ofNat UInt16.toNat fun _ => UInt16.ofNat_toNat

/-- `u32`, as the machine word. -/
def word32 : Codec UInt32 :=
  u32.iso UInt32.ofNat UInt32.toNat fun _ => UInt32.ofNat_toNat

/-- `u64`, as the machine word. -/
def word64 : Codec UInt64 :=
  u64.iso UInt64.ofNat UInt64.toNat fun _ => UInt64.ofNat_toNat

theorem valid_word16 (w : UInt16) : word16.Valid w := w.toNat_lt

theorem valid_word32 (w : UInt32) : word32.Valid w := w.toNat_lt

theorem valid_word64 (w : UInt64) : word64.Valid w := w.toNat_lt

/-- `bool`: one byte, zero or one. -/
def bool : Codec Bool where
  encode b := [if b then 1 else 0]
  decode
    | [] => none
    | b :: rest => if b = 0 then some (false, rest) else if b = 1 then some (true, rest) else none
  Valid _ := True
  decode_encode b rest _ := by cases b <;> rfl

/-- Take `n` values. -/
def decodeMany (c : Codec α) : ℕ → Bytes → Option (List α × Bytes)
  | 0, input => some ([], input)
  | n + 1, input =>
    (c.decode input).bind fun r => (decodeMany c n r.2).map fun q => (r.1 :: q.1, q.2)

theorem decodeMany_encode (c : Codec α) (l : List α) (rest : Bytes) (hl : ∀ a ∈ l, c.Valid a) :
    c.decodeMany l.length (l.flatMap c.encode ++ rest) = some (l, rest) := by
  induction l with
  | nil => rfl
  | cons a l ih =>
    rw [flatMap_cons, append_assoc, length_cons, decodeMany,
      c.decode_encode _ _ (hl a mem_cons_self), Option.bind_some,
      ih fun b hb => hl b (mem_cons_of_mem a hb), Option.map_some]

/-- `Vec`: a length and that many values. -/
def list (c : Codec α) : Codec (List α) where
  encode l := u64.encode l.length ++ l.flatMap c.encode
  decode input := (u64.decode input).bind fun r => c.decodeMany r.1 r.2
  Valid l := u64.Valid l.length ∧ ∀ a ∈ l, c.Valid a
  decode_encode l rest hl := by
    rw [List.append_assoc, u64.decode_encode _ _ hl.1, Option.bind_some]
    exact c.decodeMany_encode l rest hl.2

/-- `Vec` with a limit: a longer sequence is refused at its length. -/
def limited (limit : ℕ) (c : Codec α) : Codec (List α) where
  encode := c.list.encode
  decode input :=
    (u64.decode input).bind fun r => if limit < r.1 then none else c.decodeMany r.1 r.2
  Valid l := l.length ≤ limit ∧ c.list.Valid l
  decode_encode l rest hl := by
    show (u64.decode (u64.encode l.length ++ l.flatMap c.encode ++ rest)).bind _ = _
    rw [List.append_assoc, u64.decode_encode _ _ hl.2.1, Option.bind_some,
      if_neg (Nat.not_lt.mpr hl.1)]
    exact c.decodeMany_encode l rest hl.2.2

theorem length_encode_list_le (c : Codec α) {k : ℕ} (hk : ∀ a, (c.encode a).length ≤ k)
    (l : List α) : (c.list.encode l).length ≤ 10 + k * l.length := by
  have hflat : (l.flatMap c.encode).length ≤ k * l.length := by
    induction l with
    | nil => exact Nat.zero_le _
    | cons a l ih =>
      rw [flatMap_cons, length_append, length_cons, Nat.mul_succ]
      have := hk a
      omega
  have hlen : (u64.encode l.length).length ≤ 10 := length_varintLoop_le _ _
  show (u64.encode l.length ++ l.flatMap c.encode).length ≤ _
  rw [length_append]
  omega

/-! ### Enumerations -/

/-- A variant of an enumeration: the codec of its fields, and how they are put into
a value and found in one. -/
structure Variant (β : Type) where
  Fields : Type
  codec : Codec Fields
  make : Fields → β
  fields : β → Option Fields
  make_fields : ∀ b a, fields b = some a → make a = b := by intro b a h; cases b <;> cases h; rfl

/-- Encode with the first variant that fits; its position is the discriminant. -/
def encodeVariant : List (Variant β) → ℕ → β → Bytes
  | [], _, _ => []
  | v :: vs, tag, b =>
    match v.fields b with
    | some a => u32.encode tag ++ v.codec.encode a
    | none => encodeVariant vs (tag + 1) b

/-- The fields of the first variant that fits are valid. -/
def ValidVariant : List (Variant β) → β → Prop
  | [], _ => False
  | v :: vs, b =>
    match v.fields b with
    | some a => v.codec.Valid a
    | none => ValidVariant vs b

/-- Take the fields of a variant. -/
def Variant.take (v : Variant β) (input : Bytes) : Option (β × Bytes) :=
  (v.codec.decode input).map fun r => (v.make r.1, r.2)

theorem exists_encodeVariant {vs : List (Variant β)} {b : β} (h : ValidVariant vs b) (tag : ℕ) :
    ∃ i v a, vs[i]? = some v ∧ v.make a = b ∧ v.codec.Valid a ∧
      encodeVariant vs tag b = u32.encode (tag + i) ++ v.codec.encode a := by
  induction vs generalizing tag with
  | nil => exact h.elim
  | cons v vs ih =>
    unfold ValidVariant at h
    unfold encodeVariant
    cases hv : v.fields b with
    | some a =>
      rw [hv] at h
      exact ⟨0, v, a, rfl, v.make_fields b a hv, h, rfl⟩
    | none =>
      rw [hv] at h
      obtain ⟨i, w, a, hw, hmake, hvalid, henc⟩ := ih h (tag + 1)
      refine ⟨i + 1, w, a, hw, hmake, hvalid, ?_⟩
      rw [henc, Nat.add_assoc, Nat.add_comm 1 i]

/-- **An enumeration**: its discriminant, then the fields of the variant. -/
def enum (vs : List (Variant β)) (h : vs.length ≤ 2 ^ 32 := by decide) : Codec β where
  encode := encodeVariant vs 0
  decode input := (u32.decode input).bind fun r => (vs[r.1]?).bind fun v => v.take r.2
  Valid := ValidVariant vs
  decode_encode b rest hb := by
    obtain ⟨i, v, a, hv, hmake, hvalid, henc⟩ := exists_encodeVariant hb 0
    have hi : u32.Valid (0 + i) := by
      have hlt := (List.getElem?_eq_some_iff.mp hv).1
      show 0 + i < 128 ^ 4 * 16
      omega
    rw [henc, List.append_assoc, u32.decode_encode _ _ hi, Option.bind_some, Nat.zero_add, hv,
      Option.bind_some, Variant.take, v.codec.decode_encode _ _ hvalid, Option.map_some, hmake]

/-- A variant without fields. -/
def nothing : Codec Unit where
  encode _ := []
  decode input := some ((), input)
  Valid _ := True
  decode_encode _ _ _ := rfl

/-- `Option`: a tag byte, 0 or 1 and nothing else, followed by the value if there is one. The tag is no
varint, so a padded one is refused. -/
def option {α : Type} (c : Codec α) : Codec (Option α) where
  encode := encodeOption c.encode
  decode
    | [] => none
    | tag :: rest =>
      if tag = 0 then some (none, rest)
      else if tag = 1 then (c.decode rest).map fun r => (some r.1, r.2)
      else none
  Valid o := ∀ a, o = some a → c.Valid a
  decode_encode o rest ho := by
    cases o with
    | none => rfl
    | some a =>
      show (c.decode (c.encode a ++ rest)).map _ = _
      rw [c.decode_encode a rest (ho a rfl), Option.map_some]

end Codec

end Framework.Postcard
