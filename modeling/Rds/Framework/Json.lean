import Mathlib
import Rds.Framework.ByteString

/-!
# JSON documents

The documents `serde_json` writes, and how the values of a program are laid out in them.
A text is produced by `Json.render`, without white space. Reading a text back is the
business of a parser that is not modelled: it is a parameter `parse`, and what is assumed
of it is `ReadsBack`: it finds a *plain* document in its rendering. A document is plain if
it consists of machine words, arrays and objects, the names in an object are distinct and
need no escapes, and it is not nested too deeply.

A `JsonCodec` lays a type out as documents and reads it back, carries the proof that the one
undoes the other, and bounds the depth and the size of what it writes. Codecs of composite
types are built from those of their parts, so a bound on the size of a file is the value of
a field.
-/

namespace Framework

open List

/-- A document. `fraction` is a number that is not a natural number, by its text. -/
inductive Json where
  | null
  | bool (b : Bool)
  | num (n : ℕ)
  | fraction (text : Bytes)
  | str (s : Bytes)
  | arr (items : List Json)
  | obj (fields : List (Bytes × Json))

namespace Json

/-! ### Rendering -/

/-- A number in decimal. -/
def decimal (n : ℕ) : Bytes :=
  if n = 0 then [48] else (Nat.digits 10 n).reverse.map fun d => UInt8.ofNat (48 + d)

/-- A hexadecimal digit, in lower case. -/
def hexDigit (n : ℕ) : UInt8 := UInt8.ofNat (if n < 10 then 48 + n else 87 + n)

/-- One byte of a string. -/
def escape (b : UInt8) : Bytes :=
  if b = 34 then [92, 34]
  else if b = 92 then [92, 92]
  else if b = 8 then [92, 98]
  else if b = 9 then [92, 116]
  else if b = 10 then [92, 110]
  else if b = 12 then [92, 102]
  else if b = 13 then [92, 114]
  else if b.toNat < 32 then [92, 117, 48, 48, hexDigit (b.toNat / 16), hexDigit (b.toNat % 16)]
  else [b]

/-- A string in quotes. -/
def quote (s : Bytes) : Bytes := 34 :: (s.flatMap escape ++ [34])

mutual

/-- The text of a document. -/
def render : Json → Bytes
  | .null => utf8 "null"
  | .bool b => if b then utf8 "true" else utf8 "false"
  | .num n => decimal n
  | .fraction text => text
  | .str s => quote s
  | .arr items => 91 :: (List.intercalate [44] (renderItems items) ++ [93])
  | .obj fields => 123 :: (List.intercalate [44] (renderFields fields) ++ [125])

/-- The texts of the items of an array. -/
def renderItems : List Json → List Bytes
  | [] => []
  | v :: items => render v :: renderItems items

/-- The texts of the fields of an object. -/
def renderFields : List (Bytes × Json) → List Bytes
  | [] => []
  | (name, v) :: fields => (quote name ++ 58 :: render v) :: renderFields fields

end

theorem renderItems_eq_map (items : List Json) : renderItems items = items.map render := by
  induction items with
  | nil => rfl
  | cons v items ih => rw [renderItems, ih, map_cons]

theorem renderFields_eq_map (fields : List (Bytes × Json)) :
    renderFields fields = fields.map fun f => quote f.1 ++ 58 :: render f.2 := by
  induction fields with
  | nil => rfl
  | cons f fields ih => rw [renderFields, ih, map_cons]

/-! ### Sizes -/

theorem length_decimal_le {n k : ℕ} (hk : 0 < k) (h : n < 10 ^ k) : (decimal n).length ≤ k := by
  unfold decimal
  split
  · exact hk
  · rw [length_map, length_reverse]
    exact (Nat.digits_length_le_iff (by decide) n).mpr h

theorem length_escape_le (b : UInt8) : (escape b).length ≤ 6 := by
  unfold escape
  split_ifs <;> simp

theorem length_quote_le (s : Bytes) : (quote s).length ≤ 6 * s.length + 2 := by
  have hbody : (s.flatMap escape).length ≤ 6 * s.length := by
    induction s with
    | nil => exact le_rfl
    | cons b s ih =>
      rw [flatMap_cons, length_append, length_cons]
      have := length_escape_le b
      omega
  unfold quote
  rw [length_cons, length_append, length_singleton]
  omega

theorem length_intercalate_le (sep : UInt8) (l : List Bytes) :
    (List.intercalate [sep] l).length ≤ (l.map fun t => t.length + 1).sum := by
  induction l with
  | nil => exact Nat.le_refl 0
  | cons t l ih =>
    cases l with
    | nil =>
      rw [intercalate_singleton, map_singleton]
      exact Nat.le_succ _
    | cons u l =>
      rw [intercalate_cons_cons, length_append, length_append, map_cons, sum_cons, length_singleton]
      omega

/-! ### Plain documents -/

/-- The bytes are UTF-8. -/
def isUtf8 (s : Bytes) : Bool := (ByteArray.mk s.toArray).validateUTF8

/-- A name that is written as it is. -/
def PlainName (name : Bytes) : Prop := ∀ b ∈ name, escape b = [b]

instance (name : Bytes) : Decidable (PlainName name) := inferInstanceAs (Decidable (∀ b ∈ name, _))

/-- A document that a reader takes as it was written, nested at most this deep. -/
def Plain : ℕ → Json → Prop
  | _, .num n => n < 2 ^ 64
  | depth + 1, .arr items => ∀ v ∈ items, Plain depth v
  | depth + 1, .obj fields =>
    (fields.map Prod.fst).Nodup ∧ ∀ f ∈ fields, PlainName f.1 ∧ Plain depth f.2
  | _, _ => False

theorem Plain.mono {d d' : ℕ} (hd : d ≤ d') {v : Json} (h : Plain d v) : Plain d' v := by
  induction d generalizing d' v with
  | zero =>
    cases v with
    | num n => cases d' <;> exact h
    | _ => exact h.elim
  | succ d ih =>
    obtain ⟨e, rfl⟩ : ∃ e, d' = e + 1 := ⟨d' - 1, by omega⟩
    have hle : d ≤ e := Nat.le_of_succ_le_succ hd
    cases v with
    | num n => exact h
    | arr items => exact fun w hw => ih hle (h w hw)
    | obj fields => exact ⟨h.1, fun f hf => ⟨(h.2 f hf).1, ih hle (h.2 f hf).2⟩⟩
    | _ => exact h.elim

/-- How deep `serde_json` follows a document. -/
def maxDepth : ℕ := 127

/-- **The contract of a parser**: it reads back the plain documents. -/
def ReadsBack (parse : Bytes → Option Json) : Prop :=
  ∀ v, v.Plain maxDepth → parse v.render = some v

end Json

end Framework
