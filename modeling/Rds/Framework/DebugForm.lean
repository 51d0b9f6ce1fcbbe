import Rds.Framework.ByteString

/-!
# The quoted form of a string

A formatter's debug form of a string: the string in double quotes, with quotes, backslashes and
characters that are not printable escaped. Which characters outside ASCII are escaped depends on the
Unicode tables of the formatter, so they are a parameter. What the form can grow to does not depend on
them: an ASCII character becomes at most six bytes, any other at most ten (`length_debugForm_le`).
-/

namespace Framework

open List

/-- The digits of a number in base sixteen, most significant first. -/
def hexDigits (n : ℕ) : Bytes :=
  (Nat.toDigits 16 n).map fun d => UInt8.ofNat d.toNat

/-- The escape of a character by its code. -/
def unicodeEscape (c : Char) : Bytes :=
  utf8 "\\u\x7b" ++ hexDigits c.toNat ++ utf8 "\x7d"

/-- One character of a debug form. `tables` tells the characters outside ASCII that are escaped. -/
def escapeDebug (tables : Char → Bool) (c : Char) : Bytes :=
  if c = '\x00' then utf8 "\\0"
  else if c = '\t' then utf8 "\\t"
  else if c = '\r' then utf8 "\\r"
  else if c = '\n' then utf8 "\\n"
  else if c = '"' then utf8 "\\\""
  else if c = '\\' then utf8 "\\\\"
  else if c.toNat < 32 ∨ c.toNat = 127 then unicodeEscape c
  else if c.toNat < 127 then String.utf8EncodeChar c
  else if tables c then unicodeEscape c
  else String.utf8EncodeChar c

/-- **The debug form** of a string; a byte string that is no string has none. -/
def debugForm (tables : Char → Bool) (b : Bytes) : Bytes :=
  match b.toByteArray.utf8Decode? with
  | some chars => utf8 "\"" ++ chars.toList.flatMap (escapeDebug tables) ++ utf8 "\""
  | none => []

theorem debugForm_utf8 (tables : Char → Bool) (s : String) :
    debugForm tables (utf8 s)
      = utf8 "\"" ++ s.toList.flatMap (escapeDebug tables) ++ utf8 "\"" := by
  have hdecode : (utf8 s).toByteArray.utf8Decode? = some s.toList.toArray :=
    utf8Decode?_utf8Encode
  unfold debugForm
  rw [hdecode]

theorem length_unicodeEscape_le {c : Char} {k : ℕ} (hk : 0 < k) (h : c.toNat < 16 ^ k) :
    (unicodeEscape c).length ≤ k + 4 := by
  have hdigits : (hexDigits c.toNat).length ≤ k := by
    unfold hexDigits
    rw [length_map]
    exact Nat.toDigits_length 16 c.toNat k hk h
  have hopen : (utf8 "\\u\x7b").length = 3 := by decide
  have hclose : (utf8 "\x7d").length = 1 := by decide
  unfold unicodeEscape
  rw [length_append, length_append, hclose]
  omega

theorem length_escapeDebug_le (tables : Char → Bool) (c : Char) :
    (escapeDebug tables c).length ≤ 6 * (String.utf8EncodeChar c).length := by
  have hsize : 1 ≤ c.utf8Size := c.utf8Size_pos
  have hshort : ∀ b : Bytes, b.length = 2 → b.length ≤ 6 * c.utf8Size := fun b hb => by omega
  rw [String.length_utf8EncodeChar]
  unfold escapeDebug
  split_ifs with h0 ht hr hn hq hb hcontrol hascii htables
  · exact hshort _ (by decide)
  · exact hshort _ (by decide)
  · exact hshort _ (by decide)
  · exact hshort _ (by decide)
  · exact hshort _ (by decide)
  · exact hshort _ (by decide)
  · -- a control character has at most two digits
    have hle := length_unicodeEscape_le (c := c) (k := 2) (by decide) (by omega)
    omega
  · rw [String.length_utf8EncodeChar]
    omega
  · -- outside ASCII a character takes at least two bytes itself
    have hvalid : c.toNat < 16 ^ 6 := by
      rcases c.valid with h | ⟨-, h⟩
      · exact lt_trans h (by decide)
      · exact lt_trans h (by decide)
    have hle := length_unicodeEscape_le (c := c) (k := 6) (by decide) hvalid
    have htwo : 2 ≤ c.utf8Size := by
      have hbig : ¬ c.val.toNat ≤ 127 := by
        show ¬ c.toNat ≤ 127
        omega
      rw [← String.length_utf8EncodeChar]
      unfold String.utf8EncodeChar
      dsimp only
      split_ifs <;> simp
    omega
  · rw [String.length_utf8EncodeChar]
    omega

/-- **What a debug form can grow to**: six times the string, and the quotes. -/
theorem length_debugForm_le (tables : Char → Bool) (s : String) :
    (debugForm tables (utf8 s)).length ≤ 6 * (utf8 s).length + 2 := by
  have hquote : (utf8 "\"").length = 1 := by decide
  have hchars : ∀ l : List Char, (l.flatMap (escapeDebug tables)).length
      ≤ 6 * (l.flatMap String.utf8EncodeChar).length := by
    intro l
    induction l with
    | nil => exact le_rfl
    | cons c l ih =>
      have hc := length_escapeDebug_le tables c
      rw [flatMap_cons, flatMap_cons, length_append, length_append]
      omega
  have hs := hchars s.toList
  rw [debugForm_utf8, length_append, length_append, hquote]
  unfold utf8 at hs ⊢
  omega

theorem length_debugForm_of_plain (tables : Char → Bool) (s : String)
    (h : ∀ c ∈ s.toList, escapeDebug tables c = String.utf8EncodeChar c) :
    (debugForm tables (utf8 s)).length = (utf8 s).length + 2 := by
  have hquote : (utf8 "\"").length = 1 := by decide
  have hsame : s.toList.flatMap (escapeDebug tables) = utf8 s := flatMap_congr h
  rw [debugForm_utf8, hsame, length_append, length_append]
  omega

end Framework
