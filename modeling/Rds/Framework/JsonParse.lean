import Rds.Framework.Json

/-!
# A reader of compact documents

A recursive descent over the plain documents `Json.render` writes. It meets the contract of a
parser (`readsBack_parse`), so the contract can be met.

Arrays and objects are sequences between brackets: `parseSeq` reads either, given a reader of
one element, and `parseSeq_render` is its round trip. The descent is bounded by the depth of a
document and a sequence by the length of the text.
-/

namespace Framework

open List

namespace Json

/-! ### Reading -/

/-- The byte is a decimal digit. -/
def isDigit (b : UInt8) : Bool := 48 ≤ b.toNat ∧ b.toNat ≤ 57

/-- The number of a row of digits. -/
def ofDecimal (digits : Bytes) : ℕ := digits.foldl (fun n b => n * 10 + (b.toNat - 48)) 0

/-- Elements up to a closing byte, and what follows it. -/
def parseSeq {α : Type} (element : Bytes → Option (α × Bytes)) (close : UInt8) :
    ℕ → Bytes → Option (List α × Bytes)
  | 0, _ => none
  | n + 1, text =>
    match element text with
    | some (v, b :: rest) =>
      if b = 44 then (parseSeq element close n rest).map fun r => (v :: r.1, r.2)
      else if b = close then some ([v], rest)
      else none
    | _ => none

/-- A sequence that may be empty. -/
def parseBody {α : Type} (element : Bytes → Option (α × Bytes)) (close : UInt8) (text : Bytes) :
    Option (List α × Bytes) :=
  if text.head? = some close then some ([], text.tail) else parseSeq element close text.length text

/-- The name of a field, given a reader of its value. -/
def parseField (value : Bytes → Option (Json × Bytes)) (text : Bytes) :
    Option ((Bytes × Json) × Bytes) :=
  (value ((text.tail.dropWhile (· ≠ 34)).drop 2)).map fun r =>
    ((text.tail.takeWhile (· ≠ 34), r.1), r.2)

/-- The document a text starts with, and what follows it. -/
def parseValue : ℕ → Bytes → Option (Json × Bytes)
  | 0, _ => none
  | depth + 1, text =>
    if text.head? = some 91 then
      (parseBody (parseValue depth) 93 text.tail).map fun r => (.arr r.1, r.2)
    else if text.head? = some 123 then
      (parseBody (parseField (parseValue depth)) 125 text.tail).map fun r => (.obj r.1, r.2)
    else some (.num (ofDecimal (text.takeWhile isDigit)), text.dropWhile isDigit)

/-- The document of a text. -/
def parse (text : Bytes) : Option Json :=
  match parseValue (maxDepth + 1) text with
  | some (v, []) => some v
  | _ => none

/-! ### Numbers -/

/-- What follows a document does not start with a digit. -/
def Delimited (rest : Bytes) : Prop := ∀ b, rest.head? = some b → isDigit b = false

theorem delimited_cons {b : UInt8} (h : isDigit b = false) (rest : Bytes) : Delimited (b :: rest) := by
  intro c hc
  rw [← Option.some.inj hc]
  exact h

theorem isDigit_ofNat {d : ℕ} (h : d < 10) : isDigit (UInt8.ofNat (48 + d)) = true := by
  interval_cases d <;> rfl

theorem isDigit_of_mem_decimal {n : ℕ} {b : UInt8} (h : b ∈ decimal n) : isDigit b = true := by
  unfold decimal at h
  split at h
  · rw [mem_singleton.mp h]
    rfl
  · obtain ⟨d, hd, rfl⟩ := mem_map.mp h
    exact isDigit_ofNat (Nat.digits_lt_base (by decide) (mem_reverse.mp hd))

theorem decimal_ne_nil (n : ℕ) : decimal n ≠ [] := by
  unfold decimal
  split
  · simp
  next h => simpa using Nat.digits_ne_nil_iff_ne_zero.mpr h

theorem ofDecimal_decimal (n : ℕ) : ofDecimal (decimal n) = n := by
  have hfold : ∀ (l : List ℕ), (∀ d ∈ l, d < 10) →
      l.foldr (fun d n => n * 10 + ((UInt8.ofNat (48 + d)).toNat - 48)) 0 = Nat.ofDigits 10 l := by
    intro l hl
    induction l with
    | nil => rfl
    | cons d l ih =>
      have hd : (UInt8.ofNat (48 + d)).toNat = 48 + d := by
        rw [UInt8.toNat_ofNat']
        have := hl d mem_cons_self
        omega
      rw [foldr_cons, ih fun e he => hl e (mem_cons_of_mem d he), Nat.ofDigits_cons]
      omega
  unfold decimal ofDecimal
  split
  · next h =>
    rw [h]
    rfl
  · rw [foldl_map, foldl_reverse]
    rw [hfold _ fun d hd => Nat.digits_lt_base (by decide) hd, Nat.ofDigits_digits]

/-! ### Sequences -/

section Sequence

variable {α : Type} {element : Bytes → Option (α × Bytes)} {text : α → Bytes} {close : UInt8}

/-- Elements that are read back each are read back as a sequence. -/
theorem parseSeq_render {l : List α} (hclose : close ≠ 44 ∧ isDigit close = false)
    (hread : ∀ v ∈ l, ∀ rest, Delimited rest → element (text v ++ rest) = some (v, rest)) (hne : l ≠ [])
    {n : ℕ} (hn : l.length ≤ n) (rest : Bytes) :
    parseSeq element close n (List.intercalate [44] (l.map text) ++ close :: rest) = some (l, rest) := by
  induction l generalizing n with
  | nil => exact absurd rfl hne
  | cons v l ih =>
    obtain ⟨n, rfl⟩ : ∃ m, n = m + 1 := ⟨n - 1, by rw [length_cons] at hn; omega⟩
    have hv := hread v mem_cons_self
    unfold parseSeq
    cases l with
    | nil =>
      rw [map_singleton, intercalate_singleton, hv _ (delimited_cons hclose.2 rest)]
      dsimp only
      rw [if_neg hclose.1, if_pos rfl]
    | cons w l =>
      have hrest := ih (fun u hu => hread u (mem_cons_of_mem v hu)) (by simp) (Nat.le_of_succ_le_succ hn)
      rw [map_cons, map_cons, intercalate_cons_cons, ← map_cons, append_assoc, append_assoc, singleton_append,
        hv _ (delimited_cons rfl _)]
      dsimp only
      rw [if_pos rfl, hrest]
      rfl

/-- No element starts with the closing byte, so an empty sequence is told from another. -/
theorem parseBody_render {l : List α} (hclose : close ≠ 44 ∧ isDigit close = false)
    (hread : ∀ v ∈ l, ∀ rest, Delimited rest → element (text v ++ rest) = some (v, rest))
    (hhead : ∀ v ∈ l, ∃ b t, text v = b :: t ∧ b ≠ close) (rest : Bytes) :
    parseBody element close (List.intercalate [44] (l.map text) ++ close :: rest) = some (l, rest) := by
  unfold parseBody
  have hlength : ∀ l : List α, l.length ≤ (List.intercalate [44] (l.map text) ++ close :: rest).length := by
    intro l
    induction l with
    | nil => exact Nat.zero_le _
    | cons v l ih =>
      cases l <;> simp at ih ⊢ <;> omega
  cases l with
  | nil => exact if_pos rfl
  | cons v l =>
    obtain ⟨b, t, hv, hb⟩ := hhead v mem_cons_self
    rw [if_neg, parseSeq_render hclose hread (by simp) (hlength _)]
    cases l <;> simpa [hv] using hb

end Sequence

/-! ### Documents -/

theorem exists_render_eq_cons {d : ℕ} {v : Json} (h : v.Plain d) : ∃ b t, v.render = b :: t ∧ b ≠ 93 := by
  cases v with
  | num n =>
    cases hn : decimal n with
    | nil => exact absurd hn (decimal_ne_nil n)
    | cons b t =>
      refine ⟨b, t, hn, ?_⟩
      rintro rfl
      exact absurd (isDigit_of_mem_decimal (hn ▸ mem_cons_self)) (by decide)
  | arr items => exact ⟨91, _, by rw [render], by decide⟩
  | obj fields => exact ⟨123, _, by rw [render], by decide⟩
  | _ => cases d <;> exact h.elim

theorem quote_of_plain {name : Bytes} (h : PlainName name) : quote name = 34 :: (name ++ [34]) := by
  have hsame : name.flatMap escape = name := by
    rw [flatMap_congr h, flatMap_singleton']
  rw [quote, hsame]

theorem parseField_render {value : Bytes → Option (Json × Bytes)} {f : Bytes × Json} (hname : PlainName f.1)
    {rest : Bytes} (hread : value (f.2.render ++ rest) = some (f.2, rest)) :
    parseField value ((quote f.1 ++ 58 :: f.2.render) ++ rest) = some (f, rest) := by
  have hne : ∀ b ∈ f.1, decide (b ≠ 34) = true := by
    intro b hb
    refine decide_eq_true ?_
    rintro rfl
    exact absurd (hname 34 hb) (by decide)
  rw [quote_of_plain hname]
  unfold parseField
  simp only [cons_append, append_assoc, tail_cons, nil_append, takeWhile_append_of_pos hne,
    dropWhile_append_of_pos hne]
  simp [hread]

theorem parseValue_num (d n : ℕ) {rest : Bytes} (hrest : Delimited rest) :
    parseValue (d + 1) ((Json.num n).render ++ rest) = some (.num n, rest) := by
  have hdigits : ∀ b ∈ decimal n, isDigit b = true := fun b => isDigit_of_mem_decimal
  have hempty : rest.takeWhile isDigit = [] ∧ rest.dropWhile isDigit = rest := by
    cases rest with
    | nil => exact ⟨rfl, rfl⟩
    | cons b rest => simp [hrest b rfl]
  have hhead : ∀ b, isDigit b = false → (decimal n ++ rest).head? ≠ some b := by
    intro b hb
    cases hn : decimal n with
    | nil => exact absurd hn (decimal_ne_nil n)
    | cons c t =>
      rintro ⟨⟩
      exact nomatch hb.symm.trans (hdigits b (hn ▸ mem_cons_self))
  rw [render]
  unfold parseValue
  rw [if_neg (hhead 91 rfl), if_neg (hhead 123 rfl), takeWhile_append_of_pos hdigits,
    dropWhile_append_of_pos hdigits, hempty.1, hempty.2, append_nil, ofDecimal_decimal]

/-- **A plain document is read back from its text.** -/
theorem parseValue_render {d : ℕ} {v : Json} (h : v.Plain d) {rest : Bytes} (hrest : Delimited rest) :
    parseValue (d + 1) (v.render ++ rest) = some (v, rest) := by
  induction d generalizing v rest with
  | zero =>
    cases v with
    | num n => exact parseValue_num 0 n hrest
    | _ => exact h.elim
  | succ d ih =>
    cases v with
    | num n => exact parseValue_num (d + 1) n hrest
    | arr items =>
      have hbody : parseBody (parseValue (d + 1)) 93 (intercalate [44] (items.map render) ++ 93 :: rest)
          = some (items, rest) :=
        parseBody_render ⟨by decide, rfl⟩ (fun v hv _ => ih (h v hv))
          (fun v hv => exists_render_eq_cons (h v hv)) rest
      rw [render, renderItems_eq_map, cons_append, append_assoc, singleton_append]
      unfold parseValue
      rw [head?_cons, if_pos rfl, tail_cons, hbody]
      rfl
    | obj fields =>
      have hbody : parseBody (parseField (parseValue (d + 1))) 125 (intercalate [44]
          (fields.map fun f => quote f.1 ++ 58 :: f.2.render) ++ 125 :: rest) = some (fields, rest) :=
        parseBody_render ⟨by decide, rfl⟩
          (fun f hf _ hr => parseField_render (h.2 f hf).1 (ih (h.2 f hf).2 hr))
          (fun f _ => ⟨34, _, rfl, by decide⟩) rest
      rw [render, renderFields_eq_map, cons_append, append_assoc, singleton_append]
      unfold parseValue
      rw [head?_cons, if_neg (by decide), if_pos rfl, tail_cons, hbody]
      rfl
    | _ => exact h.elim

/-- The contract of a parser can be met. -/
theorem readsBack_parse : ReadsBack parse := by
  intro v hv
  have hread := parseValue_render hv fun b (hb : [].head? = some b) => nomatch hb
  rw [append_nil] at hread
  unfold parse
  rw [hread]

end Json

end Framework
