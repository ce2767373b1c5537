import FilterLang.Proofs.Lexing
import FilterLang.Proofs.Rounding
import Mathlib.Data.Nat.Digits.Defs
import Mathlib.Tactic.FieldSimp

/-! Which words are numbers: `isNumber_iff`. A numeral of the grammar denotes an exact number, and
just the numerals whose number is not too large for the format have a value. The reader takes more
texts than the grammar, but not among the words that start like a number. -/

namespace FilterLang

namespace Decimal

/-- One or more digits. -/
def IsDigits (w : List Char) : Prop := w ≠ [] ∧ ∀ c ∈ w, c.isDigit = true

instance : DecidablePred IsDigits := fun w => inferInstanceAs (Decidable (w ≠ [] ∧ _))

/-- The whole number that digits write; the last of them counts ones. -/
def digitsNumber (w : List Char) : ℕ :=
  Nat.ofDigits 10 (w.reverse.map fun c => c.toNat - '0'.toNat)

/-- Digits, and perhaps a point and more digits behind them. -/
inductive Magnitude : List Char → ℚ → Prop
  | whole {w} : IsDigits w → Magnitude w (digitsNumber w)
  | point {w f} : IsDigits w → (∀ c ∈ f, c.isDigit = true) →
      Magnitude (w ++ '.' :: f) (digitsNumber w + digitsNumber f / 10 ^ f.length)

/-- A magnitude, perhaps behind a minus sign, or else a point and digits. -/
inductive Significand : List Char → ℚ → Prop
  | positive {w x} : Magnitude w x → Significand w x
  | negative {w x} : Magnitude w x → Significand ('-' :: w) (-x)
  | fraction {f} : IsDigits f → Significand ('.' :: f) (digitsNumber f / 10 ^ f.length)

/-- Nothing, or a letter and digits, perhaps with a minus sign between. -/
inductive Exponent : List Char → ℤ → Prop
  | absent : Exponent [] 0
  | positive {c w} : c = 'e' ∨ c = 'E' → IsDigits w → Exponent (c :: w) (digitsNumber w)
  | negative {c w} : c = 'e' ∨ c = 'E' → IsDigits w → Exponent (c :: '-' :: w) (-digitsNumber w)

/-- The text is a numeral and denotes this number. -/
inductive Numeral : List Char → ℚ → Prop
  | mk {s e x k} : Significand s x → Exponent e k → Numeral (s ++ e) (x * 10 ^ k)

theorem digitsNumber_append (a b : List Char) :
    digitsNumber (a ++ b) = digitsNumber a * 10 ^ b.length + digitsNumber b := by
  rw [digitsNumber, List.reverse_append, List.map_append, Nat.ofDigits_append]
  simp [digitsNumber]
  ring

theorem digitsValue_eq (w : List Char) : digitsValue w = digitsNumber w := by
  induction w using List.reverseRecOn with
  | nil => rfl
  | append_singleton w c ih =>
    rw [digitsNumber_append, ← ih]
    simp [digitsValue, digitsNumber, mul_comm]

theorem IsDigits.exists_cons {w : List Char} (h : IsDigits w) :
    ∃ c cs, w = c :: cs ∧ c.isDigit = true := by
  obtain ⟨c, cs, rfl⟩ := List.exists_cons_of_ne_nil h.1
  exact ⟨c, cs, rfl, h.2 c (by simp)⟩

theorem forall_mem_takeWhile_isDigit (cs : List Char) :
    ∀ c ∈ cs.takeWhile Char.isDigit, c.isDigit = true :=
  List.all_eq_true.mp List.all_takeWhile

theorem splitSign_minus (cs : List Char) : splitSign ('-' :: cs) = (true, cs) := rfl

theorem splitSign_of_ne {c : Char} (cs : List Char) (hminus : c ≠ '-') (hplus : c ≠ '+') :
    splitSign (c :: cs) = (false, c :: cs) := by
  unfold splitSign
  split
  · next heq => exact absurd (List.cons.inj heq).1 hminus
  · next heq => exact absurd (List.cons.inj heq).1 hplus
  · rfl

theorem splitSign_of_isDigit {c : Char} (cs : List Char) (hc : c.isDigit = true) :
    splitSign (c :: cs) = (false, c :: cs) := by
  refine splitSign_of_ne cs ?_ ?_
  · rintro rfl
    exact absurd hc (by decide)
  · rintro rfl
    exact absurd hc (by decide)

theorem IsDigits.splitSign {w : List Char} (h : IsDigits w) : splitSign w = (false, w) := by
  obtain ⟨c, cs, rfl, hc⟩ := h.exists_cons
  exact splitSign_of_isDigit cs hc

theorem readInteger?_eq (text : List Char) :
    readInteger? text =
      if IsDigits (splitSign text).2 then
        some (if (splitSign text).1 then -(digitsNumber (splitSign text).2 : ℤ)
          else digitsNumber (splitSign text).2)
      else none := by
  have hdigits (w : List Char) : (w.isEmpty || !w.all Char.isDigit) = true ↔ ¬ IsDigits w := by
    simp [IsDigits, imp_iff_not_or]
  simp only [readInteger?, hdigits, digitsValue_eq, ite_not]

theorem Exponent.readExponent?_eq {e : List Char} {k : ℤ} (h : Exponent e k) :
    readExponent? e = some k := by
  cases h with
  | absent => rfl
  | positive hc hw => simp [readExponent?, hc, readInteger?_eq, hw.splitSign, hw]
  | negative hc hw => simp [readExponent?, hc, readInteger?_eq, splitSign_minus, hw]

theorem exponent_of_readExponent? {e : List Char} {k : ℤ} (hplus : '+' ∉ e)
    (h : readExponent? e = some k) : Exponent e k := by
  cases e with
  | nil =>
    obtain rfl : 0 = k := by simpa [readExponent?] using h
    exact .absent
  | cons c w =>
    rw [readExponent?, Option.ite_none_right_eq_some, readInteger?_eq] at h
    obtain ⟨hc, h⟩ := h
    rw [Option.ite_none_right_eq_some, Option.some.injEq] at h
    obtain ⟨hdigits, rfl⟩ := h
    cases w with
    | nil => exact absurd rfl hdigits.1
    | cons d w =>
      by_cases hd : d = '-'
      · subst hd
        exact .negative hc hdigits
      · have hplus : d ≠ '+' := by
          rintro rfl
          simp at hplus
        rw [splitSign_of_ne w hd hplus] at hdigits ⊢
        exact .positive hc hdigits

/-- An exponent does not go on with a significand. -/
theorem Exponent.head?_ne {e : List Char} {k : ℤ} (h : Exponent e k) :
    ∀ c ∈ e.head?, c.isDigit = false ∧ c ≠ '.' := by
  have hletter {c : Char} (hc : c = 'e' ∨ c = 'E') : c.isDigit = false ∧ c ≠ '.' := by
    rcases hc with rfl | rfl <;> decide
  cases h with
  | absent => simp
  | positive hc _ => simpa using hletter hc
  | negative hc _ => simpa using hletter hc

theorem splitFraction_of_head? {cs : List Char} (h : ∀ c ∈ cs.head?, c ≠ '.') :
    splitFraction cs = ([], cs) := by
  unfold splitFraction
  split
  · exact absurd rfl (h '.' (by simp))
  · rfl

theorem readUnsigned?_whole {w e : List Char} {k : ℤ} (hw : IsDigits w) (he : Exponent e k) :
    readUnsigned? (w ++ e) = some ⟨false, digitsNumber w, k⟩ := by
  have hhead := he.head?_ne
  have hdigit : ∀ c ∈ e.head?, c.isDigit = false := fun c hc => (hhead c hc).1
  simp [readUnsigned?, takeWhile_append_of_head hw.2 hdigit, dropWhile_append_of_head hw.2 hdigit,
    splitFraction_of_head? fun c hc => (hhead c hc).2, hw.1, he.readExponent?_eq, digitsValue_eq]

theorem readUnsigned?_point {w f e : List Char} {k : ℤ} (hw : ∀ c ∈ w, c.isDigit = true)
    (hf : ∀ c ∈ f, c.isDigit = true) (hne : w ≠ [] ∨ f ≠ []) (he : Exponent e k) :
    readUnsigned? (w ++ '.' :: f ++ e) =
      some ⟨false, digitsNumber (w ++ f), k - f.length⟩ := by
  have hstop : ∀ c ∈ ('.' :: (f ++ e)).head?, c.isDigit = false := by simp
  have hdigit : ∀ c ∈ e.head?, c.isDigit = false := fun c hc => (he.head?_ne c hc).1
  have hwhole : w ++ '.' :: f ++ e = w ++ '.' :: (f ++ e) := by simp
  have hsome : (w.isEmpty && f.isEmpty) = false := by simpa [Decidable.imp_iff_not_or] using hne
  rw [hwhole, readUnsigned?, takeWhile_append_of_head hw hstop, dropWhile_append_of_head hw hstop]
  simp [splitFraction, takeWhile_append_of_head hf hdigit, dropWhile_append_of_head hf hdigit,
    hsome, he.readExponent?_eq, digitsValue_eq]

/-- What is read is digits, perhaps with a point among or around them, and an exponent. -/
theorem cases_of_readUnsigned? {text : List Char} {d : Decimal} (hplus : '+' ∉ text)
    (h : readUnsigned? text = some d) :
    (∃ w e k, text = w ++ e ∧ IsDigits w ∧ Exponent e k ∧ d = ⟨false, digitsNumber w, k⟩) ∨
      ∃ w f e k, text = w ++ '.' :: f ++ e ∧ (∀ c ∈ w, c.isDigit = true) ∧
        (∀ c ∈ f, c.isDigit = true) ∧ (w ≠ [] ∨ f ≠ []) ∧ Exponent e k ∧
        d = ⟨false, digitsNumber (w ++ f), k - f.length⟩ := by
  have hw := forall_mem_takeWhile_isDigit text
  have htext : text = text.takeWhile Char.isDigit ++ text.dropWhile Char.isDigit :=
    List.takeWhile_append_dropWhile.symm
  simp only [readUnsigned?] at h
  generalize text.takeWhile Char.isDigit = w at h hw htext
  generalize text.dropWhile Char.isDigit = rest at h htext
  subst htext
  by_cases hpoint : ∀ c ∈ rest.head?, c ≠ '.'
  · simp only [splitFraction_of_head? hpoint, Option.ite_none_left_eq_some,
      Option.map_eq_some_iff] at h
    obtain ⟨hne, k, hk, rfl⟩ := h
    refine .inl ⟨w, rest, k, rfl, ⟨by simpa using hne, hw⟩, ?_, ?_⟩
    · exact exponent_of_readExponent? (fun hmem => hplus (by simp [hmem])) hk
    · simp [digitsValue_eq]
  · obtain ⟨r, rfl⟩ : ∃ r, rest = '.' :: r := by
      cases rest with
      | nil => simp at hpoint
      | cons c r => exact ⟨r, by simpa using hpoint⟩
    have hf := forall_mem_takeWhile_isDigit r
    have hr : r = r.takeWhile Char.isDigit ++ r.dropWhile Char.isDigit :=
      List.takeWhile_append_dropWhile.symm
    simp only [splitFraction] at h
    generalize r.takeWhile Char.isDigit = f at h hf hr
    generalize r.dropWhile Char.isDigit = e at h hr
    subst hr
    simp only [Option.ite_none_left_eq_some, Option.map_eq_some_iff] at h
    obtain ⟨hne, k, hk, rfl⟩ := h
    refine .inr ⟨w, f, e, k, by simp, hw, hf, ?_, ?_, ?_⟩
    · simpa [Decidable.imp_iff_not_or] using hne
    · exact exponent_of_readExponent? (fun hmem => hplus (by simp [hmem])) hk
    · simp [digitsValue_eq]

/-- Reads a decimal that may start with a sign. -/
def read? (text : List Char) : Option Decimal :=
  (readUnsigned? (splitSign text).2).map fun d => { d with negative := (splitSign text).1 }

/-- A point between the digits takes a power of ten from the exponent. -/
theorem value_point (negative : Bool) (w f : List Char) (k : ℤ) :
    value ⟨negative, digitsNumber (w ++ f), k - f.length⟩ =
      (if negative then -1 else 1) *
        ((digitsNumber w + digitsNumber f / 10 ^ f.length) * 10 ^ k) := by
  rw [value, digitsNumber_append, zpow_sub₀ (by norm_num), zpow_natCast]
  push_cast
  field_simp

theorem Magnitude.exists_cons {m : List Char} {x : ℚ} (h : Magnitude m x) :
    ∃ c cs, m = c :: cs ∧ c.isDigit = true := by
  cases h with
  | whole hw => exact hw.exists_cons
  | point hw _ =>
    obtain ⟨c, cs, rfl, hc⟩ := hw.exists_cons
    exact ⟨c, _, rfl, hc⟩

theorem Magnitude.exists_readUnsigned? {m e : List Char} {x : ℚ} {k : ℤ} (h : Magnitude m x)
    (he : Exponent e k) :
    ∃ d, readUnsigned? (m ++ e) = some d ∧ ∀ negative,
      value { d with negative } = (if negative then -1 else 1) * (x * 10 ^ k) := by
  cases h with
  | whole hw => exact ⟨_, readUnsigned?_whole hw he, fun _ => rfl⟩
  | point hw hf =>
    exact ⟨_, readUnsigned?_point hw.2 hf (.inl hw.1) he, fun _ => value_point _ _ _ _⟩

theorem exists_magnitude {c : Char} {cs : List Char} {d : Decimal} (hc : c.isDigit = true)
    (hplus : '+' ∉ c :: cs) (h : readUnsigned? (c :: cs) = some d) :
    ∃ m e x k, c :: cs = m ++ e ∧ Magnitude m x ∧ Exponent e k ∧ ∀ negative,
      value { d with negative } = (if negative then -1 else 1) * (x * 10 ^ k) := by
  rcases cases_of_readUnsigned? hplus h with
    ⟨w, e, k, htext, hw, he, rfl⟩ | ⟨w, f, e, k, htext, hw, hf, -, he, rfl⟩
  · exact ⟨w, e, _, k, htext, .whole hw, he, fun _ => rfl⟩
  · have hne : w ≠ [] := by
      rintro rfl
      obtain ⟨rfl, -⟩ := List.cons.inj htext
      exact absurd hc (by decide)
    exact ⟨_, e, _, k, htext, .point ⟨hne, hw⟩ hf, he, fun _ => value_point _ _ _ _⟩

theorem exists_fraction {cs : List Char} {d : Decimal} (hplus : '+' ∉ '.' :: cs)
    (h : readUnsigned? ('.' :: cs) = some d) :
    ∃ f e k, '.' :: cs = '.' :: f ++ e ∧ IsDigits f ∧ Exponent e k ∧
      d = ⟨false, digitsNumber ([] ++ f), k - f.length⟩ := by
  have hpoint : ¬ '.'.isDigit = true := by decide
  rcases cases_of_readUnsigned? hplus h with
    ⟨w, e, k, htext, hw, -, -⟩ | ⟨w, f, e, k, htext, hw, hf, hne, he, rfl⟩
  · obtain ⟨c, w, rfl, hc⟩ := hw.exists_cons
    obtain ⟨rfl, -⟩ := List.cons.inj htext
    exact absurd hc hpoint
  · cases w with
    | nil => exact ⟨f, e, k, htext, ⟨hne.resolve_left (by simp), hf⟩, he, rfl⟩
    | cons c w =>
      obtain ⟨rfl, -⟩ := List.cons.inj htext
      exact absurd (hw '.' (by simp)) hpoint

theorem startsNumeric_iff {text : List Char} :
    startsNumeric text = true ↔ ∃ c cs, c.isDigit = true ∧
      (text = c :: cs ∨ text = '-' :: c :: cs ∨ text = '.' :: c :: cs) := by
  constructor
  · intro h
    unfold startsNumeric at h
    split at h
    · next c cs => exact ⟨c, cs, h, by simp⟩
    · next c cs => exact ⟨c, cs, h, by simp⟩
    · next c cs _ _ => exact ⟨c, cs, h, by simp⟩
    · cases h
  · rintro ⟨c, cs, hc, rfl | rfl | rfl⟩
    · unfold startsNumeric
      split
      · next heq =>
        obtain ⟨rfl, -⟩ := List.cons.inj heq
        exact absurd hc (by decide)
      · next heq =>
        obtain ⟨rfl, -⟩ := List.cons.inj heq
        exact absurd hc (by decide)
      · next heq =>
        obtain ⟨rfl, -⟩ := List.cons.inj heq
        exact hc
      · next heq => cases heq
    · exact hc
    · exact hc

/-- A numeral is read as a decimal that stands for the number it denotes. -/
theorem Numeral.exists_read? {text : List Char} {x : ℚ} (h : Numeral text x) :
    startsNumeric text = true ∧ ∃ d, read? text = some d ∧ d.value = x := by
  obtain @⟨s, e, x, k, hs, he⟩ := h
  cases hs with
  | positive hm =>
    obtain ⟨d, hd, hvalue⟩ := hm.exists_readUnsigned? he
    obtain ⟨c, cs, rfl, hc⟩ := hm.exists_cons
    refine ⟨startsNumeric_iff.mpr ⟨c, cs ++ e, hc, .inl rfl⟩, { d with negative := false }, ?_, ?_⟩
    · rw [List.cons_append] at hd ⊢
      rw [read?, splitSign_of_isDigit _ hc, hd]
      rfl
    · simpa using hvalue false
  | negative hm =>
    obtain ⟨d, hd, hvalue⟩ := hm.exists_readUnsigned? he
    obtain ⟨c, cs, rfl, hc⟩ := hm.exists_cons
    refine ⟨startsNumeric_iff.mpr ⟨c, cs ++ e, hc, .inr (.inl rfl)⟩, { d with negative := true },
      ?_, ?_⟩
    · rw [List.cons_append, read?, splitSign_minus, hd]
      rfl
    · simpa using hvalue true
  | @fraction f hf =>
    obtain ⟨c, cs, rfl, hc⟩ := hf.exists_cons
    have hd := readUnsigned?_point (List.forall_mem_nil _) hf.2 (.inr hf.1) he
    have hvalue := value_point false [] (c :: cs) k
    refine ⟨startsNumeric_iff.mpr ⟨c, cs ++ e, hc, .inr (.inr rfl)⟩, _, ?_, hvalue.trans ?_⟩
    · rw [List.nil_append, List.cons_append] at hd
      rw [List.cons_append, read?, splitSign_of_ne _ (by decide) (by decide), hd]
      rfl
    · simp [digitsNumber]

theorem Numeral.of_read? {text : List Char} {d : Decimal} (hplus : '+' ∉ text)
    (hstart : startsNumeric text = true) (h : read? text = some d) : Numeral text d.value := by
  rw [read?, Option.map_eq_some_iff] at h
  obtain ⟨d, hd, rfl⟩ := h
  obtain ⟨c, cs, hc, rfl | rfl | rfl⟩ := startsNumeric_iff.mp hstart
  · rw [splitSign_of_isDigit cs hc] at hd ⊢
    obtain ⟨m, e, x, k, htext, hm, he, hvalue⟩ := exists_magnitude hc hplus hd
    rw [htext, hvalue]
    simpa using Numeral.mk (.positive hm) he
  · rw [splitSign_minus] at hd ⊢
    obtain ⟨m, e, x, k, htext, hm, he, hvalue⟩ :=
      exists_magnitude hc (fun hmem => hplus (by simp [hmem])) hd
    rw [htext, hvalue]
    simpa using Numeral.mk (.negative hm) he
  · rw [splitSign_of_ne _ (by decide) (by decide)] at hd ⊢
    obtain ⟨f, e, k, htext, hf, he, rfl⟩ := exists_fraction hplus hd
    rw [htext, value_point]
    simpa [digitsNumber] using Numeral.mk (.fraction hf) he

/-- A numeral denotes one number only. -/
theorem Numeral.unique {text : List Char} {x y : ℚ} (hx : Numeral text x) (hy : Numeral text y) :
    x = y := by
  obtain ⟨-, d, hd, rfl⟩ := hx.exists_read?
  obtain ⟨-, d', hd', rfl⟩ := hy.exists_read?
  rw [hd] at hd'
  rw [Option.some.inj hd']

end Decimal

open Decimal

theorem toLower_eq_self {c : Char} (h : c.isDigit = true ∨ c = '.') : c.toLower = c := by
  rcases h with h | rfl
  · have hle : c.val ≤ '9'.val := by
      simp only [Char.isDigit, Bool.and_eq_true, decide_eq_true_eq] at h
      exact h.2
    have hupper : ¬ (c.val ≥ 'A'.val ∧ c.val ≤ 'Z'.val) := fun hc =>
      absurd (UInt32.le_trans hc.1 hle) (by decide)
    exact dif_neg hupper
  · rfl

/-- What starts like a number names neither infinity nor the lack of a number. -/
theorem numberValue?_eq {word : String} (h : startsNumeric word.toList = true) :
    numberValue? word =
      ((Decimal.read? word.toList).map (toBinary .double)).filter Binary.isFinite := by
  have hhead : ∃ c cs, (splitSign word.toList).2 = c :: cs ∧ (c.isDigit = true ∨ c = '.') := by
    obtain ⟨c, cs, hc, htext | htext | htext⟩ := startsNumeric_iff.mp h <;> rw [htext]
    · exact ⟨c, cs, by rw [splitSign_of_isDigit cs hc], .inl hc⟩
    · exact ⟨c, cs, rfl, .inl hc⟩
    · exact ⟨'.', c :: cs, rfl, .inr rfl⟩
  obtain ⟨c, cs, hrest, hc⟩ := hhead
  have hname {d : Char} (name : String) (hfirst : name.toList.head? = some d)
      (hd : ¬ (d.isDigit = true ∨ d = '.')) :
      (splitSign word.toList).2.map Char.toLower ≠ name.toList := by
    intro heq
    rw [← heq, hrest, List.map_cons, toLower_eq_self hc, List.head?_cons] at hfirst
    exact hd (Option.some.inj hfirst ▸ hc)
  have hinf := hname "inf" rfl (by decide)
  have hinfinity := hname "infinity" rfl (by decide)
  have hnan := hname "nan" rfl (by decide)
  rw [numberValue?, if_pos h, Binary.read?]
  simp only
  rw [if_neg (not_or.mpr ⟨hinf, hinfinity⟩), if_neg hnan, Decimal.read?, Option.map_map]
  rfl

theorem isSome_numberValue?_iff_numeral {word : String}
    (h : ∀ c ∈ word.toList, isWordChar c = true) :
    (numberValue? word).isSome = true ↔
      ∃ x, Numeral word.toList x ∧ |x| < 2 ^ 1024 - 2 ^ 970 := by
  have hplus : '+' ∉ word.toList := fun hmem => absurd (h '+' hmem) (by decide)
  have hfinite (d : Decimal) :
      (d.toBinary .double).isFinite = true ↔ |d.value| < 2 ^ 1024 - 2 ^ 970 := by
    rw [isFinite_toBinary_iff Binary.Format.proper_double, Binary.Format.bound_double]
  constructor
  · intro hsome
    by_cases hstart : startsNumeric word.toList = true
    · rw [numberValue?_eq hstart, Option.isSome_filter, Option.any_map, Option.any_eq_true] at hsome
      obtain ⟨d, hd, hd'⟩ := hsome
      exact ⟨d.value, .of_read? hplus hstart hd, (hfinite d).mp hd'⟩
    · rw [numberValue?, if_neg hstart] at hsome
      cases hsome
  · rintro ⟨x, hx, hlt⟩
    obtain ⟨hstart, d, hd, rfl⟩ := hx.exists_read?
    rw [numberValue?_eq hstart, hd, Option.map_some, Option.filter_some,
      if_pos ((hfinite d).mpr hlt)]
    rfl

theorem exists_ofWord_eq_number_iff {word : String} :
    (∃ x, TokenKind.ofWord word = .number word x) ↔ (numberValue? word).isSome = true := by
  unfold TokenKind.ofWord
  cases numberValue? word <;> simp

/-- A word is a number just if it is a numeral, and the one number that this denotes lies below half
a unit above the greatest double. -/
theorem isNumber_iff {word : String} (h : ∀ c ∈ word.toList, isWordChar c = true) :
    (∀ x y, Numeral word.toList x → Numeral word.toList y → x = y) ∧
      ((numberValue? word).isSome = true ↔
        ∃ x, Numeral word.toList x ∧ |x| < 2 ^ 1024 - 2 ^ 970) ∧
      ((∃ b, TokenKind.ofWord word = .number word b) ↔
        ∃ x, Numeral word.toList x ∧ |x| < 2 ^ 1024 - 2 ^ 970) := by
  have hsome := isSome_numberValue?_iff_numeral h
  exact ⟨fun _ _ hx hy => hx.unique hy, hsome, exists_ofWord_eq_number_iff.trans hsome⟩

/-- Both minus signs are part of the numeral. -/
theorem isNumber_iff_negative :
    (∀ c ∈ "-1.5e-2".toList, isWordChar c = true) ∧ Numeral "-1.5e-2".toList (-3 / 200) ∧
      ∃ b, TokenKind.ofWord "-1.5e-2" = .number "-1.5e-2" b := by
  have hword : ∀ c ∈ "-1.5e-2".toList, isWordChar c = true := by simp [isWordChar]
  have hnumeral : Numeral "-1.5e-2".toList (-3 / 200) := by
    have hmagnitude : Magnitude (['1'] ++ '.' :: ['5']) (1 + 5 / 10 ^ 1) :=
      .point ⟨by simp, by simp⟩ (by simp)
    have hexponent : Exponent ['e', '-', '2'] (-2) := .negative (.inl rfl) ⟨by simp, by simp⟩
    have hx : (-3 / 200 : ℚ) = -(1 + 5 / 10 ^ 1) * 10 ^ (-2 : ℤ) := by norm_num
    rw [hx]
    exact .mk (.negative hmagnitude) hexponent
  have hbound : |(-3 / 200 : ℚ)| < 2 ^ 1024 - 2 ^ 970 := by
    rw [← Binary.Format.bound_double]
    refine lt_of_lt_of_le ?_ (Binary.Format.double.zpow_le_bound (e := -53) (by decide))
    norm_num [Binary.Format.double, abs_div]
  exact ⟨hword, hnumeral, (isNumber_iff hword).2.2.mpr ⟨_, hnumeral, hbound⟩⟩

example :
    ["-.5", "inf", "nan", "1e400", "1e", "2024-01-31"].map numberValue? =
      List.replicate 6 none := by
  decide +kernel

end FilterLang
