import FilterLang.Decimal
import Mathlib.Algebra.Order.Field.Power
import Mathlib.Data.Rat.Cast.Order
import Mathlib.Tactic.GCongr
import Mathlib.Tactic.Linarith
import Mathlib.Tactic.NormNum
import Mathlib.Tactic.Positivity
import Mathlib.Tactic.Ring

/-! Which decimals are rounded to a number: `Decimal.isFinite_toBinary_iff`. The greatest number of
a format has an odd significand, so what lies half a unit above it goes up to the even one, which is
too large. From that bound on everything is rounded to infinity, and nothing below it. -/

namespace FilterLang

namespace Binary

theorem divToEven_le {n d m : ℕ} (hd : 0 < d) (h : n < m * d) : divToEven n d ≤ m := by
  have hq : n / d < m := (Nat.div_lt_iff_lt_mul hd).mpr h
  simp only [divToEven]
  split_ifs <;> omega

/-- A quotient half way below an even number is rounded up to it. -/
theorem divToEven_lt_iff {n d m : ℕ} (hd : 0 < d) (hm : Even m) :
    divToEven n d < m ↔ 2 * n < (2 * m - 1) * d := by
  have hrest : n % d < d := Nat.mod_lt n hd
  have hsplit : 2 * n = 2 * (n / d) * d + 2 * (n % d) := by
    have := Nat.div_add_mod n d
    nlinarith
  simp only [divToEven]
  rcases Nat.lt_trichotomy (n / d + 1) m with hlt | heq | hgt
  · have hmul : (2 * (n / d) + 2) * d ≤ (2 * m - 1) * d := Nat.mul_le_mul_right d (by omega)
    rw [Nat.add_mul] at hmul
    refine iff_of_true ?_ (by omega)
    split_ifs <;> omega
  · have hmul : (2 * m - 1) * d = 2 * (n / d) * d + d := by
      have hm' : 2 * m - 1 = 2 * (n / d) + 1 := by omega
      rw [hm', Nat.add_mul, Nat.one_mul]
    have hodd : n / d % 2 = 1 := by
      obtain ⟨k, hk⟩ := hm
      omega
    rw [hsplit, hmul]
    split_ifs <;> omega
  · have hmul : (2 * m - 1) * d ≤ 2 * (n / d) * d := Nat.mul_le_mul_right d (by omega)
    refine iff_of_false ?_ (by omega)
    split_ifs <;> omega

theorem inUnits_div (num den : ℕ) (e : ℤ) :
    ((inUnits num den e).1 : ℚ) / (inUnits num den e).2 = num / den / 2 ^ e := by
  obtain ⟨k, rfl | rfl⟩ := e.eq_nat_or_neg
  · simp [inUnits, div_div]
  · simp [inUnits, zpow_neg, div_mul_eq_mul_div]

section

variable {num den : ℕ}

theorem inUnits_snd_pos (hden : den ≠ 0) (e : ℤ) : 0 < (inUnits num den e).2 :=
  Nat.mul_pos (Nat.pos_of_ne_zero hden) (Nat.two_pow_pos _)

theorem inUnits_lt_iff (hden : den ≠ 0) (e : ℤ) (p : ℕ) :
    (inUnits num den e).1 < 2 ^ p * (inUnits num den e).2 ↔ (num / den : ℚ) < 2 ^ (p + e) := by
  have hpos : (0 : ℚ) < (inUnits num den e).2 := by exact_mod_cast inUnits_snd_pos hden e
  rw [zpow_add₀ two_ne_zero, ← div_lt_iff₀ (by positivity), ← inUnits_div, div_lt_iff₀ hpos]
  norm_cast

theorem zpow_log2_le {n : ℕ} (hn : n ≠ 0) : (2 : ℚ) ^ (n.log2 : ℤ) ≤ n := by
  exact_mod_cast Nat.log2_self_le hn

theorem lt_zpow_log2 (n : ℕ) : (n : ℚ) < 2 ^ (n.log2 + 1 : ℤ) := by
  exact_mod_cast Nat.lt_log2_self

theorem quotient_lt_zpow (hden : den ≠ 0) :
    (num / den : ℚ) < 2 ^ (num.log2 - den.log2 + 1 : ℤ) := by
  have hden' : (0 : ℚ) < den := by exact_mod_cast Nat.pos_of_ne_zero hden
  rw [div_lt_iff₀ hden']
  calc (num : ℚ) < 2 ^ (num.log2 + 1 : ℤ) := lt_zpow_log2 num
    _ = 2 ^ (num.log2 - den.log2 + 1 : ℤ) * 2 ^ (den.log2 : ℤ) := by
      rw [← zpow_add₀ two_ne_zero]
      congr 1
      omega
    _ ≤ 2 ^ (num.log2 - den.log2 + 1 : ℤ) * den := by
      gcongr
      exact zpow_log2_le hden

theorem zpow_le_quotient (hnum : num ≠ 0) (hden : den ≠ 0) :
    (2 : ℚ) ^ (num.log2 - den.log2 - 1 : ℤ) ≤ num / den := by
  have hden' : (0 : ℚ) < den := by exact_mod_cast Nat.pos_of_ne_zero hden
  rw [le_div_iff₀ hden']
  calc (2 : ℚ) ^ (num.log2 - den.log2 - 1 : ℤ) * den
      ≤ 2 ^ (num.log2 - den.log2 - 1 : ℤ) * 2 ^ (den.log2 + 1 : ℤ) := by
        gcongr
        exact (lt_zpow_log2 den).le
    _ = 2 ^ (num.log2 : ℤ) := by
      rw [← zpow_add₀ two_ne_zero]
      congr 1
      omega
    _ ≤ num := zpow_log2_le hnum

/-- In units of the exponent that is chosen a quotient has no more bits than the format, and above
the least exponent just as many. -/
theorem Format.exponentOf_spec (f : Format) (hnum : num ≠ 0) (hden : den ≠ 0) :
    (num / den : ℚ) < 2 ^ (f.precision + f.exponentOf num den) ∧
      (f.least < f.exponentOf num den →
        (2 : ℚ) ^ (f.precision + f.exponentOf num den - 1) ≤ num / den) := by
  set guess : ℤ := num.log2 - den.log2 - f.precision with hguess
  set exact : ℤ := if (num / den : ℚ) < 2 ^ (f.precision + guess) then guess else guess + 1
  have hmax : f.exponentOf num den = max f.least exact := by
    rw [Format.exponentOf]
    simp only [← hguess, exact, ← inUnits_lt_iff hden, mul_comm]
    rfl
  have hexact : (num / den : ℚ) < 2 ^ (f.precision + exact) ∧
      (2 : ℚ) ^ (f.precision + exact - 1) ≤ num / den := by
    have hsum : (f.precision + guess : ℤ) = num.log2 - den.log2 := by omega
    simp only [exact]
    split_ifs with hfits
    · exact ⟨hfits, hsum ▸ zpow_le_quotient hnum hden⟩
    · rw [← add_assoc, add_sub_cancel_right]
      exact ⟨hsum ▸ quotient_lt_zpow hden, not_lt.mp hfits⟩
  rw [hmax]
  refine ⟨hexact.1.trans_le (zpow_le_zpow_right₀ one_le_two (by omega)), fun hlt => ?_⟩
  rw [max_eq_right (by omega)]
  exact hexact.2

end

namespace Format

/-- Half a unit above the greatest number of the format. -/
def bound (f : Format) : ℚ := (2 ^ f.precision - 1 / 2) * 2 ^ f.greatest

/-- Significands have a bit, and exponents a range that does not end below zero. -/
structure Proper (f : Format) : Prop where
  precision_pos : 0 < f.precision
  least_le : f.least ≤ f.greatest
  greatest_nonneg : 0 ≤ f.greatest

theorem proper_double : double.Proper := ⟨by decide, by decide, by decide⟩

theorem bound_double : double.bound = 2 ^ 1024 - 2 ^ 970 := by
  have hunit : (2 : ℚ) ^ (971 : ℤ) = 2 ^ 970 * 2 := by
    rw [← pow_succ]
    exact zpow_natCast 2 971
  have htop : (2 : ℚ) ^ 1024 = 2 ^ 53 * (2 ^ 970 * 2) := by rw [← pow_succ, ← pow_add]
  rw [bound, double, hunit, htop]
  generalize (2 : ℚ) ^ 970 = half
  ring

variable (f : Format) {e : ℤ}

theorem zpow_le_bound (he : e < f.greatest) : (2 : ℚ) ^ (f.precision + e) ≤ f.bound := by
  have hp : (1 : ℚ) ≤ 2 ^ f.precision := one_le_pow₀ one_le_two
  calc (2 : ℚ) ^ (f.precision + e) ≤ 2 ^ (f.precision + f.greatest - 1) :=
        zpow_le_zpow_right₀ one_le_two (by omega)
    _ = 2 ^ f.precision / 2 * 2 ^ f.greatest := by
        rw [zpow_sub_one₀ two_ne_zero, zpow_add₀ two_ne_zero, zpow_natCast]
        ring
    _ ≤ f.bound := by
        unfold bound
        gcongr
        linarith

theorem bound_lt_zpow (he : f.greatest ≤ e) : f.bound < (2 : ℚ) ^ (f.precision + e) := by
  calc f.bound < 2 ^ f.precision * 2 ^ f.greatest := by
        unfold bound
        gcongr
        linarith
    _ = 2 ^ (f.precision + f.greatest) := by rw [zpow_add₀ two_ne_zero, zpow_natCast]
    _ ≤ 2 ^ (f.precision + e) := zpow_le_zpow_right₀ one_le_two (by omega)

theorem bound_pos : 0 < f.bound := by
  have hpos : (0 : ℚ) < 2 ^ (f.precision + (f.greatest - 1)) := by positivity
  exact hpos.trans_le (f.zpow_le_bound (by omega))

end Format

variable {f : Format} {num den : ℕ}

/-- At the greatest exponent the significand stays in the format just below the bound. -/
theorem divToEven_inUnits_lt_iff (hf : f.Proper) (hden : den ≠ 0) :
    divToEven (inUnits num den f.greatest).1 (inUnits num den f.greatest).2 < 2 ^ f.precision ↔
      (num / den : ℚ) < f.bound := by
  have hpos : 0 < (inUnits num den f.greatest).2 := inUnits_snd_pos hden f.greatest
  have hpos' : (0 : ℚ) < (inUnits num den f.greatest).2 := by exact_mod_cast hpos
  have heven : Even (2 ^ f.precision) := even_two.pow_of_ne_zero hf.precision_pos.ne'
  have hone : 1 ≤ 2 * 2 ^ f.precision := by
    have := Nat.two_pow_pos f.precision
    omega
  rw [divToEven_lt_iff hpos heven, Format.bound, ← div_lt_iff₀ (by positivity), ← inUnits_div,
    div_lt_iff₀ hpos', ← Nat.cast_lt (α := ℚ)]
  push_cast [hone]
  constructor <;> intro h <;> linarith

/-- A significand that is rounded up to one bit more counts for the next exponent. -/
theorem isFinite_ofQuotient_iff_exponent (negative : Bool) {e : ℤ} (hnum : num ≠ 0)
    (he : f.exponentOf num den = e) :
    (ofQuotient f negative num den).isFinite = true ↔
      (if divToEven (inUnits num den e).1 (inUnits num den e).2 = 2 ^ f.precision then e + 1
        else e) ≤ f.greatest := by
  rw [ofQuotient, if_neg hnum]
  simp only [Nat.pow_eq, he]
  split_ifs <;> simp_all [isFinite]

theorem isFinite_ofQuotient_iff (hf : f.Proper) (negative : Bool) (hden : den ≠ 0) :
    (ofQuotient f negative num den).isFinite = true ↔ (num / den : ℚ) < f.bound := by
  rcases eq_or_ne num 0 with rfl | hnum
  · exact iff_of_true rfl (by simpa using f.bound_pos)
  obtain ⟨hhigh, hlow⟩ := f.exponentOf_spec hnum hden
  generalize he : f.exponentOf num den = e at hhigh hlow
  rw [isFinite_ofQuotient_iff_exponent negative hnum he]
  have hle := divToEven_le (inUnits_snd_pos hden e) ((inUnits_lt_iff hden e f.precision).mpr hhigh)
  rcases lt_trichotomy e f.greatest with hlt | rfl | hgt
  · refine iff_of_true ?_ (hhigh.trans_le (f.zpow_le_bound hlt))
    split_ifs <;> omega
  · rw [← divToEven_inUnits_lt_iff hf hden]
    split_ifs <;> omega
  · have hleast := hlow (hf.least_le.trans_lt hgt)
    have hbound := f.bound_lt_zpow (Int.le_sub_one_of_lt hgt)
    rw [← add_sub_assoc] at hbound
    refine iff_of_false ?_ (hbound.trans_le hleast).not_gt
    split_ifs <;> omega

end Binary

namespace Decimal

open Binary

/-- The number that a decimal stands for. -/
def value (d : Decimal) : ℚ := (if d.negative then -1 else 1) * (d.significand * 10 ^ d.exponent)

theorem abs_value (d : Decimal) : |d.value| = d.significand * 10 ^ d.exponent := by
  have hsign : |(if d.negative then -1 else 1 : ℚ)| = 1 := by split_ifs <;> simp
  rw [value, abs_mul, hsign, one_mul, abs_of_nonneg (by positivity)]

theorem abs_value_eq_quotient (d : Decimal) :
    |d.value| = ((d.significand * Nat.pow 10 d.exponent.toNat : ℕ) : ℚ) /
      (Nat.pow 10 (-d.exponent).toNat : ℕ) := by
  rw [abs_value]
  obtain ⟨k, hk | hk⟩ := d.exponent.eq_nat_or_neg
  · simp [hk]
  · simp [hk, zpow_neg, div_eq_mul_inv]

variable {f : Format} {d : Decimal}

theorem bound_le_of_exponent (hf : f.Proper) (hd : d.significand ≠ 0)
    (h : f.greatest + f.precision < d.exponent) : f.bound ≤ |d.value| := by
  have hone : (1 : ℚ) ≤ d.significand := by exact_mod_cast Nat.one_le_iff_ne_zero.mpr hd
  have hnonneg := hf.greatest_nonneg
  obtain ⟨k, hk⟩ := Int.eq_ofNat_of_zero_le (a := d.exponent) (by omega)
  calc f.bound ≤ 2 ^ (f.precision + f.greatest) := (f.bound_lt_zpow le_rfl).le
    _ ≤ 2 ^ d.exponent := zpow_le_zpow_right₀ one_le_two (by omega)
    _ ≤ 10 ^ d.exponent := by
        rw [hk, zpow_natCast, zpow_natCast]
        gcongr
        norm_num
    _ ≤ d.significand * 10 ^ d.exponent := le_mul_of_one_le_left (by positivity) hone
    _ = |d.value| := (abs_value d).symm

theorem lt_bound_of_exponent (hf : f.Proper) (he : d.exponent < 0)
    (h : d.significand.log2 + 1 + 3 * d.exponent < f.least - 1) : |d.value| < f.bound := by
  have hleast := hf.least_le
  have hten : (10 : ℚ) ^ d.exponent ≤ 2 ^ (3 * d.exponent) := by
    obtain ⟨k, hk⟩ := Int.eq_ofNat_of_zero_le (a := -d.exponent) (by omega)
    rw [zpow_mul, ← inv_le_inv₀ (by positivity) (by positivity), ← zpow_neg, ← zpow_neg, hk,
      zpow_natCast, zpow_natCast]
    gcongr
    norm_num
  calc |d.value| = d.significand * 10 ^ d.exponent := abs_value d
    _ < 2 ^ (d.significand.log2 + 1 : ℤ) * 10 ^ d.exponent := by
        gcongr
        exact lt_zpow_log2 _
    _ ≤ 2 ^ (d.significand.log2 + 1 : ℤ) * 2 ^ (3 * d.exponent) := by gcongr
    _ = 2 ^ (d.significand.log2 + 1 + 3 * d.exponent) := by rw [← zpow_add₀ two_ne_zero]
    _ ≤ 2 ^ (f.precision + (f.greatest - 1)) := zpow_le_zpow_right₀ one_le_two (by omega)
    _ ≤ f.bound := f.zpow_le_bound (by omega)

/-- The powers of ten that are not computed are on the side of the bound that they are taken for. -/
theorem isFinite_toBinary_iff (hf : f.Proper) (d : Decimal) :
    (d.toBinary f).isFinite = true ↔ |d.value| < f.bound := by
  unfold toBinary
  split_ifs with hzero hhigh hlow
  · exact iff_of_true rfl (by simpa [abs_value, hzero] using f.bound_pos)
  · exact iff_of_false (by simp [isFinite]) (bound_le_of_exponent hf hzero hhigh).not_gt
  · exact iff_of_true rfl (lt_bound_of_exponent hf hlow.1 hlow.2)
  · have hden : Nat.pow 10 (-d.exponent).toNat ≠ 0 := by simp
    rw [isFinite_ofQuotient_iff hf _ hden, abs_value_eq_quotient]

end Decimal

end FilterLang
