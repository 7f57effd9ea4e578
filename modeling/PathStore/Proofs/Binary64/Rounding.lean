import Mathlib.Algebra.Order.Field.Power
import Mathlib.Algebra.Order.Ring.Rat
import Mathlib.Tactic.FieldSimp
import Mathlib.Tactic.Linarith
import Mathlib.Tactic.NormNum
import Mathlib.Tactic.Positivity
import Mathlib.Tactic.Ring
import PathStore.Binary64.Basic

/-!
# How far rounding is off

A rounded number is off by at most half a unit of its last place, and it is finite below the point
half a unit beyond the greatest number.  Only upper bounds are shown, and nothing is said about
which of two neighbours is taken.
-/

namespace PathStore.Binary64

def value (x : Binary64) : ℚ :=
  x.significand * 2 ^ x.exponent

/-- Where rounding to the greatest number ends: half a unit beyond it. -/
def overflowBound : ℕ :=
  (2 ^ 54 - 1) * 2 ^ 970

theorem two_zpow_pos (power : ℤ) : (0 : ℚ) < 2 ^ power :=
  zpow_pos (by norm_num) power

theorem magnitude_ofMagnitude (negative : Bool) {m : ℕ} (h : m < 2 ^ 63) :
    (ofMagnitude negative m).magnitude = m := by
  rw [magnitude, ofMagnitude, UInt64.toNat_ofNat', signBit, Nat.pow_eq]
  cases negative <;> simp <;> omega

/-- A significand beside its exponent bits is read as such, also when it carries into them. -/
theorem value_ofMagnitude (negative : Bool) {k q : ℕ} (hlow : k = 0 ∨ 2 ^ 52 ≤ q)
    (hhigh : q ≤ 2 ^ 53) (hbits : k * 2 ^ 52 + q < 2 ^ 63) :
    (ofMagnitude negative (k * 2 ^ 52 + q)).value = q * 2 ^ ((k : ℤ) - 1074) := by
  have hmagnitude := magnitude_ofMagnitude negative hbits
  rw [value, significand, exponent, exponentField, fraction, hmagnitude, Nat.pow_eq]
  rcases Nat.lt_or_ge q (2 ^ 52) with hsmall | hlarge
  · obtain rfl : k = 0 := hlow.resolve_right (Nat.not_le.mpr hsmall)
    have hfield : (0 * 2 ^ 52 + q) / 2 ^ 52 = 0 := by omega
    have hfraction : (0 * 2 ^ 52 + q) % 2 ^ 52 = q := by omega
    rw [hfield, hfraction, if_pos rfl, if_pos rfl]
    norm_num
  · rcases Nat.lt_or_eq_of_le hhigh with hless | rfl
    · have hfield : (k * 2 ^ 52 + q) / 2 ^ 52 = k + 1 := by omega
      have hfraction : (k * 2 ^ 52 + q) % 2 ^ 52 = q - 2 ^ 52 := by omega
      have hexponent : ((k + 1 : ℕ) : ℤ) - 1075 = (k : ℤ) - 1074 := by push_cast; ring
      rw [hfield, hfraction, if_neg (Nat.succ_ne_zero k), if_neg (Nat.succ_ne_zero k), hexponent,
        Nat.add_sub_cancel' hlarge]
    · have hfield : (k * 2 ^ 52 + 2 ^ 53) / 2 ^ 52 = k + 2 := by omega
      have hfraction : (k * 2 ^ 52 + 2 ^ 53) % 2 ^ 52 = 0 := by omega
      have hexponent : ((k + 2 : ℕ) : ℤ) - 1075 = (k : ℤ) - 1074 + 1 := by push_cast; ring
      rw [hfield, hfraction, if_neg (by omega), if_neg (by omega), hexponent,
        zpow_add_one₀ (by norm_num)]
      push_cast
      ring

/-- Numerator and denominator share a power: one of them gets it. -/
theorem two_zpow_eq_div (power : ℤ) :
    (2 : ℚ) ^ power = 2 ^ power.toNat / 2 ^ (-power).toNat := by
  rw [← zpow_natCast, ← zpow_natCast, ← zpow_sub₀ (by norm_num)]
  congr 1
  omega

theorem shifted_snd_pos (num : ℕ) {den : ℕ} (hden : 0 < den) (power : ℤ) :
    0 < (shifted num den power).2 :=
  Nat.mul_pos hden (Nat.pow_pos (by decide))

/-- Shifting loses nothing: the quotient is exactly the number times the power of two. -/
theorem cast_shifted (num den : ℕ) (power : ℤ) :
    ((shifted num den power).1 : ℚ) / (shifted num den power).2 = num / den * 2 ^ power := by
  rw [two_zpow_eq_div, shifted]
  simp only [Nat.pow_eq]
  push_cast
  exact mul_div_mul_comm ..

/-- The nearest integer is off by half a unit at most. -/
theorem nearestInteger_le (num : ℕ) {den : ℕ} (hden : 0 < den) :
    (nearestInteger num den : ℚ) ≤ num / den + 1 / 2 := by
  have hsplit := Nat.div_add_mod num den
  have hbound : 2 * den * nearestInteger num den ≤ 2 * num + den := by
    rw [nearestInteger]
    split
    · rename_i hup
      have htwice : den ≤ 2 * (num % den) := by
        simp only [Bool.or_eq_true, Bool.and_eq_true, decide_eq_true_eq] at hup
        omega
      calc
        2 * den * (num / den + 1) = 2 * (den * (num / den)) + den + den := by ring
        _ ≤ 2 * (den * (num / den)) + 2 * (num % den) + den := by omega
        _ = 2 * num + den := by omega
    · calc
        2 * den * (num / den) = 2 * (den * (num / den)) := by ring
        _ ≤ 2 * num + den := by omega
  have hpos : (0 : ℚ) < den := Nat.cast_pos.mpr hden
  have hcast : 2 * (den : ℚ) * nearestInteger num den ≤ 2 * num + den := by exact_mod_cast hbound
  rw [div_add_div _ _ hpos.ne' two_ne_zero, le_div_iff₀ (by positivity)]
  linarith

theorem div_le_nearestInteger (num den : ℕ) : num / den ≤ nearestInteger num den := by
  rw [nearestInteger]
  split
  · exact Nat.le_succ _
  · exact Nat.le_refl _

theorem two_zpow_log2_le {n : ℕ} (h : 0 < n) : (2 : ℚ) ^ (n.log2 : ℤ) ≤ n := by
  rw [zpow_natCast]
  exact_mod_cast Nat.log2_self_le h.ne'

theorem lt_two_zpow_log2 (n : ℕ) : (n : ℚ) < 2 ^ ((n.log2 : ℤ) + 1) := by
  have hlt : n < 2 ^ (n.log2 + 1) := Nat.lt_log2_self
  exact_mod_cast hlt

/-- The quotient lies within a factor of two of the guess. -/
theorem two_zpow_lt_div {num den : ℕ} (hnum : 0 < num) (hden : 0 < den) :
    (2 : ℚ) ^ ((num.log2 : ℤ) - den.log2 - 1) < num / den ∧
      (num : ℚ) / den < 2 ^ ((num.log2 : ℤ) - den.log2 + 1) := by
  have hpos : (0 : ℚ) < den := Nat.cast_pos.mpr hden
  rw [lt_div_iff₀ hpos, div_lt_iff₀ hpos]
  constructor
  · calc
      (2 : ℚ) ^ ((num.log2 : ℤ) - den.log2 - 1) * den
          < 2 ^ ((num.log2 : ℤ) - den.log2 - 1) * 2 ^ ((den.log2 : ℤ) + 1) :=
        mul_lt_mul_of_pos_left (lt_two_zpow_log2 den) (two_zpow_pos _)
      _ = 2 ^ (num.log2 : ℤ) := by
        rw [← zpow_add₀ (by norm_num)]
        congr 1
        ring
      _ ≤ num := two_zpow_log2_le hnum
  · calc
      (num : ℚ) < 2 ^ ((num.log2 : ℤ) + 1) := lt_two_zpow_log2 num
      _ = 2 ^ ((num.log2 : ℤ) - den.log2 + 1) * 2 ^ (den.log2 : ℤ) := by
        rw [← zpow_add₀ (by norm_num)]
        congr 1
        ring
      _ ≤ 2 ^ ((num.log2 : ℤ) - den.log2 + 1) * den :=
        mul_le_mul_of_nonneg_left (two_zpow_log2_le hden) (two_zpow_pos _).le

/-- Integer division tells on which side of an integer the shifted number lies. -/
theorem shifted_div_lt_iff (num : ℕ) {den : ℕ} (hden : 0 < den) (power : ℤ) (bound : ℕ) :
    (shifted num den power).1 / (shifted num den power).2 < bound ↔
      (num : ℚ) / den * 2 ^ power < bound := by
  have hpos := shifted_snd_pos num hden power
  have hpos' : (0 : ℚ) < (shifted num den power).2 := Nat.cast_pos.mpr hpos
  rw [Nat.div_lt_iff_lt_mul hpos, ← cast_shifted, div_lt_iff₀ hpos']
  exact_mod_cast Iff.rfl

/-- The exponent leaves the quotient 53 bits, or fewer where it is the smallest one. -/
theorem roundingExponent_cases {num den : ℕ} (hnum : 0 < num) (hden : 0 < den) :
    (num : ℚ) / den < 2 ^ (roundingExponent num den + 53) ∧ -1074 ≤ roundingExponent num den ∧
      (roundingExponent num den = -1074 ∨
        (2 : ℚ) ^ (roundingExponent num den + 52) ≤ num / den) := by
  have hexact : ∃ exact : ℤ, roundingExponent num den = max (-1074) exact ∧
      (num : ℚ) / den < 2 ^ (exact + 53) ∧ (2 : ℚ) ^ (exact + 52) ≤ num / den := by
    obtain ⟨hlow, hhigh⟩ := two_zpow_lt_div hnum hden
    let guess : ℤ := (num.log2 : ℤ) - den.log2 - 52
    have hhalf : ((num.log2 : ℤ) - den.log2 - 1) = guess - 1 + 52 := by ring
    have hdouble : ((num.log2 : ℤ) - den.log2 + 1) = guess + 53 := by ring
    have hscaled : (num : ℚ) / den * 2 ^ (-guess) < (2 ^ 52 : ℕ) ↔
        (num : ℚ) / den < 2 ^ (guess + 52) := by
      rw [zpow_neg, ← div_eq_mul_inv, div_lt_iff₀ (two_zpow_pos guess), mul_comm,
        zpow_add₀ (by norm_num)]
      norm_num
    have hiff := (shifted_div_lt_iff num hden (-guess) (2 ^ 52)).trans hscaled
    rw [hhalf] at hlow
    rw [hdouble] at hhigh
    by_cases hsmall : (num : ℚ) / den < 2 ^ (guess + 52)
    · refine ⟨guess - 1, ?_, ?_, hlow.le⟩
      · rw [roundingExponent]
        exact congrArg (max (-1074)) (if_pos (hiff.mpr hsmall))
      · have hexponent : guess - 1 + 53 = guess + 52 := by ring
        rwa [hexponent]
    · refine ⟨guess, ?_, hhigh, not_lt.mp hsmall⟩
      rw [roundingExponent]
      exact congrArg (max (-1074)) (if_neg (mt hiff.mp hsmall))
  obtain ⟨exact, hexponent, hlt, hle⟩ := hexact
  rw [hexponent]
  refine ⟨lt_of_lt_of_le hlt (zpow_le_zpow_right₀ (by norm_num) (by omega)), le_max_left _ _, ?_⟩
  rcases le_total (-1074) exact with hle' | hle'
  · rw [max_eq_right hle']
    exact .inr hle
  · exact .inl (max_eq_left hle')

/-! ## Rounding -/

/-- What rounding a positive quotient does: exponent bits and a significand. -/
theorem round_eq (negative : Bool) {num den : ℕ} (hnum : 0 < num) (hden : 0 < den) :
    ∃ (power : ℤ) (q : ℕ), -1074 ≤ power ∧ (num : ℚ) / den < 2 ^ (power + 53) ∧
      (power = -1074 ∨ (2 : ℚ) ^ (power + 52) ≤ num / den) ∧
      (power = -1074 ∨ 2 ^ 52 ≤ q) ∧ q ≤ 2 ^ 53 ∧
      (q : ℚ) * 2 ^ power ≤ num / den + 2 ^ (power - 1) ∧
      round negative num den =
        ofMagnitude negative (min ((power + 1074).toNat * 2 ^ 52 + q) (2047 * 2 ^ 52)) := by
  obtain ⟨hlt, hlow, hle⟩ := roundingExponent_cases hnum hden
  generalize hpower : roundingExponent num den = power at hlt hlow hle
  have hd := shifted_snd_pos num hden (-power)
  have hcast := cast_shifted num den (-power)
  have hq := nearestInteger_le (shifted num den (-power)).1 hd
  rw [hcast] at hq
  have hpos := two_zpow_pos power
  rw [zpow_neg, ← div_eq_mul_inv] at hcast hq
  have hupper : (num : ℚ) / den / 2 ^ power < 2 ^ 53 := by
    rw [div_lt_iff₀ hpos, ← zpow_natCast, ← zpow_add₀ (by norm_num), add_comm]
    exact hlt
  refine ⟨power, nearestInteger (shifted num den (-power)).1 (shifted num den (-power)).2, hlow,
    hlt, hle, ?_, ?_, ?_, ?_⟩
  · rcases hle with hleast | hlarge
    · exact .inl hleast
    · right
      have hlower : (2 : ℚ) ^ 52 ≤ num / den / 2 ^ power := by
        rw [le_div_iff₀ hpos, ← zpow_natCast, ← zpow_add₀ (by norm_num), add_comm]
        exact hlarge
      apply le_trans _ (div_le_nearestInteger _ _)
      rw [Nat.le_div_iff_mul_le hd]
      rw [← hcast, le_div_iff₀ (Nat.cast_pos.mpr hd)] at hlower
      exact_mod_cast hlower
  · have hbelow : (nearestInteger (shifted num den (-power)).1 (shifted num den (-power)).2 : ℚ) <
        (2 ^ 53 + 1 : ℕ) := by
      push_cast
      linarith
    exact Nat.le_of_lt_succ (Nat.cast_lt.mp hbelow)
  · calc
      _ ≤ ((num : ℚ) / den / 2 ^ power + 1 / 2) * 2 ^ power :=
        mul_le_mul_of_nonneg_right hq hpos.le
      _ = num / den + 2 ^ (power - 1) := by
        rw [zpow_sub_one₀ (by norm_num)]
        field_simp
  · rw [round, if_neg hnum.ne', hpower]
    rfl

/-- All magnitudes below those with a full exponent are finite. -/
theorem isFinite_ofMagnitude (negative : Bool) {m : ℕ} (h : m < 2047 * 2 ^ 52) :
    (ofMagnitude negative m).isFinite := by
  rw [isFinite, magnitude_ofMagnitude negative (by omega), infinityBits, Nat.pow_eq]
  exact decide_eq_true h

theorem cast_overflowBound : (overflowBound : ℚ) = (2 ^ 54 - 1) * 2 ^ (970 : ℤ) := by
  have hone : 1 ≤ 2 ^ 54 := Nat.one_le_two_pow
  have hpower : ((2 ^ 970 : ℕ) : ℚ) = 2 ^ (970 : ℤ) := by
    rw [Nat.cast_pow, Nat.cast_ofNat]
    exact (zpow_natCast 2 970).symm
  rw [overflowBound, Nat.cast_mul, hpower, Nat.cast_sub hone, Nat.cast_pow, Nat.cast_ofNat,
    Nat.cast_one]

/-- Below the bound, the exponent bits and the significand stay below those of infinity. -/
theorem bits_lt_of_lt_overflowBound {v : ℚ} {power : ℤ} {q : ℕ} (h : v < overflowBound)
    (hle : power = -1074 ∨ (2 : ℚ) ^ (power + 52) ≤ v) (hq : q ≤ 2 ^ 53)
    (hvalue : (q : ℚ) * 2 ^ power ≤ v + 2 ^ (power - 1)) :
    (power + 1074).toNat * 2 ^ 52 + q < 2047 * 2 ^ 52 := by
  rw [cast_overflowBound] at h
  have hpower : power < 972 := by
    rcases hle with rfl | hle
    · decide
    · have hlt : (2 : ℚ) ^ (power + 52) < 2 ^ (970 + 54 : ℤ) := by
        rw [zpow_add₀ (by norm_num) 970, mul_comm]
        apply lt_trans (lt_of_le_of_lt hle h)
        exact mul_lt_mul_of_pos_right (by norm_num) (two_zpow_pos 970)
      have hexponent := (zpow_lt_zpow_iff_right₀ (by norm_num)).mp hlt
      omega
  by_cases hlast : power = 971
  · have hprevious : (970 : ℤ) = power - 1 := by omega
    rw [hprevious] at h
    have hdouble : (2 : ℚ) ^ power = 2 * 2 ^ (power - 1) := by
      rw [← zpow_one_add₀ (by norm_num), add_sub_cancel]
    have hlt : (q : ℚ) * 2 ^ power < 2 ^ 53 * 2 ^ power := by
      calc
        (q : ℚ) * 2 ^ power ≤ v + 2 ^ (power - 1) := hvalue
        _ < (2 ^ 54 - 1) * 2 ^ (power - 1) + 2 ^ (power - 1) := add_lt_add_left h _
        _ = 2 ^ 53 * 2 ^ power := by
          rw [hdouble]
          ring
    have hless := lt_of_mul_lt_mul_right hlt (two_zpow_pos power).le
    have hnat : q < 2 ^ 53 := by exact_mod_cast hless
    omega
  · omega

/-- Below the bound the rounded number is finite. -/
theorem isFinite_round (negative : Bool) {num den : ℕ} (hden : 0 < den)
    (h : (num : ℚ) / den < overflowBound) : (round negative num den).isFinite := by
  rcases Nat.eq_zero_or_pos num with rfl | hnum
  · rw [round, if_pos rfl, zero]
    exact isFinite_ofMagnitude negative (by decide)
  · obtain ⟨power, q, -, -, hle, -, hq, hvalue, heq⟩ := round_eq negative hnum hden
    have hbits := bits_lt_of_lt_overflowBound h hle hq hvalue
    rw [heq, min_eq_left hbits.le]
    exact isFinite_ofMagnitude negative hbits

/-- A natural number in range is rounded up by at most one part in `2 ^ 53`. -/
theorem value_ofNat_le {n : ℕ} (h : n < overflowBound) :
    (ofNat n).value ≤ n * (1 + 1 / 2 ^ 53) := by
  rcases Nat.eq_zero_or_pos n with rfl | hn
  · have hzero : (ofNat 0).significand = 0 := by decide
    simp [value, hzero]
  · obtain ⟨power, q, hlow, -, hle, hq', hq, hvalue, heq⟩ := round_eq false hn Nat.one_pos
    rw [Nat.cast_one, div_one] at hle hvalue
    have hbits := bits_lt_of_lt_overflowBound (Nat.cast_lt.mpr h) hle hq hvalue
    have hone : (1 : ℚ) ≤ n := Nat.one_le_cast.mpr hn
    -- No natural number is so small that its exponent is the smallest one.
    have hpower : (2 : ℚ) ^ (power + 52) ≤ n := by
      rcases hle with hleast | hlarge
      · have hsmall : (2 : ℚ) ^ (power + 52) ≤ 1 := zpow_le_one_of_nonpos₀ (by norm_num) (by omega)
        exact hsmall.trans hone
      · exact hlarge
    have hlead : (power + 1074).toNat = 0 ∨ 2 ^ 52 ≤ q := by
      rcases hq' with hleast | hnormal
      · left
        omega
      · exact .inr hnormal
    have hexponent : (((power + 1074).toNat : ℕ) : ℤ) - 1074 = power := by omega
    rw [ofNat, heq, min_eq_left hbits.le, value_ofMagnitude false hlead hq (by omega), hexponent]
    have hhalf : (2 : ℚ) ^ (power - 1) = 2 ^ (power + 52) * (1 / 2 ^ 53) := by
      have hsplit : power - 1 = power + 52 - 53 := by ring
      rw [hsplit, zpow_sub₀ (by norm_num)]
      norm_num
      ring
    calc
      (q : ℚ) * 2 ^ power ≤ n + 2 ^ (power - 1) := hvalue
      _ = n + 2 ^ (power + 52) * (1 / 2 ^ 53) := by rw [hhalf]
      _ ≤ n + n * (1 / 2 ^ 53) := by
        have hscaled := mul_le_mul_of_nonneg_right hpower (by norm_num : (0 : ℚ) ≤ 1 / 2 ^ 53)
        linarith
      _ = n * (1 + 1 / 2 ^ 53) := by ring

/-- A product below the bound is finite when rounded. -/
theorem isFinite_mul {x y : Binary64} (h : x.value * y.value < overflowBound) :
    (x.mul y).isFinite := by
  have hvalue : ((x.significand * y.significand : ℕ) : ℚ) / (1 : ℕ) *
      2 ^ (x.exponent + y.exponent) = x.value * y.value := by
    rw [value, value, zpow_add₀ (by norm_num)]
    push_cast
    ring
  have hden := shifted_snd_pos (x.significand * y.significand) Nat.one_pos
    (x.exponent + y.exponent)
  apply isFinite_round _ hden
  exact lt_of_eq_of_lt ((cast_shifted ..).trans hvalue) h

end PathStore.Binary64
