import PathStore.Binary64.Shortest
import PathStore.Proofs.Binary64.Rounding

/-!
# The range of the shortest decimal

The shortest decimal of a number is not zero, it has at most seventeen digits, and it lies between
the bounds within which everything rounds to a finite number: on the finest grid that is searched
the ends of the interval are further apart than two neighbouring decimals.  That the decimal is the
shortest one, and that the number is the nearest one to it, is not shown.
-/

namespace PathStore

namespace Decimal

def value (d : Decimal) : ℚ :=
  d.coefficient * 10 ^ d.exponent

theorem ten_zpow_pos (power : ℤ) : (0 : ℚ) < 10 ^ power :=
  zpow_pos (by norm_num) power

/-- A number has no more digits than are counted. -/
theorem lt_pow_digitCount (n : ℕ) : n < 10 ^ digitCount n := by
  rw [digitCount]
  split
  · rename_i hzero
    simp [hzero]
  · exact (Nat.length_toDigits_le_iff (by decide) Nat.length_toDigits_pos).mp (Nat.le_refl _)

theorem digitCount_pos {n : ℕ} (h : 0 < n) : 0 < digitCount n := by
  rw [digitCount, if_neg h.ne']
  exact Nat.length_toDigits_pos

/-- A number has no fewer digits than are counted. -/
theorem pow_digitCount_le {n : ℕ} (h : 0 < n) : 10 ^ (digitCount n - 1) ≤ n := by
  rw [digitCount, if_neg h.ne']
  rcases Nat.eq_zero_or_pos ((Nat.toDigits 10 n).length - 1) with hone | hmore
  · rw [hone]
    exact h
  · have hlength := Nat.length_toDigits_le_iff (n := n) (by decide : 1 < 10) hmore
    exact Nat.le_of_not_lt fun hlt ↦ by have := hlength.mpr hlt; omega

section trim

variable (fuel : ℕ) (d : Decimal)

/-- Trimming zeros changes the decimal and not its value. -/
theorem value_trim : (trim fuel d).value = d.value := by
  induction fuel generalizing d with
  | zero => rfl
  | succ fuel ih =>
    rw [trim]
    split
    · rename_i hzero
      have hcoefficient : (d.coefficient : ℚ) = (d.coefficient / 10 : ℕ) * 10 := by
        exact_mod_cast (Nat.div_mul_cancel (Nat.dvd_of_mod_eq_zero hzero)).symm
      rw [ih, value, value, hcoefficient, zpow_add_one₀ (by norm_num)]
      ring
    · rfl

theorem coefficient_trim_le : (trim fuel d).coefficient ≤ d.coefficient := by
  induction fuel generalizing d with
  | zero => exact Nat.le_refl _
  | succ fuel ih =>
    rw [trim]
    split
    · exact (ih _).trans (Nat.div_le_self _ _)
    · exact Nat.le_refl _

theorem exponent_le_trim : d.exponent ≤ (trim fuel d).exponent := by
  induction fuel generalizing d with
  | zero => exact le_refl _
  | succ fuel ih =>
    rw [trim]
    split
    · exact (Int.le_add_one (le_refl _)).trans (ih ⟨d.coefficient / 10, d.exponent + 1⟩)
    · exact le_refl _

variable {d}

theorem coefficient_trim_pos (h : 0 < d.coefficient) : 0 < (trim fuel d).coefficient := by
  induction fuel generalizing d with
  | zero => exact h
  | succ fuel ih =>
    rw [trim]
    split
    · exact ih (by dsimp only; omega)
    · exact h

/-- A power of ten loses a digit. -/
theorem coefficient_trim_lt {count : ℕ} (hcount : 0 < count) (h : d.coefficient ≤ 10 ^ count) :
    (trim (fuel + 1) d).coefficient < 10 ^ count := by
  have hsucc : 10 ^ count = 10 * 10 ^ (count - 1) := by
    rw [← Nat.pow_succ', Nat.succ_eq_add_one, Nat.sub_add_cancel hcount]
  have hpos : 0 < 10 ^ (count - 1) := Nat.pow_pos (by decide)
  rw [trim]
  split
  · apply Nat.lt_of_le_of_lt (coefficient_trim_le fuel _)
    dsimp only
    omega
  · omega

end trim

/-- The shortest decimal of the greatest number. -/
def greatest : Decimal :=
  ⟨17976931348623157, 292⟩

/-- Not zero, at most seventeen digits, and neither too large nor too fine. -/
structure InRange (d : Decimal) : Prop where
  pos : 0 < d.coefficient
  digits : d.coefficient < 10 ^ 17
  value_le : d.value ≤ greatest.value
  exponent : -416 ≤ d.exponent

theorem natCast_mul_zpow_le_iff (a b n k : ℕ) :
    (a : ℚ) * 10 ^ (n : ℤ) ≤ b * 2 ^ (k : ℤ) ↔ a * 10 ^ n ≤ b * 2 ^ k := by
  rw [zpow_natCast, zpow_natCast]
  exact_mod_cast Iff.rfl

theorem value_le_greatest_iff (c n : ℕ) :
    (⟨c, n⟩ : Decimal).value ≤ greatest.value ↔ c * 10 ^ n ≤ 17976931348623157 * 10 ^ 292 := by
  have hgreatest : greatest.value = (17976931348623157 : ℕ) * 10 ^ ((292 : ℕ) : ℤ) := rfl
  rw [hgreatest, value, zpow_natCast, zpow_natCast]
  exact_mod_cast Iff.rfl

/-- Only on one grid are there decimals near to the end of the range. -/
theorem mul_pow_le_of_ne {c n : ℕ} (hdigits : c ≤ 10 ^ 17) (hn : n ≠ 292)
    (h : c * 10 ^ n ≤ Binary64.overflowBound) :
    c * 10 ^ n ≤ 17976931348623150 * 10 ^ 292 := by
  rcases Nat.lt_or_gt_of_ne hn with hfiner | hcoarser
  · calc
      c * 10 ^ n ≤ 10 ^ 17 * 10 ^ 291 :=
        Nat.mul_le_mul hdigits (Nat.pow_le_pow_right (by decide) (Nat.le_of_lt_succ hfiner))
      _ ≤ 17976931348623150 * 10 ^ 292 := by decide +kernel
  · have hcoarser : 293 ≤ n := hcoarser
    obtain ⟨k, rfl⟩ := Nat.exists_eq_add_of_le' hcoarser
    rw [pow_add, ← Nat.mul_assoc] at h ⊢
    have hnext : Binary64.overflowBound < 1797693134862316 * 10 ^ 293 := by decide +kernel
    have hround (unit : ℕ) (hless : c * 10 ^ k * unit < 1797693134862316 * unit) :
        c * 10 ^ k * unit ≤ 1797693134862315 * unit :=
      Nat.mul_le_mul_right unit (Nat.le_of_lt_succ (Nat.lt_of_mul_lt_mul_right hless))
    calc
      c * 10 ^ k * 10 ^ 293 ≤ 1797693134862315 * 10 ^ 293 := hround _ (Nat.lt_of_le_of_lt h hnext)
      _ = 17976931348623150 * 10 ^ 292 := by decide +kernel

end Decimal

namespace Binary64

open Decimal (ten_zpow_pos)

namespace Interval

variable (i : Interval)

/-- From one on, the digits of the whole part place the leading digit. -/
theorem leading_of_le {num den : ℕ} (hden : 0 < den) (h : den ≤ num) :
    (10 : ℚ) ^ ((Decimal.digitCount (num / den) : ℤ) - 1) ≤ num / den ∧
      (num : ℚ) / den < 10 ^ (Decimal.digitCount (num / den) : ℤ) := by
  have hpos : (0 : ℚ) < den := Nat.cast_pos.mpr hden
  have hquotient : 0 < num / den := Nat.div_pos h hden
  have hcount : ((Decimal.digitCount (num / den) : ℤ) - 1) =
      ((Decimal.digitCount (num / den) - 1 : ℕ) : ℤ) := by
    have := Decimal.digitCount_pos hquotient
    omega
  rw [hcount, zpow_natCast, zpow_natCast, le_div_iff₀ hpos, div_lt_iff₀ hpos]
  constructor
  · have hlow := Nat.mul_le_of_le_div den _ _ (Decimal.pow_digitCount_le hquotient)
    exact_mod_cast hlow
  · have hhigh := (Nat.div_lt_iff_lt_mul hden).mp (Decimal.lt_pow_digitCount (num / den))
    exact_mod_cast hhigh

/-- Below one, the digits of the inverse place the leading digit. -/
theorem leading_of_lt {num den : ℕ} (hnum : 0 < num) (h : num < den) :
    (10 : ℚ) ^ (-(Decimal.digitCount ((den + num - 1) / num - 1) : ℤ)) ≤ num / den ∧
      (num : ℚ) / den < 10 ^ (-(Decimal.digitCount ((den + num - 1) / num - 1) : ℤ) + 1) := by
  have hpos : (0 : ℚ) < den := Nat.cast_pos.mpr (hnum.trans h)
  obtain ⟨below, hbelow⟩ : ∃ below, (den + num - 1) / num - 1 = below := ⟨_, rfl⟩
  have hceil : (den + num - 1) / num = (den - 1) / num + 1 := by
    have hsplit : den + num - 1 = den - 1 + num := by omega
    rw [hsplit, Nat.add_div_right _ hnum]
  have hfloor : (den - 1) / num = below := by rw [← hbelow, hceil, Nat.add_sub_cancel]
  have hlow : num * below ≤ den - 1 := by
    rw [← hfloor]
    exact Nat.mul_div_le (den - 1) num
  have hhigh : den - 1 < num * (below + 1) := by
    rw [← hfloor]
    exact Nat.lt_mul_div_succ (den - 1) hnum
  have hone : 0 < below := by
    rw [← hfloor]
    exact Nat.div_pos (Nat.le_sub_one_of_lt h) hnum
  have hcount : -(Decimal.digitCount below : ℤ) + 1 =
      -((Decimal.digitCount below - 1 : ℕ) : ℤ) := by
    have := Decimal.digitCount_pos hone
    omega
  rw [hbelow, hcount, zpow_neg, zpow_neg, zpow_natCast, zpow_natCast, inv_eq_one_div,
    inv_eq_one_div, div_le_div_iff₀ (by positivity) hpos, div_lt_div_iff₀ hpos (by positivity)]
  constructor
  · have hle : 1 * den ≤ num * 10 ^ Decimal.digitCount below := by
      calc
        1 * den ≤ num * (below + 1) := by omega
        _ ≤ num * 10 ^ Decimal.digitCount below :=
          Nat.mul_le_mul_left _ (Decimal.lt_pow_digitCount below)
    exact_mod_cast hle
  · have hlt : num * 10 ^ (Decimal.digitCount below - 1) < 1 * den := by
      calc
        num * 10 ^ (Decimal.digitCount below - 1) ≤ num * below :=
          Nat.mul_le_mul_left _ (Decimal.pow_digitCount_le hone)
        _ < 1 * den := by omega
    exact_mod_cast hlt

/-- The leading exponent is that of the greatest power of ten not above the number. -/
theorem leadingExponent_spec (h : 0 < i.value) :
    (10 : ℚ) ^ i.leadingExponent ≤ i.value * 2 ^ i.power ∧
      i.value * 2 ^ i.power < (10 : ℚ) ^ (i.leadingExponent + 1) := by
  have hcast := cast_shifted i.value 1 i.power
  have hden := shifted_snd_pos i.value Nat.one_pos i.power
  have hnum : 0 < (shifted i.value 1 i.power).1 := Nat.mul_pos h (Nat.pow_pos (by decide))
  rw [leadingExponent]
  generalize shifted i.value 1 i.power = quotient at hcast hden hnum
  obtain ⟨num, den⟩ := quotient
  rw [Nat.cast_one, div_one] at hcast
  rw [← hcast]
  dsimp only at hden hnum ⊢
  split
  · rename_i hle
    rw [sub_add_cancel]
    exact leading_of_le hden hle
  · rename_i hlt
    exact leading_of_lt hnum (Nat.lt_of_not_le hlt)

/-! ## One grid -/

/-- On a grid the numerators have a common factor. -/
theorem scaled_eq (e : ℤ) :
    ∃ up den : ℕ, i.scaled e = (i.low * up, i.value * up, i.high * up, den) ∧ 0 < up ∧ 0 < den ∧
      (2 : ℚ) ^ i.power = up / den * 10 ^ e := by
  have hpos (base power : ℕ) (hbase : 0 < base) : 0 < Nat.pow base power := Nat.pow_pos hbase
  refine ⟨_, _, rfl, Nat.mul_pos (hpos _ _ (by decide)) (hpos _ _ (by decide)),
    Nat.mul_pos (hpos _ _ (by decide)) (hpos _ _ (by decide)), ?_⟩
  have hten : (10 : ℚ) ^ e = 10 ^ e.toNat / 10 ^ (-e).toNat := by
    rw [← zpow_natCast, ← zpow_natCast, ← zpow_sub₀ (by norm_num)]
    congr 1
    omega
  rw [two_zpow_eq_div, hten]
  simp only [Nat.pow_eq]
  push_cast
  field_simp

theorem mul_zpow_le_iff {up den : ℕ} (hden : 0 < den) {e : ℤ}
    (hpower : (2 : ℚ) ^ i.power = up / den * 10 ^ e) (point bound : ℕ) :
    (point : ℚ) * 10 ^ e ≤ bound * 2 ^ i.power ↔ point * den ≤ bound * up := by
  have hpos : (0 : ℚ) < den := Nat.cast_pos.mpr hden
  rw [hpower, ← mul_assoc, mul_le_mul_iff_left₀ (ten_zpow_pos e), ← mul_div_assoc, le_div_iff₀ hpos]
  exact_mod_cast Iff.rfl

/-- A neighbour that is found is the one below the number or the one above it, which has to be in
the interval, and then the other one is not nearer or not in the interval. -/
theorem nearestOnGrid?_cases {tie : Tie} {e : ℤ} {c : ℕ} (h : i.nearestOnGrid? tie e = some c) :
    ∃ up den : ℕ, 0 < up ∧ 0 < den ∧ (2 : ℚ) ^ i.power = up / den * 10 ^ e ∧
      (c = i.value * up / den ∧ i.low * up ≤ c * den ∨
        c = i.value * up / den + 1 ∧ c * den ≤ i.high * up ∧
          (den ≤ 2 * (i.value * up % den) ∨ i.value * up / den * den ≤ i.low * up)) := by
  obtain ⟨up, den, hscaled, hup, hden, hpower⟩ := i.scaled_eq e
  refine ⟨up, den, hup, hden, hpower, ?_⟩
  rw [nearestOnGrid?, hscaled] at h
  simp only [Bool.and_eq_true, Bool.or_eq_true, decide_eq_true_eq] at h
  split at h
  · rename_i hfits
    obtain rfl := Option.some.inj h
    split
    · exact .inr ⟨rfl, by omega, .inl (by omega)⟩
    · exact .inl ⟨rfl, by omega⟩
  · split at h
    · obtain rfl := Option.some.inj h
      exact .inl ⟨rfl, by omega⟩
    · split at h
      · obtain rfl := Option.some.inj h
        exact .inr ⟨rfl, by omega, .inr (by omega)⟩
      · cases h

/-- A neighbour that is found is not zero, not above the interval, not above what lies on the grid
above the number, and not more than half a step above the number unless that step begins below the
interval. -/
theorem of_nearestOnGrid? {tie : Tie} {e : ℤ} {c : ℕ} (hlow : 0 < i.low) (hhigh : i.value ≤ i.high)
    (h : i.nearestOnGrid? tie e = some c) :
    0 < c ∧ (c : ℚ) * 10 ^ e ≤ i.high * 2 ^ i.power ∧
      (∀ point : ℕ, i.value * 2 ^ i.power < (point : ℚ) * 10 ^ e → c ≤ point) ∧
      (((2 * c - 1 : ℕ) : ℚ) * 10 ^ e ≤ (2 * i.value : ℕ) * 2 ^ i.power ∨
        ((c - 1 : ℕ) : ℚ) * 10 ^ e ≤ i.low * 2 ^ i.power) := by
  obtain ⟨up, den, hup, hden, hpower, hc⟩ := i.nearestOnGrid?_cases h
  have hfloor := Nat.div_mul_le_self (i.value * up) den
  have hvalue : i.value * up ≤ i.high * up := Nat.mul_le_mul_right _ hhigh
  simp only [← not_le (b := (_ : ℚ) * _), i.mul_zpow_le_iff hden hpower]
  refine ⟨?_, ?_, ?_, ?_⟩
  · rcases hc with ⟨-, hfits⟩ | ⟨rfl, -⟩
    · exact Nat.pos_of_mul_pos_right (Nat.lt_of_lt_of_le (Nat.mul_pos hlow hup) hfits)
    · exact Nat.succ_pos _
  · rcases hc with ⟨rfl, -⟩ | ⟨-, hfits, -⟩
    · exact hfloor.trans hvalue
    · exact hfits
  · intro point hpoint
    rw [not_le, ← Nat.div_lt_iff_lt_mul hden] at hpoint
    omega
  · rw [Nat.mul_assoc]
    rcases hc with ⟨rfl, -⟩ | ⟨rfl, -, hnearer | hother⟩
    · left
      calc
        (2 * (i.value * up / den) - 1) * den ≤ 2 * (i.value * up / den) * den :=
          Nat.mul_le_mul_right _ (Nat.sub_le _ _)
        _ = 2 * (i.value * up / den * den) := Nat.mul_assoc ..
        _ ≤ 2 * (i.value * up) := Nat.mul_le_mul_left _ hfloor
    · left
      have hsplit := Nat.div_add_mod' (i.value * up) den
      have hodd : 2 * (i.value * up / den + 1) - 1 = 2 * (i.value * up / den) + 1 := by omega
      rw [hodd, Nat.succ_mul, Nat.mul_assoc]
      omega
    · right
      rwa [Nat.add_sub_cancel]

/-- On a grid finer than the interval there is a neighbour. -/
theorem isSome_nearestOnGrid? (tie : Tie) {e : ℤ}
    (h : (i.low : ℚ) * 2 ^ i.power + 10 ^ e < i.high * 2 ^ i.power) :
    (i.nearestOnGrid? tie e).isSome := by
  obtain ⟨up, den, hscaled, -, hden, hpower⟩ := i.scaled_eq e
  have hpos : (0 : ℚ) < den := Nat.cast_pos.mpr hden
  have hstep : ((i.low * up + den : ℕ) : ℚ) < (i.high * up : ℕ) := by
    apply lt_of_mul_lt_mul_right _ (div_pos (ten_zpow_pos e) hpos).le
    calc
      ((i.low * up + den : ℕ) : ℚ) * (10 ^ e / den) = i.low * 2 ^ i.power + 10 ^ e := by
        rw [hpower]
        push_cast
        field_simp
      _ < i.high * 2 ^ i.power := h
      _ = (i.high * up : ℕ) * (10 ^ e / den) := by
        rw [hpower]
        push_cast
        ring
  rw [Nat.cast_lt] at hstep
  rw [nearestOnGrid?, hscaled]
  simp only [Bool.and_eq_true, Bool.or_eq_true, decide_eq_true_eq]
  split
  · rfl
  · split
    · rfl
    · split
      · rfl
      · rename_i hbelow habove
        have hnext := Nat.succ_mul (i.value * up / den) den
        rw [Nat.succ_eq_add_one] at hnext
        omega

/-- The search stops at a grid on which a decimal is found, if the last one it may look at has
one. -/
theorem shortestFrom_spec (tie : Tie) {fuel : ℕ} {e : ℤ}
    (h : (i.nearestOnGrid? tie (e - fuel)).isSome) :
    e - fuel ≤ (i.shortestFrom tie fuel e).exponent ∧
      i.nearestOnGrid? tie (i.shortestFrom tie fuel e).exponent =
        some (i.shortestFrom tie fuel e).coefficient := by
  induction fuel generalizing e with
  | zero =>
    rw [Nat.cast_zero, sub_zero] at h ⊢
    obtain ⟨c, hc⟩ := Option.isSome_iff_exists.mp h
    have hfound : i.shortestFrom tie 0 e = ⟨c, e⟩ := by
      rw [shortestFrom, hc]
      rfl
    rw [hfound]
    exact ⟨le_refl e, hc⟩
  | succ fuel ih =>
    rw [shortestFrom]
    split
    · rename_i c hc
      exact ⟨by dsimp only; omega, hc⟩
    · have hfiner : e - (fuel + 1 : ℕ) = e - 1 - fuel := by push_cast; ring
      rw [hfiner] at h ⊢
      exact ih h

end Interval

/-! ## The interval of a number -/

theorem significand_pos {x : Binary64} (hnonzero : x.magnitude ≠ 0) : 0 < x.significand := by
  rw [significand, fraction, exponentField, Nat.pow_eq]
  split <;> omega

section interval

variable {x : Binary64} (hfinite : x.isFinite)

include hfinite

/-- The significand of a finite number has 53 bits, and its exponent is neither too small nor too
large. -/
theorem significand_exponent_le :
    x.significand < 2 ^ 53 ∧ -1074 ≤ x.exponent ∧ x.exponent ≤ 971 := by
  rw [isFinite, infinityBits, Nat.pow_eq, decide_eq_true_eq] at hfinite
  rw [significand, exponent, fraction, exponentField, Nat.pow_eq]
  split <;> omega

theorem mul_power_interval_le {point bound : ℕ} (h : point ≤ bound) :
    (point : ℚ) * 2 ^ x.interval.power ≤ bound * 2 ^ ((969 : ℕ) : ℤ) := by
  have hpower : x.interval.power ≤ (969 : ℕ) := by
    have := (significand_exponent_le hfinite).2.2
    change x.exponent - 2 ≤ _
    omega
  exact mul_le_mul (Nat.cast_le.mpr h) (zpow_le_zpow_right₀ (by norm_num) hpower)
    (two_zpow_pos _).le (Nat.cast_nonneg _)

/-- How far the interval and its parts reach at most, in units of its finest power. -/
theorem interval_le :
    x.interval.low ≤ 4 * (2 ^ 53 - 1) - 1 ∧ x.interval.value ≤ 4 * (2 ^ 53 - 1) ∧
      x.interval.high ≤ 2 * (2 ^ 54 - 1) := by
  obtain ⟨hsignificand, -⟩ := significand_exponent_le hfinite
  rw [interval]
  dsimp only
  split <;> omega

variable (hnonzero : x.magnitude ≠ 0)

include hnonzero

/-- Sixteen digits behind the leading one, the interval is wider than a step. -/
theorem interval_wide :
    0 < x.interval.low ∧
      x.interval.low * 10 ^ 16 + x.interval.value < x.interval.high * 10 ^ 16 := by
  have hpos := significand_pos hnonzero
  obtain ⟨hsignificand, -⟩ := significand_exponent_le hfinite
  rw [interval]
  dsimp only
  split
  · rename_i hpower
    obtain ⟨hfraction, hfield⟩ := Bool.and_eq_true_iff.mp hpower
    have hleast : x.significand = 2 ^ 52 := by
      rw [significand, if_neg (by have := of_decide_eq_true hfield; omega),
        of_decide_eq_true hfraction, Nat.pow_eq, Nat.add_zero]
    omega
  · omega

/-- A number other than zero is not too fine for the search. -/
theorem le_value_interval : (10 : ℚ) ^ (-400 : ℤ) ≤ x.interval.value * 2 ^ x.interval.power := by
  have hpos := significand_pos hnonzero
  obtain ⟨-, hexponent, -⟩ := significand_exponent_le hfinite
  have hpower : 3 * -400 ≤ x.interval.power := by
    change _ ≤ x.exponent - 2
    omega
  have hone : (1 : ℚ) ≤ x.interval.value := by
    have hvalue : 1 ≤ 4 * x.significand := by omega
    exact Nat.one_le_cast.mpr hvalue
  calc
    (10 : ℚ) ^ (-400 : ℤ) ≤ (2 ^ (3 : ℤ)) ^ (-400 : ℤ) := by
      rw [zpow_neg, zpow_neg]
      exact inv_anti₀ (zpow_pos (two_zpow_pos 3) 400)
        (zpow_le_zpow_left₀ (by norm_num) (by norm_num) (by norm_num))
    _ = 2 ^ (3 * -400 : ℤ) := (zpow_mul ..).symm
    _ ≤ 1 * 2 ^ x.interval.power := by
      rw [one_mul]
      exact zpow_le_zpow_right₀ (by norm_num) hpower
    _ ≤ x.interval.value * 2 ^ x.interval.power :=
      mul_le_mul_of_nonneg_right hone (two_zpow_pos _).le

end interval

/-- Whatever is found is not above the shortest decimal of the greatest number. -/
theorem value_le_greatest {x : Binary64} (hfinite : x.isFinite) {d : Decimal}
    (hdigits : d.coefficient ≤ 10 ^ 17)
    (hhigh : d.value ≤ x.interval.high * 2 ^ x.interval.power)
    (hnear : ((2 * d.coefficient - 1 : ℕ) : ℚ) * 10 ^ d.exponent ≤
        (2 * x.interval.value : ℕ) * 2 ^ x.interval.power ∨
      ((d.coefficient - 1 : ℕ) : ℚ) * 10 ^ d.exponent ≤
        x.interval.low * 2 ^ x.interval.power) : d.value ≤ Decimal.greatest.value := by
  obtain ⟨hlow, hvalue, hbound⟩ := interval_le hfinite
  obtain ⟨c, e⟩ := d
  dsimp only at hdigits hnear
  rcases Int.lt_or_le e 0 with hnegative | hnatural
  · calc
      (⟨c, e⟩ : Decimal).value ≤ (⟨10 ^ 17, (0 : ℕ)⟩ : Decimal).value :=
        mul_le_mul (Nat.cast_le.mpr hdigits) (zpow_le_zpow_right₀ (by norm_num) hnegative.le)
          (ten_zpow_pos e).le (Nat.cast_nonneg _)
      _ ≤ Decimal.greatest.value := by
        rw [Decimal.value_le_greatest_iff]
        decide +kernel
  · obtain ⟨n, rfl⟩ := Int.eq_ofNat_of_zero_le hnatural
    rw [Decimal.value_le_greatest_iff]
    by_cases hn : n = 292
    · subst hn
      apply Nat.mul_le_mul_right
      by_contra hgreater
      rcases hnear with hhalf | hone
      · have hle := hhalf.trans (mul_power_interval_le hfinite (Nat.mul_le_mul_left 2 hvalue))
        rw [Decimal.natCast_mul_zpow_le_iff] at hle
        have hless : (2 * 17976931348623158 - 1) * 10 ^ 292 ≤ (2 * c - 1) * 10 ^ 292 :=
          Nat.mul_le_mul_right _ (by omega)
        exact absurd (hless.trans hle) (by decide +kernel)
      · have hle := hone.trans (mul_power_interval_le hfinite hlow)
        rw [Decimal.natCast_mul_zpow_le_iff] at hle
        have hless : 17976931348623157 * 10 ^ 292 ≤ (c - 1) * 10 ^ 292 :=
          Nat.mul_le_mul_right _ (by omega)
        exact absurd (hless.trans hle) (by decide +kernel)
    · have hle := hhigh.trans (mul_power_interval_le hfinite hbound)
      rw [Decimal.value, Decimal.natCast_mul_zpow_le_iff] at hle
      have hoverflow : 2 * (2 ^ 54 - 1) * 2 ^ 969 ≤ overflowBound := by decide +kernel
      exact (Decimal.mul_pow_le_of_ne hdigits hn (hle.trans hoverflow)).trans (by decide +kernel)

/-- The search always ends with a decimal in range. -/
theorem inRange_shortest {x : Binary64} (hfinite : x.isFinite) (hnonzero : x.magnitude ≠ 0)
    (tie : Tie) : (x.shortest tie).InRange := by
  obtain ⟨hlow, hwide⟩ := interval_wide hfinite hnonzero
  have hvalue : x.interval.value ≤ x.interval.high := Nat.le_add_right _ 2
  have hpositive : 0 < x.interval.value := Nat.mul_pos (by decide) (significand_pos hnonzero)
  obtain ⟨hleading, hbelow⟩ := x.interval.leadingExponent_spec hpositive
  have hfinest : (x.interval.nearestOnGrid? tie
      (x.interval.leadingExponent - (16 : ℕ))).isSome := by
    apply x.interval.isSome_nearestOnGrid? tie
    have hstep : (10 : ℚ) ^ (x.interval.leadingExponent - (16 : ℕ)) * 10 ^ 16 =
        10 ^ x.interval.leadingExponent := by
      rw [zpow_sub₀ (by norm_num), zpow_natCast, div_mul_cancel₀ _ (by norm_num)]
    have hcast : (x.interval.low : ℚ) * 10 ^ 16 + x.interval.value < x.interval.high * 10 ^ 16 := by
      exact_mod_cast hwide
    have hscaled := mul_lt_mul_of_pos_right hcast (two_zpow_pos x.interval.power)
    linarith
  obtain ⟨hexponent, hfound⟩ := x.interval.shortestFrom_spec tie hfinest
  rw [shortest]
  generalize x.interval.shortestFrom tie 16 x.interval.leadingExponent = d at hexponent hfound ⊢
  obtain ⟨hpos, hhigh, hleast, hnear⟩ := x.interval.of_nearestOnGrid? hlow hvalue hfound
  have hdigits : d.coefficient ≤ 10 ^ 17 := by
    apply hleast
    calc
      (x.interval.value : ℚ) * 2 ^ x.interval.power < 10 ^ (x.interval.leadingExponent + 1) :=
        hbelow
      _ ≤ 10 ^ (17 + d.exponent) := zpow_le_zpow_right₀ (by norm_num) (by omega)
      _ = (10 ^ 17 : ℕ) * 10 ^ d.exponent := by
        rw [zpow_add₀ (by norm_num)]
        norm_num
  have htiny : -400 < x.interval.leadingExponent + 1 :=
    (zpow_lt_zpow_iff_right₀ (by norm_num)).mp
      (lt_of_le_of_lt (le_value_interval hfinite hnonzero) hbelow)
  exact ⟨Decimal.coefficient_trim_pos 17 hpos, Decimal.coefficient_trim_lt 16 (by decide) hdigits,
    (d.value_trim 17).trans_le (value_le_greatest hfinite hdigits hhigh hnear),
    le_trans (by omega) (d.exponent_le_trim 17)⟩

end Binary64

end PathStore
