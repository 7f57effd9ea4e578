import Mathlib.Tactic.IntervalCases
import PathStore.Json.Text
import PathStore.Proofs.Binary64.Shortest
import PathStore.Proofs.Json.Numeral

/-!
# Reading a double-precision number that was written

The text of a double-precision number has a whole part, a fraction and an exponent, of which the
last two may be missing, but not both.  The reader gathers the digits in one significand, which here
always has room for them, and then scales it, which never fails.  Which number is read is not said;
it need not be the one that was written.
-/

namespace PathStore.Json

open PathStore.Binary64 (overflowBound isFinite_mul value_ofNat_le)

theorem scaledDown_of_nonneg (fuel : ℕ) (x : Binary64) {e : ℤ} (h : 0 ≤ e) :
    scaledDown fuel x e = (x, e) := by
  cases fuel with
  | zero => rfl
  | succ fuel =>
    rw [scaledDown, if_neg]
    rw [Bool.and_eq_true, decide_eq_true_eq, largestPower]
    omega

theorem scaledDown_neg (fuel : ℕ) (x : Binary64) {e : ℤ} (h : e < 0) :
    (scaledDown fuel x e).2 < 0 := by
  induction fuel generalizing x e with
  | zero => exact h
  | succ fuel ih =>
    rw [scaledDown]
    split
    · rename_i hdeep
      rw [Bool.and_eq_true, decide_eq_true_eq, largestPower] at hdeep
      exact ih _ (by rw [largestPower]; omega)
    · exact h

/-- Division keeps every number in range. -/
theorem isSome_scaled?_of_neg (significand : ℕ) {e : ℤ} (h : e < 0) :
    (scaled? significand e).isSome := by
  have hdown := scaledDown_neg 2 (Binary64.ofNat significand) h
  rw [scaled?]
  generalize scaledDown 2 (Binary64.ofNat significand) e = found at hdown
  obtain ⟨x, power⟩ := found
  dsimp only at hdown ⊢
  rw [if_pos hdown]
  split <;> rfl

/-- Up to here the three roundings cannot carry a product out of range. -/
def safeBound : ℕ :=
  17976931348623154 * 10 ^ 292

theorem mul_sq_lt {safe bound : ℕ} (h : safe * (2 ^ 53 + 1) ^ 2 < bound * (2 ^ 53) ^ 2) :
    (safe : ℚ) * (1 + 1 / 2 ^ 53) ^ 2 < bound := by
  have hsquare : (1 + 1 / 2 ^ 53 : ℚ) ^ 2 = (2 ^ 53 + 1) ^ 2 / (2 ^ 53) ^ 2 := by norm_num
  rw [hsquare, ← mul_div_assoc, div_lt_iff₀ (by positivity)]
  exact_mod_cast h

/-- Below the safe bound, no product is out of range. -/
theorem isFinite_mul_of_le {c n : ℕ} (hc : c < overflowBound) (hn : 10 ^ n < overflowBound)
    (h : c * 10 ^ n ≤ safeBound) :
    ((Binary64.ofNat c).mul (Binary64.ofNat (10 ^ n))).isFinite := by
  have hnonneg (x : Binary64) : 0 ≤ x.value :=
    mul_nonneg (Nat.cast_nonneg _) (Binary64.two_zpow_pos _).le
  have hproduct : (c : ℚ) * (10 ^ n : ℕ) ≤ safeBound := by
    rw [← Nat.cast_mul]
    exact Nat.cast_le.mpr h
  apply isFinite_mul
  calc
    (Binary64.ofNat c).value * (Binary64.ofNat (10 ^ n)).value
        ≤ c * (1 + 1 / 2 ^ 53) * ((10 ^ n : ℕ) * (1 + 1 / 2 ^ 53)) :=
      mul_le_mul (value_ofNat_le hc) (value_ofNat_le hn) (hnonneg _)
        (mul_nonneg (Nat.cast_nonneg c) (by norm_num))
    _ = c * (10 ^ n : ℕ) * (1 + 1 / 2 ^ 53) ^ 2 := by ring
    _ ≤ safeBound * (1 + 1 / 2 ^ 53) ^ 2 := mul_le_mul_of_nonneg_right hproduct (sq_nonneg _)
    _ < overflowBound := mul_sq_lt (by decide +kernel)

/-- Of the decimals in range, three are above the bound. -/
theorem coefficient_of_not_safe {c n : ℕ} (hdigits : c < 10 ^ 17)
    (hvalue : c * 10 ^ n ≤ 17976931348623157 * 10 ^ 292) (habove : ¬ c * 10 ^ n ≤ safeBound) :
    n = 292 ∧ (c = 17976931348623155 ∨ c = 17976931348623156 ∨ c = 17976931348623157) := by
  have hn : n = 292 := by
    by_contra hne
    have hoverflow := hvalue.trans (by decide +kernel : _ ≤ overflowBound)
    have hcoarse := Decimal.mul_pow_le_of_ne hdigits.le hne hoverflow
    exact habove (hcoarse.trans (by decide +kernel))
  subst hn
  have hlow : 17976931348623154 < c :=
    Nat.lt_of_not_le fun hle ↦ habove (Nat.mul_le_mul_right _ hle)
  have hhigh : c ≤ 17976931348623157 := by
    by_contra hgreater
    have hmore : 17976931348623158 * 10 ^ 292 ≤ c * 10 ^ 292 :=
      Nat.mul_le_mul_right _ (Nat.lt_of_not_le hgreater)
    exact absurd (hmore.trans hvalue) (by decide +kernel)
  exact ⟨rfl, by omega⟩

section inRange

variable {d : Decimal} (h : d.InRange)

include h

/-- A shortest decimal has an exponent within reach. -/
theorem exponent_le_of_inRange : d.exponent ≤ (largestPower : ℤ) := by
  have hone : (1 : ℚ) ≤ d.coefficient := Nat.one_le_cast.mpr h.pos
  have hlt : (10 : ℚ) ^ d.exponent < 10 ^ (17 + 292 : ℤ) := by
    calc
      (10 : ℚ) ^ d.exponent ≤ d.value := le_mul_of_one_le_left (Decimal.ten_zpow_pos _).le hone
      _ ≤ Decimal.greatest.value := h.value_le
      _ < 10 ^ (17 : ℤ) * 10 ^ (292 : ℤ) :=
        mul_lt_mul_of_pos_right (by norm_num [Decimal.greatest]) (Decimal.ten_zpow_pos 292)
      _ = 10 ^ (17 + 292 : ℤ) := (zpow_add₀ (by norm_num) ..).symm
  exact Int.lt_add_one_iff.mp ((zpow_lt_zpow_iff_right₀ (by norm_num)).mp hlt)

/-- A decimal in range is read as a finite number. -/
theorem isSome_scaled?_of_inRange : (scaled? d.coefficient d.exponent).isSome := by
  have hle := exponent_le_of_inRange h
  obtain ⟨hpos, hdigits, hvalue, -⟩ := h
  obtain ⟨c, e⟩ := d
  dsimp only at hpos hdigits hle ⊢
  rcases Int.lt_or_le e 0 with hnegative | hnatural
  · exact isSome_scaled?_of_neg c hnegative
  · obtain ⟨n, rfl⟩ := Int.eq_ofNat_of_zero_le hnatural
    rw [Decimal.value_le_greatest_iff] at hvalue
    by_cases hsafe : c * 10 ^ n ≤ safeBound
    · have hten : 10 ^ n < overflowBound :=
        Nat.lt_of_le_of_lt (Nat.pow_le_pow_right (by decide) (Int.ofNat_le.mp hle))
          (by decide +kernel)
      have hc : c < overflowBound := hdigits.trans (by decide +kernel)
      have hfinite := isFinite_mul_of_le hc hten hsafe
      rw [scaled?, scaledDown_of_nonneg _ _ hnatural]
      dsimp only
      rw [if_neg (Int.not_lt.mpr hnatural), if_neg (Int.not_lt.mpr hle), Int.natAbs_natCast,
        Nat.pow_eq, hfinite]
      split <;> rfl
    · obtain ⟨rfl, rfl | rfl | rfl⟩ := coefficient_of_not_safe hdigits hvalue hsafe
      · decide +kernel
      · decide +kernel
      · decide +kernel

end inRange

/-! ## The parts of a text -/

section digits

variable {negative : Bool} {digits : List Char} {n : ℕ}

/-- All digits behind the point are gathered in the significand. -/
theorem fractionDigits_digits (h : AllDigits digits) (hfits : gathered digits n < 2 ^ 64) (e : ℤ)
    (count : ℕ) (rest : Bytes) :
    fractionDigits negative n e count (Utf8.encodeChars digits ++ rest) =
      fractionDigits negative (gathered digits n) e (count + digits.length) rest := by
  induction digits generalizing n count with
  | nil => rfl
  | cons c digits ih =>
    obtain ⟨d, hd, -, hbytes, hvalue, hdigits⟩ := h.step
    rw [hvalue] at hfits ⊢
    have hfits' : fitsSignificand n (digitValue (digitByte d)) := by
      rw [digitValue_digitByte hd]
      exact decide_eq_true (Nat.lt_of_le_of_lt (le_gathered digits _) hfits)
    rw [hbytes, List.cons_append, fractionDigits, if_pos (isDigit_digitByte hd), if_pos hfits',
      digitValue_digitByte hd, ih hdigits hfits, List.length_cons, Nat.add_right_comm,
      Nat.add_assoc]

/-- All digits of an exponent are gathered. -/
theorem exponentDigits_digits (h : AllDigits digits) (hfits : gathered digits n ≤ exponentLimit)
    (significand : ℕ) (start : ℤ) (down : Bool) (rest : Bytes) :
    exponentDigits negative significand start down n (Utf8.encodeChars digits ++ rest) =
      exponentDigits negative significand start down (gathered digits n) rest := by
  induction digits generalizing n with
  | nil => rfl
  | cons c digits ih =>
    obtain ⟨d, hd, -, hbytes, hvalue, hdigits⟩ := h.step
    rw [hvalue] at hfits ⊢
    rw [hbytes, List.cons_append, exponentDigits, if_pos (isDigit_digitByte hd),
      digitValue_digitByte hd, if_neg (Nat.not_lt.mpr ((le_gathered digits _).trans hfits)),
      ih hdigits hfits]

end digits

/-- The text of an exponent. -/
def markText : Option ℤ → List Char
  | none => []
  | some e => 'e' :: (if e < 0 then '-' else '+') :: Nat.toDigits 10 e.natAbs

structure NumeralParts where
  whole : List Char
  fraction : List Char
  exponent : Option ℤ

namespace NumeralParts

variable (parts : NumeralParts)

def text : List Char :=
  parts.whole ++ (if parts.fraction = [] then [] else '.' :: parts.fraction) ++
    markText parts.exponent

def significand : ℕ :=
  gathered (parts.whole ++ parts.fraction) 0

def scale : ℤ :=
  parts.exponent.getD 0 - parts.fraction.length

/-- The parts make up a double-precision number whose digits fit in 64 bits. -/
structure Legible : Prop where
  whole : IsWhole parts.whole
  fraction : AllDigits parts.fraction
  fits : parts.significand < 2 ^ 64
  reach : (parts.exponent.getD 0).natAbs + parts.fraction.length ≤ exponentLimit
  isDouble : parts.fraction ≠ [] ∨ parts.exponent.isSome

end NumeralParts

section marks

variable {negative : Bool} {significand : ℕ} {start : ℤ} {rest : Bytes}

theorem exponentDigits_end (hrest : EndsDigits rest) (down : Bool) (exponent : ℕ) :
    exponentDigits negative significand start down exponent rest =
      finish negative significand
        (if down then max (start - exponent) (-exponentLimit - 1)
          else min (start + exponent) exponentLimit) rest := by
  cases rest with
  | nil => rfl
  | cons b rest => rw [exponentDigits, if_neg (hrest b rfl)]

/-- The exponent is read in full, and combined with what the digits say. -/
theorem exponentPart_sign (hrest : EndsDigits rest) {e : ℤ}
    (hreach : start.natAbs + e.natAbs ≤ exponentLimit) :
    exponentPart negative significand start
        (Utf8.encodeChars ((if e < 0 then '-' else '+') :: Nat.toDigits 10 e.natAbs) ++ rest) =
      finish negative significand (start + e) rest := by
  have hlimit : e.natAbs ≤ exponentLimit := (Nat.le_add_left _ _).trans hreach
  have hlength : 0 < (Nat.toDigits 10 e.natAbs).length := Nat.length_toDigits_pos
  obtain ⟨c, more, hdigits⟩ := List.exists_cons_of_length_pos hlength
  have hall := hdigits ▸ allDigits_toDigits e.natAbs
  obtain ⟨d, hd, -, hbytes, hvalue, hmore⟩ := hall.step
  have hexponent : gathered more d = e.natAbs := by
    have hfirst := hvalue 0
    rw [← hdigits, gathered, Nat.ofDigitChars_ten_toDigits, Nat.zero_mul, Nat.zero_add] at hfirst
    exact hfirst.symm
  have hminus : Utf8.encodeChar '-' = ['-'.toUInt8] := rfl
  have hplus : Utf8.encodeChar '+' = ['+'.toUInt8] := rfl
  have hdown : exponentPart negative significand start ('-'.toUInt8 :: digitByte d ::
      (Utf8.encodeChars more ++ rest)) = exponentDigits negative significand start true d
        (Utf8.encodeChars more ++ rest) := by
    interval_cases d <;> rfl
  have hup : exponentPart negative significand start ('+'.toUInt8 :: digitByte d ::
      (Utf8.encodeChars more ++ rest)) = exponentDigits negative significand start false d
        (Utf8.encodeChars more ++ rest) := by
    interval_cases d <;> rfl
  have hread (down : Bool) : exponentDigits negative significand start down d
      (Utf8.encodeChars more ++ rest) = finish negative significand
        (if down then max (start - e.natAbs) (-exponentLimit - 1)
          else min (start + e.natAbs) exponentLimit) rest := by
    rw [exponentDigits_digits hmore (hexponent.trans_le hlimit), exponentDigits_end hrest,
      hexponent]
  rw [hdigits, Utf8.encodeChars_cons, hbytes]
  split
  · rw [hminus, List.singleton_append, List.cons_append, List.cons_append, hdown, hread, if_pos rfl,
      max_eq_left (by omega)]
    congr 1
    omega
  · rw [hplus, List.singleton_append, List.cons_append, List.cons_append, hup, hread,
      if_neg (by decide), min_eq_left (by omega)]
    congr 1
    omega

/-- An exponent that is written is added to that of the digits. -/
theorem exponentOrEnd_markText (hrest : Delimited rest) {exponent : Option ℤ}
    (hreach : start.natAbs + (exponent.getD 0).natAbs ≤ exponentLimit) :
    exponentOrEnd negative significand start (Utf8.encodeChars (markText exponent) ++ rest) =
      finish negative significand (start + exponent.getD 0) rest := by
  cases exponent with
  | none =>
    rw [Option.getD_none, add_zero]
    cases rest with
    | nil => rfl
    | cons b rest =>
      have hb : isDelimiter b := hrest
      rcases isDelimiter_iff.mp hb with rfl | rfl | rfl <;> rfl
  | some e =>
    have hmark : Utf8.encodeChar 'e' = ['e'.toUInt8] := rfl
    have hletter : isExponentMark 'e'.toUInt8 := by decide
    rw [markText, Utf8.encodeChars_cons, hmark, List.singleton_append, List.cons_append,
      exponentOrEnd, if_pos hletter]
    exact exponentPart_sign hrest.endsDigits hreach

theorem endsDigits_markText (hrest : Delimited rest) (exponent : Option ℤ) :
    EndsDigits (Utf8.encodeChars (markText exponent) ++ rest) := by
  cases exponent with
  | none => exact hrest.endsDigits
  | some e =>
    intro b hb
    obtain rfl := Option.mem_some.mp hb
    decide

theorem fractionDigits_end (hrest : EndsDigits rest) {count : ℕ} (hcount : count ≠ 0) :
    fractionDigits negative significand start count rest =
      exponentOrEnd negative significand (start - count) rest := by
  cases rest with
  | nil => rw [fractionDigits, if_neg hcount]
  | cons b rest => rw [fractionDigits, if_neg (hrest b rfl), if_neg hcount]

end marks

/-- A text made of legible parts is read up to its end. -/
theorem numeral_text {parts : NumeralParts} (h : parts.Legible) {negative : Bool} {rest : Bytes}
    (hrest : Delimited rest) :
    numeral negative (Utf8.encodeChars parts.text ++ rest) =
      finish negative parts.significand parts.scale rest := by
  obtain ⟨whole, fraction, exponent⟩ := parts
  obtain ⟨hwhole, hfraction, hfits, hreach, hdouble⟩ := h
  simp only [NumeralParts.text, NumeralParts.significand, NumeralParts.scale] at *
  rw [gathered, Nat.ofDigitChars_append] at hfits ⊢
  have hsignificand : gathered whole 0 < 2 ^ 64 := Nat.lt_of_le_of_lt (le_gathered _ _) hfits
  have hends := endsDigits_markText hrest exponent
  by_cases hempty : fraction = []
  · subst hempty
    obtain ⟨e, rfl⟩ := Option.isSome_iff_exists.mp (hdouble.resolve_left fun hne ↦ hne rfl)
    have hend : integerEnd negative (gathered whole 0)
        (Utf8.encodeChars (markText (some e)) ++ rest) =
        exponentOrEnd negative (gathered whole 0) 0
          (Utf8.encodeChars (markText (some e)) ++ rest) := rfl
    rw [if_pos rfl, List.append_nil, Utf8.encodeChars_append, List.append_assoc,
      numeral_whole hwhole hsignificand hends, hend,
      exponentOrEnd_markText hrest (by simpa using hreach)]
    simp
  · have hpoint : EndsDigits ('.'.toUInt8 :: (Utf8.encodeChars fraction ++
        (Utf8.encodeChars (markText exponent) ++ rest))) := by
      intro b hb
      obtain rfl := Option.mem_some.mp hb
      decide
    have hbytes : Utf8.encodeChar '.' = ['.'.toUInt8] := rfl
    rw [if_neg hempty, Utf8.encodeChars_append, Utf8.encodeChars_append, Utf8.encodeChars_cons,
      hbytes, List.singleton_append, List.append_assoc, List.append_assoc, List.cons_append,
      numeral_whole hwhole hsignificand hpoint, integerEnd, if_pos rfl,
      fractionDigits_digits hfraction hfits,
      fractionDigits_end hends (by simpa using hempty), exponentOrEnd_markText hrest (by omega)]
    congr 1
    omega

/-- The text is made of legible parts, and what they say can be scaled. -/
def IsReadable (text : List Char) : Prop :=
  ∃ parts : NumeralParts, parts.text = text ∧ parts.Legible ∧
    (scaled? parts.significand parts.scale).isSome

/-- Without an exponent, the digits behind the point make the scale negative. -/
theorem isReadable_point {whole fraction : List Char} (hwhole : IsWhole whole)
    (hfraction : AllDigits fraction) (hne : fraction ≠ [])
    (hfits : gathered (whole ++ fraction) 0 < 2 ^ 64)
    (hlength : fraction.length ≤ exponentLimit) : IsReadable (whole ++ '.' :: fraction) := by
  have hpos := List.length_pos_iff.mpr hne
  refine ⟨⟨whole, fraction, none⟩, ?_, ⟨hwhole, hfraction, hfits, ?_, .inl hne⟩,
    isSome_scaled?_of_neg _ ?_⟩
  · rw [NumeralParts.text, if_neg hne, markText, List.append_nil]
  · change 0 + fraction.length ≤ exponentLimit
    omega
  · change (0 : ℤ) - fraction.length < 0
    omega

section layout

variable {d : Decimal} (h : d.InRange) {leading : ℤ}

include h

/-- The digits of a shortest decimal fit in the significand, and the first is not zero. -/
theorem digits_of_inRange :
    ∃ c rest, Nat.toDigits 10 d.coefficient = c :: rest ∧ c ≠ '0' ∧ AllDigits (c :: rest) ∧
      gathered (c :: rest) 0 = d.coefficient ∧ rest.length ≤ 16 ∧
      d.coefficient < 10 ^ (rest.length + 1) := by
  obtain ⟨c, rest, hdigits, hc⟩ := toDigits_eq_cons h.pos
  have hlength := (Nat.length_toDigits_le_iff (by decide) (by decide)).mpr h.digits
  have hcount : (Nat.toDigits 10 d.coefficient).length ≤ rest.length + 1 := by
    rw [hdigits, List.length_cons]
  refine ⟨c, rest, hdigits, hc, hdigits ▸ allDigits_toDigits _, ?_, ?_,
    (Nat.length_toDigits_le_iff (by decide) (Nat.succ_pos _)).mp hcount⟩
  · rw [← hdigits]
    exact Nat.ofDigitChars_ten_toDigits
  · rw [hdigits, List.length_cons] at hlength
    omega

/-- Zeros behind the point lead the digits. -/
theorem isReadable_below {zeros : ℕ} (hzeros : zeros ≤ 4) :
    IsReadable ('0' :: '.' ::
      (List.replicate zeros '0' ++ Nat.toDigits 10 d.coefficient)) := by
  have hfits := h.digits
  have hlimit : exponentLimit = 2147483647 := rfl
  obtain ⟨c, rest, hdigits, -, hall, hvalue, hlength, -⟩ := digits_of_inRange h
  have hbelow : gathered ('0' :: (List.replicate zeros '0' ++ c :: rest)) 0 = d.coefficient := by
    rw [← hvalue, gathered, Nat.ofDigitChars_cons, Nat.ofDigitChars_append,
      Nat.ofDigitChars_replicate_zero]
    rfl
  rw [hdigits]
  apply isReadable_point isWhole_zero ((allDigits_replicate zeros).append hall) (by simp)
  · rw [List.singleton_append, hbelow]
    omega
  · rw [List.length_append, List.length_replicate, List.length_cons]
    omega

/-- Zeros follow the digits, and one behind the point. -/
theorem isReadable_padded {zeros : ℕ}
    (hzeros : (Nat.toDigits 10 d.coefficient).length + zeros ≤ 16) :
    IsReadable (Nat.toDigits 10 d.coefficient ++ List.replicate zeros '0' ++ ['.', '0']) := by
  obtain ⟨c, rest, hdigits, hc, hall, hvalue, -, hcount⟩ := digits_of_inRange h
  rw [hdigits, List.length_cons] at hzeros
  rw [hdigits]
  have hpadded : 10 ^ zeros * d.coefficient < 10 ^ 16 := by
    calc
      10 ^ zeros * d.coefficient < 10 ^ zeros * 10 ^ (rest.length + 1) :=
        Nat.mul_lt_mul_of_pos_left hcount (Nat.pow_pos (by decide))
      _ = 10 ^ (zeros + (rest.length + 1)) := (pow_add ..).symm
      _ ≤ 10 ^ 16 := Nat.pow_le_pow_right (by decide) (by omega)
  have hgathered : gathered (c :: rest ++ List.replicate zeros '0' ++ ['0']) 0 =
      10 * (10 ^ zeros * d.coefficient) := by
    rw [← hvalue, gathered, Nat.ofDigitChars_append, Nat.ofDigitChars_append,
      Nat.ofDigitChars_replicate_zero]
    rfl
  apply isReadable_point (isWhole_cons (hall.append (allDigits_replicate zeros)) hc)
    isWhole_zero.digits (List.cons_ne_nil _ _)
  · exact hgathered.trans_lt (by omega)
  · decide

/-- The point stands between the digits. -/
theorem isReadable_between {place : ℕ}
    (hplace : place + 1 < (Nat.toDigits 10 d.coefficient).length) :
    IsReadable ((Nat.toDigits 10 d.coefficient).take (place + 1) ++
      '.' :: (Nat.toDigits 10 d.coefficient).drop (place + 1)) := by
  have hfits := h.digits
  have hlimit : exponentLimit = 2147483647 := rfl
  obtain ⟨c, rest, hdigits, hc, hall, hvalue, hlength, -⟩ := digits_of_inRange h
  rw [hdigits, List.length_cons] at hplace
  have hsplit : c :: rest.take place ++ rest.drop place = c :: rest := by
    rw [List.cons_append, List.take_append_drop]
  have hlater : (rest.drop place).length = rest.length - place := List.length_drop
  rw [hdigits, List.take_succ_cons, List.drop_succ_cons]
  apply isReadable_point (isWhole_cons (fun c' hc' ↦ hall c' ?_) hc)
    (fun c' hc' ↦ hall c' ?_) (List.ne_nil_of_length_pos (by omega))
  · rw [hsplit, hvalue]
    omega
  · omega
  · rw [← hsplit]
    exact List.mem_append_left _ hc'
  · rw [← hsplit]
    exact List.mem_append_right _ hc'

/-- Text with the point among its digits is read. -/
theorem isReadable_positionalText (hlow : -5 ≤ leading) (hhigh : leading ≤ 15) :
    IsReadable (numberLayout.positionalText (Nat.toDigits 10 d.coefficient) leading) := by
  rw [DecimalLayout.positionalText]
  split
  · exact isReadable_below h (by omega)
  · dsimp only
    split
    · exact isReadable_padded h (by omega)
    · exact isReadable_between h (by omega)

/-- Text with an exponent is read. -/
theorem isReadable_exponentText
    (hleading : leading = d.exponent + ((Nat.toDigits 10 d.coefficient).length - 1 : ℕ)) :
    IsReadable (DecimalLayout.exponentText (Nat.toDigits 10 d.coefficient) leading) := by
  have hupper := exponent_le_of_inRange h
  have hlower := h.exponent
  have hfits := h.digits
  have hlimit : exponentLimit = 2147483647 := rfl
  have hpower : largestPower = 308 := rfl
  obtain ⟨c, rest, hdigits, hc, hall, hvalue, hlength, -⟩ := digits_of_inRange h
  rw [hdigits, List.length_cons, Nat.add_sub_cancel] at hleading
  obtain ⟨hdigit, hrest⟩ := List.forall_mem_cons.mp hall
  have hscale : leading - rest.length = d.exponent := by omega
  refine ⟨⟨[c], rest, some leading⟩, ?_,
    ⟨isWhole_cons (List.forall_mem_singleton.mpr hdigit) hc, hrest, ?_, ?_, .inr rfl⟩, ?_⟩
  · rw [hdigits, DecimalLayout.exponentText, NumeralParts.text]
    cases rest <;> simp [markText]
  · rw [NumeralParts.significand, List.singleton_append, hvalue]
    omega
  · change leading.natAbs + rest.length ≤ _
    omega
  · rw [NumeralParts.significand, NumeralParts.scale, List.singleton_append, hvalue,
      Option.getD_some, hscale]
    exact isSome_scaled?_of_inRange h

end layout

/-- Every finite number is written so that it is read as some number. -/
theorem isReadable_magnitudeText {x : Binary64} (h : x.isFinite) :
    IsReadable (numberLayout.magnitudeText x) := by
  rw [DecimalLayout.magnitudeText]
  split
  · exact isReadable_point isWhole_zero isWhole_zero.digits (List.cons_ne_nil _ _) (by decide)
      (by decide)
  · rename_i hnonzero
    have hrange := Binary64.inRange_shortest h hnonzero numberLayout.tie
    dsimp only
    split
    · rename_i hpositional
      rw [DecimalLayout.isPositional, numberLayout, Bool.and_eq_true, decide_eq_true_eq,
        decide_eq_true_eq] at hpositional
      exact isReadable_positionalText hrange hpositional.1 hpositional.2
    · exact isReadable_exponentText hrange rfl

/-- Text that consists of legible parts is read as some number. -/
theorem IsReadable.numeral_eq_ok {text : List Char} (h : IsReadable text) (negative : Bool) :
    ∃ n, ∀ rest, Delimited rest →
      numeral negative (Utf8.encodeChars text ++ rest) = .ok (n, rest) := by
  obtain ⟨parts, rfl, hlegible, hscaled⟩ := h
  obtain ⟨x, hx⟩ := Option.isSome_iff_exists.mp hscaled
  refine ⟨.double (if negative then x.neg else x), ?_⟩
  intro rest hrest
  rw [numeral_text hlegible hrest, finish, hx]

theorem IsReadable.exists_digitByte {text : List Char} (h : IsReadable text) :
    ∃ d < 10, ∃ rest, Utf8.encodeChars text = digitByte d :: rest := by
  obtain ⟨parts, rfl, hlegible, -⟩ := h
  obtain ⟨d, hd, rest, hrest⟩ := hlegible.whole.exists_digitByte
  rw [NumeralParts.text, List.append_assoc, Utf8.encodeChars_append, hrest, List.cons_append]
  exact ⟨d, hd, _, rfl⟩

end PathStore.Json
