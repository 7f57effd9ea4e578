import Mathlib.Algebra.Group.Nat.Defs
import Mathlib.Data.Nat.Basic
import PathStore.Json.Numeral
import PathStore.Json.Shape
import PathStore.Json.Text
import PathStore.Proofs.Text.Utf8

/-!
# Reading an integer that was written

The reader gathers digits in a number as long as it has 64 bits, and gathering the digits of a
number gives that number.  What follows must not go on with it; behind a value in a compact text
that is a comma, a closing bracket or the end.
-/

namespace PathStore.Json

def isDelimiter (b : UInt8) : Bool :=
  b = ','.toUInt8 || b = ']'.toUInt8 || b = '}'.toUInt8

theorem isDelimiter_iff {b : UInt8} :
    isDelimiter b ↔ b = ','.toUInt8 ∨ b = ']'.toUInt8 ∨ b = '}'.toUInt8 := by
  rw [isDelimiter, Bool.or_eq_true, Bool.or_eq_true, decide_eq_true_eq, decide_eq_true_eq,
    decide_eq_true_eq, or_assoc]

/-- The text before ends here or goes on with a delimiter. -/
def Delimited (rest : Bytes) : Prop :=
  rest.head?.all isDelimiter

def digitByte (d : Nat) : UInt8 :=
  UInt8.ofNat (0x30 + d)

theorem encodeChar_digitChar {d : Nat} (h : d < 10) :
    Utf8.encodeChar (Nat.digitChar d) = [digitByte d] := by
  rw [Utf8.encodeChar, Nat.toNat_digitChar_of_lt_ten h, if_pos (by omega)]
  rfl

theorem toNat_digitByte {d : Nat} (h : d < 10) : (digitByte d).toNat = 0x30 + d := by
  rw [digitByte, UInt8.toNat_ofNat', Nat.mod_eq_of_lt (by omega)]

theorem isDigit_iff {b : UInt8} : isDigit b ↔ 0x30 ≤ b.toNat ∧ b.toNat ≤ 0x39 := by
  rw [isDigit, Bool.and_eq_true, decide_eq_true_eq, decide_eq_true_eq, UInt8.le_iff_toNat_le,
    UInt8.le_iff_toNat_le]
  rfl

theorem isDigit_digitByte {d : Nat} (h : d < 10) : isDigit (digitByte d) := by
  rw [isDigit_iff, toNat_digitByte h]
  omega

theorem digitValue_digitByte {d : Nat} (h : d < 10) : digitValue (digitByte d) = d := by
  have hzero : '0'.toNat = 0x30 := rfl
  rw [digitValue, toNat_digitByte h, hzero]
  omega

theorem not_isDigit_of_isDelimiter {b : UInt8} (h : isDelimiter b) : ¬ isDigit b := by
  rcases isDelimiter_iff.mp h with rfl | rfl | rfl <;> decide

def EndsDigits (rest : Bytes) : Prop :=
  ∀ b ∈ rest.head?, ¬ isDigit b

theorem EndsDigits.any_head? {rest : Bytes} (h : EndsDigits rest) :
    rest.head?.any isDigit = false := by
  cases rest with
  | nil => rfl
  | cons b rest => exact Bool.eq_false_iff.mpr (h b rfl)

/-- What follows a value does not go on its digits. -/
theorem Delimited.endsDigits {rest : Bytes} (h : Delimited rest) : EndsDigits rest := by
  intro b hb
  rw [Delimited, hb] at h
  exact not_isDigit_of_isDelimiter h

def AllDigits (digits : List Char) : Prop :=
  ∀ c ∈ digits, c.isDigit

/-- The decimal text of a number has nothing but digits. -/
theorem allDigits_toDigits (n : ℕ) : AllDigits (Nat.toDigits 10 n) :=
  fun _ ↦ Nat.isDigit_of_mem_toDigits (by decide) (by decide)

theorem allDigits_replicate (count : ℕ) : AllDigits (List.replicate count '0') :=
  fun _ h ↦ List.eq_of_mem_replicate h ▸ rfl

theorem AllDigits.append {digits others : List Char} (h : AllDigits digits)
    (h' : AllDigits others) : AllDigits (digits ++ others) :=
  fun c hc ↦ (List.mem_append.mp hc).elim (h c) (h' c)

/-- The number behind `n` as a prefix of its digits. -/
abbrev gathered (digits : List Char) (n : ℕ) : ℕ :=
  Nat.ofDigitChars 10 digits n

theorem le_gathered (digits : List Char) (n : ℕ) : n ≤ gathered digits n := by
  rw [gathered, Nat.ofDigitChars_eq_ofDigitChars_zero]
  exact Nat.le_add_right_of_le (Nat.le_mul_of_pos_left n (Nat.pow_pos (by decide)))

theorem exists_digitChar {c : Char} (h : c.isDigit) : ∃ d < 10, Nat.digitChar d = c := by
  obtain ⟨hlow, hhigh⟩ := Char.isDigit_iff_toNat.mp h
  have hzero : '0'.toNat = 0x30 := rfl
  have hnine : '9'.toNat = 0x39 := rfl
  refine ⟨c.toNat - 0x30, by omega, Char.toNat_inj.mp ?_⟩
  rw [Nat.toNat_digitChar_of_lt_ten (by omega)]
  omega

/-- A digit is one byte, and reading it extends the number by its value. -/
theorem AllDigits.step {c : Char} {digits : List Char} (h : AllDigits (c :: digits)) :
    ∃ d < 10, Nat.digitChar d = c ∧
      Utf8.encodeChars (c :: digits) = digitByte d :: Utf8.encodeChars digits ∧
      (∀ n, gathered (c :: digits) n = gathered digits (n * 10 + d)) ∧ AllDigits digits := by
  obtain ⟨hc, hdigits⟩ := List.forall_mem_cons.mp h
  obtain ⟨d, hd, rfl⟩ := exists_digitChar hc
  refine ⟨d, hd, rfl, ?_, ?_, hdigits⟩
  · rw [Utf8.encodeChars_cons, encodeChar_digitChar hd]
    rfl
  · intro n
    rw [gathered, Nat.ofDigitChars_cons_digitChar_of_lt_ten hd, Nat.mul_comm]

theorem integerDigits_digitByte {negative : Bool} {n d : Nat} (hd : d < 10)
    (hfits : n * 10 + d < 2 ^ 64) (rest : Bytes) :
    integerDigits negative n (digitByte d :: rest) = integerDigits negative (n * 10 + d) rest := by
  have hfits' : fitsSignificand n (digitValue (digitByte d)) := by
    rw [digitValue_digitByte hd]
    exact decide_eq_true hfits
  rw [integerDigits, if_pos (isDigit_digitByte hd), if_pos hfits', digitValue_digitByte hd]

/-- All digits before the point are gathered in the significand. -/
theorem integerDigits_digits {negative : Bool} {digits : List Char} {n : ℕ} (h : AllDigits digits)
    (hfits : gathered digits n < 2 ^ 64) (rest : Bytes) :
    integerDigits negative n (Utf8.encodeChars digits ++ rest) =
      integerDigits negative (gathered digits n) rest := by
  induction digits generalizing n with
  | nil => rfl
  | cons c digits ih =>
    obtain ⟨d, hd, -, hbytes, hvalue, hdigits⟩ := h.step
    rw [hvalue] at hfits ⊢
    rw [hbytes, List.cons_append, integerDigits_digitByte hd
      (Nat.lt_of_le_of_lt (le_gathered digits _) hfits), ih hdigits hfits]

/-- The digits before the point: at least one, and no zero leads others. -/
structure IsWhole (whole : List Char) : Prop where
  digits : AllDigits whole
  leading : ∃ c rest, whole = c :: rest ∧ (c = '0' → rest = [])

/-- The whole part is read, whatever may follow it. -/
theorem numeral_whole {negative : Bool} {whole : List Char} (h : IsWhole whole)
    (hfits : gathered whole 0 < 2 ^ 64) {rest : Bytes} (hrest : EndsDigits rest) :
    numeral negative (Utf8.encodeChars whole ++ rest) =
      integerEnd negative (gathered whole 0) rest := by
  obtain ⟨hdigits, c, more, rfl, hleading⟩ := h
  obtain ⟨d, hd, hc, hbytes, hvalue, hmore⟩ := hdigits.step
  rw [hvalue, Nat.zero_mul, Nat.zero_add] at hfits ⊢
  rw [hbytes, List.cons_append, numeral]
  rcases Nat.eq_zero_or_pos d with rfl | hpos
  · have hzero : digitByte 0 = '0'.toUInt8 := rfl
    obtain rfl := hleading hc.symm
    rw [if_pos hzero, Utf8.encodeChars, List.flatMap_nil, List.nil_append, hrest.any_head?]
    rfl
  · have hzero : digitByte d ≠ '0'.toUInt8 := by
      intro h
      have heq := congrArg UInt8.toNat h
      rw [toNat_digitByte hd] at heq
      have : ('0'.toUInt8).toNat = 0x30 := rfl
      omega
    rw [if_neg hzero, if_pos (isDigit_digitByte hd), digitValue_digitByte hd,
      integerDigits_digits hmore hfits]
    cases rest with
    | nil => rfl
    | cons b rest => rw [integerDigits, if_neg (hrest b rfl)]

theorem toDigits_eq_cons {n : ℕ} (h : 0 < n) :
    ∃ c rest, Nat.toDigits 10 n = c :: rest ∧ c ≠ '0' := by
  induction n using Nat.strongRecOn with
  | _ n ih =>
    by_cases hn : n < 10
    · have hne := mt Nat.digitChar_eq_zero.mp (Nat.ne_of_gt h)
      exact ⟨n.digitChar, [], Nat.toDigits_of_lt_base hn, hne⟩
    · obtain ⟨c, rest, hdigits, hc⟩ := ih (n / 10) (by omega) (by omega)
      refine ⟨c, rest ++ [(n % 10).digitChar], ?_, hc⟩
      rw [Nat.toDigits_of_base_le (by decide) (Nat.le_of_not_lt hn), hdigits, List.cons_append]

theorem isWhole_cons {c : Char} {rest : List Char} (h : AllDigits (c :: rest)) (hc : c ≠ '0') :
    IsWhole (c :: rest) :=
  ⟨h, c, rest, rfl, fun hzero ↦ absurd hzero hc⟩

theorem isWhole_zero : IsWhole ['0'] :=
  ⟨List.forall_mem_singleton.mpr rfl, '0', [], rfl, fun _ ↦ rfl⟩

theorem isWhole_toDigits (n : ℕ) : IsWhole (Nat.toDigits 10 n) := by
  rcases Nat.eq_zero_or_pos n with rfl | hpos
  · exact isWhole_zero
  · obtain ⟨c, rest, hdigits, hc⟩ := toDigits_eq_cons hpos
    rw [hdigits]
    exact isWhole_cons (hdigits ▸ allDigits_toDigits n) hc

theorem IsWhole.exists_digitByte {whole : List Char} (h : IsWhole whole) :
    ∃ d < 10, ∃ rest, Utf8.encodeChars whole = digitByte d :: rest := by
  obtain ⟨hdigits, c, more, rfl, -⟩ := h
  obtain ⟨d, hd, -, hbytes, -⟩ := hdigits.step
  exact ⟨d, hd, _, hbytes⟩

theorem integerEnd_of_delimited {negative : Bool} {n : Nat} {rest : Bytes} (h : Delimited rest) :
    integerEnd negative n rest = .ok (integerNumber negative n, rest) := by
  cases rest with
  | nil => rfl
  | cons b rest =>
    have hb : isDelimiter b := h
    rcases isDelimiter_iff.mp hb with rfl | rfl | rfl <;> rfl

/-- A natural number is read back. -/
theorem numeral_natural {negative : Bool} {n : Nat} (hfits : n < 2 ^ 64) {rest : Bytes}
    (h : Delimited rest) :
    numeral negative (Utf8.encodeChars (Nat.toDigits 10 n) ++ rest) =
      .ok (integerNumber negative n, rest) := by
  have hvalue : gathered (Nat.toDigits 10 n) 0 = n := Nat.ofDigitChars_ten_toDigits
  have hfits' := Nat.lt_of_le_of_lt (Nat.le_of_eq hvalue) hfits
  rw [numeral_whole (isWhole_toDigits n) hfits' h.endsDigits, hvalue, integerEnd_of_delimited h]

theorem integerNumber_false (n : Nat) : integerNumber false n = .integer n :=
  rfl

theorem integerNumber_true {n : Nat} (hpos : 0 < n) (hle : n ≤ 2 ^ 63) :
    integerNumber true n = .integer (-n) := by
  rw [integerNumber, if_neg (by decide), if_neg]
  rw [Bool.or_eq_true, decide_eq_true_eq, decide_eq_true_eq, Nat.pow_eq]
  omega

end PathStore.Json
