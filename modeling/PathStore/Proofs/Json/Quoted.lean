import Mathlib.Tactic.IntervalCases
import PathStore.Json.Quoted
import PathStore.Json.Text
import PathStore.Proofs.Text.Utf8

/-!
# Reading a string that was written

A character is written either as it is, in one or more bytes none of which means anything to the
reader, or as an escape, which the reader takes in one step.  Either way the reader has gained the
bytes of the character and has used no more steps than the text has bytes.
-/

namespace PathStore.Json

def IsVerbatim (b : UInt8) : Prop :=
  b ≠ '"'.toUInt8 ∧ b ≠ '\\'.toUInt8 ∧ ¬ b < 0x20

theorem isVerbatim_iff {b : UInt8} :
    IsVerbatim b ↔ b.toNat ≠ 0x22 ∧ b.toNat ≠ 0x5C ∧ 0x20 ≤ b.toNat := by
  have hquote : ('"'.toUInt8).toNat = 0x22 := rfl
  have hbackslash : ('\\'.toUInt8).toNat = 0x5C := rfl
  rw [IsVerbatim, ne_eq, ne_eq, ← UInt8.toNat_inj, ← UInt8.toNat_inj, UInt8.lt_iff_toNat_lt,
    Nat.not_lt, hquote, hbackslash]
  rfl

/-- The bytes of a character that is not escaped stand for themselves. -/
theorem isVerbatim_of_mem_encodeChar {c : Char} (hquote : c ≠ '"') (hbackslash : c ≠ '\\')
    (hcontrol : ¬ c.toNat < 0x20) {b : UInt8} (h : b ∈ Utf8.encodeChar c) : IsVerbatim b := by
  have hq : c.toNat ≠ 0x22 := by
    intro heq
    exact hquote (Char.toNat_inj.mp heq)
  have hb : c.toNat ≠ 0x5C := by
    intro heq
    exact hbackslash (Char.toNat_inj.mp heq)
  have hv := Utf8.toNat_valid c
  rw [isVerbatim_iff]
  rw [Utf8.encodeChar] at h
  generalize c.toNat = n at *
  split at h
  · obtain rfl := List.mem_singleton.mp h
    rw [UInt8.toNat_ofNat']
    omega
  all_goals
    -- Every byte of a longer sequence is above the characters with a meaning.
    have habove : 0x80 ≤ b.toNat := by
      split_ifs at h <;> simp only [List.mem_cons, List.not_mem_nil, or_false] at h <;>
        rcases h with rfl | h <;>
        grind [Utf8.toNat_continuation, UInt8.toNat_ofNat']
    omega

/-- Bytes that stand for themselves are taken over. -/
theorem stringBytes_verbatim {bytes : Bytes} (h : ∀ b ∈ bytes, IsVerbatim b) {fuel : Bytes}
    (hfuel : bytes.length ≤ fuel.length) (done rest : Bytes) :
    stringBytes fuel done (bytes ++ rest) =
      stringBytes (fuel.drop bytes.length) (bytes.reverse ++ done) rest := by
  induction bytes generalizing fuel done with
  | nil => rfl
  | cons b bytes ih =>
    obtain ⟨⟨hquote, hbackslash, hcontrol⟩, hbytes⟩ := List.forall_mem_cons.mp h
    cases fuel with
    | nil => cases hfuel
    | cons step fuel =>
      rw [List.cons_append, stringBytes, if_neg hquote, if_neg hbackslash, if_neg hcontrol,
        ih hbytes (Nat.le_of_succ_le_succ hfuel), List.length_cons, List.drop_succ_cons,
        List.reverse_cons, List.append_assoc, List.singleton_append]

theorem encodeChar_hexDigit {d : Nat} (h : d < 16) :
    ∃ b, Utf8.encodeChar (Nat.digitChar d) = [b] ∧ Hex.digit? b = some d := by
  interval_cases d <;> exact ⟨_, rfl, rfl⟩

/-- The reader takes four digits for the number that was written with them. -/
theorem fourDigits_fixed {n : Nat} (h : n < 0x10000) (rest : Bytes) :
    fourDigits (Utf8.encodeChars (Hex.fixed 4 n) ++ rest) = .ok (n, rest) := by
  obtain ⟨a, ha, ha'⟩ := encodeChar_hexDigit (Nat.mod_lt (n / 0x1000) (by decide : 0 < 16))
  obtain ⟨b, hb, hb'⟩ := encodeChar_hexDigit (Nat.mod_lt (n / 0x100) (by decide : 0 < 16))
  obtain ⟨c, hc, hc'⟩ := encodeChar_hexDigit (Nat.mod_lt (n / 0x10) (by decide : 0 < 16))
  obtain ⟨d, hd, hd'⟩ := encodeChar_hexDigit (Nat.mod_lt n (by decide : 0 < 16))
  have hbytes : Utf8.encodeChars (Hex.fixed 4 n) = [a, b, c, d] := by
    simp [Hex.fixed, Utf8.encodeChars, Nat.div_div_eq_div_mul, ha, hb, hc, hd]
  have hvalue : Hex.value? [a, b, c, d] = some n := by
    simp only [Hex.value?, List.foldl_cons, List.foldl_nil, ha', hb', hc', hd']
    refine congrArg some ?_
    omega
  rw [hbytes]
  simp only [List.cons_append, List.nil_append, fourDigits, hvalue]

/-- An escape by number is read back. -/
theorem numberedChar_fixed {c : Char} (h : c.toNat < 0x20) (rest : Bytes) :
    numberedChar (Utf8.encodeChars (Hex.fixed 4 c.toNat) ++ rest) = .ok (c, rest) := by
  have hlow : isLowSurrogate c.toNat = false := by
    rw [isLowSurrogate, Bool.and_eq_false_iff, decide_eq_false_iff_not]
    exact .inl (by omega)
  have hhigh : isHighSurrogate c.toNat = false := by
    rw [isHighSurrogate, Bool.and_eq_false_iff, decide_eq_false_iff_not]
    exact .inl (by omega)
  rw [numberedChar, fourDigits_fixed (by omega)]
  simp [bind, Except.bind, hlow, hhigh]

/-- A character either stands for itself or is written as a backslash and an escape that the reader
takes for it. -/
theorem escapedChar_cases (c : Char) :
    (escapedChar c = [c] ∧ ∀ b ∈ Utf8.encodeChar c, IsVerbatim b) ∨
      ∃ escaped, Utf8.encodeChars (escapedChar c) = '\\'.toUInt8 :: escaped ∧
        ∀ rest, escape (escaped ++ rest) = .ok (Utf8.encodeChar c, rest) := by
  by_cases hquote : c = '"'
  · subst hquote
    exact .inr ⟨_, rfl, fun _ ↦ rfl⟩
  by_cases hbackslash : c = '\\'
  · subst hbackslash
    exact .inr ⟨_, rfl, fun _ ↦ rfl⟩
  rw [escapedChar, if_neg hquote, if_neg hbackslash]
  split_ifs with h h h h h hcontrol
  iterate 5
    · subst h
      exact .inr ⟨_, rfl, fun _ ↦ rfl⟩
  · right
    refine ⟨'u'.toUInt8 :: Utf8.encodeChars (Hex.fixed 4 c.toNat), rfl, ?_⟩
    intro rest
    rw [List.cons_append, escape, if_pos rfl, numberedChar_fixed hcontrol]
    rfl
  · exact .inl ⟨rfl, fun b hb ↦ isVerbatim_of_mem_encodeChar hquote hbackslash hcontrol hb⟩

/-- The escaped characters of a string are read back, in front of its closing quote. -/
theorem stringBytes_escapedChars (cs : List Char) {fuel : Bytes} (done rest : Bytes)
    (hfuel : (Utf8.encodeChars (cs.flatMap escapedChar)).length < fuel.length) :
    stringBytes fuel done
        (Utf8.encodeChars (cs.flatMap escapedChar) ++ '"'.toUInt8 :: rest) =
      .ok (done.reverse ++ Utf8.encodeChars cs, rest) := by
  induction cs generalizing fuel done with
  | nil =>
    cases fuel with
    | nil => cases hfuel
    | cons step fuel => simp [Utf8.encodeChars, stringBytes]
  | cons c cs ih =>
    have hsplit : Utf8.encodeChars ((c :: cs).flatMap escapedChar) =
        Utf8.encodeChars (escapedChar c) ++ Utf8.encodeChars (cs.flatMap escapedChar) := by
      rw [List.flatMap_cons, Utf8.encodeChars_append]
    have hdone : ((Utf8.encodeChar c).reverse ++ done).reverse ++ Utf8.encodeChars cs =
        done.reverse ++ Utf8.encodeChars (c :: cs) := by
      rw [Utf8.encodeChars_cons, List.reverse_append, List.reverse_reverse, List.append_assoc]
    rw [hsplit, List.length_append] at hfuel
    rw [hsplit, List.append_assoc]
    rcases escapedChar_cases c with ⟨hself, hverbatim⟩ | ⟨escaped, hescaped, hescape⟩
    · rw [hself, Utf8.encodeChars, List.flatMap_singleton] at hfuel ⊢
      rw [stringBytes_verbatim hverbatim (by omega), ih _ (by rw [List.length_drop]; omega), hdone]
    · rw [hescaped, List.length_cons] at hfuel
      rw [hescaped]
      cases fuel with
      | nil => cases hfuel
      | cons step fuel =>
        rw [List.length_cons] at hfuel
        rw [List.cons_append, stringBytes, if_neg (by decide), if_pos rfl, hescape]
        dsimp only
        rw [ih _ (by omega), hdone]

/-- Reading a string undoes writing it, whatever follows. -/
theorem quoted_stringText (text : String) (rest : Bytes) :
    quoted (Utf8.encodeChars (text.toList.flatMap escapedChar) ++ '"'.toUInt8 :: rest) =
      .ok (text, rest) := by
  have hlength : (Utf8.encodeChars (text.toList.flatMap escapedChar)).length <
      (Utf8.encodeChars (text.toList.flatMap escapedChar) ++ '"'.toUInt8 :: rest).length := by simp
  have hbytes := stringBytes_escapedChars text.toList [] rest hlength
  have hdecode : Utf8.decode (Utf8.encodeChars text.toList) = .ok text := Utf8.decode_encode text
  rw [quoted, hbytes]
  simp [bind, Except.bind, hdecode]

end PathStore.Json
