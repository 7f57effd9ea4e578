import PathStore.Text.Utf8

/-!
# Laws of UTF-8

Reading undoes writing, only what was written can be read, what is written are the bytes in which
the standard library keeps a text, and the order of texts is the order of their bytes.  The two
directions of reading share one table: what a lead byte of each width and the bytes behind it stand
for.
-/

namespace PathStore.Utf8

/-- The table of leading bytes. -/
theorem width_eq (lead : UInt8) : width lead =
    if lead.toNat < 0x80 then 1 else if lead.toNat < 0xC2 then 0 else if lead.toNat < 0xE0 then 2
    else if lead.toNat < 0xF0 then 3 else if lead.toNat < 0xF5 then 4 else 0 := by
  simp [width, UInt8.lt_iff_toNat_lt]

theorem isContinuation_iff (b : UInt8) :
    isContinuation b ↔ 0x80 ≤ b.toNat ∧ b.toNat < 0xC0 := by
  simp [isContinuation, UInt8.lt_iff_toNat_lt, UInt8.le_iff_toNat_le]

/-- Of the second bytes, those that would give a longer form of a short character, a surrogate or a
number out of range are refused. -/
theorem isSecond_iff (lead b : UInt8) : isSecond lead b ↔
    0x80 ≤ b.toNat ∧ b.toNat < 0xC0 ∧ (lead.toNat = 0xE0 → 0xA0 ≤ b.toNat) ∧
      (lead.toNat = 0xED → b.toNat < 0xA0) ∧ (lead.toNat = 0xF0 → 0x90 ≤ b.toNat) ∧
      (lead.toNat = 0xF4 → b.toNat < 0x90) := by
  simp only [isSecond, isContinuation, ← UInt8.toNat_inj]
  grind [UInt8.lt_iff_toNat_lt, UInt8.le_iff_toNat_le]

theorem toNat_continuation (n : Nat) : (continuation n).toNat = 0x80 + n % 0x40 := by
  rw [continuation, UInt8.toNat_ofNat']
  omega

theorem toNat_ofNat_of_valid {n : Nat} (h : n < 0xD800 ∨ 0xDFFF < n ∧ n < 0x110000) :
    (Char.ofNat n).toNat = n := by
  have hvalid : n.isValidChar := h
  rw [Char.ofNat, dif_pos hvalid]
  rfl

theorem toNat_valid (c : Char) :
    c.toNat < 0xD800 ∨ 0xDFFF < c.toNat ∧ c.toNat < 0x110000 :=
  c.valid

theorem encodeChar_one {lead : UInt8} (hw : width lead = 1) :
    encodeChar (Char.ofNat lead.toNat) = [lead] := by
  have hl : lead.toNat < 0x80 := by grind [width_eq]
  rw [encodeChar, toNat_ofNat_of_valid (by omega)]
  simp [hl]

/-- Two bytes that are read as a character are the bytes of that character. -/
theorem encodeChar_two {lead b : UInt8} (hw : width lead = 2) (hb : isSecond lead b) :
    encodeChar (Char.ofNat (extend (lead.toNat % 0x20) b)) = [lead, b] := by
  rw [isSecond_iff] at hb
  have hl : 0xC2 ≤ lead.toNat ∧ lead.toNat < 0xE0 := by grind [width_eq]
  rw [encodeChar, toNat_ofNat_of_valid (by unfold extend; omega)]
  unfold extend
  rw [if_neg (by omega), if_pos (by omega)]
  simp only [List.cons.injEq, ← UInt8.toNat_inj, toNat_continuation, UInt8.toNat_ofNat']
  exact ⟨by omega, by omega, trivial⟩

theorem encodeChar_three {lead b c : UInt8} (hw : width lead = 3) (hb : isSecond lead b)
    (hc : isContinuation c) :
    encodeChar (Char.ofNat (extend (extend (lead.toNat % 0x10) b) c)) = [lead, b, c] := by
  rw [isSecond_iff] at hb
  rw [isContinuation_iff] at hc
  have hl : 0xE0 ≤ lead.toNat ∧ lead.toNat < 0xF0 := by grind [width_eq]
  rw [encodeChar, toNat_ofNat_of_valid (by unfold extend; omega)]
  unfold extend
  rw [if_neg (by omega), if_neg (by omega), if_pos (by omega)]
  simp only [List.cons.injEq, ← UInt8.toNat_inj, toNat_continuation, UInt8.toNat_ofNat']
  exact ⟨by omega, by omega, by omega, trivial⟩

theorem encodeChar_four {lead b c d : UInt8} (hw : width lead = 4) (hb : isSecond lead b)
    (hc : isContinuation c) (hd : isContinuation d) :
    encodeChar (Char.ofNat (extend (extend (extend (lead.toNat % 0x08) b) c) d)) =
      [lead, b, c, d] := by
  rw [isSecond_iff] at hb
  rw [isContinuation_iff] at hc hd
  have hl : 0xF0 ≤ lead.toNat ∧ lead.toNat < 0xF5 := by grind [width_eq]
  rw [encodeChar, toNat_ofNat_of_valid (by unfold extend; omega)]
  unfold extend
  rw [if_neg (by omega), if_neg (by omega), if_neg (by omega)]
  simp only [List.cons.injEq, ← UInt8.toNat_inj, toNat_continuation, UInt8.toNat_ofNat']
  exact ⟨by omega, by omega, by omega, by omega, trivial⟩

theorem encodeChar_length_pos (c : Char) : 0 < (encodeChar c).length := by
  unfold encodeChar
  grind

/-- The bytes of a character are cut off as one piece, whatever follows them. -/
theorem piecesAfter_encodeChar (done : List Piece) (c : Char) (rest : Bytes) :
    piecesAfter done (encodeChar c ++ rest) = piecesAfter (.char c :: done) rest := by
  have hv := toNat_valid c
  unfold encodeChar
  extract_lets n
  split
  · have hlead : (UInt8.ofNat n).toNat = n := by rw [UInt8.toNat_ofNat']; omega
    have hw : width (UInt8.ofNat n) = 1 := by rw [width_eq, hlead, if_pos (by omega)]
    rw [List.singleton_append, piecesAfter.eq_def]
    simp [hw, hlead, n]
  split
  · generalize hlead : UInt8.ofNat (0xC0 + n / 0x40) = lead
    have hl : lead.toNat = 0xC0 + n / 0x40 := by rw [← hlead, UInt8.toNat_ofNat']; omega
    have hw : width lead = 2 := by
      rw [width_eq, if_neg (by omega), if_neg (by omega), if_pos (by omega)]
    have hb : isSecond lead (continuation n) := by
      rw [isSecond_iff, toNat_continuation]
      omega
    have hchar : extend (lead.toNat % 0x20) (continuation n) = n := by
      rw [extend, toNat_continuation]
      omega
    rw [List.cons_append, List.singleton_append, piecesAfter.eq_def]
    simp [hw, hb, hchar, n]
  split
  · generalize hlead : UInt8.ofNat (0xE0 + n / 0x1000) = lead
    have hl : lead.toNat = 0xE0 + n / 0x1000 := by rw [← hlead, UInt8.toNat_ofNat']; omega
    have hw : width lead = 3 := by
      rw [width_eq, if_neg (by omega), if_neg (by omega), if_neg (by omega), if_pos (by omega)]
    have hb : isSecond lead (continuation (n / 0x40)) := by
      rw [isSecond_iff, toNat_continuation]
      omega
    have hc : isContinuation (continuation n) := by
      rw [isContinuation_iff, toNat_continuation]
      omega
    have hchar :
        extend (extend (lead.toNat % 0x10) (continuation (n / 0x40))) (continuation n) = n := by
      rw [extend, extend, toNat_continuation, toNat_continuation]
      omega
    rw [List.cons_append, List.cons_append, List.singleton_append, piecesAfter.eq_def]
    simp [hw, hb, hc, hchar, n]
  · generalize hlead : UInt8.ofNat (0xF0 + n / 0x40000) = lead
    have hl : lead.toNat = 0xF0 + n / 0x40000 := by rw [← hlead, UInt8.toNat_ofNat']; omega
    have hw : width lead = 4 := by
      rw [width_eq, if_neg (by omega), if_neg (by omega), if_neg (by omega), if_neg (by omega),
        if_pos (by omega)]
    have hb : isSecond lead (continuation (n / 0x1000)) := by
      rw [isSecond_iff, toNat_continuation]
      omega
    have hc (m : Nat) : isContinuation (continuation m) := by
      rw [isContinuation_iff, toNat_continuation]
      omega
    have hchar : extend (extend (extend (lead.toNat % 0x08) (continuation (n / 0x1000)))
        (continuation (n / 0x40))) (continuation n) = n := by
      rw [extend, extend, extend, toNat_continuation, toNat_continuation, toNat_continuation]
      omega
    rw [List.cons_append, List.cons_append, List.cons_append, List.singleton_append,
      piecesAfter.eq_def]
    simp [hw, hb, hc, hchar, n]

theorem encodeChars_cons (c : Char) (cs : List Char) :
    encodeChars (c :: cs) = encodeChar c ++ encodeChars cs :=
  rfl

theorem encodeChars_append (cs ds : List Char) :
    encodeChars (cs ++ ds) = encodeChars cs ++ encodeChars ds :=
  List.flatMap_append

/-- The bytes of characters are cut into these characters. -/
theorem piecesAfter_encodeChars (done : List Piece) (cs : List Char) :
    piecesAfter done (encodeChars cs) = done.reverse ++ cs.map .char := by
  induction cs generalizing done with
  | nil => simp [encodeChars, piecesAfter]
  | cons c cs ih =>
    rw [encodeChars_cons, piecesAfter_encodeChar, ih]
    simp

theorem strictAfter_chars (index : Nat) (done cs : List Char) :
    strictAfter index done (cs.map .char) = .ok (done.reverse ++ cs) := by
  induction cs generalizing index done with
  | nil => simp [strictAfter]
  | cons c cs ih => simp [strictAfter, ih]

theorem decodeChars_encodeChars (cs : List Char) : decodeChars (encodeChars cs) = .ok cs := by
  calc
    decodeChars (encodeChars cs) = strictAfter 0 [] (cs.map .char) := by
      rw [decodeChars, pieces, piecesAfter_encodeChars]
      rfl
    _ = .ok cs := strictAfter_chars 0 [] cs

/-- Text is read back from its bytes. -/
@[simp]
theorem decode_encode (text : String) : decode (encode text) = .ok text := by
  rw [decode, encode, decodeChars_encodeChars, Except.map, String.ofList_toList]

/-- Text is read without replacement by the lenient reader too. -/
theorem decodeLossy_encode (text : String) : decodeLossy (encode text) = text := by
  have hpieces : pieces (encode text) = text.toList.map .char := piecesAfter_encodeChars [] _
  have hchars : Piece.orReplacement ∘ Piece.char = id := rfl
  rw [decodeLossy, hpieces, List.map_map, hchars, List.map_id, String.ofList_toList]

/-- Different texts have different bytes. -/
theorem encode_injective {s t : String} (h : encode s = encode t) : s = t := by
  have hdecode := congrArg decode h
  rw [decode_encode, decode_encode] at hdecode
  exact Except.ok.inj hdecode

@[simp]
theorem encode_inj {s t : String} : encode s = encode t ↔ s = t :=
  ⟨encode_injective, congrArg encode⟩

/-! ## Only what was written can be read -/

theorem reverse_prefix_cons (done : List Piece) (p : Piece) :
    done.reverse <+: (p :: done).reverse := by
  rw [List.reverse_cons]
  exact List.prefix_append _ _

/-- Pieces that have been cut off stay in front. -/
theorem prefix_piecesAfter (done : List Piece) (bytes : Bytes) :
    done.reverse <+: piecesAfter done bytes := by
  fun_induction piecesAfter done bytes with
  | case1 => exact List.prefix_rfl
  | case3 | case6 | case7 | case11 | case12 | case13 => exact reverse_prefix_cons _ _
  | case2 | case4 | case5 | case8 | case9 | case10 | case14 | case15 | case16 | case17 | case18 =>
    exact (reverse_prefix_cons _ _).trans ‹_›

/-- What is cut off first: a character, or a piece that is none. -/
theorem piecesAfter_cases (done : List Piece) (lead : UInt8) (rest : Bytes) :
    (∃ c tail, lead :: rest = encodeChar c ++ tail ∧
      piecesAfter done (lead :: rest) = piecesAfter (.char c :: done) tail) ∨
    ∃ bad, (∀ c, bad ≠ .char c) ∧ (bad :: done).reverse <+: piecesAfter done (lead :: rest) := by
  rw [piecesAfter.eq_def]
  dsimp only
  split
  · rename_i hw
    exact .inl ⟨_, rest, by rw [encodeChar_one hw, List.singleton_append], rfl⟩
  · rename_i hw
    split
    · exact .inr ⟨_, by simp, List.prefix_rfl⟩
    split
    · rename_i hb
      exact .inl ⟨_, _, by rw [encodeChar_two hw hb]; rfl, rfl⟩
    · exact .inr ⟨_, by simp, prefix_piecesAfter _ _⟩
  · rename_i hw
    split
    · exact .inr ⟨_, by simp, List.prefix_rfl⟩
    split
    · rename_i hb
      split
      · exact .inr ⟨_, by simp, List.prefix_rfl⟩
      split
      · rename_i hc
        exact .inl ⟨_, _, by rw [encodeChar_three hw hb hc]; rfl, rfl⟩
      · exact .inr ⟨_, by simp, prefix_piecesAfter _ _⟩
    · exact .inr ⟨_, by simp, prefix_piecesAfter _ _⟩
  · rename_i hw
    split
    · exact .inr ⟨_, by simp, List.prefix_rfl⟩
    split
    · rename_i hb
      split
      · exact .inr ⟨_, by simp, List.prefix_rfl⟩
      split
      · rename_i hc
        split
        · exact .inr ⟨_, by simp, List.prefix_rfl⟩
        split
        · rename_i hd
          exact .inl ⟨_, _, by rw [encodeChar_four hw hb hc hd]; rfl, rfl⟩
        · exact .inr ⟨_, by simp, prefix_piecesAfter _ _⟩
      · exact .inr ⟨_, by simp, prefix_piecesAfter _ _⟩
    · exact .inr ⟨_, by simp, prefix_piecesAfter _ _⟩
  · exact .inr ⟨_, by simp, prefix_piecesAfter _ _⟩

theorem eq_map_of_prefix {done : List Piece} {p : Piece} {pieces : List Piece} {cs : List Char}
    (hp : (p :: done).reverse <+: pieces) (h : pieces = done.reverse ++ cs.map .char) :
    ∃ c ds, p = .char c ∧ cs = c :: ds ∧ pieces = (p :: done).reverse ++ ds.map .char := by
  obtain ⟨more, rfl⟩ := hp
  rw [List.reverse_cons, List.append_assoc, List.append_cancel_left_eq] at h
  obtain ⟨c, ds, rfl, rfl, rfl⟩ := List.map_eq_cons_iff.mp h.symm
  exact ⟨c, ds, rfl, rfl, rfl⟩

/-- Bytes cut into characters only are the bytes of these characters. -/
theorem encodeChars_of_piecesAfter {done : List Piece} {bytes : Bytes} {cs : List Char}
    (h : piecesAfter done bytes = done.reverse ++ cs.map .char) : encodeChars cs = bytes := by
  induction hn : bytes.length using Nat.strongRecOn generalizing done bytes cs with
  | _ n ih =>
    subst hn
    cases bytes with
    | nil => simp_all [piecesAfter, encodeChars]
    | cons lead rest =>
      rcases piecesAfter_cases done lead rest with ⟨c, tail, hbytes, hpieces⟩ | ⟨bad, hbad, hp⟩
      · have hprefix : (Piece.char c :: done).reverse <+: piecesAfter done (lead :: rest) :=
          hpieces ▸ prefix_piecesAfter _ _
        obtain ⟨c', ds, hc, rfl, hds⟩ := eq_map_of_prefix hprefix h
        obtain rfl := Piece.char.inj hc
        have hlength : tail.length < (lead :: rest).length := by
          have := encodeChar_length_pos c
          rw [hbytes, List.length_append]
          omega
        rw [encodeChars_cons, hbytes, ih tail.length hlength (hpieces ▸ hds) rfl]
      · obtain ⟨c, ds, hc, -⟩ := eq_map_of_prefix hp h
        exact absurd hc (hbad c)

/-- What is read strictly consists of characters alone. -/
theorem eq_map_of_strictAfter {index : Nat} {done cs : List Char} {ps : List Piece}
    (h : strictAfter index done ps = .ok cs) :
    ∃ ds, cs = done.reverse ++ ds ∧ ps = ds.map .char := by
  fun_induction strictAfter index done ps with
  | case1 => exact ⟨[], by simpa using h.symm, rfl⟩
  | case2 index done c rest ih =>
    obtain ⟨ds, hcs, rfl⟩ := ih h
    exact ⟨c :: ds, by simpa using hcs, rfl⟩
  | case3 => cases h
  | case4 => cases h

/-- Bytes that are text are the bytes of that text. -/
theorem encode_of_decode {bytes : Bytes} {text : String} (h : decode bytes = .ok text) :
    encode text = bytes := by
  rw [decode] at h
  cases hchars : decodeChars bytes with
  | error fault => rw [hchars] at h; cases h
  | ok cs =>
    rw [hchars] at h
    obtain rfl := Except.ok.inj h
    obtain ⟨ds, rfl, hpieces⟩ := eq_map_of_strictAfter hchars
    rw [encode, String.toList_ofList]
    exact encodeChars_of_piecesAfter hpieces

theorem decode_eq_ok_iff {bytes : Bytes} {text : String} :
    decode bytes = .ok text ↔ encode text = bytes :=
  ⟨encode_of_decode, fun h ↦ h ▸ decode_encode text⟩

theorem encodeChar_eq (c : Char) : encodeChar c = String.utf8EncodeChar c := by
  have hvalid := toNat_valid c
  have hcontinuation (n : Nat) : continuation n = UInt8.ofNat (n % 0x40 + 0x80) := by
    rw [continuation, Nat.add_comm]
  have hlead {high bound tag : Nat} (h : high < bound) :
      UInt8.ofNat (tag + high) = UInt8.ofNat (high % bound + tag) := by
    rw [Nat.mod_eq_of_lt h, Nat.add_comm]
  rw [encodeChar, String.utf8EncodeChar, ← Char.toNat]
  simp only [hcontinuation]
  by_cases hone : c.toNat < 0x80
  · rw [if_pos hone, if_pos (by omega)]
  rw [if_neg hone, if_neg (by omega : ¬ c.toNat ≤ 0x7F)]
  by_cases htwo : c.toNat < 0x800
  · have hhigh : c.toNat / 0x40 < 0x20 := by omega
    rw [if_pos htwo, if_pos (by omega), hlead hhigh]
  rw [if_neg htwo, if_neg (by omega : ¬ c.toNat ≤ 0x7FF)]
  by_cases hthree : c.toNat < 0x10000
  · have hhigh : c.toNat / 0x1000 < 0x10 := by omega
    rw [if_pos hthree, if_pos (by omega), hlead hhigh]
  · have hhigh : c.toNat / 0x40000 < 0x08 := by omega
    rw [if_neg hthree, if_neg (by omega), hlead hhigh]

/-- A text is written in the bytes in which the standard library keeps it. -/
theorem encode_eq_toUTF8 (text : String) : encode text = text.toUTF8.data.toList := by
  have hchar : encodeChar = String.utf8EncodeChar := funext encodeChar_eq
  rw [String.toUTF8, ← String.utf8Encode_toList, List.utf8Encode, List.data_toByteArray, ← hchar]
  rfl

/-! ## Order -/

/-- A smaller character has smaller bytes, whatever follows. -/
theorem encodeChar_append_lt {c d : Char} (h : c < d) (x y : Bytes) :
    encodeChar c ++ x < encodeChar d ++ y := by
  have hlt : c.toNat < d.toNat := h
  have hv := toNat_valid d
  have hshift (k : Nat) : k / 0x1000 / 0x40 = k / 0x40000 ∧ k / 0x40 / 0x40 = k / 0x1000 :=
    ⟨Nat.div_div_eq_div_mul _ _ _, Nat.div_div_eq_div_mul _ _ _⟩
  have hm := hshift c.toNat
  have hn := hshift d.toNat
  simp only [encodeChar]
  generalize c.toNat = m at *
  generalize d.toNat = n at *
  -- Characters of different widths differ in their lead bytes, all others in the first byte that
  -- the numbers do not share.
  repeat' split
  all_goals
    simp (disch := omega) only [List.cons_append, List.nil_append, List.cons_lt_cons_iff,
      UInt8.lt_iff_toNat_lt, ← UInt8.toNat_inj, toNat_continuation, UInt8.toNat_ofNat',
      Nat.mod_eq_of_lt (b := 2 ^ 8)]
    omega

theorem append_lt_append_left (a x y : Bytes) : a ++ x < a ++ y ↔ x < y := by
  induction a with
  | nil => rfl
  | cons b a ih => simp [ih]

theorem encodeChars_lt_encodeChars {s t : List Char} : encodeChars s < encodeChars t ↔ s < t := by
  induction s generalizing t with
  | nil =>
    cases t with
    | nil => simp [encodeChars]
    | cons d t =>
      have hd := encodeChar_length_pos d
      rw [encodeChars_cons]
      cases h : encodeChar d <;> simp_all [encodeChars]
  | cons c s ih =>
    cases t with
    | nil => simp [encodeChars]
    | cons d t =>
      rw [encodeChars_cons, encodeChars_cons, List.cons_lt_cons_iff]
      rcases Std.lt_trichotomy c d with h | rfl | h
      · simp [h, encodeChar_append_lt h]
      · simp [append_lt_append_left, ih]
      · have hnot := Std.Asymm.asymm _ _ (encodeChar_append_lt h (encodeChars t) (encodeChars s))
        have hcd := Std.Asymm.asymm _ _ h
        have hne : c ≠ d := by
          intro heq
          exact hcd (heq ▸ h)
        simp [hnot, hcd, hne]

/-- Texts are in the order of their bytes. -/
theorem encode_lt_encode {s t : String} : encode s < encode t ↔ s < t := by
  rw [String.lt_iff]
  exact encodeChars_lt_encodeChars

end PathStore.Utf8
