import PathStore.Proofs.Text.Utf8
import PathStore.Text.Hex

/-!
# Laws of percent encoding and form fields

Writing every byte as a percent sign and two digits leaves none of the bytes that mean something in
a target, so a text written in this way passes through the splitting of paths and of form fields
unharmed and is then read as it was.  The names of the fields need no encoding; it is enough that
they have none of those bytes.
-/

namespace PathStore

namespace Percent

def upperDigit (n : Nat) : UInt8 :=
  if n < 10 then UInt8.ofNat (0x30 + n) else UInt8.ofNat (0x41 + (n - 10))

def encodeByte (b : UInt8) : Bytes :=
  [0x25, upperDigit (b.toNat / 16), upperDigit (b.toNat % 16)]

def encode (bytes : Bytes) : Bytes :=
  bytes.flatMap encodeByte

def encodeText (text : String) : Bytes :=
  encode (Utf8.encode text)

example : encodeText "a/é" = Utf8.encode "%61%2F%C3%A9" := by decide

theorem digit?_upperDigit : ∀ n < 16, Hex.digit? (upperDigit n) = some n := by
  decide

/-- No other bytes than the percent sign and the digits are written. -/
theorem not_mem_encode {b : UInt8} (hpercent : b ≠ 0x25) (hdigit : ∀ n < 16, upperDigit n ≠ b)
    (bytes : Bytes) : b ∉ encode bytes := by
  intro h
  obtain ⟨byte, -, hmem⟩ := List.mem_flatMap.mp h
  have hbyte := byte.toNat_lt
  simp only [encodeByte, List.mem_cons, List.not_mem_nil, or_false] at hmem
  rcases hmem with rfl | rfl | rfl
  · exact hpercent rfl
  · exact hdigit (byte.toNat / 16) (by omega) rfl
  · exact hdigit (byte.toNat % 16) (by omega) rfl

theorem encode_eq_nil_iff {bytes : Bytes} : encode bytes = [] ↔ bytes = [] := by
  cases bytes <;> simp [encode, encodeByte]

theorem decode_cons_of_ne {b : UInt8} (h : b ≠ 0x25) (rest : Bytes) :
    decode (b :: rest) = b :: decode rest := by
  rcases rest with _ | ⟨high, _ | ⟨low, rest⟩⟩
  · rfl
  · rfl
  · rw [decode, if_neg h]

theorem decode_of_not_mem {bytes : Bytes} (h : 0x25 ∉ bytes) : decode bytes = bytes := by
  induction bytes with
  | nil => rfl
  | cons b rest ih =>
    rw [List.mem_cons, not_or] at h
    rw [decode_cons_of_ne (Ne.symm h.1), ih h.2]

theorem decode_encodeByte_append (b : UInt8) (rest : Bytes) :
    decode (encodeByte b ++ rest) = b :: decode rest := by
  have hb := b.toNat_lt
  have hbyte : b.toNat / 16 * 16 + b.toNat % 16 = b.toNat := by omega
  simp only [encodeByte, List.cons_append, List.nil_append]
  rw [decode, if_pos rfl, digit?_upperDigit _ (by omega), digit?_upperDigit _ (by omega)]
  dsimp only
  rw [hbyte, UInt8.ofNat_toNat]

/-- What has been percent-encoded is decoded to itself. -/
@[simp]
theorem decode_encode (bytes : Bytes) : decode (encode bytes) = bytes := by
  induction bytes with
  | nil => rfl
  | cons b rest ih =>
    calc
      decode (encode (b :: rest)) = b :: decode (encode rest) := decode_encodeByte_append b _
      _ = b :: rest := by rw [ih]

end Percent

namespace Form

/-- None of the bytes of the name means anything in a form. -/
def IsPlainName (name : String) : Prop :=
  ∀ b ∈ Utf8.encode name, b ≠ 0x25 ∧ b ≠ 0x26 ∧ b ≠ 0x2B ∧ b ≠ 0x3D

instance (name : String) : Decidable (IsPlainName name) :=
  inferInstanceAs (Decidable (∀ b ∈ Utf8.encode name, _))

/-- A field as it is written: its value is percent-encoded and its name is not. -/
def writeField (field : String × String) : Bytes :=
  Utf8.encode field.1 ++ 0x3D :: Percent.encodeText field.2

def write (fields : List (String × String)) : Bytes :=
  [0x26].intercalate (fields.map writeField)

example : write [("q", "a:1"), ("skipIndex", "")] = Utf8.encode "q=%61%3A%31&skipIndex=" := by
  decide

theorem mem_writeField {field : String × String} {b : UInt8} (h : b ∈ writeField field) :
    b ∈ Utf8.encode field.1 ∨ b = 0x3D ∨ b ∈ Percent.encodeText field.2 := by
  rwa [writeField, List.mem_append, List.mem_cons] at h

/-- A query has only the bytes of its names, of the separators and of percent encoding. -/
theorem not_mem_write {fields : List (String × String)} {b : UInt8}
    (hseparator : b ≠ 0x25 ∧ b ≠ 0x26 ∧ b ≠ 0x3D) (hdigit : ∀ n < 16, Percent.upperDigit n ≠ b)
    (hnames : ∀ field ∈ fields, b ∉ Utf8.encode field.1) : b ∉ write fields := by
  intro h
  rcases mem_of_mem_intercalate h with heq | ⟨part, hpart, hmem⟩
  · exact hseparator.2.1 heq
  · obtain ⟨field, hfield, rfl⟩ := List.mem_map.mp hpart
    rcases mem_writeField hmem with hname | heq | hvalue
    · exact hnames field hfield hname
    · exact hseparator.2.2 heq
    · exact Percent.not_mem_encode hseparator.1 hdigit _ hvalue

theorem text_of_not_mem {bytes : Bytes} (h : 0x2B ∉ bytes) :
    text bytes = Utf8.decodeLossy (Percent.decode bytes) := by
  have hmap : (bytes.map fun b ↦ if b = 0x2B then 0x20 else b) = bytes.map id := by
    apply List.map_congr_left
    intro b hb
    have hne : b ≠ 0x2B := by
      intro heq
      exact h (heq ▸ hb)
    exact if_neg hne
  rw [text, hmap, List.map_id]

/-- A text is read back from a field, whatever its characters. -/
theorem text_encodeText (value : String) : text (Percent.encodeText value) = value := by
  have hplus : 0x2B ∉ Percent.encodeText value :=
    Percent.not_mem_encode (by decide) (by decide) _
  rw [text_of_not_mem hplus, Percent.encodeText, Percent.decode_encode, Utf8.decodeLossy_encode]

theorem text_encode {name : String} (h : IsPlainName name) : text (Utf8.encode name) = name := by
  have hplus : 0x2B ∉ Utf8.encode name := by
    intro hmem
    exact (h _ hmem).2.2.1 rfl
  have hpercent : 0x25 ∉ Utf8.encode name := by
    intro hmem
    exact (h _ hmem).1 rfl
  rw [text_of_not_mem hplus, Percent.decode_of_not_mem hpercent, Utf8.decodeLossy_encode]

/-- A field with a plain name is read back. -/
theorem field_writeField {name : String} (h : IsPlainName name) (value : String) :
    field (writeField (name, value)) = (name, value) := by
  have hname : (writeField (name, value)).takeWhile (· != 0x3D) = Utf8.encode name := by
    rw [writeField, List.takeWhile_append_of_pos fun b hb ↦ by simpa using (h b hb).2.2.2]
    simp
  rw [field, hname, text_encode h]
  simp [writeField, text_encodeText]

/-- A query is read as the fields that were written. -/
theorem fields_write {fields : List (String × String)}
    (h : ∀ field ∈ fields, IsPlainName field.1) : Form.fields (write fields) = fields := by
  by_cases hne : fields = []
  · rw [hne]
    rfl
  have hsplit : splitAtEach 0x26 (write fields) = fields.map writeField := by
    apply splitAtEach_intercalate (mt List.map_eq_nil_iff.mp hne)
    intro part hpart hmem
    obtain ⟨field, hfield, rfl⟩ := List.mem_map.mp hpart
    rcases mem_writeField hmem with hname | heq | hvalue
    · exact (h field hfield _ hname).2.1 rfl
    · cases heq
    · exact Percent.not_mem_encode (by decide) (by decide) _ hvalue
  have hfilter : (fields.map writeField).filter (!·.isEmpty) = fields.map writeField := by
    apply List.filter_eq_self.mpr
    intro part hpart
    obtain ⟨field, -, rfl⟩ := List.mem_map.mp hpart
    simp [writeField]
  calc
    Form.fields (write fields) = (fields.map writeField).map Form.field := by
      rw [Form.fields, hsplit, hfilter]
    _ = fields.map id := by
      rw [List.map_map]
      apply List.map_congr_left
      intro field hfield
      exact field_writeField (h field hfield) field.2
    _ = fields := List.map_id fields

end Form

end PathStore
