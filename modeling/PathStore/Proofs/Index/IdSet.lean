import Mathlib.Algebra.Group.Nat.Defs
import PathStore.Index.IdSet
import PathStore.Proofs.Ordered
import PathStore.Proofs.Text.Utf8

/-!
# Laws of the stored form of id sets

A number is read exactly from the bytes written for it, so is an id, and what is read from an entry
are the ids of a list behind their number.  Reading undoes writing as long as every number in the
stored form fits its eight bytes, which is so for the number of members and for the lengths of their
texts on any machine that holds them.  What has been read fits again.
-/

namespace PathStore

theorem length_littleEndian (count n : Nat) : (littleEndian count n).length = count := by
  induction count generalizing n with
  | zero => rfl
  | succ count ih => rw [littleEndian, List.length_cons, ih]

/-- A number is read back as far as the bytes reach. -/
theorem ofLittleEndian_littleEndian (count n : Nat) :
    ofLittleEndian (littleEndian count n) = n % 256 ^ count := by
  induction count generalizing n with
  | zero => simp [littleEndian, ofLittleEndian, Nat.mod_one]
  | succ count ih =>
    have hbyte : n % 2 ^ 8 = n % 256 := rfl
    rw [littleEndian, ofLittleEndian, ih, UInt8.toNat_ofNat', hbyte, Nat.pow_succ', Nat.mod_mul]

theorem ofLittleEndian_lt (bytes : Bytes) : ofLittleEndian bytes < 256 ^ bytes.length := by
  induction bytes with
  | nil => simp [ofLittleEndian]
  | cons b rest ih =>
    have hb := b.toNat_lt
    rw [ofLittleEndian, List.length_cons, Nat.pow_succ']
    omega

/-- Bytes are written back from the number that they form. -/
theorem littleEndian_ofLittleEndian (bytes : Bytes) :
    littleEndian bytes.length (ofLittleEndian bytes) = bytes := by
  induction bytes with
  | nil => rfl
  | cons b rest ih =>
    have hb := b.toNat_lt
    have hlow : UInt8.ofNat (b.toNat + 256 * ofLittleEndian rest) = b := by
      rw [← UInt8.toNat_inj, UInt8.toNat_ofNat']
      omega
    have hhigh : (b.toNat + 256 * ofLittleEndian rest) / 256 = ofLittleEndian rest := by omega
    rw [List.length_cons, ofLittleEndian, littleEndian, hlow, hhigh, ih]

theorem readNumber_littleEndian {n : Nat} (h : n < 2 ^ 64) (rest : Bytes) :
    readNumber (littleEndian numberWidth n ++ rest) = .ok (n, rest) := by
  have hlength := length_littleEndian numberWidth n
  have hn : n % 256 ^ numberWidth = n := Nat.mod_eq_of_lt h
  rw [readNumber, List.length_append, hlength, if_neg (by omega), List.take_left' hlength,
    List.drop_left' hlength, ofLittleEndian_littleEndian, hn]

/-- A number is read exactly from the bytes that are written for it. -/
theorem readNumber_eq_ok_iff {bytes rest : Bytes} {n : Nat} :
    readNumber bytes = .ok (n, rest) ↔
      n < 2 ^ 64 ∧ bytes = littleEndian numberWidth n ++ rest := by
  constructor
  · intro h
    rw [readNumber] at h
    split at h
    · cases h
    · rename_i hlength
      obtain ⟨rfl, rfl⟩ := Prod.mk.inj (Except.ok.inj h)
      have htake : (bytes.take numberWidth).length = numberWidth := by
        rw [List.length_take]
        omega
      have hlt := ofLittleEndian_lt (bytes.take numberWidth)
      have hback := littleEndian_ofLittleEndian (bytes.take numberWidth)
      rw [htake] at hlt hback
      exact ⟨hlt, by rw [hback, List.take_append_drop]⟩
  · rintro ⟨hn, rfl⟩
    exact readNumber_littleEndian hn rest

namespace IdSet

/-- Every number in the stored form of the set fits its eight bytes. -/
structure Fits (ids : IdSet) : Prop where
  size : ids.size < 2 ^ 64
  length : ∀ id ∈ ids, (Utf8.encode id).length < 2 ^ 64

/-- The ids of a set come in the order of their bytes. -/
theorem pairwise_encode (ids : IdSet) : (ids.toList.map Utf8.encode).Pairwise (· < ·) :=
  List.pairwise_map.mpr (ids.ascending.imp Utf8.encode_lt_encode.mpr)

/-- A set fits if a greater one does. -/
theorem Fits.subset {ids others : IdSet} (h : others.Fits) (hsub : ∀ id ∈ ids, id ∈ others) :
    ids.Fits := by
  constructor
  · exact Nat.lt_of_le_of_lt (OrderedSet.size_le_of_subset hsub) h.size
  · intro id hid
    exact h.length id (hsub id hid)

theorem readId_encodeId {id : String} (h : (Utf8.encode id).length < 2 ^ 64) (rest : Bytes) :
    readId (encodeId id ++ rest) = .ok (id, rest) := by
  have hread := readNumber_littleEndian h (Utf8.encode id ++ rest)
  rw [readId, encodeId, List.append_assoc, hread]
  simp [bind, Except.bind]

/-- An id is read just where its stored form stands. -/
theorem readId_eq_ok_iff {bytes rest : Bytes} {id : String} :
    readId bytes = .ok (id, rest) ↔
      (Utf8.encode id).length < 2 ^ 64 ∧ bytes = encodeId id ++ rest := by
  constructor
  · intro h
    rw [readId] at h
    cases hnumber : readNumber bytes with
    | error fault => rw [hnumber] at h; cases h
    | ok result =>
      rcases result with ⟨length, tail⟩
      obtain ⟨hlength, rfl⟩ := readNumber_eq_ok_iff.mp hnumber
      rw [hnumber] at h
      simp only [bind, Except.bind] at h
      split at h
      · cases h
      rename_i hle
      split at h
      · rename_i text hdecode
        obtain ⟨rfl, rfl⟩ := Prod.mk.inj (Except.ok.inj h)
        have hencode := Utf8.encode_of_decode hdecode
        have hbytes : (Utf8.encode text).length = length := by
          rw [hencode, List.length_take, Nat.min_eq_left (by omega)]
        refine ⟨by rwa [hbytes], ?_⟩
        rw [encodeId, hbytes, hencode, List.append_assoc, List.take_append_drop]
      · cases h
  · rintro ⟨hid, rfl⟩
    exact readId_encodeId hid rest

/-- The ids that are read are put into the set one after the other, whatever their order. -/
theorem readIds_eq_ok_iff {count : Nat} {ids result : IdSet} {bytes : Bytes} :
    readIds count ids bytes = .ok result ↔
      ∃ (listed : List String) (rest : Bytes), listed.length = count ∧
        (∀ id ∈ listed, (Utf8.encode id).length < 2 ^ 64) ∧
        bytes = listed.flatMap encodeId ++ rest ∧ listed.foldl OrderedSet.insert ids = result := by
  induction count generalizing ids bytes with
  | zero =>
    constructor
    · intro h
      exact ⟨[], bytes, rfl, List.forall_mem_nil _, rfl, Except.ok.inj h⟩
    · rintro ⟨listed, rest, hlength, -, -, rfl⟩
      rw [List.eq_nil_of_length_eq_zero hlength]
      rfl
  | succ count ih =>
    constructor
    · intro h
      rw [readIds] at h
      split at h
      · rename_i id tail hid
        obtain ⟨hlt, rfl⟩ := readId_eq_ok_iff.mp hid
        obtain ⟨listed, rest, rfl, hlisted, rfl, rfl⟩ := ih.mp h
        refine ⟨id :: listed, rest, rfl, List.forall_mem_cons.mpr ⟨hlt, hlisted⟩, ?_, rfl⟩
        rw [List.flatMap_cons, List.append_assoc]
      · cases h
    · rintro ⟨listed, rest, hlength, hlisted, rfl, rfl⟩
      cases listed with
      | nil => cases hlength
      | cons id listed =>
        obtain ⟨hlt, hlisted⟩ := List.forall_mem_cons.mp hlisted
        rw [List.flatMap_cons, List.append_assoc, readIds, readId_encodeId hlt]
        exact ih.mpr ⟨listed, rest, Nat.succ.inj hlength, hlisted, rfl, rfl⟩

/-- A set is read just where the stored form of a list with its members stands, whatever follows. -/
theorem decode_eq_ok_iff {bytes : Bytes} {ids : IdSet} :
    decode bytes = .ok ids ↔
      ∃ (listed : List String) (rest : Bytes), listed.length < 2 ^ 64 ∧
        (∀ id ∈ listed, (Utf8.encode id).length < 2 ^ 64) ∧
        bytes = littleEndian numberWidth listed.length ++ (listed.flatMap encodeId ++ rest) ∧
        OrderedSet.ofList listed = ids := by
  rw [decode]
  constructor
  · intro h
    cases hnumber : readNumber bytes with
    | error fault => rw [hnumber] at h; cases h
    | ok result =>
      obtain ⟨hcount, rfl⟩ := readNumber_eq_ok_iff.mp hnumber
      rw [hnumber] at h
      obtain ⟨listed, rest, hlength, hlisted, hrest, hids⟩ := readIds_eq_ok_iff.mp h
      rw [← hlength] at hcount ⊢
      exact ⟨listed, rest, hcount, hlisted, by rw [hrest], hids⟩
  · rintro ⟨listed, rest, hcount, hlisted, rfl, rfl⟩
    rw [readNumber_littleEndian hcount]
    exact readIds_eq_ok_iff.mpr ⟨listed, rest, rfl, hlisted, rfl, rfl⟩

theorem fits_of_decode {bytes : Bytes} {ids : IdSet} (h : decode bytes = .ok ids) : ids.Fits := by
  obtain ⟨listed, rest, hcount, hlisted, -, rfl⟩ := decode_eq_ok_iff.mp h
  have hmem : ∀ id ∈ OrderedSet.ofList listed, id ∈ listed := fun _ ↦ OrderedSet.mem_ofList.mp
  exact ⟨Nat.lt_of_le_of_lt (OrderedSet.size_le_of_subset hmem) hcount,
    fun id hid ↦ hlisted id (hmem id hid)⟩

theorem ofList_toList (ids : IdSet) : OrderedSet.ofList ids.toList = ids :=
  OrderedSet.ofList_eq_iff.mpr fun _ ↦ Iff.rfl

/-- A set is read back from its stored form, whatever follows. -/
theorem decode_encode_append {ids : IdSet} (h : ids.Fits) (rest : Bytes) :
    decode (encode ids ++ rest) = .ok ids :=
  decode_eq_ok_iff.mpr
    ⟨ids.toList, rest, h.size, h.length, List.append_assoc _ _ _, ofList_toList ids⟩

theorem decode_encode {ids : IdSet} (h : ids.Fits) : decode (encode ids) = .ok ids := by
  simpa using decode_encode_append h []

end IdSet

end PathStore
