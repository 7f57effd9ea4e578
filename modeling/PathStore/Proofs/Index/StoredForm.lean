import Mathlib.Data.Nat.Digits.Defs
import PathStore.Proofs.Index.IdSet

/-!
# The stored form of id sets

The stored form of a list of ids is laid down here by itself, without a reader or a writer.  Bytes
are read as a set exactly when they begin with the stored form of a list that has the same members,
in any order and with any repetitions; all other bytes are a fault.  A list may be stored in one way
only, so a set has one stored form in ascending order, and this is the form that is written.
-/

namespace PathStore

/-- Eight bytes are the digits of a number to the base 256, the lowest first. -/
structure IsNumber (bytes : Bytes) (n : Nat) : Prop where
  length : bytes.length = 8
  value : Nat.ofDigits 256 (bytes.map UInt8.toNat) = n

theorem ofDigits_eq_ofLittleEndian (bytes : Bytes) :
    Nat.ofDigits 256 (bytes.map UInt8.toNat) = ofLittleEndian bytes := by
  induction bytes with
  | nil => rfl
  | cons b rest ih => rw [List.map_cons, Nat.ofDigits_cons, ih, ofLittleEndian]

/-- The digits of a number are its bytes as they are written. -/
theorem isNumber_iff {bytes : Bytes} {n : Nat} :
    IsNumber bytes n ↔ n < 2 ^ 64 ∧ bytes = littleEndian numberWidth n := by
  constructor
  · intro h
    have hlength : bytes.length = numberWidth := h.length
    have hvalue : ofLittleEndian bytes = n := by rw [← ofDigits_eq_ofLittleEndian, h.value]
    have hlt := ofLittleEndian_lt bytes
    have hback := littleEndian_ofLittleEndian bytes
    rw [hvalue, hlength] at hlt hback
    exact ⟨hlt, hback.symm⟩
  · rintro ⟨hlt, rfl⟩
    have hvalue := ofLittleEndian_littleEndian numberWidth n
    have hn : n % 256 ^ numberWidth = n := Nat.mod_eq_of_lt hlt
    exact ⟨length_littleEndian numberWidth n, by rw [ofDigits_eq_ofLittleEndian, hvalue, hn]⟩

namespace IdSet

/-- Ids stand one behind the other, each as the number of its bytes and these bytes. -/
inductive Lists : List String → Bytes → Prop where
  | nil : Lists [] []
  | cons {id : String} {listed : List String} {number rest : Bytes}
      (hnumber : IsNumber number id.utf8ByteSize) (hrest : Lists listed rest) :
      Lists (id :: listed) (number ++ (id.toUTF8.data.toList ++ rest))

/-- The stored form of a list of ids: how many they are, and the ids. -/
def Stores (listed : List String) (form : Bytes) : Prop :=
  ∃ number rest, form = number ++ rest ∧ IsNumber number listed.length ∧ Lists listed rest

theorem utf8ByteSize_eq_length (id : String) : id.utf8ByteSize = (Utf8.encode id).length := by
  rw [Utf8.encode_eq_toUTF8]
  rfl

theorem encodeId_eq (id : String) :
    encodeId id = littleEndian numberWidth id.utf8ByteSize ++ id.toUTF8.data.toList := by
  rw [encodeId, utf8ByteSize_eq_length, Utf8.encode_eq_toUTF8]

/-- The form of listed ids is what writing them one by one gives. -/
theorem lists_iff {listed : List String} {bytes : Bytes} :
    Lists listed bytes ↔
      (∀ id ∈ listed, (Utf8.encode id).length < 2 ^ 64) ∧ bytes = listed.flatMap encodeId := by
  constructor
  · intro h
    induction h with
    | nil => exact ⟨List.forall_mem_nil _, rfl⟩
    | cons hnumber hrest ih =>
      obtain ⟨hlt, rfl⟩ := isNumber_iff.mp hnumber
      obtain ⟨hlisted, rfl⟩ := ih
      rw [utf8ByteSize_eq_length] at hlt
      refine ⟨List.forall_mem_cons.mpr ⟨hlt, hlisted⟩, ?_⟩
      rw [List.flatMap_cons, encodeId_eq, List.append_assoc]
  · rintro ⟨hlisted, rfl⟩
    induction listed with
    | nil => exact .nil
    | cons id listed ih =>
      obtain ⟨hlt, hlisted⟩ := List.forall_mem_cons.mp hlisted
      rw [← utf8ByteSize_eq_length] at hlt
      rw [List.flatMap_cons, encodeId_eq, List.append_assoc]
      exact .cons (isNumber_iff.mpr ⟨hlt, rfl⟩) (ih hlisted)

/-- The stored form of a list is what writing it gives, as far as the numbers reach. -/
theorem stores_iff {listed : List String} {form : Bytes} :
    Stores listed form ↔
      listed.length < 2 ^ 64 ∧ (∀ id ∈ listed, (Utf8.encode id).length < 2 ^ 64) ∧
        form = littleEndian numberWidth listed.length ++ listed.flatMap encodeId := by
  constructor
  · rintro ⟨number, rest, rfl, hnumber, hrest⟩
    obtain ⟨hcount, rfl⟩ := isNumber_iff.mp hnumber
    obtain ⟨hlisted, rfl⟩ := lists_iff.mp hrest
    exact ⟨hcount, hlisted, rfl⟩
  · rintro ⟨hcount, hlisted, rfl⟩
    exact ⟨_, _, rfl, isNumber_iff.mpr ⟨hcount, rfl⟩, lists_iff.mpr ⟨hlisted, rfl⟩⟩

/-- Bytes are read as a set just when they begin with a stored form of a list with the same
members. -/
theorem decode_eq_ok_iff_stores {bytes : Bytes} {ids : IdSet} :
    decode bytes = .ok ids ↔
      ∃ listed form, Stores listed form ∧ form <+: bytes ∧ ∀ id, id ∈ ids ↔ id ∈ listed := by
  rw [decode_eq_ok_iff]
  constructor
  · rintro ⟨listed, rest, hcount, hlisted, rfl, hids⟩
    exact ⟨listed, _, stores_iff.mpr ⟨hcount, hlisted, rfl⟩, ⟨rest, List.append_assoc _ _ _⟩,
      OrderedSet.ofList_eq_iff.mp hids⟩
  · rintro ⟨listed, form, hform, ⟨rest, rfl⟩, hids⟩
    obtain ⟨hcount, hlisted, rfl⟩ := stores_iff.mp hform
    exact ⟨listed, rest, hcount, hlisted, List.append_assoc _ _ _,
      OrderedSet.ofList_eq_iff.mpr hids⟩

/-- A fault says that no list of ids is stored at the beginning of the bytes. -/
theorem decode_eq_error_iff {bytes : Bytes} :
    (∃ fault, decode bytes = .error fault) ↔
      ∀ listed form, Stores listed form → ¬ form <+: bytes := by
  constructor
  · rintro ⟨fault, hfault⟩ listed form hform hprefix
    have hread : decode bytes = .ok (OrderedSet.ofList listed) :=
      decode_eq_ok_iff_stores.mpr ⟨listed, form, hform, hprefix, fun _ ↦ OrderedSet.mem_ofList⟩
    cases hfault.symm.trans hread
  · intro h
    cases hdecode : decode bytes with
    | error fault => exact ⟨fault, rfl⟩
    | ok ids =>
      obtain ⟨listed, form, hform, hprefix, -⟩ := decode_eq_ok_iff_stores.mp hdecode
      exact absurd hprefix (h listed form hform)

/-- What is written is the stored form of the members in ascending order, and nothing else is. -/
theorem Fits.stores_ascending_iff {ids : IdSet} (h : ids.Fits) {form : Bytes} :
    (∃ listed, Stores listed form ∧ listed.Pairwise (· < ·) ∧ ∀ id, id ∈ ids ↔ id ∈ listed) ↔
      form = encode ids := by
  constructor
  · rintro ⟨listed, hform, hascending, hids⟩
    obtain rfl : ids.toList = listed := ids.ascending.eq_of_mem_iff hascending hids
    exact (stores_iff.mp hform).2.2
  · rintro rfl
    exact ⟨ids.toList, stores_iff.mpr ⟨h.size, h.length, rfl⟩, ids.ascending, fun _ ↦ Iff.rfl⟩

/-- The laws of the stored form.  Reading gives back the set that was written, whatever stands
behind it, precisely when every number fits its eight bytes, as it does for all sets that a machine
holds; such sets are told apart by their stored forms.  Any bytes are read as a set precisely when
they begin with the stored form of a list of its members, and are a fault precisely when they begin
with none.  The set is then written in the one ascending form, which is read as the set again. -/
theorem stored_form (ids : IdSet) (bytes : Bytes) :
    (decode (encode ids ++ bytes) = .ok ids ↔ ids.Fits) ∧
      (decode bytes = .ok ids ↔
        ∃ listed form, Stores listed form ∧ form <+: bytes ∧ ∀ id, id ∈ ids ↔ id ∈ listed) ∧
      ((∃ fault, decode bytes = .error fault) ↔
        ∀ listed form, Stores listed form → ¬ form <+: bytes) ∧
      (ids.Fits → ∀ others : IdSet, others.Fits → encode others = encode ids → others = ids) ∧
      (decode bytes = .ok ids →
        decode (encode ids) = .ok ids ∧
          ∀ form, (∃ listed, Stores listed form ∧ listed.Pairwise (· < ·) ∧
            ∀ id, id ∈ ids ↔ id ∈ listed) ↔ form = encode ids) := by
  refine ⟨⟨fits_of_decode, fun h ↦ decode_encode_append h bytes⟩, decode_eq_ok_iff_stores,
    decode_eq_error_iff, ?_, ?_⟩
  · intro hids others hothers heq
    have hread := decode_encode hothers
    rw [heq, decode_encode hids] at hread
    exact (Except.ok.inj hread).symm
  · intro h
    have hfits := fits_of_decode h
    exact ⟨decode_encode hfits, fun form ↦ hfits.stores_ascending_iff⟩

/-- Ids out of order, one of them twice and a byte behind them, are read as the set that is then
written in order.  No list is stored in bytes that announce more ids than there can be. -/
theorem stored_form_repeated :
    decode [3, 0, 0, 0, 0, 0, 0, 0, 1, 0, 0, 0, 0, 0, 0, 0, 0x62, 1, 0, 0, 0, 0, 0, 0, 0, 0x61,
        1, 0, 0, 0, 0, 0, 0, 0, 0x62, 0xFF] = .ok (OrderedSet.ofList ["a", "b"]) ∧
      decode (encode (OrderedSet.ofList ["a", "b"])) = .ok (OrderedSet.ofList ["a", "b"]) ∧
      ∀ listed form, Stores listed form → ¬ form <+: List.replicate 8 0xFF := by
  have hread : decode [3, 0, 0, 0, 0, 0, 0, 0, 1, 0, 0, 0, 0, 0, 0, 0, 0x62,
      1, 0, 0, 0, 0, 0, 0, 0, 0x61, 1, 0, 0, 0, 0, 0, 0, 0, 0x62, 0xFF] =
      .ok (OrderedSet.ofList ["a", "b"]) := by decide
  have hfault : decode (List.replicate 8 0xFF) = .error .numberCutOff := rfl
  exact ⟨hread, ((stored_form _ _).2.2.2.2 hread).1, (stored_form .empty _).2.2.1.mp ⟨_, hfault⟩⟩

end IdSet

end PathStore
