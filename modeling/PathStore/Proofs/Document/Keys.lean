import PathStore.Document.PathValue
import PathStore.Proofs.Json.Parsed
import PathStore.Storage.Documents

/-!
# The keys of what is read

A document that has been read has its keys in ascending order, at every depth: a member is put in
its place as soon as it is read, and of several with one key the last one stays.  So no member of
such a document stands behind another one with its key, where no path would find it.
-/

namespace PathStore.Json

theorem descend?_cons_eq_some_iff {value target : Json} {key : String} {rest : Path} :
    value.descend? (key :: rest) = some target ↔
      ∃ members member, value = .object members ∧ Entries.get? members key = some member ∧
        member.descend? rest = some target := by
  cases value with
  | null | bool | number | string | array => simp [descend?]
  | object members =>
    cases hmember : Entries.get? members key <;> simp [descend?, hmember]

/-- Every object to which a path leads has its keys in ascending order. -/
def KeysAscend (value : Json) : Prop :=
  ∀ path members, value.descend? path = some (.object members) → Entries.Ascending members

theorem keysAscend_of_not_object {value : Json} (h : ∀ members, value ≠ .object members) :
    value.KeysAscend := by
  intro path members hpath
  cases path with
  | nil => exact absurd (Option.some.inj hpath) (h members)
  | cons key rest =>
    obtain ⟨others, -, hvalue, -⟩ := descend?_cons_eq_some_iff.mp hpath
    exact absurd hvalue (h others)

theorem keysAscend_object_iff {document : Document} : (object document).KeysAscend ↔
    Entries.Ascending document ∧ ∀ member ∈ document, member.2.KeysAscend := by
  constructor
  · intro h
    have hascending := h [] document rfl
    refine ⟨hascending, ?_⟩
    rintro ⟨key, value⟩ hmem path members hpath
    have hget := Entries.get?_of_mem hascending hmem
    exact h (key :: path) members (descend?_cons_eq_some_iff.mpr ⟨_, value, rfl, hget, hpath⟩)
  · rintro ⟨hascending, hmembers⟩ path members hpath
    cases path with
    | nil => exact object.inj (Option.some.inj hpath) ▸ hascending
    | cons key rest =>
      obtain ⟨_, value, hdocument, hget, hrest⟩ := descend?_cons_eq_some_iff.mp hpath
      obtain rfl := object.inj hdocument
      exact hmembers (key, value) (Entries.mem_of_get? hget) rest members hrest

theorem keysAscend_of_members {document : Document} (h : Members KeysAscend document) :
    (object document).KeysAscend :=
  keysAscend_object_iff.mpr ⟨h.ascending, h.value⟩

/-- Ascending keys go over from the parts of a value to the value. -/
theorem inherited_keysAscend : Inherited KeysAscend where
  scalar := by
    rintro v (rfl | ⟨b, rfl⟩ | ⟨s, rfl⟩ | ⟨n, -, rfl⟩) <;>
      exact keysAscend_of_not_object nofun
  array := fun items _ ↦ keysAscend_of_not_object nofun
  object := fun document hmembers _ ↦ keysAscend_of_members hmembers

/-- In whatever has been read from a stored body, the keys ascend throughout. -/
theorem keysAscend_of_decodeBody {body : Bytes} {document : Document}
    (h : decodeBody body = .ok document) : (object document).KeysAscend :=
  keysAscend_of_members (members_of_decodeBody inherited_keysAscend h)

end PathStore.Json
