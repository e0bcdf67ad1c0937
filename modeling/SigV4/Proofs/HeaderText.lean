import SigV4.Draft
import SigV4.Proofs.AsciiText
import SigV4.Proofs.Pieces
import SigV4.Proofs.Stamp
import SigV4.Proofs.Success
/-!
The texts of methods and headers. Tokens hold no separator, and a value that can be read as text
holds no control but the tab: a method, a name or a joined value never ends the line it stands in.
What a header gives back is readable; what it can be set to may hold other octets too.
-/
namespace SigV4

theorem Method.ext_text {left right : Method} (same : left.text = right.text) : left = right := by
  cases left
  cases right
  cases same
  rfl

theorem Method.not_mem_text {octet : UInt8} (other : isTokenByte octet = false)
    (method : Method) : octet ∉ Bytes.ofText method.text :=
  Bytes.not_mem_of_class (List.all_eq_true.mp method.valid.2) other

namespace HeaderName

theorem ext_text {left right : HeaderName} (same : left.text = right.text) : left = right := by
  cases left
  cases right
  cases same
  rfl

theorem not_mem_text {octet : UInt8} (other : isTokenByte octet = false) (name : HeaderName) :
    octet ∉ Bytes.ofText name.text := by
  refine Bytes.not_mem_of_class (List.all_eq_true.mp name.valid.2) ?_
  rw [other, Bool.false_and]

theorem octets_ne_nil (name : HeaderName) : Bytes.ofText name.text ≠ [] := by
  intro empty
  exact name.valid.1 (Bytes.ofText_injective empty)

end HeaderName

theorem isAscii_of_isReadableByte {octet : UInt8} (readable : isReadableByte octet = true) :
    Bytes.isAscii octet = true :=
  Bytes.of_class readable (by decide +kernel)

def Bytes.IsReadable (octets : Bytes) : Prop := ∀ octet ∈ octets, isReadableByte octet = true

def Readable (text : String) : Prop := ∀ octet ∈ Bytes.ofText text, isReadableByte octet = true

theorem readable_of_all {text : String}
    (all : (Bytes.ofText text).all isReadableByte = true) : Readable text :=
  List.all_eq_true.mp all

theorem readable_append {left right : String} :
    Readable (left ++ right) ↔ Readable left ∧ Readable right := by
  simp [Readable, or_imp, forall_and]

theorem readable_encode (bytes : Bytes) : Readable (Hex.encode bytes) := by
  intro octet member
  have digit := Hex.isLowerDigit_of_mem_digits (Hex.ofText_encode _ ▸ member)
  exact Bytes.of_class digit (by decide +kernel)

theorem Instant.readable_datetimeText (instant : Instant) : Readable instant.datetimeText :=
  fun _ member => Bytes.of_class (isStampByte_of_mem_datetimeText member) (by decide +kernel)

theorem isValueByte_of_isReadableByte {octet : UInt8} (readable : isReadableByte octet = true) :
    isValueByte octet = true :=
  Bytes.of_class readable (by decide +kernel)

theorem HeaderValue.readable?_of_octets {value : HeaderValue} {text : String}
    (spelled : value.octets = Bytes.ofText text) (readable : Readable text) :
    value.readable? = some text := by
  rw [readable?, spelled, if_pos (List.all_eq_true.mpr readable)]
  congr 1
  apply Bytes.ofText_injective
  exact Bytes.ofText_asciiText fun octet member =>
    isAscii_of_isReadableByte (readable octet member)

def Sendable (text : String) : Prop := ∀ octet ∈ Bytes.ofText text, isValueByte octet = true

theorem sendable_append {left right : String} :
    Sendable (left ++ right) ↔ Sendable left ∧ Sendable right := by
  simp [Sendable, or_imp, forall_and]

theorem sendable_of_readable {text : String} (readable : Readable text) : Sendable text :=
  fun octet member => isValueByte_of_isReadableByte (readable octet member)

namespace HeaderValue

def ofSendable (text : String) (sensitive : Bool) (sendable : Sendable text) : HeaderValue :=
  ⟨Bytes.ofText text, sensitive, List.all_eq_true.mpr sendable⟩

def checked (text : String) (sensitive : Bool) : Except Fault HeaderValue :=
  match ofText? text sensitive with
  | some value => .ok value
  | none => .error .headerValueInvalid

theorem checked_sendable {text : String} (sendable : Sendable text) (sensitive : Bool) :
    checked text sensitive = .ok (ofSendable text sensitive sendable) := by
  have valid : (Bytes.ofText text).all isValueByte = true := List.all_eq_true.mpr sendable
  rw [checked, ofText?, ofBytes?, dif_pos valid]
  rfl

theorem checked_ok {text : String} {sensitive : Bool} {value : HeaderValue}
    (made : checked text sensitive = .ok value) : value.octets = Bytes.ofText text := by
  by_cases valid : (Bytes.ofText text).all isValueByte = true
  · rw [checked_sendable (List.all_eq_true.mp valid)] at made
    exact Except.ok.inj made ▸ rfl
  · rw [checked, ofText?, ofBytes?, dif_neg valid] at made
    contradiction

theorem sensitive_of_checked {text : String} {sensitive : Bool} {value : HeaderValue}
    (made : checked text sensitive = .ok value) : value.sensitive = sensitive := by
  by_cases valid : (Bytes.ofText text).all isValueByte = true
  · rw [checked_sendable (List.all_eq_true.mp valid)] at made
    exact Except.ok.inj made ▸ rfl
  · rw [checked, ofText?, ofBytes?, dif_neg valid] at made
    contradiction

theorem sendable_of_checked {text : String} {sensitive : Bool} {value : HeaderValue}
    (made : checked text sensitive = .ok value) : Sendable text := by
  have valid := List.all_eq_true.mp value.valid
  rwa [checked_ok made] at valid

end HeaderValue

namespace Draft

/-- What a value is read as are the octets it holds. -/
theorem readValue_ok {value : HeaderValue} {text : String} (read : readValue value = .ok text) :
    Bytes.ofText text = value.octets ∧ ∀ octet ∈ value.octets, isReadableByte octet = true := by
  unfold readValue HeaderValue.readable? at read
  by_cases readable : value.octets.all isReadableByte = true
  · rw [if_pos readable] at read
    have all := List.all_eq_true.mp readable
    refine ⟨?_, all⟩
    rw [← Except.ok.inj read]
    exact Bytes.ofText_asciiText fun octet member =>
      isAscii_of_isReadableByte (all octet member)
  · rw [if_neg readable] at read
    contradiction

theorem readValue_iff {value : HeaderValue} :
    (∃ text, readValue value = .ok text) ↔ Bytes.IsReadable value.octets := by
  constructor
  · rintro ⟨text, read⟩
    exact (readValue_ok read).2
  · intro readable
    have all : value.octets.all isReadableByte = true := List.all_eq_true.mpr readable
    rw [readValue, HeaderValue.readable?, if_pos all]
    exact ⟨_, rfl⟩

theorem joinedText_iff {values : List HeaderValue} :
    (∃ text, joinedText values = .ok text) ↔ ∀ value ∈ values, Bytes.IsReadable value.octets := by
  constructor
  · rintro ⟨text, joined⟩ value member
    obtain ⟨texts, read, _⟩ := Success.map_ok.mp joined
    obtain ⟨piece, _, found⟩ := Success.exists_of_mapM read member
    exact readValue_iff.mp ⟨piece, found⟩
  · intro readable
    obtain ⟨texts, read⟩ := Success.mapM_of_forall fun value member =>
      readValue_iff.mpr (readable value member)
    exact ⟨_, Success.map_ok.mpr ⟨texts, read, rfl⟩⟩

-- The comma between two values is readable itself, unlike all that ends a line.
theorem isReadableByte_of_mem_joined {values : List HeaderValue} {text : String} {octet : UInt8}
    (joined : joinedText values = .ok text) (member : octet ∈ Bytes.ofText text) :
    isReadableByte octet = true := by
  obtain ⟨texts, read, rfl⟩ := Success.map_ok.mp joined
  rw [Bytes.ofText_intercalate] at member
  rcases Form.mem_of_mem_intercalate member with comma | ⟨piece, present, inside⟩
  · exact List.mem_singleton.mp comma ▸ rfl
  · obtain ⟨text, found, rfl⟩ := List.mem_map.mp present
    obtain ⟨value, _, given⟩ := Success.mem_of_mapM read found
    obtain ⟨octets, all⟩ := readValue_ok given
    exact all octet (octets ▸ inside)

theorem not_mem_joined {values : List HeaderValue} {text : String} {octet : UInt8}
    (other : isReadableByte octet = false) (joined : joinedText values = .ok text) :
    octet ∉ Bytes.ofText text :=
  Bytes.not_mem_of_class (fun _ member => isReadableByte_of_mem_joined joined member) other

theorem readable?_of_readValue {value : HeaderValue} {text : String}
    (read : readValue value = .ok text) : value.readable? = some text := by
  unfold readValue at read
  split at read
  · next found => rw [found, Except.ok.inj read]
  · contradiction

theorem readable_of_readValue {value : HeaderValue} {text : String}
    (read : readValue value = .ok text) : Readable text := by
  obtain ⟨octets, all⟩ := readValue_ok read
  exact fun octet member => all octet (octets ▸ member)

/-- A header that is read is its first value, or there is none. -/
theorem headerText?_ok {draft : Draft} {name : HeaderName} {found : Option String}
    (read : draft.headerText? name = .ok found) :
    (∃ value rest text, draft.headers.values name = value :: rest ∧ readValue value = .ok text ∧
      found = some text) ∨ (draft.headers.values name = [] ∧ found = none) := by
  unfold headerText? at read
  cases present : draft.headers.values name with
  | cons value rest =>
      rw [present] at read
      obtain ⟨text, spelled, same⟩ := Success.map_ok.mp read
      exact Or.inl ⟨value, rest, text, rfl, spelled, same.symm⟩
  | nil =>
      rw [present] at read
      exact Or.inr ⟨rfl, (Except.ok.inj read).symm⟩

theorem setHeader_eq (draft : Draft) (name : HeaderName) (text : String) (sensitive : Bool) :
    draft.setHeader name text sensitive = (HeaderValue.checked text sensitive).map fun value =>
      { draft with headers := draft.headers.insert name value } := by
  unfold setHeader HeaderValue.checked
  cases HeaderValue.ofText? text sensitive with
  | none => rfl
  | some value => rfl

end Draft

end SigV4
