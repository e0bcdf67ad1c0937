import SigV4.Bytes
/-!
Methods and headers. Header names are tokens in lower case, values are octets without controls
other than the tab, and a value may be marked as sensitive. A header may have several values; their
order matters within one name only, so `values` is the view of a header list.
-/
namespace SigV4

def isTokenByte (octet : UInt8) : Bool :=
  Bytes.isAlphanumeric octet ||
    Bytes.isOneOf
      ['!', '#', '$', '%', '&', '\'', '*', '+', '-', '.', '^', '_', '\x60', '|', '~'] octet

structure Method where
  text : String
  valid : text ≠ "" ∧ (Bytes.ofText text).all isTokenByte = true
  deriving DecidableEq

namespace Method

def get : Method := ⟨"GET", by decide⟩

def ofBytes? (octets : Bytes) : Option Method :=
  let text := Bytes.asciiText octets
  if valid : text ≠ "" ∧ (Bytes.ofText text).all isTokenByte = true then some ⟨text, valid⟩
  else none

end Method

structure HeaderName where
  text : String
  valid : text ≠ "" ∧
    (Bytes.ofText text).all (fun octet => isTokenByte octet && !Bytes.isUpper octet) = true
  deriving DecidableEq

namespace HeaderName

def maxLength : Nat := 65535

def ofBytes? (octets : Bytes) : Option HeaderName :=
  let text := Bytes.asciiText (octets.map Bytes.lower)
  if octets.length > maxLength then none
  else if valid : text ≠ "" ∧
      (Bytes.ofText text).all (fun octet => isTokenByte octet && !Bytes.isUpper octet) = true then
    some ⟨text, valid⟩
  else none

def authorization : HeaderName := ⟨"authorization", by decide⟩

def host : HeaderName := ⟨"host", by decide⟩

def amzDate : HeaderName := ⟨"x-amz-date", by decide⟩

def amzSecurityToken : HeaderName := ⟨"x-amz-security-token", by decide⟩

def amzContentSha256 : HeaderName := ⟨"x-amz-content-sha256", by decide⟩

end HeaderName

def isValueByte (octet : UInt8) : Bool := (0x20 ≤ octet && octet != 0x7F) || octet == 0x09

def isReadableByte (octet : UInt8) : Bool := (0x20 ≤ octet && octet < 0x7F) || octet == 0x09

structure HeaderValue where
  octets : Bytes
  sensitive : Bool
  valid : octets.all isValueByte = true
  deriving DecidableEq

namespace HeaderValue

def ofBytes? (octets : Bytes) (sensitive : Bool) : Option HeaderValue :=
  if valid : octets.all isValueByte = true then some ⟨octets, sensitive, valid⟩ else none

def ofText? (text : String) (sensitive : Bool) : Option HeaderValue :=
  ofBytes? (Bytes.ofText text) sensitive

def readable? (value : HeaderValue) : Option String :=
  if value.octets.all isReadableByte then some (Bytes.asciiText value.octets) else none

def isSpace (octet : UInt8) : Bool := octet == ' '.toUInt8

def isBlank (octet : UInt8) : Bool :=
  isSpace octet || octet == 0x09 || octet == 0x0A || octet == 0x0C || octet == 0x0D

def trim (octets : Bytes) : Bytes :=
  ((octets.dropWhile isBlank).reverse.dropWhile isBlank).reverse

def collapse (octets : Bytes) : Bytes :=
  octets.foldr
    (fun octet rest => if isSpace octet && rest.head?.any isSpace then rest else octet :: rest) []

theorem mem_of_mem_collapse {octets : Bytes} {octet : UInt8} (member : octet ∈ collapse octets) :
    octet ∈ octets := by
  induction octets with
  | nil => exact member
  | cons first rest ih =>
      simp only [collapse, List.foldr_cons] at member ih ⊢
      split at member
      · exact List.mem_cons_of_mem _ (ih member)
      · rcases List.mem_cons.mp member with same | later
        · exact same ▸ List.mem_cons_self
        · exact List.mem_cons_of_mem _ (ih later)

theorem mem_of_mem_trim {octets : Bytes} {octet : UInt8} (member : octet ∈ trim octets) :
    octet ∈ octets := by
  have inner := (List.dropWhile_sublist isBlank).subset (List.mem_reverse.mp member)
  exact (List.dropWhile_sublist isBlank).subset (List.mem_reverse.mp inner)

/-- Blanks at both ends are dropped and runs of spaces inside are collapsed; tabs stay. -/
def normalize (value : HeaderValue) : HeaderValue where
  octets := collapse (trim value.octets)
  sensitive := value.sensitive
  valid := by
    have valid := value.valid
    rw [List.all_eq_true] at valid ⊢
    exact fun octet member => valid octet (mem_of_mem_trim (mem_of_mem_collapse member))

end HeaderValue

structure Headers where
  entries : List (HeaderName × HeaderValue)
  deriving DecidableEq

namespace Headers

def empty : Headers := ⟨[]⟩

def append (headers : Headers) (name : HeaderName) (value : HeaderValue) : Headers :=
  ⟨headers.entries ++ [(name, value)]⟩

def remove (headers : Headers) (name : HeaderName) : Headers :=
  ⟨headers.entries.filter (·.1 ≠ name)⟩

/-- The value replaces all that the name had. -/
def insert (headers : Headers) (name : HeaderName) (value : HeaderValue) : Headers :=
  (headers.remove name).append name value

def values (headers : Headers) (name : HeaderName) : List HeaderValue :=
  (headers.entries.filter (·.1 = name)).map (·.2)

def find (headers : Headers) (spelling : Bytes) : List HeaderValue :=
  match HeaderName.ofBytes? spelling with
  | some name => headers.values name
  | none => []

def get? (headers : Headers) (name : HeaderName) : Option HeaderValue :=
  (headers.values name).head?

def contains (headers : Headers) (name : HeaderName) : Bool := (headers.get? name).isSome

def mapValues (change : HeaderValue → HeaderValue) (headers : Headers) : Headers :=
  ⟨headers.entries.map fun (name, value) => (name, change value)⟩

def namesExcept (excluded : List String) (headers : Headers) : List HeaderName :=
  (((headers.entries.map (·.1)).filter (!excluded.contains ·.text)).eraseDups).mergeSort
    fun left right => decide (Bytes.ofText left.text ≤ Bytes.ofText right.text)

-- What each operation does to the values of a name.

@[simp] theorem values_append (headers : Headers) (name other : HeaderName) (value : HeaderValue) :
    (headers.append name value).values other =
      headers.values other ++ if name = other then [value] else [] := by
  by_cases same : name = other <;> simp [append, values, same]

@[simp] theorem values_remove (headers : Headers) (name other : HeaderName) :
    (headers.remove name).values other = if name = other then [] else headers.values other := by
  by_cases same : name = other
  · simp [remove, values, same]
  · have kept : ∀ entry : HeaderName × HeaderValue,
        (decide (entry.1 = other) && decide (entry.1 ≠ name)) = decide (entry.1 = other) := by
      intro entry
      by_cases found : entry.1 = other
      · simp [found, Ne.symm same]
      · simp [found]
    simp only [remove, values, List.filter_filter, kept, same, if_false]

@[simp] theorem values_insert (headers : Headers) (name other : HeaderName) (value : HeaderValue) :
    (headers.insert name value).values other =
      if name = other then [value] else headers.values other := by
  by_cases same : name = other <;> simp [insert, same]

@[simp] theorem values_mapValues (headers : Headers) (change : HeaderValue → HeaderValue)
    (name : HeaderName) :
    (headers.mapValues change).values name = (headers.values name).map change := by
  simp [mapValues, values, List.filter_map, Function.comp_def]

theorem mem_namesExcept {headers : Headers} {excluded : List String} {name : HeaderName} :
    name ∈ headers.namesExcept excluded ↔
      name.text ∉ excluded ∧ ∃ value, (name, value) ∈ headers.entries := by
  simp [namesExcept, List.mem_mergeSort, List.mem_eraseDups, and_comm]

end Headers

end SigV4
