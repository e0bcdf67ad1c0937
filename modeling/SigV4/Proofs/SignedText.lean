import SigV4.Proofs.AsciiText
import SigV4.Proofs.Stamp
import SigV4.Signer
/-!
The texts that are signed, told apart. Such a text is three lines and any number of digests, each on
a line of its own, so it can be read back to these as long as none of them breaks its line. The first
line alone tells the text of a request from that of a frame, whatever else the two hold.
-/
namespace SigV4

def OneLine (text : String) : Prop := '\n' ∉ text.toList

instance (text : String) : Decidable (OneLine text) := inferInstanceAs (Decidable (¬ _))

namespace OneLine

theorem of_octets {text : String} (free : '\n'.toUInt8 ∉ Bytes.ofText text) : OneLine text := by
  intro member
  apply free
  rw [← String.ofList_toList (s := text), Bytes.ofText_ofList]
  exact List.mem_flatMap.mpr ⟨'\n', member, List.mem_singleton_self _⟩

theorem append {left right : String} (first : OneLine left) (second : OneLine right) :
    OneLine (left ++ right) := by
  intro member
  rw [String.toList_append] at member
  rcases List.mem_append.mp member with front | back
  · exact first front
  · exact second back

/-- Digests and signatures are written in hexadecimal. -/
theorem encode (octets : Bytes) : OneLine (Hex.encode octets) := by
  apply of_octets
  rw [Hex.ofText_encode]
  exact Bytes.not_mem_of_class (fun _ => Hex.isLowerDigit_of_mem_digits) rfl

theorem dateText (time : Instant) : OneLine time.dateText :=
  of_octets (Instant.not_mem_dateText rfl)

theorem datetimeText (time : Instant) : OneLine time.datetimeText :=
  of_octets time.lineFeed_not_mem_datetimeText

theorem scopeText {scope : Scope} (region : OneLine scope.region)
    (service : OneLine scope.service) : OneLine scope.text := by
  have slash : OneLine "/" := by decide
  have terminator : OneLine Scope.terminator := by decide
  have spelled : scope.text = scope.date ++ "/" ++ scope.region ++ "/" ++ scope.service ++ "/"
      ++ Scope.terminator := by
    simp [Scope.text, Scope.parts, String.append_assoc]
  rw [spelled]
  exact ((((((dateText scope.time).append slash).append region).append slash).append
    service).append slash).append terminator

end OneLine

namespace Signature

variable {algorithm other : String} {scope otherScope : Scope} {digests others : List String}

/-- What is joined of lines falls apart into them again. -/
theorem splitOn_lines {lines : List String} (full : lines ≠ [])
    (free : ∀ line ∈ lines, OneLine line) :
    (String.intercalate "\n" lines).toList.splitOn '\n' = lines.map String.toList := by
  rw [String.toList_intercalate]
  apply List.splitOn_intercalate
  · intro characters member
    obtain ⟨line, listed, rfl⟩ := List.mem_map.mp member
    exact free line listed
  · intro empty
    exact full (List.map_eq_nil_iff.mp empty)

theorem lines_unique {left right : List String} (leftFull : left ≠ []) (rightFull : right ≠ [])
    (leftFree : ∀ line ∈ left, OneLine line) (rightFree : ∀ line ∈ right, OneLine line)
    (same : String.intercalate "\n" left = String.intercalate "\n" right) : left = right := by
  have characters : left.map String.toList = right.map String.toList := by
    rw [← splitOn_lines leftFull leftFree, same, splitOn_lines rightFull rightFree]
  exact (List.map_inj_right fun _ _ => String.toList_injective).mp characters

/-- What a text to sign is put together from, if no part of it breaks a line. -/
structure Unbroken (algorithm : String) (scope : Scope) (digests : List String) : Prop where
  algorithm : OneLine algorithm
  region : OneLine scope.region
  service : OneLine scope.service
  digests : ∀ digest ∈ digests, OneLine digest

theorem Unbroken.lines (unbroken : Unbroken algorithm scope digests) :
    ∀ line ∈ [algorithm, scope.datetime, scope.text] ++ digests, OneLine line := by
  simp only [List.cons_append, List.nil_append, List.forall_mem_cons]
  exact ⟨unbroken.algorithm, .datetimeText scope.time, .scopeText unbroken.region unbroken.service,
    unbroken.digests⟩

theorem stringToSign_eq_iff (left : Unbroken algorithm scope digests)
    (right : Unbroken other otherScope others) :
    stringToSign algorithm scope digests = stringToSign other otherScope others ↔
      algorithm = other ∧ scope.datetime = otherScope.datetime ∧ scope.text = otherScope.text ∧
        digests = others := by
  constructor
  · intro same
    have parts := lines_unique (by simp) (by simp) left.lines right.lines same
    simpa only [List.cons_append, List.nil_append, List.cons.injEq] using parts
  · rintro ⟨rfl, datetime, text, rfl⟩
    rw [stringToSign, stringToSign, datetime, text]

/-- The first line of a text to sign is its algorithm, whatever follows. -/
theorem head_stringToSign (plain : OneLine algorithm) (scope : Scope) (digests : List String) :
    ((stringToSign algorithm scope digests).toList.splitOn '\n').head? = some algorithm.toList := by
  have started : stringToSign algorithm scope digests =
      algorithm ++ "\n" ++ String.intercalate "\n" ([scope.datetime, scope.text] ++ digests) := by
    simp [stringToSign, lines, String.append_assoc]
  have unmarked : ∀ character ∈ algorithm.toList, (character == '\n') = false := by
    intro character member
    exact beq_eq_false_iff_ne.mpr fun feed => plain (feed ▸ member)
  rw [started, String.toList_append, String.toList_append, List.append_assoc]
  exact congrArg List.head? (List.splitOnP_append_cons_of_forall_mem unmarked '\n' rfl _)

theorem algorithm_unique (plain : OneLine algorithm) (otherPlain : OneLine other)
    (same : stringToSign algorithm scope digests = stringToSign other otherScope others) :
    algorithm = other := by
  have first := head_stringToSign plain scope digests
  rw [same, head_stringToSign otherPlain, Option.some.injEq] at first
  exact (String.toList_injective first).symm

/-- What is signed for a request is never signed for a frame. -/
theorem request_ne_frame (scope : Scope) (canonical : Canonical) (session : Event.Session)
    (time : Instant) (block payload : Bytes) :
    Signer.stringToSign scope canonical ≠ session.stringToSign time block payload := by
  intro same
  have names : requestAlgorithm = frameAlgorithm := algorithm_unique (by decide) (by decide) same
  exact absurd names (by decide)

/-- Texts to sign that are equal say the same, as long as nothing in them breaks a line, which no
digest does; and whatever they hold, that of a request and that of a frame are never equal. -/
theorem signed_texts_apart :
    (∀ (algorithm other : String) (scope otherScope : Scope) (digests others : List String),
      Unbroken algorithm scope digests → Unbroken other otherScope others →
      (stringToSign algorithm scope digests = stringToSign other otherScope others ↔
        algorithm = other ∧ scope.datetime = otherScope.datetime ∧
          scope.text = otherScope.text ∧ digests = others)) ∧
    (∀ octets : Bytes, OneLine (Hex.encode octets)) ∧
    ∀ (scope : Scope) (canonical : Canonical) (session : Event.Session) (time : Instant)
      (block payload : Bytes),
      Signer.stringToSign scope canonical ≠ session.stringToSign time block payload :=
  ⟨fun _ _ _ _ _ _ left right => stringToSign_eq_iff left right, OneLine.encode, request_ne_frame⟩

-- A slash may stand in a region as well as in a service, so these two scopes are written alike.
def wideRegion : Scope := ⟨"a/b", "c", Instant.epoch⟩

def wideService : Scope := ⟨"a", "b/c", Instant.epoch⟩

theorem unbroken_epoch (region service : String) (octets : List Bytes)
    (free : OneLine region ∧ OneLine service) :
    Unbroken requestAlgorithm ⟨region, service, Instant.epoch⟩ (octets.map Hex.encode) := by
  refine ⟨by decide, free.1, free.2, ?_⟩
  intro digest member
  obtain ⟨source, _, rfl⟩ := List.mem_map.mp member
  exact .encode source

/-- What is signed tells the texts of scopes, and so neither region nor service on its own; it tells
one digest from the same digest twice. -/
theorem slashed_scopes_signed_alike :
    wideRegion.region ≠ wideService.region ∧
      Unbroken requestAlgorithm wideRegion ["ab"] ∧ Unbroken requestAlgorithm wideService ["ab"] ∧
      stringToSign requestAlgorithm wideRegion ["ab"] =
        stringToSign requestAlgorithm wideService ["ab"] ∧
      stringToSign requestAlgorithm wideRegion ["ab"] ≠
        stringToSign requestAlgorithm wideService ["ab", "ab"] := by
  have region : Unbroken requestAlgorithm wideRegion ["ab"] :=
    unbroken_epoch "a/b" "c" [[0xab]] (by decide)
  have service : Unbroken requestAlgorithm wideService ["ab"] :=
    unbroken_epoch "a" "b/c" [[0xab]] (by decide)
  have twice : Unbroken requestAlgorithm wideService ["ab", "ab"] :=
    unbroken_epoch "a" "b/c" [[0xab], [0xab]] (by decide)
  refine ⟨by decide, region, service, ?alike, ?apart⟩
  case alike =>
    exact (signed_texts_apart.1 _ _ _ _ _ _ region service).mpr ⟨rfl, rfl, by decide +kernel, rfl⟩
  case apart =>
    intro same
    have parts := (signed_texts_apart.1 _ _ _ _ _ _ region twice).mp same
    exact absurd (congrArg List.length parts.2.2.2) (by decide)

end Signature

end SigV4
