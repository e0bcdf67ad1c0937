import SigV4.Proofs.AlikeDraft
/-!
Escaped texts, said by their form: an octet is written as it is just if it may be kept, and as a
percent sign and two upper-case digits otherwise. An octet string has one such form, and is read
back from it. The two sides of a query pair and the path of a request are signed in this form, the
pairs in the order of what is written; and a path that is in it already is signed as it stands.
-/
namespace SigV4

namespace Percent

def unreserved : Bytes :=
  Bytes.ofText "ABCDEFGHIJKLMNOPQRSTUVWXYZabcdefghijklmnopqrstuvwxyz0123456789-._~"

def unreservedOrSlash : Bytes := '/'.toUInt8 :: unreserved

theorem isUnreserved_eq : isUnreserved = unreserved.contains :=
  funext (Bytes.forall_octet (fun octet => isUnreserved octet = unreserved.contains octet)
    (by decide +kernel))

theorem isUnreservedOrSlash_eq : isUnreservedOrSlash = unreservedOrSlash.contains := by
  funext octet
  rw [isUnreservedOrSlash, isUnreserved_eq, unreservedOrSlash, List.contains_cons, Bool.or_comm]

/-- How octets are written: those that may be kept as they are, and each other one as an escape that
stands for it. -/
inductive Spelled (keep : UInt8 → Bool) : Bytes → Bytes → Prop where
  | nil : Spelled keep [] []
  | plain {octet : UInt8} {bytes written : Bytes} (kept : keep octet = true) :
      Spelled keep bytes written → Spelled keep (octet :: bytes) (octet :: written)
  | escaped {octet high low : UInt8} {bytes written : Bytes} (unkept : keep octet = false)
      (upperHigh : isUpperDigit high = true) (upperLow : isUpperDigit low = true)
      (stands : escaped? high low = some octet) :
      Spelled keep bytes written →
        Spelled keep (octet :: bytes) ('%'.toUInt8 :: high :: low :: written)

theorem spelled_encode (keep : UInt8 → Bool) (bytes : Bytes) :
    Spelled keep bytes (encode keep bytes) := by
  induction bytes with
  | nil => exact .nil
  | cons octet rest ih =>
      rw [encode, List.flatMap_cons, ← encode]
      by_cases kept : keep octet = true
      · rw [if_pos kept]
        exact .plain kept ih
      · rw [if_neg kept]
        obtain ⟨high, low⟩ := upperDigits octet
        exact .escaped (Bool.eq_false_of_not_eq_true kept) high low (escaped?_upperDigits octet) ih

/-- An upper-case digit has a value, and is the digit of it. -/
theorem value?_upperDigit {digit : UInt8} (upper : isUpperDigit digit = true) :
    ∃ value, Hex.value? digit = some value ∧ value.toNat < 16 ∧ Hex.upperDigit value = digit := by
  have read : (Hex.value? digit).any
      (fun value => decide (value.toNat < 16 ∧ Hex.upperDigit value = digit)) = true :=
    Bytes.forall_octet
      (fun digit => isUpperDigit digit = true → (Hex.value? digit).any
        (fun value => decide (value.toNat < 16 ∧ Hex.upperDigit value = digit)) = true)
      (by decide +kernel) digit upper
  obtain ⟨value, found, valid⟩ := (Option.any_eq_true _ _).mp read
  exact ⟨value, found, of_decide_eq_true valid⟩

theorem halves {high low : UInt8} (highSmall : high.toNat < 16) (lowSmall : low.toNat < 16) :
    (high * 16 + low) >>> 4 = high ∧ (high * 16 + low) &&& 15 = low := by
  have whole : (high * 16 + low).toNat = high.toNat * 16 + low.toNat := by
    simp only [UInt8.toNat_add, UInt8.toNat_mul, UInt8.reduceToNat]
    omega
  constructor
  · apply UInt8.toNat_inj.mp
    rw [UInt8.toNat_shiftRight, whole]
    simp only [UInt8.reduceToNat, Nat.reduceMod, Nat.shiftRight_eq_div_pow, Nat.reducePow]
    omega
  · have ones : (15 : UInt8).toNat = 2 ^ 4 - 1 := rfl
    apply UInt8.toNat_inj.mp
    rw [UInt8.toNat_and, whole, ones, Nat.and_two_pow_sub_one_eq_mod]
    omega

/-- One escape stands for an octet. -/
theorem escape_of_stands {octet high low : UInt8} (upperHigh : isUpperDigit high = true)
    (upperLow : isUpperDigit low = true) (stands : escaped? high low = some octet) :
    escape octet = ['%'.toUInt8, high, low] := by
  obtain ⟨first, readHigh, highSmall, rfl⟩ := value?_upperDigit upperHigh
  obtain ⟨second, readLow, lowSmall, rfl⟩ := value?_upperDigit upperLow
  obtain ⟨upper, lower⟩ := halves highSmall lowSmall
  rw [escaped?, readHigh, readLow] at stands
  rw [← Option.some.inj stands, escape, upper, lower]

/-- There is one way to write octets. -/
theorem spelled_iff {keep : UInt8 → Bool} {bytes written : Bytes} :
    Spelled keep bytes written ↔ written = encode keep bytes := by
  constructor
  · intro spelled
    induction spelled with
    | nil => rfl
    | plain kept _ ih =>
        rw [ih, encode, encode, List.flatMap_cons, if_pos kept, List.singleton_append]
    | escaped unkept upperHigh upperLow stands _ ih =>
        rw [ih, encode, encode, List.flatMap_cons, if_neg (by simp [unkept]),
          escape_of_stands upperHigh upperLow stands]
        rfl
  · rintro rfl
    exact spelled_encode keep bytes

structure Written (keep : UInt8 → Bool) (text written : String) : Prop where
  form : Spelled keep (Bytes.ofText text) (Bytes.ofText written)
  read : decode (Bytes.ofText written) = Bytes.ofText text

theorem written_query (text : String) :
    Written unreserved.contains text (encodeText isUnreserved text) := by
  constructor
  case form => rw [spelled_iff, ofText_encodeText_query, isUnreserved_eq]
  case read => rw [ofText_encodeText_query, decode_encode rfl]

theorem written_path (text : String) :
    Written unreservedOrSlash.contains text (encodeText isUnreservedOrSlash text) := by
  constructor
  case form => rw [spelled_iff, ofText_encodeText_path, isUnreservedOrSlash_eq]
  case read => rw [ofText_encodeText_path, decode_encode rfl]

end Percent

/-- A path is decoded just if its octets are those of a text. -/
theorem Draft.decodedPath_eq_ok {draft : Draft} {decoded : String} :
    draft.decodedPath = .ok decoded ↔
      Percent.decode (Bytes.ofText draft.path) = Bytes.ofText decoded := by
  rw [decodedPath, Success.mapError_ok]
  constructor
  · intro found
    exact (Utf8.ofText_of_decode found).symm
  · intro same
    rw [same, Utf8.decode_ofText]

namespace Canonical

theorem written_pathText (decoded : String) :
    Percent.Written Percent.unreservedOrSlash.contains (rooted decoded) (pathText decoded) :=
  pathText_eq decoded ▸ Percent.written_path (rooted decoded)

theorem rooted_rooted (path : String) : rooted (rooted path) = rooted path := by
  unfold rooted
  split
  · rfl
  · rfl

theorem pathText_rooted (decoded : String) : pathText (rooted decoded) = pathText decoded := by
  rw [pathText_eq, rooted_rooted, ← pathText_eq]

theorem path_ofDraft {draft : Draft} {decoded : String} {hash : PayloadHash}
    {canonical : Canonical} (path : draft.decodedPath = .ok decoded)
    (built : ofDraft draft hash = .ok canonical) : canonical.path = pathText decoded := by
  obtain ⟨again, headers, found, _, rfl⟩ := ofDraft_ok built
  rw [Except.ok.inj (path.symm.trans found)]

/-- Once its path is decoded, nothing but its header values can keep a draft from being signed. -/
theorem exists_ofDraft_of_path {draft : Draft} {decoded : String} {hash : PayloadHash}
    (path : draft.decodedPath = .ok decoded) :
    (∃ canonical, ofDraft draft hash = .ok canonical) ↔
      ∀ name, name.text ∉ unsignedHeaders →
        ∀ value ∈ draft.headers.values name, Bytes.IsReadable value.octets := by
  have found : ∃ decoded, draft.decodedPath = .ok decoded := ⟨decoded, path⟩
  rw [exists_ofDraft, and_iff_right found]
  simp only [Draft.headerJoined, Draft.joinedText_iff]

/-- The canonical spelling of a path decodes to what the path does. -/
theorem decodedPath_respelled (draft : Draft) (decoded : String) :
    { draft with path := pathText decoded }.decodedPath = .ok (rooted decoded) :=
  Draft.decodedPath_eq_ok.mpr (written_pathText decoded).read

/-- A request is signed as the one with its path in canonical spelling. -/
theorem ofDraft_respelled {draft : Draft} {decoded : String}
    (path : draft.decodedPath = .ok decoded) (hash : PayloadHash) :
    ofDraft { draft with path := pathText decoded } hash = ofDraft draft hash := by
  have headers : signedValues { draft with path := pathText decoded } = signedValues draft := rfl
  rw [ofDraft_eq, ofDraft_eq, decodedPath_respelled, path, headers]
  simp only [bind, Except.bind, pathText_rooted]

/-- Queries and paths are signed in the one form that their texts have. Pairs come in the order of
what is written of them. A path that is decoded is signed in that form, with the pairs joined, as
soon as the headers that are signed can be read, and a path that is spelled canonically is signed as
it stands. -/
theorem signed_in_written_form (pairs : List (String × String)) (draft : Draft) :
    ((sortedQuery pairs).Pairwise (fun left right =>
        Bytes.ofText left.1 < Bytes.ofText right.1 ∨
          (Bytes.ofText left.1 = Bytes.ofText right.1 ∧
            Bytes.ofText left.2 ≤ Bytes.ofText right.2)) ∧
      (sortedQuery pairs).Perm (pairs.map encodePair) ∧
      ∀ pair ∈ pairs,
        Percent.Written Percent.unreserved.contains pair.1 (encodePair pair).1 ∧
          Percent.Written Percent.unreserved.contains pair.2 (encodePair pair).2) ∧
    ∀ decoded, Percent.decode (Bytes.ofText draft.path) = Bytes.ofText decoded →
      ∃ path, Percent.Written Percent.unreservedOrSlash.contains (rooted decoded) path ∧
        ∀ hash,
          ((∃ canonical, ofDraft draft hash = .ok canonical) ↔
            ∀ name, name.text ∉ unsignedHeaders →
              ∀ value ∈ draft.headers.values name, Bytes.IsReadable value.octets) ∧
          (∀ canonical, ofDraft draft hash = .ok canonical → canonical.path = path ∧
            canonical.query = String.intercalate "&"
              ((sortedQuery draft.query).map fun (key, value) => key ++ "=" ++ value)) ∧
          ofDraft { draft with path := path } hash = ofDraft draft hash := by
  refine ⟨⟨?ascending, sortedQuery_perm pairs, fun pair _ =>
    ⟨Percent.written_query pair.1, Percent.written_query pair.2⟩⟩, ?path⟩
  case ascending =>
    exact (List.pairwise_mergeSort pairLe_trans pairLe_total _).imp pairLe_iff.mp
  case path =>
    intro decoded octets
    have path := Draft.decodedPath_eq_ok.mpr octets
    refine ⟨pathText decoded, written_pathText decoded, fun hash => ⟨?built, ?spelled, ?again⟩⟩
    case built => exact exists_ofDraft_of_path path
    case spelled => exact fun canonical built => ⟨path_ofDraft path built, query_ofDraft built⟩
    case again => exact ofDraft_respelled path hash

-- A tilde, a slash and a letter of two octets, all of them escaped; one value is no text.
def escapedPath : Draft :=
  spelled "/%7Ea%2Fb%c3%a9" [("é", "a b")]
    ⟨[spelledHost, spelledTag, (⟨"x-amzn-trace-id", by decide⟩, ⟨[0xFE], false, by decide⟩)]⟩

theorem escapedPath_readable : ∀ name : HeaderName, name.text ∉ unsignedHeaders →
    ∀ value ∈ escapedPath.headers.values name, Bytes.IsReadable value.octets := by
  intro name signed value member
  obtain ⟨entry, held, rfl⟩ := List.mem_map.mp member
  obtain ⟨inside, same⟩ := List.mem_filter.mp held
  simp only [escapedPath, spelled, List.mem_cons, List.not_mem_nil, or_false] at inside
  obtain rfl | rfl | rfl := inside
  · unfold Bytes.IsReadable
    decide +kernel
  · unfold Bytes.IsReadable
    decide +kernel
  · exact absurd (of_decide_eq_true same ▸ by decide) signed

theorem escaped_path_signed :
    Percent.decode (Bytes.ofText escapedPath.path) = Bytes.ofText "/~a/bé" ∧
      ∃ canonical, ofDraft escapedPath .unsigned = .ok canonical ∧
        canonical.path = "/~a/b%C3%A9" ∧ canonical.query = "%C3%A9=a%20b" ∧
        ofDraft { escapedPath with path := canonical.path } .unsigned = .ok canonical := by
  have octets : Percent.decode (Bytes.ofText escapedPath.path) = Bytes.ofText "/~a/bé" := by
    decide +kernel
  obtain ⟨_, signed⟩ := signed_in_written_form escapedPath.query escapedPath
  obtain ⟨path, _, form⟩ := signed "/~a/bé" octets
  obtain ⟨built, spelled, again⟩ := form .unsigned
  obtain ⟨canonical, done⟩ := built.mpr escapedPath_readable
  obtain ⟨same, joined⟩ := spelled canonical done
  have written : pathText "/~a/bé" = "/~a/b%C3%A9" := by decide +kernel
  have paired : queryText escapedPath.query = "%C3%A9=a%20b" := by decide +kernel
  refine ⟨octets, canonical, done, ?path, ?query, ?fixed⟩
  case path => rw [path_ofDraft (Draft.decodedPath_eq_ok.mpr octets) done, written]
  case query => exact joined.trans paired
  case fixed => rw [same, again, done]

end Canonical

end SigV4
