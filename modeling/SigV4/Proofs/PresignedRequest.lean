import SigV4.Proofs.Verification
import SigV4.Proofs.WrittenTarget
/-!
Verification of a presigned request. Its parameters stand in the query, escaped once for the
canonical text and once more on the way; the signature is written after all of them. A receiver
reads the pairs, takes the signature away and comes to the text that was signed, whatever the
parameters hold.
-/
namespace SigV4

namespace Draft

def valuesOf (name : String) (pairs : List (String × String)) : List String :=
  (pairs.filter (·.1 = name)).map (·.2)

def without (name : String) (pairs : List (String × String)) : List (String × String) :=
  pairs.filter (·.1 ≠ name)

theorem valuesOf_cons (name : String) (pair : String × String) (rest : List (String × String)) :
    valuesOf name (pair :: rest) =
      if pair.1 = name then pair.2 :: valuesOf name rest else valuesOf name rest := by
  unfold valuesOf
  by_cases same : pair.1 = name
  · simp [same]
  · simp [same]

theorem valuesOf_append (name : String) (left right : List (String × String)) :
    valuesOf name (left ++ right) = valuesOf name left ++ valuesOf name right := by
  rw [valuesOf, List.filter_append, List.map_append, valuesOf, valuesOf]

theorem valuesOf_absent {name : String} {pairs : List (String × String)}
    (absent : name ∉ pairs.map (·.1)) : valuesOf name pairs = [] := by
  induction pairs with
  | nil => rfl
  | cons pair rest ih =>
      rw [List.map_cons, List.mem_cons, not_or] at absent
      rw [valuesOf_cons, if_neg (Ne.symm absent.1), ih absent.2]

theorem valuesOf_distinct {name value : String} {pairs : List (String × String)}
    (distinct : (pairs.map (·.1)).Nodup) (member : (name, value) ∈ pairs) :
    valuesOf name pairs = [value] := by
  induction pairs with
  | nil => contradiction
  | cons pair rest ih =>
      obtain ⟨apart, others⟩ := List.nodup_cons.mp distinct
      rcases List.mem_cons.mp member with rfl | later
      · rw [valuesOf_cons, if_pos rfl, valuesOf_absent apart]
      · have different : pair.1 ≠ name := fun same =>
          apart (List.mem_map.mpr ⟨(name, value), later, same.symm⟩)
        rw [valuesOf_cons, if_neg different, ih others later]

theorem valuesOf_perm {left right : List (String × String)} (perm : left.Perm right)
    (name : String) : (valuesOf name left).Perm (valuesOf name right) :=
  (perm.filter _).map _

theorem valuesOf_sortedPairs {name value : String} {pairs : List (String × String)}
    (found : valuesOf name pairs = [value]) :
    valuesOf name (Canonical.sortedPairs pairs) = [value] := by
  have same := valuesOf_perm (Canonical.sortedPairs_perm pairs) name
  exact List.perm_singleton.mp (found ▸ same)

theorem without_absent {name : String} {pairs : List (String × String)}
    (absent : name ∉ pairs.map (·.1)) : without name pairs = pairs := by
  rw [without, List.filter_eq_self]
  intro pair member
  exact decide_eq_true fun same => absent (List.mem_map.mpr ⟨pair, member, same⟩)

def announcedHash? (draft : Draft) : Option PayloadHash :=
  match draft.headers.values .amzContentSha256 with
  | value :: _ => value.readable?.map .digest
  | [] => some .unsigned

end Draft

namespace Signer

def signatureName : String := "X-Amz-Signature"

/-- The names that presigning gives to its parameters, before there is a signature. -/
def parameterNames : List String :=
  ["X-Amz-Algorithm", "X-Amz-Credential", "X-Amz-Date", "X-Amz-Expires", "X-Amz-SignedHeaders",
    "X-Amz-Security-Token"]

end Signer

namespace Verification

/-- A name that stands for more than one value says nothing. -/
def only? : List String → Option String
  | [value] => some value
  | _ => none

def ofPresigned (request : Request) (secret region service : String) : Option Verification := do
  let draft ← (Draft.ofRequest request).toOption
  let hash ← draft.announcedHash?
  let covered := { draft with query := Draft.without Signer.signatureName draft.query }
  let canonical ← (Canonical.ofDraft covered hash).toOption
  let datetime ← only? (Draft.valuesOf "X-Amz-Date" draft.query)
  return recompute canonical datetime secret region service

end Verification

namespace Signer

variable {draft : Draft} {hash : PayloadHash} {canonical : Canonical} {credential : Credential}
  {expiry : Nat} {scope : Scope}

theorem names_parameters (draft : Draft) (credential : Credential) (expiry : Nat) (scope : Scope) :
    ((parameters draft credential expiry scope).map (·.1)).Sublist parameterNames := by
  unfold parameters
  cases credential.sessionToken with
  | none => exact List.sublist_append_left _ ["X-Amz-Security-Token"]
  | some token => exact List.Sublist.refl _

theorem full_parameters (draft : Draft) (credential : Credential) (expiry : Nat) (scope : Scope) :
    ("", "") ∉ parameters draft credential expiry scope := by
  intro member
  have named : "" ∈ parameterNames :=
    (names_parameters draft credential expiry scope).mem (List.mem_map.mpr ⟨_, member, rfl⟩)
  exact absurd named (by decide)

theorem valuesOf_parameters {name value : String}
    (member : (name, value) ∈ parameters draft credential expiry scope) :
    Draft.valuesOf name (parameters draft credential expiry scope) = [value] := by
  have distinct : parameterNames.Nodup := by decide
  exact Draft.valuesOf_distinct ((names_parameters draft credential expiry scope).nodup distinct)
    member

theorem presignedHash_ok (hashed : presignedHash draft = .ok hash) :
    draft.announcedHash? = some hash := by
  obtain ⟨found, read, hashed⟩ := Success.bind_ok.mp hashed
  unfold Draft.announcedHash?
  rcases Draft.headerText?_ok read with ⟨value, rest, text, present, spelled, rfl⟩ | ⟨absent, rfl⟩
  · rw [← Except.ok.inj hashed, present]
    exact congrArg (Option.map PayloadHash.digest) (Draft.readable?_of_readValue spelled)
  · rw [absent]
    exact congrArg some (Except.ok.inj hashed)

structure Presigned (source draft : Draft) (hash : PayloadHash) (credential : Credential)
    (expiry : Nat) (scope : Scope) : Prop where
  path : draft.path = source.path
  query : draft.query = source.query ++ parameters draft credential expiry scope
  payload : draft.announcedHash? = some hash

theorem prepare_query {signer : Signer} {request : Request} {body : Option Bytes}
    (prepared : signer.prepare request body credential (.query expiry) scope = .ok (draft, hash)) :
    ∃ source, Draft.ofRequest request = .ok source ∧
      Presigned source draft hash credential expiry scope := by
  obtain ⟨source, taken, hashed, rfl⟩ := prepare_query_ok prepared
  exact ⟨source, taken, rfl, rfl, presignedHash_ok hashed⟩

theorem encodePair_signature (credential : Credential) (scope : Scope) (canonical : Canonical) :
    Canonical.encodePair (signatureName, signature credential scope canonical) =
      (signatureName, signature credential scope canonical) := by
  have name : Percent.encodeText Percent.isUnreserved signatureName = signatureName :=
    Percent.encodeText_plain (List.all_eq_true.mp rfl)
  have digits : ∀ octet ∈ Bytes.ofText (signature credential scope canonical),
      Percent.isUnreserved octet = true := by
    intro octet member
    rw [signature, Signature.hex, Hex.ofText_encode] at member
    exact Bytes.of_class (Hex.isLowerDigit_of_mem_digits member) (by decide +kernel)
  rw [Canonical.encodePair, name, Percent.encodeText_plain digits]

/-- The pairs of a presigned uri: the signature comes after those that it signs. -/
def signedPairs (pairs : List (String × String)) (text : String) : List (String × String) :=
  Canonical.sortedPairs pairs ++ [(signatureName, text)]

section SignedPairs

variable {pairs : List (String × String)} {name value text : String}

theorem not_mem_sortedPairs (absent : name ∉ pairs.map (·.1)) :
    name ∉ (Canonical.sortedPairs pairs).map (·.1) := by
  rwa [((Canonical.sortedPairs_perm pairs).map _).mem_iff]

theorem without_signedPairs (absent : signatureName ∉ pairs.map (·.1)) :
    Draft.without signatureName (signedPairs pairs text) = Canonical.sortedPairs pairs := by
  have kept := Draft.without_absent (not_mem_sortedPairs absent)
  unfold Draft.without at kept ⊢
  rw [signedPairs, List.filter_append, kept]
  simp

theorem valuesOf_signature (absent : signatureName ∉ pairs.map (·.1)) :
    Draft.valuesOf signatureName (signedPairs pairs text) = [text] := by
  rw [signedPairs, Draft.valuesOf_append, Draft.valuesOf_absent (not_mem_sortedPairs absent),
    Draft.valuesOf_cons, if_pos rfl]
  rfl

theorem valuesOf_signedPairs (found : Draft.valuesOf name pairs = [value])
    (other : name ≠ signatureName) : Draft.valuesOf name (signedPairs pairs text) = [value] := by
  rw [signedPairs, Draft.valuesOf_append, Draft.valuesOf_sortedPairs found, Draft.valuesOf_cons,
    if_neg (Ne.symm other)]
  rfl

theorem full_signature (text : String) : ("", "") ∉ [(signatureName, text)] := by
  intro member
  have named : "" ≠ signatureName := by decide
  exact named (congrArg Prod.fst (List.mem_singleton.mp member))

theorem full_signedPairs (full : ("", "") ∉ pairs) : ("", "") ∉ signedPairs pairs text := by
  intro member
  rcases List.mem_append.mp member with earlier | last
  · exact full (Canonical.mem_sortedPairs.mp earlier)
  · exact full_signature text last

end SignedPairs

theorem written_signedPairs (pairs : List (String × String)) :
    (signedPairs pairs (signature credential scope canonical)).map Canonical.encodePair =
      Canonical.sortedQuery pairs ++ [(signatureName, signature credential scope canonical)] := by
  rw [signedPairs, List.map_append, Canonical.map_sortedPairs, List.map_singleton,
    encodePair_signature]

theorem place_query {signed : Request}
    (placed : place draft credential (.query expiry) scope canonical = .ok signed) :
    Draft.finish
      { draft with
        query := (signedPairs draft.query (signature credential scope canonical)).map
          Canonical.encodePair } = .ok signed := by
  rw [written_signedPairs]
  exact placed

theorem ofRequest_presigned {signed : Request}
    (valid : PathAndQuery.isPath draft.path = true) (spelled : draft.path ≠ "")
    (full : ("", "") ∉ draft.query)
    (placed : place draft credential (.query expiry) scope canonical = .ok signed) :
    Draft.ofRequest signed =
      .ok { draft with query := signedPairs draft.query (signature credential scope canonical) } := by
  have read := Draft.ofRequest_written (place_query placed) valid spelled rfl
  rwa [Draft.lasting_full (full_signedPairs full)] at read

namespace Presigned

variable {source : Draft} (ready : Presigned source draft hash credential expiry scope)
include ready

theorem names {name : String} (absent : name ∉ source.query.map (·.1))
    (other : name ∉ parameterNames) : name ∉ draft.query.map (·.1) := by
  rw [ready.query, List.map_append, List.mem_append]
  rintro (own | added)
  · exact absent own
  · exact other ((names_parameters draft credential expiry scope).mem added)

/-- Each parameter stands for one value, unless the request had its name before. -/
theorem value {name value : String} (absent : name ∉ source.query.map (·.1))
    (member : (name, value) ∈ parameters draft credential expiry scope) :
    Draft.valuesOf name draft.query = [value] := by
  rw [ready.query, Draft.valuesOf_append, Draft.valuesOf_absent absent, List.nil_append]
  exact valuesOf_parameters member

theorem full (blank : ("", "") ∉ source.query) : ("", "") ∉ draft.query := by
  rw [ready.query, List.mem_append]
  rintro (own | added)
  · exact blank own
  · exact full_parameters draft credential expiry scope added

end Presigned

/-- Whatever a draft was presigned as, the uri that is written from it verifies as that. -/
theorem verification_of_presigned {source : Draft} {signed : Request}
    (valid : PathAndQuery.isPath source.path = true) (spelled : source.path ≠ "")
    (full : ("", "") ∉ source.query)
    (free : ∀ name ∈ signatureName :: parameterNames, name ∉ source.query.map (·.1))
    (ready : Presigned source draft hash credential expiry scope)
    (built : Canonical.ofDraft draft hash = .ok canonical)
    (placed : place draft credential (.query expiry) scope canonical = .ok signed) :
    Verification.ofPresigned signed credential.secretAccessKey scope.region scope.service =
        some ⟨signature credential scope canonical, scope.text, canonical.signedHeaders⟩ ∧
      Draft.valuesOf signatureName signed.uri.pathAndQuery.pairs =
        [signature credential scope canonical] ∧
      Draft.valuesOf "X-Amz-SignedHeaders" signed.uri.pathAndQuery.pairs =
        [canonical.signedHeaders] := by
  have read := ofRequest_presigned (ready.path ▸ valid) (ready.path ▸ spelled) (ready.full full)
    placed
  obtain ⟨query, _⟩ := Draft.ofRequest_ok read
  have unsigned : signatureName ∉ draft.query.map (·.1) :=
    ready.names (free signatureName List.mem_cons_self) (by decide)
  have date : Draft.valuesOf "X-Amz-Date" draft.query = [scope.datetime] :=
    ready.value (free "X-Amz-Date" (by decide)) (by simp [parameters])
  have listed : Draft.valuesOf "X-Amz-SignedHeaders" draft.query = [canonical.signedHeaders] := by
    rw [Canonical.signedHeaders_ofDraft built]
    exact ready.value (free "X-Amz-SignedHeaders" (by decide)) (by simp [parameters])
  refine ⟨?verified, ?signature, ?names⟩
  case signature => rw [← query, valuesOf_signature unsigned]
  case names => rw [← query, valuesOf_signedPairs listed (by decide)]
  case verified =>
    have rebuilt := (Canonical.ofDraft_sortedPairs draft hash).trans built
    have payload : Draft.announcedHash?
        { draft with query := signedPairs draft.query (signature credential scope canonical) } =
          some hash := ready.payload
    rw [Verification.ofPresigned, read]
    simp only [Except.toOption, bind, Option.bind, payload, without_signedPairs unsigned, rebuilt,
      valuesOf_signedPairs date (by decide), Verification.only?]
    exact congrArg some (recompute_datetime credential scope canonical)

/-- A presigned request verifies from its uri: the signature that a receiver computes is the one
the signer gave out and the one in the query, and so is the list of what it covers. -/
theorem presigned_request_verifies {signer : Signer} {request : Request} {body : Option Bytes}
    {clock : Clock} {output : SigningOutput}
    (full : ("", "") ∉ request.uri.pathAndQuery.pairs)
    (free : ∀ pair ∈ request.uri.pathAndQuery.pairs, pair.1 ∉ signatureName :: parameterNames)
    (done : (signer.sign request body credential (.query expiry) clock).result = .ok output) :
    ∃ found : Verification,
      Verification.ofPresigned (signer.sign request body credential (.query expiry) clock).request
        credential.secretAccessKey signer.region signer.service = some found ∧
      found.signature = output.signature ∧
      Draft.valuesOf signatureName
          (signer.sign request body credential (.query expiry) clock).request.uri.pathAndQuery.pairs =
        [found.signature] ∧
      Draft.valuesOf "X-Amz-SignedHeaders"
          (signer.sign request body credential (.query expiry) clock).request.uri.pathAndQuery.pairs =
        [found.signedHeaders] := by
  obtain ⟨draft, hash, canonical, prepared, built, placed, rfl⟩ := signAt_ok (sign_ok done)
  obtain ⟨source, taken, ready⟩ := prepare_query prepared
  obtain ⟨query, valid, spelled⟩ := Draft.ofRequest_ok taken
  rw [← query] at full free
  have absent : ∀ name ∈ signatureName :: parameterNames, name ∉ source.query.map (·.1) := by
    intro name reserved present
    obtain ⟨pair, own, rfl⟩ := List.mem_map.mp present
    exact free pair own reserved
  obtain ⟨verified, signature, names⟩ :=
    verification_of_presigned valid spelled full absent ready built placed
  exact ⟨_, verified, rfl, signature, names⟩

theorem size_signature (credential : Credential) (scope : Scope) (canonical : Canonical) :
    (signature credential scope canonical).utf8ByteSize = 64 := by
  rw [← Bytes.length_ofText, signature, Signature.hex, Hex.ofText_encode, Hex.length_digits,
    Signature.octets, Hmac.length_mac]

-- The signature and its name take 79 octets, and the room for a pair is two octets more.
theorem place_of_short {rest : Bytes} (valid : PathAndQuery.isPath draft.path = true)
    (rooted : Bytes.ofText draft.path = '/'.toUInt8 :: rest)
    (short : draft.path.utf8ByteSize +
      Draft.querySize { draft with query := Canonical.sortedQuery draft.query } +
        2 * (Canonical.sortedQuery draft.query).length + 81 ≤ PathAndQuery.maxLength) :
    ∃ signed, place draft credential (.query expiry) scope canonical = .ok signed := by
  have size := Draft.querySize_pushQuery
    { draft with query := Canonical.sortedQuery draft.query } "X-Amz-Signature"
    (signature credential scope canonical)
  have name : "X-Amz-Signature".utf8ByteSize = 15 := rfl
  rw [size_signature, name] at size
  refine Draft.finish_of_short valid rooted (written_signedPairs draft.query).symm ?_
  simp only [Draft.pushQuery, List.length_append, List.length_singleton] at size ⊢
  omega

theorem presigned_of_short {signer : Signer} {request : Request} {body : Option Bytes}
    {clock : Clock} {rest : Bytes} (allowed : signer.check credential (.query expiry) = .ok ())
    (prepared : signer.prepare request body credential (.query expiry) (signer.scope clock.now) =
      .ok (draft, hash))
    (built : Canonical.ofDraft draft hash = .ok canonical)
    (valid : PathAndQuery.isPath draft.path = true)
    (rooted : Bytes.ofText draft.path = '/'.toUInt8 :: rest)
    (short : draft.path.utf8ByteSize +
      Draft.querySize { draft with query := Canonical.sortedQuery draft.query } +
        2 * (Canonical.sortedQuery draft.query).length + 81 ≤ PathAndQuery.maxLength) :
    ∃ output, (signer.sign request body credential (.query expiry) clock).result = .ok output := by
  obtain ⟨signed, placed⟩ := place_of_short valid rooted short
  exact sign_of_placed allowed prepared built placed

-- A listing that is given away with a session token, which no part of a query holds unescaped.
def guestKeys : Credential := ⟨"AKID", "secret", some "a/b+c=d&e"⟩

def guestDraft : Draft :=
  { listingDraft with
    query := [("prefix", "a b"), ("list", ""), ("X-Amz-Algorithm", "AWS4-HMAC-SHA256"),
      ("X-Amz-Credential", "AKID/19700101/us-east-1/s3/aws4_request"),
      ("X-Amz-Date", "19700101T000000Z"), ("X-Amz-Expires", "300"),
      ("X-Amz-SignedHeaders", "host"), ("X-Amz-Security-Token", "a/b+c=d&e")]
    headers := listingDraft.headers.remove .amzDate }

def guestCanonical : Canonical where
  method := "GET"
  path := "/"
  query := Canonical.queryText guestDraft.query
  headers := [(.host, "bucket.test")]
  payloadHash := "UNSIGNED-PAYLOAD"

def guestPlacement : Placement := .query 300

def invited : Signing :=
  lister.sign (listing "prefix=a+b&list" rfl .empty) none guestKeys guestPlacement
    ⟨Instant.epoch, []⟩

theorem guest_signed : ∃ output, invited.result = .ok output := by
  have prepared : lister.prepare (listing "prefix=a+b&list" rfl .empty) none guestKeys guestPlacement
      (lister.scope Instant.epoch) = .ok (guestDraft, .unsigned) := by
    cbv
  have built : Canonical.ofDraft guestDraft .unsigned = .ok guestCanonical := by
    cbv
  have room : guestDraft.path.utf8ByteSize +
      Draft.querySize { guestDraft with query := Canonical.sortedQuery guestDraft.query } +
        2 * (Canonical.sortedQuery guestDraft.query).length + 81 ≤ PathAndQuery.maxLength := by
    cbv
  exact presigned_of_short rfl prepared built rfl rfl room

theorem guest_verifies :
    ∃ output, invited.result = .ok output ∧
      ∃ found : Verification,
        Verification.ofPresigned invited.request guestKeys.secretAccessKey lister.region
          lister.service = some found ∧
        found.signature = output.signature ∧
        Draft.valuesOf signatureName invited.request.uri.pathAndQuery.pairs = [found.signature] ∧
        Draft.valuesOf "X-Amz-SignedHeaders" invited.request.uri.pathAndQuery.pairs =
          [found.signedHeaders] := by
  obtain ⟨output, done⟩ := guest_signed
  have full : ("", "") ∉ (listing "prefix=a+b&list" rfl .empty).uri.pathAndQuery.pairs := by
    decide +kernel
  have free : ∀ pair ∈ (listing "prefix=a+b&list" rfl .empty).uri.pathAndQuery.pairs,
      pair.1 ∉ signatureName :: parameterNames := by
    decide +kernel
  exact ⟨output, done, presigned_request_verifies full free done⟩

end Signer

end SigV4
