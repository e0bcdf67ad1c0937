import SigV4.Proofs.CarriedQuery
import SigV4.Proofs.CarriedRequest
import SigV4.Proofs.MendableFaults
/-!
When a request can be signed in a header. The steps that can fail act on a draft that the steps
before them have changed: a preset value that cannot be read does no harm where the signer replaces
it, and the target that has to fit is the one that is written again. Here the condition is told of
the request itself, of what the signer is set to, and of nothing in between.
-/
namespace SigV4

namespace HeaderValue

theorem mem_dropWhile_solid {octet : UInt8} (solid : isBlank octet = false) {octets : Bytes}
    (member : octet ∈ octets) : octet ∈ octets.dropWhile isBlank := by
  rw [← List.takeWhile_append_dropWhile (p := isBlank) (l := octets)] at member
  rcases List.mem_append.mp member with blank | later
  · rw [List.mem_takeWhile_imp blank] at solid
    contradiction
  · exact later

theorem mem_trim_solid {octet : UInt8} (solid : isBlank octet = false) {octets : Bytes}
    (member : octet ∈ octets) : octet ∈ trim octets := by
  have front := List.mem_reverse.mpr (mem_dropWhile_solid solid member)
  exact List.mem_reverse.mpr (mem_dropWhile_solid solid front)

theorem mem_collapse_solid {octet : UInt8} (solid : isBlank octet = false) {octets : Bytes}
    (member : octet ∈ octets) : octet ∈ collapse octets := by
  induction octets with
  | nil => exact member
  | cons first rest ih =>
      rw [collapse_cons]
      rcases List.mem_cons.mp member with rfl | later
      · rw [isSpace_of_solid solid, Bool.false_and, if_neg Bool.false_ne_true]
        exact List.mem_cons_self
      · split
        · exact ih later
        · exact List.mem_cons_of_mem _ (ih later)

/-- What is dropped from a value can be read: it is spaces and tabs. -/
theorem isReadable_normalize (value : HeaderValue) :
    Bytes.IsReadable value.normalize.octets ↔ Bytes.IsReadable value.octets := by
  constructor
  · intro readable octet member
    cases blank : isBlank octet with
    | true =>
        have held : isValueByte octet = true := List.all_eq_true.mp value.valid octet member
        exact Bytes.forall_octet
          (fun octet => isBlank octet = true → isValueByte octet = true →
            isReadableByte octet = true) (by decide +kernel) octet blank held
    | false => exact readable octet (mem_collapse_solid blank (mem_trim_solid blank member))
  · intro readable octet member
    exact readable octet (mem_of_mem_trim (mem_of_mem_collapse member))

theorem readable_normal {value : HeaderValue} {text : String}
    (readable : Bytes.IsReadable value.octets) (spelled : Bytes.ofText text = normal value.octets) :
    Readable text := by
  have read := value.isReadable_normalize.mpr readable
  rwa [octets_normalize, ← spelled] at read

end HeaderValue

namespace PathAndQuery

def Accepts (text : String) : Prop := ∃ parts, parse (Bytes.ofText text) = .ok parts

theorem parse_cons_iff {first : UInt8} {rest : Bytes} {parts : PathAndQuery} :
    parse (first :: rest) = .ok parts ↔
      (first :: rest).length ≤ maxLength ∧
        (Bytes.isOneOf ['/', '?', '#'] first = true ∨ first :: rest = Bytes.ofText "*") ∧
          ofTail (first :: rest) = .ok parts := by
  simp only [parse]
  by_cases long : (first :: rest).length > maxLength
  · rw [if_pos long]
    exact ⟨fun read => by contradiction, fun both => absurd both.1 (Nat.not_le.mpr long)⟩
  rw [if_neg long]
  by_cases started :
      (Bytes.isOneOf ['/', '?', '#'] first || first :: rest == Bytes.ofText "*") = true
  · rw [if_pos started]
    rw [Bool.or_eq_true, beq_iff_eq] at started
    exact ⟨fun read => ⟨Nat.not_lt.mp long, started, read⟩, fun both => both.2.2⟩
  · rw [if_neg started]
    rw [Bool.or_eq_true, beq_iff_eq] at started
    exact ⟨fun read => by contradiction, fun both => absurd both.2.1 started⟩

/-- What reads as a target is accepted as long as it is short, and starts as a path does. -/
theorem accepts_iff {text : String} {first : UInt8} {rest : Bytes} {parts : PathAndQuery}
    (started : Bytes.ofText text = first :: rest) (noFragment : '#'.toUInt8 ≠ first)
    (noQuery : '?'.toUInt8 ≠ first) (read : ofTail (Bytes.ofText text) = .ok parts) :
    Accepts text ↔
      text.utf8ByteSize ≤ maxLength ∧ (first = '/'.toUInt8 ∨ text = "*") := by
  have slash : Bytes.isOneOf ['/', '?', '#'] first = true ↔ first = '/'.toUInt8 := by
    simp only [Bytes.isOneOf, List.any_cons, List.any_nil, Bool.or_eq_true, beq_iff_eq, noFragment,
      noQuery, Bool.false_eq_true, or_false]
    exact eq_comm
  have star : first :: rest = Bytes.ofText "*" ↔ text = "*" := by
    rw [← started]
    exact ⟨fun same => Bytes.ofText_injective same, congrArg Bytes.ofText⟩
  rw [started] at read
  rw [Accepts, ← Bytes.length_ofText, started]
  simp only [parse_cons_iff, slash, star, read, Except.ok.injEq, exists_and_left, exists_eq',
    and_true]

end PathAndQuery

namespace Request

def target (request : Request) : String :=
  let query := Canonical.sortedQuery request.uri.pathAndQuery.pairs
  let path := request.uri.pathAndQuery.requestPath
  if ∀ pair ∈ query, pair = ("", "") then path else path ++ "?" ++ Draft.queryText query

end Request

namespace Draft

variable {request : Request} {source : Draft}

theorem querySize_eq_zero {draft : Draft} :
    draft.querySize = 0 ↔ ∀ pair ∈ draft.query, pair = ("", "") := by
  constructor
  · exact pairs_empty_of_querySize
  · intro empty
    unfold querySize
    generalize draft.query = query at empty ⊢
    induction query with
    | nil => rfl
    | cons pair rest ih =>
        rw [List.forall_mem_cons] at empty
        rw [List.foldr_cons, ih empty.2, empty.1]
        rfl

theorem target_rewritten (taken : ofRequest request = .ok source) :
    target { source with query := Canonical.sortedQuery source.query } = request.target := by
  obtain ⟨authority, _, rfl⟩ := ofRequest_iff.mp taken
  unfold target Request.target
  simp only [querySize_eq_zero]

/-- Nothing but the target decides whether a draft can be put together. -/
theorem finish_iff {draft : Draft} :
    (∃ uri, draft.finish = .ok ⟨draft.method, uri, draft.headers⟩) ↔
      PathAndQuery.Accepts draft.target := by
  constructor
  · rintro ⟨uri, finished⟩
    obtain ⟨parts, parsed, _⟩ := finish_ok finished
    exact ⟨parts, parsed⟩
  · rintro ⟨parts, parsed⟩
    refine ⟨⟨some draft.scheme, some draft.authority, parts⟩, ?_⟩
    rw [finish, parsed]
    rfl

/-- What is written again is accepted as long as it is short, and starts as a path does. -/
theorem accepts_target_iff (taken : ofRequest request = .ok source) :
    PathAndQuery.Accepts request.target ↔
      request.target.utf8ByteSize ≤ PathAndQuery.maxLength ∧
        ((∃ rest, Bytes.ofText source.path = '/'.toUInt8 :: rest) ∨ request.target = "*") := by
  obtain ⟨_, valid, spelled⟩ := ofRequest_ok taken
  have noFragment : '#'.toUInt8 ∉ Bytes.ofText source.path := PathAndQuery.not_mem_path valid rfl
  have noQuery : '?'.toUInt8 ∉ Bytes.ofText source.path := PathAndQuery.not_mem_path valid rfl
  obtain ⟨parts, read⟩ : ∃ parts, PathAndQuery.ofTail (Bytes.ofText
      (target { source with query := Canonical.sortedQuery source.query })) = .ok parts :=
    ofTail_written valid (Canonical.map_sortedPairs source.query).symm
  have octets := ofText_target { source with query := Canonical.sortedQuery source.query }
  rw [target_rewritten taken] at read octets
  cases start : Bytes.ofText source.path with
  | nil => exact absurd (Bytes.ofText_injective start) spelled
  | cons first rest =>
      obtain ⟨tail, started⟩ : ∃ tail, Bytes.ofText request.target = first :: tail := by
        rw [octets, start]
        split
        · exact ⟨rest, rfl⟩
        · exact ⟨_, rfl⟩
      rw [start, List.mem_cons, not_or] at noFragment noQuery
      rw [PathAndQuery.accepts_iff started noFragment.1 noQuery.1 read]
      simp only [List.cons.injEq, exists_and_left, exists_eq', and_true]

theorem decodedPath_iff (taken : ofRequest request = .ok source) :
    (∃ decoded, source.decodedPath = .ok decoded) ↔
      (Percent.decode (Bytes.ofText request.uri.pathAndQuery.requestPath)).IsText := by
  obtain ⟨authority, _, rfl⟩ := ofRequest_iff.mp taken
  constructor
  · rintro ⟨decoded, path⟩
    exact ⟨decoded, Utf8.ofText_of_decode (Success.mapError_ok.mp path)⟩
  · rintro ⟨decoded, octets⟩
    refine ⟨decoded, Success.mapError_ok.mpr ?_⟩
    rw [← octets, Utf8.decode_ofText]

end Draft

namespace PayloadStrategy

def Hashes (strategy : PayloadStrategy) (scheme : Option Scheme) : Prop :=
  strategy = .full ∨ strategy = .unsignedOverTls ∧ scheme ≠ some .https

inductive Resolves (strategy : PayloadStrategy) (request : Request) (body : Option Bytes) :
    PayloadHash → Prop where
  | streaming (chosen : strategy = .streaming) : Resolves strategy request body .streamingEvents
  | unsigned (chosen : strategy = .unsignedOverTls) (encrypted : request.uri.scheme = some .https) :
      Resolves strategy request body .unsigned
  | announced {value : HeaderValue} {rest : List HeaderValue} {text : String}
      (hashes : strategy.Hashes request.uri.scheme)
      (present : request.headers.values .amzContentSha256 = value :: rest)
      (readable : Bytes.IsReadable value.octets)
      (spelled : Bytes.ofText text = HeaderValue.normal value.octets) :
      Resolves strategy request body (.digest text)
  | hashed {octets : Bytes} (hashes : strategy.Hashes request.uri.scheme)
      (absent : request.headers.values .amzContentSha256 = []) (given : body = some octets) :
      Resolves strategy request body (.digest (Sha256.hexHash octets))

theorem Resolves.readable {strategy : PayloadStrategy} {request : Request} {body : Option Bytes}
    {hash : PayloadHash} (resolves : strategy.Resolves request body hash) : Readable hash.text := by
  cases resolves with
  | streaming => exact readable_of_all rfl
  | unsigned => exact readable_of_all rfl
  | announced _ _ readable spelled => exact HeaderValue.readable_normal readable spelled
  | hashed => exact readable_encode _

section Resolves

variable {strategy : PayloadStrategy} {request : Request} {source : Draft} {body : Option Bytes}
  {hash : PayloadHash} (taken : Draft.ofRequest request = .ok source)
include taken

theorem encrypted_iff :
    source.normalizeHeaders.isEncrypted = true ↔ request.uri.scheme = some .https := by
  obtain ⟨authority, _, rfl⟩ := Draft.ofRequest_iff.mp taken
  rw [Draft.isEncrypted, decide_eq_true_iff, Draft.normalizeHeaders]
  cases request.uri.scheme with
  | none => simp
  | some known => simp

theorem announced_values :
    source.normalizeHeaders.headers.values .amzContentSha256 =
      (request.headers.values .amzContentSha256).map (·.normalize) := by
  obtain ⟨authority, _, rfl⟩ := Draft.ofRequest_iff.mp taken
  exact Headers.values_mapValues _ _ _

theorem resolve_of_hashes (hashes : strategy.Hashes request.uri.scheme) :
    strategy.resolve source.normalizeHeaders body = .ok hash ↔
      fullHash source.normalizeHeaders body = .ok hash := by
  rcases hashes with rfl | ⟨rfl, plain⟩
  · rfl
  · have refused : ¬ source.normalizeHeaders.isEncrypted = true :=
      fun secure => plain ((encrypted_iff taken).mp secure)
    rw [resolve, if_neg refused, Success.mapError_ok]

theorem resolves_of_fullHash (hashes : strategy.Hashes request.uri.scheme)
    (hashed : fullHash source.normalizeHeaders body = .ok hash) :
    strategy.Resolves request body hash := by
  rcases fullHash_cases hashed with
    ⟨value, rest, text, present, read, rfl⟩ | ⟨absent, octets, given, rfl⟩
  · rw [announced_values taken] at present
    obtain ⟨first, others, own, rfl, _⟩ := List.map_eq_cons_iff.mp present
    obtain ⟨spelled, readable⟩ := Draft.readValue_ok read
    exact .announced hashes own (first.isReadable_normalize.mp readable) spelled
  · rw [announced_values taken, List.map_eq_nil_iff] at absent
    exact .hashed hashes absent given

/-- A hash is resolved from a request just as its scheme, its header and its body say. -/
theorem resolve_iff :
    strategy.resolve source.normalizeHeaders body = .ok hash ↔
      strategy.Resolves request body hash := by
  constructor
  · intro resolved
    cases strategy with
    | full => exact resolves_of_fullHash taken (.inl rfl) resolved
    | unsignedOverTls =>
        by_cases secure : request.uri.scheme = some .https
        · rw [resolve, if_pos ((encrypted_iff taken).mpr secure)] at resolved
          exact Except.ok.inj resolved ▸ .unsigned rfl secure
        · have hashes : Hashes .unsignedOverTls request.uri.scheme := .inr ⟨rfl, secure⟩
          exact resolves_of_fullHash taken hashes ((resolve_of_hashes taken hashes).mp resolved)
    | streaming => exact Except.ok.inj resolved ▸ .streaming rfl
  · intro resolves
    cases resolves with
    | streaming chosen => rw [chosen, resolve]
    | unsigned chosen encrypted =>
        rw [chosen, resolve, if_pos ((encrypted_iff taken).mpr encrypted)]
    | @announced value rest text hashes present readable spelled =>
        refine (resolve_of_hashes taken hashes).mpr ?_
        have values := announced_values taken
        rw [present, List.map_cons] at values
        exact fullHash_announced values spelled.symm (HeaderValue.readable_normal readable spelled)
    | @hashed octets hashes absent given =>
        refine (resolve_of_hashes taken hashes).mpr ?_
        have values := announced_values taken
        rw [absent, List.map_nil] at values
        rw [fullHash_absent values, given]
        rfl

end Resolves

end PayloadStrategy

namespace Signer

/-- What a signer writes under a name of its own accord, if it writes anything. -/
def inserts (signer : Signer) (request : Request) (credential : Credential) (authority : Authority)
    (hash : PayloadHash) (scope : Scope) (name : HeaderName) : Option String :=
  if name = .amzContentSha256 then
    if hash.requiresHeader || signer.checksumHeader then some hash.text else none
  else if name = .amzSecurityToken then credential.sessionToken
  else if name = .amzDate then some scope.datetime
  else if name = .host ∧ request.headers.values .host = [] then some authority.text
  else none

def inserted (signer : Signer) (request : Request) (credential : Credential) (authority : Authority)
    (hash : PayloadHash) (scope : Scope) (name : HeaderName) : List Bytes :=
  match signer.inserts request credential authority hash scope name with
  | some text => [Bytes.ofText text]
  | none => request.headers.octets name

variable {signer : Signer} {request : Request} {body : Option Bytes} {credential : Credential}
  {scope : Scope} {clock : Clock} {found : Findings}

theorem token_inserted {token : Option HeaderValue} (tokened : credential.tokenValue = .ok token) :
    token.map (·.octets) = credential.sessionToken.map Bytes.ofText := by
  cases held : credential.sessionToken with
  | none => rw [Credential.tokenValue_none held tokened]; rfl
  | some text =>
      obtain ⟨value, rfl, octets, _⟩ := Credential.tokenValue_some held tokened
      exact congrArg some octets

/-- A name is filled in with what the signer writes there, and left alone if it writes nothing. -/
theorem fill_cases (of : found.Of signer request body credential) (name : HeaderName)
    (own : List HeaderValue) (kept : own = [] ↔ request.headers.values name = []) :
    (∃ text value,
      signer.inserts request credential found.source.authority found.hash scope name = some text ∧
      (found.fill scope).values name own = [value] ∧ value.octets = Bytes.ofText text) ∨
    (signer.inserts request credential found.source.authority found.hash scope name = none ∧
      (found.fill scope).values name own = own) := by
  unfold inserts Fill.values
  by_cases hash : name = .amzContentSha256
  · rw [if_pos hash, if_pos hash, Findings.fill]
    have loud := isSome_of_checksum of.checksum
    cases announced : found.checksum with
    | none =>
        rw [announced] at loud
        exact Or.inr ⟨if_neg (by simp [← loud]), rfl⟩
    | some checksum =>
        rw [announced] at loud
        have octets := octets_of_checksum (announced ▸ of.checksum)
        exact Or.inl ⟨_, checksum, if_pos loud.symm, rfl, octets⟩
  rw [if_neg hash, if_neg hash]
  by_cases token : name = .amzSecurityToken
  · rw [if_pos token, if_pos token, Findings.fill]
    have octets := token_inserted of.token
    cases written : found.token with
    | none =>
        rw [written] at octets
        exact Or.inr ⟨Option.map_eq_none_iff.mp octets.symm, rfl⟩
    | some value =>
        rw [written] at octets
        obtain ⟨text, held, same⟩ := Option.map_eq_some_iff.mp octets.symm
        exact Or.inl ⟨text, value, held, rfl, same.symm⟩
  rw [if_neg token, if_neg token]
  by_cases date : name = .amzDate
  · rw [if_pos date, if_pos date]
    exact Or.inl ⟨_, _, rfl, rfl, rfl⟩
  rw [if_neg date, if_neg date]
  by_cases host : name = .host ∧ own = []
  · have missing : name = .host ∧ request.headers.values .host = [] :=
      ⟨host.1, host.1 ▸ kept.mp host.2⟩
    rw [if_pos host, if_pos missing]
    exact Or.inl ⟨_, _, rfl, rfl, rfl⟩
  · have present : ¬ (name = .host ∧ request.headers.values .host = []) := by
      rintro ⟨rfl, missing⟩
      exact host ⟨rfl, kept.mpr missing⟩
    rw [if_neg host, if_neg present]
    exact Or.inr ⟨rfl, rfl⟩

/-- A header can be signed if all that stands in it can be read, once the signer has written. -/
theorem joined_iff (of : found.Of signer request body credential) (name : HeaderName) :
    (∃ text, (found.draft scope).headerJoined name = .ok text) ↔
      ∀ octets ∈ signer.inserted request credential found.source.authority found.hash scope name,
        octets.IsReadable := by
  rw [Draft.headerJoined, Draft.joinedText_iff, Findings.values_draft, Findings.headers_known of,
    inserted]
  rcases fill_cases of name ((request.headers.values name).map (·.normalize))
      List.map_eq_nil_iff with
    ⟨text, value, written, values, octets⟩ | ⟨nothing, values⟩
  · rw [written, values]
    simp only [List.forall_mem_singleton, octets]
  · rw [nothing, values]
    simp only [Headers.octets, List.forall_mem_map, HeaderValue.isReadable_normalize]

structure Signable (signer : Signer) (request : Request) (body : Option Bytes)
    (credential : Credential) (scope : Scope) : Prop where
  accessKey : credential.accessKeyId ≠ ""
  secretKey : credential.secretAccessKey ≠ ""
  token : ∀ token ∈ credential.sessionToken, Sendable token
  headers : ∃ authority hash, request.uri.authority = some authority ∧
    signer.strategy.Resolves request body hash ∧
    ∀ name : HeaderName, name.text ∉ Canonical.unsignedHeaders →
      ∀ octets ∈ signer.inserted request credential authority hash scope name, octets.IsReadable
  path : (Percent.decode (Bytes.ofText request.uri.pathAndQuery.requestPath)).IsText
  names : Sendable credential.accessKeyId ∧ Sendable signer.region ∧ Sendable signer.service
  short : request.target.utf8ByteSize ≤ 65534
  rooted : (∃ rest, Bytes.ofText request.uri.pathAndQuery.requestPath = '/'.toUInt8 :: rest) ∨
    request.target = "*"

theorem check_header_iff :
    signer.check credential .header = .ok () ↔
      credential.accessKeyId ≠ "" ∧ credential.secretAccessKey ≠ "" := by
  unfold check
  by_cases valid : credential.isValid = true
  · simp [Credential.isValid]
  · simp [Credential.isValid]

theorem tokenValue_iff :
    (∃ token, credential.tokenValue = .ok token) ↔
      ∀ token ∈ credential.sessionToken, Sendable token := by
  unfold Credential.tokenValue
  cases credential.sessionToken with
  | none => simp
  | some text =>
      constructor
      · rintro ⟨token, tokened⟩ other held
        obtain ⟨value, made, _⟩ := Success.map_ok.mp tokened
        exact Option.some.inj held ▸ HeaderValue.sendable_of_checked made
      · intro sendable
        have made := HeaderValue.checked_sendable (sendable text rfl) true
        exact ⟨_, Success.map_ok.mpr ⟨_, made, rfl⟩⟩

theorem checksumValue_of_readable {hash : PayloadHash} (readable : Readable hash.text) :
    ∃ checksum, signer.checksumValue hash = .ok checksum := by
  unfold checksumValue
  split
  · have made := HeaderValue.checked_sendable (sendable_of_readable readable) false
    exact ⟨_, Success.map_ok.mpr ⟨_, made, rfl⟩⟩
  · exact ⟨none, rfl⟩

/-- What a request is found to hold can be signed just if its path and its headers can be read. -/
theorem built_iff (of : found.Of signer request body credential) :
    (∃ canonical, Canonical.ofDraft (found.draft scope) found.hash = .ok canonical) ↔
      (Percent.decode (Bytes.ofText request.uri.pathAndQuery.requestPath)).IsText ∧
      ∀ name : HeaderName, name.text ∉ Canonical.unsignedHeaders →
        ∀ octets ∈ signer.inserted request credential found.source.authority found.hash scope name,
          octets.IsReadable := by
  have path : (found.draft scope).decodedPath = found.source.decodedPath := rfl
  rw [Canonical.exists_ofDraft, path, Draft.decodedPath_iff of.source]
  simp only [joined_iff of]

theorem signable_of_done {output : SigningOutput}
    (done : (signer.sign request body credential .header clock).result = .ok output) :
    signer.Signable request body credential (signer.scope clock.now) := by
  obtain ⟨found, canonical, authorized, of, built, made, _⟩ := sign_header_ok done
  obtain ⟨accessKey, secretKey⟩ := check_header_iff.mp of.allowed
  obtain ⟨path, readable⟩ := (built_iff of).mp ⟨canonical, built⟩
  have accepted := Draft.finish_iff.mp ⟨found.uri, of.uri⟩
  rw [Draft.target_rewritten of.source] at accepted
  obtain ⟨short, rooted⟩ := (Draft.accepts_target_iff of.source).mp accepted
  have names := (sendable_authorization signer credential clock.now canonical).mp
    (HeaderValue.sendable_of_checked made)
  obtain ⟨authority, known, taken⟩ := Draft.ofRequest_iff.mp of.source
  refine ⟨accessKey, secretKey, tokenValue_iff.mp ⟨_, of.token⟩, ?headers, path, names, short,
    ?start⟩
  case headers =>
    have resolves := (PayloadStrategy.resolve_iff of.source).mp of.hash
    rw [taken] at readable
    exact ⟨authority, found.hash, known, resolves, readable⟩
  case start =>
    rw [taken] at rooted
    exact rooted

theorem done_of_signable
    (signable : signer.Signable request body credential (signer.scope clock.now)) :
    ∃ output, (signer.sign request body credential .header clock).result = .ok output := by
  obtain ⟨authority, hash, known, resolves, readable⟩ := signable.headers
  have taken := Draft.ofRequest_eq known
  obtain ⟨token, tokened⟩ := tokenValue_iff.mpr signable.token
  have hashed := (PayloadStrategy.resolve_iff taken).mpr resolves
  obtain ⟨checksum, announced⟩ := checksumValue_of_readable resolves.readable
  have accepted := (Draft.accepts_target_iff taken).mpr ⟨signable.short, signable.rooted⟩
  rw [← Draft.target_rewritten taken] at accepted
  obtain ⟨uri, finished⟩ := Draft.finish_iff.mpr accepted
  have of : Findings.Of ⟨_, token, hash, checksum, uri⟩ signer request body credential :=
    ⟨check_header_iff.mpr ⟨signable.accessKey, signable.secretKey⟩, taken, tokened, hashed,
      announced, finished⟩
  obtain ⟨canonical, built⟩ := (built_iff of).mpr ⟨signable.path, readable⟩
  obtain ⟨output, _, done, _⟩ := signed_of_found of built signable.names
  exact ⟨output, done⟩

/-- Signing in a header succeeds just if a request is signable, and whatever makes it fail is a
matter of what was passed in. -/
theorem sign_header_iff (signer : Signer) (request : Request) (body : Option Bytes)
    (credential : Credential) (clock : Clock) :
    ((∃ output, (signer.sign request body credential .header clock).result = .ok output) ↔
      signer.Signable request body credential (signer.scope clock.now)) ∧
    Mendable (signer.sign request body credential .header clock).result := by
  refine ⟨⟨?_, done_of_signable⟩, signer.mendable_sign request body credential .header clock⟩
  rintro ⟨output, done⟩
  exact signable_of_done done

end Signer

end SigV4
