import SigV4.Proofs.AlikeDraft
import SigV4.Proofs.NormalValue
import SigV4.Signer
/-!
The headers that preparation fills in: a host where there is none, the date of the scope, the token
of the credential and the hash of the payload, each in place of all that stood under its name. The
date alone depends on the time of signing, and everything else is read from the normal headers.
-/
namespace SigV4

namespace Authority

def isSurveyed (octet : UInt8) : Bool := isAuthorityByte octet || octet == '%'.toUInt8

theorem isSurveyed_of_absorb {seen after : Survey} {octet : UInt8}
    (absorbed : seen.absorb octet = .ok after) : isSurveyed octet = true := by
  unfold Survey.absorb at absorbed
  simp only at absorbed
  split at absorbed
  · next colon => exact colon ▸ rfl
  split at absorbed
  · next opening => exact opening ▸ rfl
  split at absorbed
  · next closing => exact closing ▸ rfl
  split at absorbed
  · next mark => exact mark ▸ rfl
  split at absorbed
  · next percent => exact percent ▸ rfl
  split at absorbed
  · next plain => rw [isSurveyed, plain, Bool.true_or]
  · contradiction

theorem isSurveyed_of_survey {seen after : Survey} {octets : Bytes}
    (surveyed : survey seen octets = .ok after) : ∀ octet ∈ octets, isSurveyed octet = true := by
  induction octets generalizing seen with
  | nil => exact fun _ member => absurd member List.not_mem_nil
  | cons first rest ih =>
      rw [survey] at surveyed
      split at surveyed
      · next next absorbed =>
          intro octet member
          rcases List.mem_cons.mp member with rfl | later
          · exact isSurveyed_of_absorb absorbed
          · exact ih surveyed octet later
      · contradiction

-- An authority is all of what was scanned, for nothing may follow it.
theorem survey_octets (authority : Authority) :
    ∃ seen, survey {} (Bytes.ofText authority.text) = .ok seen ∧ seen.accepts = true := by
  have valid := authority.valid
  rw [isAuthority, Bool.and_eq_true, scan] at valid
  cases surveyed : survey {} ((Bytes.ofText authority.text).takeWhile (!isEnd ·)) with
  | error refused => simp [surveyed] at valid
  | ok seen =>
      by_cases accepted : seen.accepts = true
      · have nothing : (Bytes.ofText authority.text).dropWhile (!isEnd ·) = [] := by
          simpa [surveyed, accepted] using valid.2
        have whole := List.takeWhile_append_dropWhile (p := (!isEnd ·))
          (l := Bytes.ofText authority.text)
        rw [nothing, List.append_nil] at whole
        exact ⟨seen, whole ▸ surveyed, accepted⟩
      · simp [surveyed, accepted] at valid

theorem isSurveyed_of_mem {authority : Authority} {octet : UInt8}
    (member : octet ∈ Bytes.ofText authority.text) : isSurveyed octet = true := by
  obtain ⟨seen, surveyed, _⟩ := authority.survey_octets
  exact isSurveyed_of_survey surveyed octet member

def hostValue (authority : Authority) : HeaderValue where
  octets := Bytes.ofText authority.text
  sensitive := false
  valid := by
    rw [List.all_eq_true]
    exact fun octet member => Bytes.of_class (isSurveyed_of_mem member) (by decide +kernel)

theorem normalize_hostValue (authority : Authority) :
    authority.hostValue.normalize = authority.hostValue :=
  HeaderValue.normalize_solid fun _ member =>
    Bytes.apart_of_class (isSurveyed_of_mem member) (by decide +kernel)

end Authority

def Scope.dateValue (scope : Scope) : HeaderValue :=
  .ofSendable scope.datetime false (sendable_of_readable scope.time.readable_datetimeText)

structure Fill where
  host : HeaderValue
  date : HeaderValue
  token : Option HeaderValue
  checksum : Option HeaderValue

def Fill.values (fill : Fill) (name : HeaderName) (own : List HeaderValue) : List HeaderValue :=
  if name = .amzContentSha256 then fill.checksum.elim own ([·])
  else if name = .amzSecurityToken then fill.token.elim own ([·])
  else if name = .amzDate then [fill.date]
  else if name = .host ∧ own = [] then [fill.host]
  else own

namespace Fill

def names : List HeaderName := [.host, .amzDate, .amzSecurityToken, .amzContentSha256]

theorem values_other {name : HeaderName} (other : name ∉ names) (fill : Fill)
    (own : List HeaderValue) : fill.values name own = own := by
  simp only [names, List.mem_cons, List.not_mem_nil, or_false, not_or] at other
  obtain ⟨host, date, token, checksum⟩ := other
  simp only [values, if_neg checksum, if_neg token, if_neg date, host, false_and, if_false]

theorem values_host (fill : Fill) (own : List HeaderValue) :
    fill.values .host own = if own = [] then [fill.host] else own := by
  simp +decide [values]

theorem values_date (fill : Fill) (own : List HeaderValue) :
    fill.values .amzDate own = [fill.date] := rfl

theorem values_token (fill : Fill) (own : List HeaderValue) :
    fill.values .amzSecurityToken own = fill.token.elim own ([·]) := rfl

theorem values_checksum (fill : Fill) (own : List HeaderValue) :
    fill.values .amzContentSha256 own = fill.checksum.elim own ([·]) := rfl

end Fill

namespace Headers

def withHost (headers : Headers) (host : HeaderValue) : Headers :=
  if headers.contains .host then headers else headers.insert .host host

def set? (headers : Headers) (name : HeaderName) (value : Option HeaderValue) : Headers :=
  value.elim headers (headers.insert name)

def fill (headers : Headers) (fill : Fill) : Headers :=
  (((headers.withHost fill.host).insert .amzDate fill.date).set? .amzSecurityToken fill.token).set?
    .amzContentSha256 fill.checksum

theorem contains_iff {headers : Headers} {name : HeaderName} :
    headers.contains name = true ↔ headers.values name ≠ [] := by
  rw [contains, get?]
  cases headers.values name with
  | nil => simp
  | cons value rest => simp

theorem values_withHost (headers : Headers) (host : HeaderValue) (name : HeaderName) :
    (headers.withHost host).values name =
      if name = .host ∧ headers.values name = [] then [host] else headers.values name := by
  unfold withHost
  by_cases present : headers.contains .host = true
  · have found := contains_iff.mp present
    rw [if_pos present, if_neg]
    rintro ⟨rfl, nothing⟩
    exact found nothing
  · have nothing : headers.values .host = [] := by
      by_contra found
      exact present (contains_iff.mpr found)
    rw [if_neg present, values_insert]
    by_cases same : HeaderName.host = name
    · subst same
      rw [if_pos rfl, if_pos ⟨rfl, nothing⟩]
    · rw [if_neg same, if_neg fun both => same both.1.symm]

@[simp] theorem values_set? (headers : Headers) (name other : HeaderName)
    (value : Option HeaderValue) :
    (headers.set? name value).values other =
      if name = other then value.elim (headers.values other) ([·]) else headers.values other := by
  cases value with
  | none => simp [set?]
  | some value => simp [set?]

-- The names are distinct, so only one of the steps has a say about each of them.
theorem values_fill (headers : Headers) (fill : Fill) (name : HeaderName) :
    (headers.fill fill).values name = fill.values name (headers.values name) := by
  rw [Headers.fill, values_set?, values_set?, values_insert, values_withHost, Fill.values]
  by_cases hash : name = .amzContentSha256
  · subst hash
    simp +decide
  by_cases token : name = .amzSecurityToken
  · subst token
    simp +decide
  by_cases date : name = .amzDate
  · subst date
    simp +decide
  · simp [hash, token, date, Ne.symm hash, Ne.symm token, Ne.symm date]

end Headers

namespace Fill

def redated (fill : Fill) (date : HeaderValue) : Fill := { fill with date := date }

/-- Filling in once more, with another date, absorbs the filling before it: what that one has put in
is put in again, or is found in normal form already. -/
theorem values_redated {fill : Fill} (host : fill.host.normalize = fill.host) (date : HeaderValue)
    {own : List HeaderValue} (normal : own.map (·.normalize) = own) (name : HeaderName) :
    (fill.redated date).values name ((fill.values name own).map (·.normalize)) =
      (fill.redated date).values name own := by
  unfold values redated
  by_cases hash : name = .amzContentSha256
  · simp only [if_pos hash]
    cases fill.checksum with
    | none => exact normal
    | some checksum => rfl
  by_cases token : name = .amzSecurityToken
  · simp only [if_neg hash, if_pos token]
    cases fill.token with
    | none => exact normal
    | some token => rfl
  by_cases dated : name = .amzDate
  · simp only [if_neg hash, if_neg token, if_pos dated]
  by_cases missing : name = .host ∧ own = []
  · simp only [if_neg hash, if_neg token, if_neg dated, if_pos missing]
    simp [host]
  · simp only [if_neg hash, if_neg token, if_neg dated, if_neg missing, normal]

end Fill

namespace Draft

def filled (draft : Draft) (fill : Fill) : Draft :=
  { draft with headers := draft.normalizeHeaders.headers.fill fill }

def hosted (draft : Draft) : Draft :=
  { draft with headers := draft.normalizeHeaders.headers.withHost draft.authority.hostValue }

theorem values_filled (draft : Draft) (fill : Fill) (name : HeaderName) :
    (draft.filled fill).headers.values name =
      fill.values name ((draft.headers.values name).map (·.normalize)) := by
  rw [filled, Headers.values_fill, normalizeHeaders, Headers.values_mapValues]

theorem date_filled (draft : Draft) (fill : Fill) :
    (draft.filled fill).headers.values .amzDate = [fill.date] := by
  rw [values_filled, Fill.values_date]

theorem checksum_filled (draft : Draft) (fill : Fill) :
    (draft.filled fill).headers.values .amzContentSha256 =
      fill.checksum.elim (draft.normalizeHeaders.headers.values .amzContentSha256) ([·]) := by
  rw [values_filled, normalizeHeaders, Headers.values_mapValues, Fill.values_checksum]

theorem values_hosted (draft : Draft) (name : HeaderName) :
    draft.hosted.headers.values name =
      if name = .host ∧ draft.headers.values name = [] then [draft.authority.hostValue]
      else (draft.headers.values name).map (·.normalize) := by
  rw [hosted, Headers.values_withHost, normalizeHeaders, Headers.values_mapValues]
  simp only [List.map_eq_nil_iff]

end Draft

def Credential.tokenValue (credential : Credential) : Except Fault (Option HeaderValue) :=
  match credential.sessionToken with
  | some token => (HeaderValue.checked token true).map some
  | none => .ok none

namespace Signer

def checksumValue (signer : Signer) (hash : PayloadHash) : Except Fault (Option HeaderValue) :=
  if hash.requiresHeader || signer.checksumHeader then
    (HeaderValue.checked hash.text false).map some
  else .ok none

theorem octets_of_checksum {signer : Signer} {hash : PayloadHash} {value : HeaderValue}
    (announced : signer.checksumValue hash = .ok (some value)) :
    value.octets = Bytes.ofText hash.text := by
  unfold checksumValue at announced
  split at announced
  · obtain ⟨checksum, made, same⟩ := Success.map_ok.mp announced
    exact Option.some.inj same ▸ HeaderValue.checked_ok made
  · cases announced

/-- The hash is filled in just when it is announced. -/
theorem isSome_of_checksum {signer : Signer} {hash : PayloadHash} {checksum : Option HeaderValue}
    (made : signer.checksumValue hash = .ok checksum) :
    checksum.isSome = (hash.requiresHeader || signer.checksumHeader) := by
  unfold checksumValue at made
  split at made
  · next loud =>
      obtain ⟨value, _, rfl⟩ := Success.map_ok.mp made
      exact loud.symm
  · next quiet =>
      rw [← Except.ok.inj made, Bool.eq_false_of_not_eq_true quiet]
      rfl

theorem withHost_eq (draft : Draft) :
    withHost draft =
      .ok { draft with headers := draft.headers.withHost draft.authority.hostValue } := by
  have sendable : Sendable draft.authority.text :=
    List.all_eq_true.mp draft.authority.hostValue.valid
  unfold withHost Headers.withHost
  split
  · rfl
  · rw [Draft.setHeader_eq, HeaderValue.checked_sendable sendable]
    rfl

theorem withDate_eq (draft : Draft) (scope : Scope) :
    withDate draft scope =
      .ok { draft with headers := draft.headers.insert .amzDate scope.dateValue } := by
  rw [withDate, Draft.setHeader_eq, HeaderValue.checked_sendable]
  rfl

theorem withToken_eq (draft : Draft) (credential : Credential) :
    withToken draft credential = credential.tokenValue.map fun token =>
      { draft with headers := draft.headers.set? .amzSecurityToken token } := by
  unfold withToken Credential.tokenValue
  cases credential.sessionToken with
  | none => rfl
  | some token =>
      simp only [Draft.setHeader_eq]
      cases HeaderValue.checked token true with
      | error fault => rfl
      | ok value => rfl

theorem announceHash_eq (signer : Signer) (draft : Draft) (hash : PayloadHash) :
    signer.announceHash draft hash = (signer.checksumValue hash).map fun checksum =>
      { draft with headers := draft.headers.set? .amzContentSha256 checksum } := by
  unfold announceHash checksumValue
  split
  · rw [Draft.setHeader_eq]
    cases HeaderValue.checked hash.text false with
    | error fault => rfl
    | ok value => rfl
  · rfl

/-- The hash is resolved from the normal headers, for none of those that are set before is read. -/
theorem resolve_filling (signer : Signer) (source : Draft) (body : Option Bytes)
    (host date : HeaderValue) (token : Option HeaderValue) :
    signer.strategy.resolve
        { source with
          headers := (((source.headers.mapValues (·.normalize)).withHost host).insert .amzDate
            date).set? .amzSecurityToken token } body =
      signer.strategy.resolve source.normalizeHeaders body := by
  apply PayloadStrategy.resolve_congr
  case same => simp +decide [Headers.octets, Draft.normalizeHeaders, Headers.values_withHost]
  case schemes => rfl

/-- Preparing for a signature in a header: of all that is read, the date alone depends on the time
of signing. -/
theorem prepare_header_eq (signer : Signer) (request : Request) (body : Option Bytes)
    (credential : Credential) (scope : Scope) :
    signer.prepare request body credential .header scope = do
      let source ← Draft.ofRequest request
      let token ← credential.tokenValue
      let hash ← signer.strategy.resolve source.normalizeHeaders body
      let checksum ← signer.checksumValue hash
      return (source.filled ⟨source.authority.hostValue, scope.dateValue, token, checksum⟩, hash) := by
  unfold prepare
  cases Draft.ofRequest request with
  | error fault => rfl
  | ok source =>
      simp only [withHost_eq, withDate_eq, withToken_eq, bind, Except.bind]
      cases credential.tokenValue with
      | error fault => rfl
      | ok token =>
          simp only [Except.map, Draft.normalizeHeaders]
          rw [resolve_filling, Draft.normalizeHeaders]
          cases signer.strategy.resolve
            { source with headers := source.headers.mapValues (·.normalize) } body with
          | error fault => rfl
          | ok hash =>
              simp only [announceHash_eq]
              cases signer.checksumValue hash with
              | error fault => rfl
              | ok checksum => rfl

/-- What preparing for a signature in a header has found. -/
theorem prepare_header_ok {signer : Signer} {request : Request} {body : Option Bytes}
    {credential : Credential} {scope : Scope} {draft : Draft} {hash : PayloadHash}
    (prepared : signer.prepare request body credential .header scope = .ok (draft, hash)) :
    ∃ source token checksum, Draft.ofRequest request = .ok source ∧
      credential.tokenValue = .ok token ∧
      signer.strategy.resolve source.normalizeHeaders body = .ok hash ∧
      signer.checksumValue hash = .ok checksum ∧
      draft = source.filled ⟨source.authority.hostValue, scope.dateValue, token, checksum⟩ := by
  rw [prepare_header_eq] at prepared
  obtain ⟨source, taken, prepared⟩ := Success.bind_ok.mp prepared
  obtain ⟨token, tokened, prepared⟩ := Success.bind_ok.mp prepared
  obtain ⟨resolved, hashed, prepared⟩ := Success.bind_ok.mp prepared
  obtain ⟨checksum, announced, prepared⟩ := Success.bind_ok.mp prepared
  obtain ⟨rfl, rfl⟩ := Prod.mk.inj (Except.ok.inj prepared)
  exact ⟨source, token, checksum, taken, tokened, hashed, announced, rfl⟩

/-- Preparing for a signature in the query. -/
theorem prepare_query_eq (signer : Signer) (request : Request) (body : Option Bytes)
    (credential : Credential) (expiry : Nat) (scope : Scope) :
    signer.prepare request body credential (.query expiry) scope = do
      let source ← Draft.ofRequest request
      let draft := source.hosted
      let hash ← presignedHash draft
      return ({ draft with query := draft.query ++ parameters draft credential expiry scope },
        hash) := by
  unfold prepare
  cases Draft.ofRequest request with
  | error fault => rfl
  | ok source =>
      simp only [withHost_eq, bind, Except.bind]
      rfl

theorem prepare_query_ok {signer : Signer} {request : Request} {body : Option Bytes}
    {credential : Credential} {expiry : Nat} {scope : Scope} {draft : Draft} {hash : PayloadHash}
    (prepared : signer.prepare request body credential (.query expiry) scope = .ok (draft, hash)) :
    ∃ source, Draft.ofRequest request = .ok source ∧ presignedHash source.hosted = .ok hash ∧
      draft = { source.hosted with
        query := source.query ++ parameters source.hosted credential expiry scope } := by
  rw [prepare_query_eq] at prepared
  obtain ⟨source, taken, prepared⟩ := Success.bind_ok.mp prepared
  obtain ⟨payload, hashed, prepared⟩ := Success.bind_ok.mp prepared
  obtain ⟨rfl, rfl⟩ := Prod.mk.inj (Except.ok.inj prepared)
  exact ⟨source, taken, hashed, rfl⟩

end Signer

end SigV4
