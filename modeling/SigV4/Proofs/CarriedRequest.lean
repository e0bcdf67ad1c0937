import SigV4.Proofs.SigningCourse
/-!
What a signing leaves of a request. The method and the target stay as they are, but for the query,
and all headers but a few keep their values, in normal form. A signature in a header comes with one
date and, for a temporary credential, one token; a signature in the query comes with no header, but
for a host that was missing.
-/
namespace SigV4

/-- The method and the target without its query. A target that says no scheme is plain, and an empty
path is the root. -/
structure Request.SameTarget (before after : Request) : Prop where
  method : after.method = before.method
  scheme : after.uri.scheme = some (before.uri.scheme.getD .http)
  authority : after.uri.authority = before.uri.authority
  path : after.uri.pathAndQuery.path = before.uri.pathAndQuery.requestPath

namespace Headers

structure Kept (before after : Headers) (name : HeaderName) : Prop where
  values : after.values name = (before.values name).map (·.normalize)
  flags : (after.values name).map (·.sensitive) = (before.values name).map (·.sensitive)

theorem kept_of_values {before after : Headers} {name : HeaderName}
    (values : after.values name = (before.values name).map (·.normalize)) :
    before.Kept after name := by
  refine ⟨values, ?_⟩
  rw [values, List.map_map]
  rfl

def signingNames : List HeaderName := .authorization :: Fill.names

end Headers

structure Request.Carried (before after : Request) : Prop where
  target : before.SameTarget after
  others : ∀ name ∉ Headers.signingNames, before.headers.Kept after.headers name
  host : before.headers.values .host ≠ [] → before.headers.Kept after.headers .host
  missing : before.headers.values .host = [] →
    ∃ authority ∈ before.uri.authority, after.headers.values .host = [authority.hostValue]

structure Request.Stamped (before after : Request) (credential : Credential) (scope : Scope) :
    Prop where
  date : ∃ value, after.headers.values .amzDate = [value] ∧
    value.octets = Bytes.ofText scope.datetime
  authorization : ∃ value, after.headers.values .authorization = [value] ∧ value.sensitive = true
  temporary : ∀ token ∈ credential.sessionToken, ∃ value,
    after.headers.values .amzSecurityToken = [value] ∧
      value.octets = Bytes.ofText token ∧ value.sensitive = true
  lasting : credential.sessionToken = none → before.headers.Kept after.headers .amzSecurityToken

theorem Credential.tokenValue_some {credential : Credential} {token : String}
    {value : Option HeaderValue} (temporary : credential.sessionToken = some token)
    (tokened : credential.tokenValue = .ok value) :
    ∃ held, value = some held ∧ held.octets = Bytes.ofText token ∧ held.sensitive = true := by
  rw [tokenValue, temporary] at tokened
  obtain ⟨held, made, rfl⟩ := Success.map_ok.mp tokened
  exact ⟨held, rfl, HeaderValue.checked_ok made, HeaderValue.sensitive_of_checked made⟩

theorem Credential.tokenValue_none {credential : Credential} {value : Option HeaderValue}
    (lasting : credential.sessionToken = none) (tokened : credential.tokenValue = .ok value) :
    value = none := by
  rw [tokenValue, lasting] at tokened
  exact (Except.ok.inj tokened).symm

namespace Signer

variable {signer : Signer} {request : Request} {body : Option Bytes} {credential : Credential}
  {placement : Placement} {expiry : Nat} {clock : Clock} {output : SigningOutput}

theorem kept_of_presigned
    (done : (signer.sign request body credential (.query expiry) clock).result = .ok output)
    {name : HeaderName} (other : name ≠ .host) :
    request.headers.Kept
      (signer.sign request body credential (.query expiry) clock).request.headers name := by
  obtain ⟨authority, _, values⟩ := hosted_of_done done
  apply Headers.kept_of_values
  rw [values, if_neg fun both => other both.1]

section Done

variable (done : (signer.sign request body credential placement clock).result = .ok output)
include done

theorem target_of_done :
    request.SameTarget (signer.sign request body credential placement clock).request := by
  obtain ⟨draft, hash, canonical, prepared, _, placed, _⟩ := course_of_done done
  obtain ⟨source, taken, same⟩ := prepare_target prepared
  obtain ⟨_, valid, _⟩ := Draft.ofRequest_ok taken
  obtain ⟨authority, known, rfl⟩ := Draft.ofRequest_iff.mp taken
  obtain ⟨pairs, headers, finished, _⟩ := place_written placed
  obtain ⟨method, scheme, named, path, _⟩ :=
    Draft.finish_target finished (same.path ▸ valid) rfl
  refine ⟨?method, ?scheme, ?authority, ?path⟩
  case method => rw [method, same.method]
  case scheme => rw [scheme, same.scheme]
  case authority => rw [named, same.authority, known]
  case path => rw [path, same.path]

theorem host_of_done :
    ∃ authority ∈ request.uri.authority,
      (signer.sign request body credential placement clock).request.headers.values .host =
        if request.headers.values .host = [] then [authority.hostValue]
        else (request.headers.values .host).map (·.normalize) := by
  cases placement with
  | header =>
      obtain ⟨found, canonical, authorized, of, _, left, _⟩ := found_of_done done
      refine ⟨found.source.authority, Findings.authority_known of, ?_⟩
      rw [left, Findings.values_sent of, if_neg (by decide), Fill.values_host]
      simp only [List.map_eq_nil_iff, Findings.fill]
  | query expiry =>
      obtain ⟨authority, known, values⟩ := hosted_of_done done
      refine ⟨authority, known, ?_⟩
      rw [values]
      simp only [true_and]

theorem kept_of_done {name : HeaderName} (other : name ∉ Headers.signingNames) :
    request.headers.Kept
      (signer.sign request body credential placement clock).request.headers name := by
  rw [Headers.signingNames, List.mem_cons, not_or] at other
  obtain ⟨free, unfilled⟩ := other
  cases placement with
  | header =>
      obtain ⟨found, canonical, authorized, of, _, left, _⟩ := found_of_done done
      apply Headers.kept_of_values
      rw [left, Findings.values_sent of, if_neg free, Fill.values_other unfilled]
  | query expiry =>
      have apart : name ≠ .host := fun same => unfilled (same ▸ by decide)
      exact kept_of_presigned done apart

theorem carried_of_done :
    request.Carried (signer.sign request body credential placement clock).request := by
  obtain ⟨authority, known, host⟩ := host_of_done done
  refine ⟨target_of_done done, fun _ => kept_of_done done, ?host, ?missing⟩
  case host =>
    intro present
    rw [if_neg present] at host
    exact Headers.kept_of_values host
  case missing =>
    intro absent
    rw [if_pos absent] at host
    exact ⟨authority, known, host⟩

end Done

theorem stamped_of_done
    (done : (signer.sign request body credential .header clock).result = .ok output) :
    request.Stamped (signer.sign request body credential .header clock).request credential
      output.scope := by
  obtain ⟨found, canonical, authorized, of, _, left, sensitive, _⟩ := found_of_done done
  rw [left]
  have token : (found.signed output.scope authorized).headers.values .amzSecurityToken =
      found.token.elim ((request.headers.values .amzSecurityToken).map (·.normalize)) ([·]) := by
    rw [Findings.values_sent of, if_neg (by decide), Fill.values_token]
    rfl
  refine ⟨?date, ?authorization, ?temporary, ?lasting⟩
  case date =>
    refine ⟨output.scope.dateValue, ?_, rfl⟩
    rw [Findings.values_sent of, if_neg (by decide), Fill.values_date]
    rfl
  case authorization =>
    exact ⟨authorized, by rw [Findings.values_sent of, if_pos rfl], sensitive⟩
  case temporary =>
    intro text held
    obtain ⟨value, given, spelled⟩ := Credential.tokenValue_some held of.token
    rw [given] at token
    exact ⟨value, token, spelled⟩
  case lasting =>
    intro none
    rw [Credential.tokenValue_none none of.token] at token
    exact Headers.kept_of_values token

/-- A signing changes of a request what it has to, and leaves the rest. -/
theorem signing_carries_request (signing : Signing)
    (called : signer.sign request body credential placement clock = signing)
    (done : signing.result = .ok output) :
    request.Carried signing.request ∧
      (placement = .header → request.Stamped signing.request credential output.scope) ∧
      ∀ expiry, placement = .query expiry →
        ∀ name ≠ .host, request.headers.Kept signing.request.headers name := by
  subst called
  refine ⟨carried_of_done done, ?stamped, ?presigned⟩
  case stamped =>
    rintro rfl
    exact stamped_of_done done
  case presigned =>
    rintro expiry rfl name other
    exact kept_of_presigned done other

/-- The parcel is stamped, and an invitation has only its host to add. -/
theorem parcel_carried :
    (∃ output, posted.result = .ok output ∧ parcel.Carried posted.request ∧
      parcel.Stamped posted.request guestKeys output.scope) ∧
    ∃ output, invited.result = .ok output ∧
      ∀ name ≠ .host, Headers.empty.Kept invited.request.headers name := by
  obtain ⟨output, done, _⟩ := parcel_signed
  obtain ⟨carried, stamped, _⟩ := signing_carries_request posted rfl done
  obtain ⟨invitation, given⟩ := guest_signed
  obtain ⟨_, _, kept⟩ := signing_carries_request invited rfl given
  exact ⟨⟨output, done, carried, stamped rfl⟩, invitation, given, kept 300 rfl⟩

end Signer

end SigV4
