import SigV4.Proofs.FilledHeaders
/-!
What a draft holds when it is signed in a header. On the way from the request to the canonical
text only headers are set: in the end there is one date, the one of the scope, and the text that
stands for the payload can be found again by whoever has the headers and the body.
-/
namespace SigV4

namespace Draft

def payloadText? (draft : Draft) (body : Bytes) : Option String :=
  match draft.headers.values .amzContentSha256 with
  | value :: _ => value.readable?
  | [] => some (Sha256.hexHash body)

end Draft

namespace PayloadStrategy

variable {draft : Draft} {body : Option Bytes} {received : Bytes} {hash : PayloadHash}

/-- The first hash that is announced is taken, if it can be read. -/
theorem fullHash_present {value : HeaderValue} {rest : List HeaderValue}
    (present : draft.headers.values .amzContentSha256 = value :: rest) :
    fullHash draft body = (Draft.readValue value).map .digest := by
  unfold fullHash Draft.headerText?
  rw [present, Draft.firstText?]
  cases Draft.readValue value with
  | error fault => rfl
  | ok text => rfl

theorem fullHash_absent (absent : draft.headers.values .amzContentSha256 = []) :
    fullHash draft body =
      body.elim (.error .payloadUnavailable) fun octets => .ok (.digest (Sha256.hexHash octets)) := by
  unfold fullHash Draft.headerText?
  rw [absent]
  cases body with
  | none => rfl
  | some octets => rfl

/-- A full hash was announced, or it is the hash of the body. -/
theorem fullHash_cases (hashed : fullHash draft body = .ok hash) :
    (∃ value rest text, draft.headers.values .amzContentSha256 = value :: rest ∧
      Draft.readValue value = .ok text ∧ hash = .digest text) ∨
    (draft.headers.values .amzContentSha256 = [] ∧
      ∃ octets, body = some octets ∧ hash = .digest (Sha256.hexHash octets)) := by
  cases values : draft.headers.values .amzContentSha256 with
  | nil =>
      rw [fullHash_absent values] at hashed
      cases body with
      | none => contradiction
      | some octets => exact Or.inr ⟨rfl, octets, rfl, (Except.ok.inj hashed).symm⟩
  | cons value rest =>
      rw [fullHash_present values] at hashed
      obtain ⟨text, read, same⟩ := Success.map_ok.mp hashed
      exact Or.inl ⟨value, rest, text, rfl, read, same.symm⟩

theorem fullHash_ok (delivered : ∀ octets ∈ body, octets = received)
    (hashed : fullHash draft body = .ok hash) :
    Readable hash.text ∧ draft.payloadText? received = some hash.text := by
  unfold Draft.payloadText?
  rcases fullHash_cases hashed with
    ⟨value, rest, text, present, spelled, rfl⟩ | ⟨absent, octets, rfl, rfl⟩
  · rw [present]
    exact ⟨Draft.readable_of_readValue spelled, Draft.readable?_of_readValue spelled⟩
  · rw [absent, ← delivered octets rfl]
    exact ⟨readable_encode _, rfl⟩

/-- What is not hashed in full has to be announced. -/
theorem resolve_cases {strategy : PayloadStrategy} (resolved : strategy.resolve draft body = .ok hash) :
    fullHash draft body = .ok hash ∨ hash.requiresHeader = true := by
  cases strategy with
  | full => exact Or.inl resolved
  | unsignedOverTls =>
      simp only [resolve] at resolved
      split at resolved
      · exact Or.inr (Except.ok.inj resolved ▸ rfl)
      · exact Or.inl (Success.mapError_ok.mp resolved)
  | streaming => exact Or.inr (Except.ok.inj resolved ▸ rfl)

theorem readable_of_requiresHeader (loud : hash.requiresHeader = true) : Readable hash.text := by
  cases hash with
  | digest text => contradiction
  | unsigned => exact readable_of_all rfl
  | streamingEvents => exact readable_of_all rfl

theorem resolve_ok {strategy : PayloadStrategy} (delivered : ∀ octets ∈ body, octets = received)
    (resolved : strategy.resolve draft body = .ok hash) :
    Readable hash.text ∧
      (hash.requiresHeader = false → draft.payloadText? received = some hash.text) := by
  rcases resolve_cases resolved with full | loud
  · obtain ⟨readable, found⟩ := fullHash_ok delivered full
    exact ⟨readable, fun _ => found⟩
  · exact ⟨readable_of_requiresHeader loud, fun quiet => by simp [loud] at quiet⟩

end PayloadStrategy

namespace Signer

variable {draft : Draft}

structure Prepared (source draft : Draft) (hash : PayloadHash) (scope : Scope)
    (received : Bytes) : Prop where
  path : draft.path = source.path
  query : draft.query = source.query
  date : ∃ value, draft.headers.values .amzDate = [value] ∧
    value.octets = Bytes.ofText scope.datetime
  payload : draft.payloadText? received = some hash.text

theorem prepare_header {signer : Signer} {request : Request} {body : Option Bytes}
    {credential : Credential} {scope : Scope} {hash : PayloadHash} {received : Bytes}
    (delivered : ∀ octets ∈ body, octets = received)
    (prepared : signer.prepare request body credential .header scope = .ok (draft, hash)) :
    ∃ source, Draft.ofRequest request = .ok source ∧
      Prepared source draft hash scope received := by
  obtain ⟨source, token, checksum, taken, _, resolved, announced, rfl⟩ := prepare_header_ok prepared
  obtain ⟨readable, quiet⟩ := PayloadStrategy.resolve_ok delivered resolved
  refine ⟨source, taken, rfl, rfl, ⟨scope.dateValue, Draft.date_filled source _, rfl⟩, ?payload⟩
  case payload =>
    unfold Draft.payloadText?
    rw [Draft.checksum_filled]
    cases checksum with
    | none =>
        have silent := (isSome_of_checksum announced).symm
        exact quiet (Bool.or_eq_false_iff.mp silent).1
    | some value => exact HeaderValue.readable?_of_octets (octets_of_checksum announced) readable

end Signer

end SigV4
