import SigV4.Proofs.SigningCourse
/-!
The list of signed headers. It is written into the output, into the canonical text and into the
authorization or the query, at different steps of a signing. All of them write one list: the names
of all headers that are sent, less those that the way may change.
-/
namespace SigV4

def Signing.Authorized (signing : Signing) (credential : Credential) (output : SigningOutput) :
    Prop :=
  ∃ value, signing.request.headers.values .authorization = [value] ∧
    value.octets = Bytes.ofText (Signature.requestAlgorithm
      ++ " Credential=" ++ Signer.credentialText credential output.scope
      ++ ", SignedHeaders=" ++ output.signedHeaders ++ ", Signature=" ++ output.signature)

namespace Signer

variable {signer : Signer} {request signed : Request} {body : Option Bytes}
  {credential : Credential} {placement : Placement} {expiry : Nat} {scope : Scope}
  {source draft : Draft} {hash : PayloadHash} {canonical : Canonical} {clock : Clock}
  {output : SigningOutput} {signing : Signing}

def addedPairs (draft : Draft) (credential : Credential) (expiry : Nat) (scope : Scope)
    (canonical : Canonical) : List (String × String) :=
  parameters draft credential expiry scope ++
    [(signatureName, signature credential scope canonical)]

theorem full_addedPairs (draft : Draft) (credential : Credential) (expiry : Nat) (scope : Scope)
    (canonical : Canonical) : ("", "") ∉ addedPairs draft credential expiry scope canonical := by
  intro member
  rcases List.mem_append.mp member with parameter | last
  · exact full_parameters draft credential expiry scope parameter
  · exact full_signature _ last

/-- A uri is read as the pairs that it had and those that were added, in the order in which they are
signed. -/
theorem pairs_of_presigned (valid : PathAndQuery.isPath source.path = true)
    (spelled : source.path ≠ "") (ready : Presigned source draft hash credential expiry scope)
    (placed : place draft credential (.query expiry) scope canonical = .ok signed) :
    signed.uri.pathAndQuery.pairs.Perm
      (Draft.lasting source.query ++ addedPairs draft credential expiry scope canonical) := by
  have read := Draft.ofRequest_written (place_query placed) (ready.path ▸ valid)
    (ready.path ▸ spelled) rfl
  obtain ⟨query, _⟩ := Draft.ofRequest_ok read
  have sorted : (signedPairs draft.query (signature credential scope canonical)).Perm
      (source.query ++ addedPairs draft credential expiry scope canonical) := by
    rw [signedPairs, addedPairs, ← List.append_assoc, ← ready.query]
    exact (Canonical.sortedPairs_perm draft.query).append_right _
  have kept := Draft.lasting_full (full_addedPairs draft credential expiry scope canonical)
  have lasting := sorted.filter (· ≠ ("", ""))
  rw [List.filter_append] at lasting
  rw [← query, ← kept]
  exact lasting

theorem authorized_of_placed
    (placed : place draft credential .header output.scope canonical = .ok signing.request)
    (signedHeaders : output.signedHeaders = canonical.signedHeaders)
    (covered : signing.Covers credential output canonical) :
    signing.Authorized credential output := by
  obtain ⟨value, made, finished⟩ := place_header_iff.mp placed
  obtain ⟨target, _, written⟩ := Draft.finish_ok finished
  refine ⟨value, ?present, ?octets⟩
  case present =>
    rw [written]
    simp
  case octets =>
    rw [HeaderValue.checked_ok made, signedHeaders, covered.signature]
    rfl

end Signer

end SigV4
