import SigV4.Canonical
import SigV4.Credential
import SigV4.Event.Session
import SigV4.Settings
import SigV4.Signature
/-!
Signing of requests. The signature goes into a header or, for a request that is given away, into
the query. Signing reads a draft of the request and writes the request only when all has
succeeded; the clock is read once, after the checks that need no time.
-/
namespace SigV4

structure Signer where
  service : String
  region : String
  strategy : PayloadStrategy
  checksumHeader : Bool
  deriving DecidableEq

/-- Where the signature goes. A presigned request is good for a number of seconds. -/
inductive Placement where
  | header
  | query (expiry : Nat)
  deriving DecidableEq, Repr

structure SigningOutput where
  signature : String
  scope : Scope
  signedHeaders : String
  payloadHash : PayloadHash

structure Signing where
  result : Except Fault SigningOutput
  request : Request
  clock : Clock
  log : List Log.Record

namespace Signer

/-- Seven days. -/
def maxExpiry : Nat := 604800

def ofSettings (settings : Settings) : Except Fault Signer :=
  match settings.service, settings.region with
  | none, _ => .error .serviceMissing
  | _, none => .error .regionMissing
  | some service, some region =>
      .ok ⟨service, region, settings.strategy, settings.checksumHeader⟩

def check (signer : Signer) (credential : Credential) (placement : Placement) :
    Except Fault Unit :=
  if !credential.isValid then .error .credentialEmpty
  else
    match placement with
    | .header => .ok ()
    | .query expiry =>
        if signer.strategy = .streaming then .error .streamingPresigned
        else if expiry > maxExpiry then .error (.expiryTooLong expiry maxExpiry)
        else .ok ()

def scope (signer : Signer) (time : Instant) : Scope := ⟨signer.region, signer.service, time⟩

def withHost (draft : Draft) : Except Fault Draft :=
  if draft.headers.contains .host then .ok draft
  else draft.setHeader .host draft.authority.text false

/-- A date that the caller has set is replaced, since it has to match the scope. -/
def withDate (draft : Draft) (scope : Scope) : Except Fault Draft :=
  draft.setHeader .amzDate scope.datetime false

def withToken (draft : Draft) (credential : Credential) : Except Fault Draft :=
  match credential.sessionToken with
  | some token => draft.setHeader .amzSecurityToken token true
  | none => .ok draft

def credentialText (credential : Credential) (scope : Scope) : String :=
  credential.accessKeyId ++ "/" ++ scope.text

def parameters (draft : Draft) (credential : Credential) (expiry : Nat) (scope : Scope) :
    List (String × String) :=
  let signed := Canonical.namesText (draft.headers.namesExcept Canonical.unsignedHeaders)
  [("X-Amz-Algorithm", Signature.requestAlgorithm),
   ("X-Amz-Credential", credentialText credential scope),
   ("X-Amz-Date", scope.datetime),
   ("X-Amz-Expires", toString expiry),
   ("X-Amz-SignedHeaders", signed)]
    ++ match credential.sessionToken with
      | some token => [("X-Amz-Security-Token", token)]
      | none => []

def announceHash (signer : Signer) (draft : Draft) (hash : PayloadHash) : Except Fault Draft :=
  if hash.requiresHeader || signer.checksumHeader then
    draft.setHeader .amzContentSha256 hash.text false
  else .ok draft

/-- A presigned request does not cover its payload, unless it carries the hash of it. -/
def presignedHash (draft : Draft) : Except Fault PayloadHash := do
  match ← draft.headerText? .amzContentSha256 with
  | some text => return .digest text
  | none => return .unsigned

def prepare (signer : Signer) (request : Request) (body : Option Bytes) (credential : Credential)
    (placement : Placement) (scope : Scope) : Except Fault (Draft × PayloadHash) := do
  let draft ← Draft.ofRequest request
  let draft ← withHost draft.normalizeHeaders
  match placement with
  | .header =>
      let draft ← withToken (← withDate draft scope) credential
      let hash ← signer.strategy.resolve draft body
      return (← signer.announceHash draft hash, hash)
  | .query expiry =>
      let parameters := parameters draft credential expiry scope
      let draft := { draft with query := draft.query ++ parameters }
      return (draft, ← presignedHash draft)

def stringToSign (scope : Scope) (canonical : Canonical) : String :=
  Signature.stringToSign Signature.requestAlgorithm scope [canonical.digest]

def signature (credential : Credential) (scope : Scope) (canonical : Canonical) : String :=
  Signature.hex (Signature.key credential.secretAccessKey scope) (stringToSign scope canonical)

def authorization (credential : Credential) (scope : Scope) (canonical : Canonical) : String :=
  Signature.requestAlgorithm ++ " Credential=" ++ credentialText credential scope
    ++ ", SignedHeaders=" ++ canonical.signedHeaders
    ++ ", Signature=" ++ signature credential scope canonical

def place (draft : Draft) (credential : Credential) (placement : Placement) (scope : Scope)
    (canonical : Canonical) : Except Fault Request := do
  let draft := { draft with query := Canonical.sortedQuery draft.query }
  match placement with
  | .header =>
      (← draft.setHeader .authorization (authorization credential scope canonical) true).finish
  | .query _ =>
      (draft.pushQuery "X-Amz-Signature" (signature credential scope canonical)).finish

def signAt (signer : Signer) (request : Request) (body : Option Bytes) (credential : Credential)
    (placement : Placement) (time : Instant) :
    List Log.Record × Except Fault (Request × SigningOutput) :=
  let scope := signer.scope time
  let announced := [Log.Record.debug ("calculated scope: " ++ scope.text)]
  let canonicalised := do
    let (draft, hash) ← signer.prepare request body credential placement scope
    return (draft, hash, ← Canonical.ofDraft draft hash)
  match canonicalised with
  | .error fault => (announced, .error fault)
  | .ok (draft, hash, canonical) =>
      (announced ++
        [.debug ("calculated canonical request: " ++ canonical.text),
         .debug ("calculated string to sign: " ++ stringToSign scope canonical)],
       do
        let sealed ← place draft credential placement scope canonical
        return (sealed,
          ⟨signature credential scope canonical, scope, canonical.signedHeaders, hash⟩))

def sign (signer : Signer) (request : Request) (body : Option Bytes) (credential : Credential)
    (placement : Placement) (clock : Clock) : Signing :=
  match signer.check credential placement with
  | .error fault => ⟨.error fault, request, clock, []⟩
  | .ok () =>
      match signer.signAt request body credential placement clock.now with
      | (log, .ok (signed, output)) => ⟨.ok output, signed, clock.tick, log⟩
      | (log, .error fault) => ⟨.error fault, request, clock.tick, log⟩

def openSession (credential : Credential) (output : SigningOutput) :
    Except Fault Event.Session :=
  if output.payloadHash ≠ .streamingEvents then .error (.notStreaming output.payloadHash.text)
  else if !credential.isValid then .error .credentialEmpty
  else .ok ⟨credential, output.scope.region, output.scope.service, output.signature⟩

end Signer

end SigV4
