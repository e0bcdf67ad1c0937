import SigV4.Request
import SigV4.Form
/-!
A request taken apart for signing. `Draft.ofRequest` reads the query as decoded pairs, and
`Draft.finish` puts a request together again, with the pairs as they then are: whoever finishes a
draft has encoded them before.
-/
namespace SigV4

structure Draft where
  method : Method
  scheme : Scheme
  authority : Authority
  path : String
  query : List (String × String)
  headers : Headers
  deriving DecidableEq

namespace Draft

def ofRequest (request : Request) : Except Fault Draft :=
  match request.uri.authority with
  | none => .error .authorityMissing
  | some authority =>
      .ok
        { method := request.method
          scheme := request.uri.scheme.getD .http
          authority := authority
          path := request.uri.pathAndQuery.requestPath
          query := match request.uri.query with
            | some query => Form.parse (Bytes.ofText query)
            | none => []
          headers := request.headers }

def querySize (draft : Draft) : Nat :=
  draft.query.foldr (fun (key, value) size => key.utf8ByteSize + value.utf8ByteSize + size) 0

def pairText (pair : String × String) : String :=
  if pair.2 = "" then pair.1 else pair.1 ++ "=" ++ pair.2

def queryText (query : List (String × String)) : String :=
  String.intercalate "&" (query.map pairText)

/-- Path and query as they are written; a query that holds no octet is left out. -/
def target (draft : Draft) : String :=
  if draft.querySize = 0 then draft.path else draft.path ++ "?" ++ queryText draft.query

def finish (draft : Draft) : Except Fault Request := do
  let target ← (PathAndQuery.parse (Bytes.ofText draft.target)).mapError .uri
  let uri ← (Uri.ofParts (some draft.scheme) (some draft.authority) (some target)).mapError .uri
  return ⟨draft.method, uri, draft.headers⟩

def isEncrypted (draft : Draft) : Bool := draft.scheme = .https

def decodedPath (draft : Draft) : Except Fault String :=
  (Utf8.decode (Percent.decode (Bytes.ofText draft.path))).mapError .notUtf8

def pushQuery (draft : Draft) (key value : String) : Draft :=
  { draft with query := draft.query ++ [(key, value)] }

def readValue (value : HeaderValue) : Except Fault String :=
  match value.readable? with
  | some text => .ok text
  | none => .error .headerValueUnreadable

def firstText? (values : List HeaderValue) : Except Fault (Option String) :=
  match values with
  | value :: _ => (readValue value).map some
  | [] => .ok none

def joinedText (values : List HeaderValue) : Except Fault String :=
  (values.mapM readValue).map (String.intercalate ",")

def headerText? (draft : Draft) (name : HeaderName) : Except Fault (Option String) :=
  firstText? (draft.headers.values name)

def headerJoined (draft : Draft) (name : HeaderName) : Except Fault String :=
  joinedText (draft.headers.values name)

def normalizeHeaders (draft : Draft) : Draft :=
  { draft with headers := draft.headers.mapValues (·.normalize) }

def setHeader (draft : Draft) (name : HeaderName) (text : String) (sensitive : Bool) :
    Except Fault Draft :=
  match HeaderValue.ofText? text sensitive with
  | some value => .ok { draft with headers := draft.headers.insert name value }
  | none => .error .headerValueInvalid

end Draft

end SigV4
