import SigV4.Payload
/-!
Canonical requests: the one text that all spellings of a request share. Path and query are decoded
and encoded again, pairs are sorted by their encoded octets, and the signed headers stand one to a
line.
-/
namespace SigV4

namespace Canonical

/-- Headers that the way to the receiver may change. -/
def unsignedHeaders : List String :=
  ["authorization", "user-agent", "x-amzn-trace-id", "expect", "transfer-encoding"]

def pairLe (left right : String × String) : Bool :=
  if left.1 = right.1 then decide (Bytes.ofText left.2 ≤ Bytes.ofText right.2)
  else decide (Bytes.ofText left.1 ≤ Bytes.ofText right.1)

def encodePair (pair : String × String) : String × String :=
  (Percent.encodeText Percent.isUnreserved pair.1, Percent.encodeText Percent.isUnreserved pair.2)

def sortedQuery (pairs : List (String × String)) : List (String × String) :=
  (pairs.map encodePair).mergeSort pairLe

def queryText (pairs : List (String × String)) : String :=
  String.intercalate "&" ((sortedQuery pairs).map fun (key, value) => key ++ "=" ++ value)

def pathText (decoded : String) : String :=
  let encoded := Percent.encodeText Percent.isUnreservedOrSlash decoded
  if encoded = "" then "/" else encoded

end Canonical

structure Canonical where
  method : String
  path : String
  query : String
  headers : List (HeaderName × String)
  payloadHash : String
  deriving DecidableEq

namespace Canonical

def ofDraft (draft : Draft) (payloadHash : PayloadHash) : Except Fault Canonical := do
  let decoded ← draft.decodedPath
  let names := draft.headers.namesExcept unsignedHeaders
  let values ← names.mapM draft.headerJoined
  return {
    method := draft.method.text
    path := pathText decoded
    query := queryText draft.query
    headers := names.zip values
    payloadHash := payloadHash.text }

def namesText (names : List HeaderName) : String :=
  String.intercalate ";" (names.map (·.text))

def signedHeaders (canonical : Canonical) : String := namesText (canonical.headers.map (·.1))

def headerLines (canonical : Canonical) : List String :=
  canonical.headers.map fun (name, value) => name.text ++ ":" ++ value

def lines (canonical : Canonical) : List String :=
  [canonical.method, canonical.path, canonical.query] ++ canonical.headerLines
    ++ ["", canonical.signedHeaders, canonical.payloadHash]

def text (canonical : Canonical) : String := String.intercalate "\n" canonical.lines

def digest (canonical : Canonical) : String := Sha256.hexHash (Bytes.ofText canonical.text)

end Canonical

end SigV4
