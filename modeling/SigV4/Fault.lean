import SigV4.Event.Message
import SigV4.Uri
import SigV4.Utf8
/-!
What can go wrong, and how it is reported. A `Fault` is a cause; its `Report` holds what a caller
is shown: a kind, a message, and the text of the error beneath it, if there is one.
-/
namespace SigV4

inductive ErrorKind where
  | credentialInvalid
  | requestInvalid
  | configInvalid
  | cryptoFailure
  | unexpected
  deriving DecidableEq, Repr

def ErrorKind.text : ErrorKind → String
  | .credentialInvalid => "invalid credentials"
  | .requestInvalid => "invalid request"
  | .configInvalid => "invalid configuration"
  | .cryptoFailure => "cryptographic failure"
  | .unexpected => "unexpected error"

/-- Errors that the caller can mend by changing what was passed in. -/
def ErrorKind.isConfiguration : ErrorKind → Bool
  | .credentialInvalid | .requestInvalid | .configInvalid => true
  | .cryptoFailure | .unexpected => false

structure Report where
  kind : ErrorKind
  message : String
  source : Option String
  deriving DecidableEq, Repr

def Report.text (report : Report) : String := report.kind.text ++ ": " ++ report.message

def Report.withSource (report : Report) (source : String) : Report :=
  { report with source := some source }

inductive Fault where
  | credentialEmpty
  | authorityMissing
  | uri (error : UriError)
  | methodInvalid
  | headerNameInvalid
  | headerValueInvalid
  | headerValueUnreadable
  | notUtf8 (defect : Utf8.Defect)
  | unformattable
  | streamingPresigned
  | expiryTooLong (seconds limit : Nat)
  | payloadUnavailable
  | unsignedOverPlain (scheme : Scheme)
  | strategyUnknown (name : String)
  | serviceMissing
  | regionMissing
  | notStreaming (payloadHash : String)
  | headersUnencodable (error : Event.FrameError)
  | frameUnencodable (error : Event.FrameError)
  | eventUnencodable (error : Event.FrameError)
  deriving DecidableEq, Repr

namespace Fault

def kind : Fault → ErrorKind
  | .credentialEmpty => .credentialInvalid
  | .authorityMissing | .uri _ | .methodInvalid | .headerNameInvalid | .headerValueInvalid
  | .headerValueUnreadable | .notUtf8 _ | .headersUnencodable _ | .frameUnencodable _
  | .eventUnencodable _ => .requestInvalid
  | .streamingPresigned | .expiryTooLong _ _ | .payloadUnavailable | .unsignedOverPlain _
  | .strategyUnknown _ | .serviceMissing | .regionMissing | .notStreaming _ => .configInvalid
  | .unformattable => .unexpected

def message : Fault → String
  | .credentialEmpty => "access key id and secret access key must not be empty"
  | .authorityMissing => "request without authority is invalid for signing"
  | .uri error => error.message
  | .methodInvalid => "invalid HTTP method"
  | .headerNameInvalid => "invalid HTTP header name"
  | .headerValueInvalid => "failed to parse header value"
  | .headerValueUnreadable => "failed to convert header to a str"
  | .notUtf8 defect => defect.message
  | .unformattable => "an error occurred when formatting an argument"
  | .streamingPresigned => "streaming payload can't be signed in query"
  | .expiryTooLong seconds limit =>
      "presigned expiry " ++ toString seconds ++ "s exceeds the limit of " ++ toString limit ++ "s"
  | .payloadUnavailable => "payload must be available to be fully hashed"
  | .unsignedOverPlain scheme =>
      "unsigned payload is not allowed over " ++ scheme.text
        ++ ", and the payload is not available for hashing"
  | .strategyUnknown name => "unknown payload signing strategy: " ++ name
  | .serviceMissing => "service is required for signing"
  | .regionMissing => "region is required for signing"
  | .notStreaming payloadHash =>
      "chunk signer requires a streaming request, but payload hash is " ++ payloadHash
  | .headersUnencodable _ => "failed to encode event stream headers"
  | .frameUnencodable _ => "failed to encode event stream frame"
  | .eventUnencodable _ => "failed to encode event stream message"

/-- The text of the error beneath. A refused part of a request is reported by the words of the
refusal itself. -/
def source : Fault → Option String
  | .uri error => some error.message
  | .notUtf8 defect => some defect.message
  | .headersUnencodable error | .frameUnencodable error | .eventUnencodable error =>
      some error.message
  | .methodInvalid => some (message .methodInvalid)
  | .headerNameInvalid => some (message .headerNameInvalid)
  | .headerValueInvalid => some (message .headerValueInvalid)
  | .headerValueUnreadable => some (message .headerValueUnreadable)
  | .unformattable => some (message .unformattable)
  | _ => none

def report (fault : Fault) : Report := ⟨fault.kind, fault.message, fault.source⟩

end Fault

end SigV4
