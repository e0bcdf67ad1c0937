/-!
Why a uri, or one part of it, is refused.
-/
namespace SigV4

inductive UriError where
  | invalidCharacter
  | invalidScheme
  | invalidAuthority
  | invalidFormat
  | schemeMissing
  | authorityMissing
  | pathMissing
  | tooLong
  | empty
  | schemeTooLong
  | pathWithoutSlash
  deriving DecidableEq, Repr

def UriError.message : UriError → String
  | .invalidCharacter => "invalid uri character"
  | .invalidScheme => "invalid scheme"
  | .invalidAuthority => "invalid authority"
  | .invalidFormat => "invalid format"
  | .schemeMissing => "scheme missing"
  | .authorityMissing => "authority missing"
  | .pathMissing => "path missing"
  | .tooLong => "uri too long"
  | .empty => "empty string"
  | .schemeTooLong => "scheme too long"
  | .pathWithoutSlash => "path does not start with slash"

end SigV4
