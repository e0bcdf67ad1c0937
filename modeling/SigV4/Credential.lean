import SigV4.Redact
/-!
Credentials. A key pair, with a session token when it is a temporary one; printed only redacted.
-/
namespace SigV4

structure Credential where
  accessKeyId : String
  secretAccessKey : String
  sessionToken : Option String
  deriving DecidableEq

namespace Credential

def isValid (credential : Credential) : Bool :=
  credential.accessKeyId ≠ "" && credential.secretAccessKey ≠ ""

def fields (credential : Credential) : List (String × String) :=
  [("access_key_id", Redact.text credential.accessKeyId),
   ("secret_access_key", Redact.text credential.secretAccessKey),
   ("session_token", Redact.optional credential.sessionToken)]

def inlineText (credential : Credential) : String :=
  "Credential \x7b "
    ++ String.intercalate ", " (credential.fields.map fun (name, value) => name ++ ": " ++ value)
    ++ " \x7d"

/-- A line feed inside a value is followed by the indentation of its field. -/
def indented (value : String) : String :=
  String.ofList
    (value.toList.flatMap fun character =>
      if character = '\n' then '\n' :: List.replicate 4 ' ' else [character])

def linesText (credential : Credential) : String :=
  let lines := credential.fields.map fun (name, value) =>
    "    " ++ name ++ ": " ++ indented value ++ ",\n"
  "Credential \x7b\n" ++ String.join lines ++ "\x7d"

end Credential

end SigV4
