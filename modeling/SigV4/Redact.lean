import SigV4.Bytes
/-!
Secrets as they may be shown: three octets at each end of a text that is long enough and that can
be cut there, and nothing of any other.
-/
namespace SigV4.Redact

/-- The characters that make up exactly the first `octets` octets; none if a character lies
across the cut. -/
def front? (octets : Nat) : List Char → Option (List Char)
  | [] => if octets = 0 then some [] else none
  | character :: rest =>
      if octets = 0 then some []
      else if character.utf8Size ≤ octets then
        (front? (octets - character.utf8Size) rest).map (character :: ·)
      else none

def shortest : Nat := 12

def shown : Nat := 3

def text (secret : String) : String :=
  if secret = "" then "EMPTY"
  else if secret.utf8ByteSize < shortest then "***"
  else
    match front? shown secret.toList, front? shown secret.toList.reverse with
    | some first, some last => String.ofList first ++ "***" ++ String.ofList last.reverse
    | _, _ => "***"

def optional (secret : Option String) : String := text (secret.getD "")

end SigV4.Redact
