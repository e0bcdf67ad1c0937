import SigV4.Payload
import SigV4.Log
/-!
Settings of a signer, and what the environment adds to them.
-/
namespace SigV4

structure Settings where
  region : Option String
  service : Option String
  strategy : PayloadStrategy
  checksumHeader : Bool
  deriving DecidableEq

namespace Settings

/-- The Unicode property White_Space. -/
def isWhiteSpace (character : Char) : Bool :=
  let code := character.toNat
  (0x09 ≤ code && code ≤ 0x0D) || code == 0x20 || code == 0x85 || code == 0xA0 || code == 0x1680 ||
    (0x2000 ≤ code && code ≤ 0x200A) || code == 0x2028 || code == 0x2029 || code == 0x202F ||
    code == 0x205F || code == 0x3000

def trim (text : String) : String :=
  String.ofList
    ((text.toList.dropWhile isWhiteSpace).reverse.dropWhile isWhiteSpace).reverse

def switch? (text : String) : Option Bool :=
  let word := (trim text).map Char.toLower
  if word = "true" then some true else if word = "false" then some false else none

def regionVariable : String := "AWS_REGION"

def defaultRegionVariable : String := "AWS_DEFAULT_REGION"

def serviceVariable : String := "ROLLSIGN_AWS_V4_SERVICE"

def strategyVariable : String := "ROLLSIGN_AWS_V4_PAYLOAD_SIGNING"

def checksumVariable : String := "ROLLSIGN_AWS_V4_CONTENT_SHA256"

def ignored (variableName reason : String) : Log.Record :=
  .debug ("ignore invalid " ++ variableName ++ ": " ++ reason)

def notASwitch : String := "provided string was not \x60true\x60 or \x60false\x60"

def readStrategy (settings : Settings) : Option String → Settings × List Log.Record
  | none => (settings, [])
  | some text =>
      match PayloadStrategy.parse text with
      | .ok strategy => ({ settings with strategy }, [])
      | .error fault => (settings, [ignored strategyVariable fault.report.text])

def readChecksum (settings : Settings) : Option String → Settings × List Log.Record
  | none => (settings, [])
  | some text =>
      match switch? text with
      | some checksumHeader => ({ settings with checksumHeader }, [])
      | none => (settings, [ignored checksumVariable notASwitch])

/-- Region and service that are set already are kept; what cannot be read is passed over. -/
def withEnvironment (settings : Settings) (lookup : String → Option String) :
    Settings × List Log.Record :=
  let region := settings.region <|> lookup regionVariable <|> lookup defaultRegionVariable
  let service := settings.service <|> lookup serviceVariable
  let (settings, first) := readStrategy { settings with region, service } (lookup strategyVariable)
  let (settings, second) := readChecksum settings (lookup checksumVariable)
  (settings, first ++ second)

end Settings

end SigV4
