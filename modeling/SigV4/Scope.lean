import SigV4.Instant
/-!
The scope of a signature: the day it is good for, the region and the service.
-/
namespace SigV4

structure Scope where
  region : String
  service : String
  time : Instant

namespace Scope

def terminator : String := "aws4_request"

def date (scope : Scope) : String := scope.time.dateText

def datetime (scope : Scope) : String := scope.time.datetimeText

def parts (scope : Scope) : List String :=
  [scope.date, scope.region, scope.service, terminator]

def text (scope : Scope) : String := String.intercalate "/" scope.parts

end Scope

end SigV4
