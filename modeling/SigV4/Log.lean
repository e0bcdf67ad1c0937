/-!
Records that are written while signing. They are values that an operation returns beside its
result, the earliest first.
-/
namespace SigV4.Log

inductive Level where
  | debug
  | trace
  deriving DecidableEq, Repr

structure Record where
  level : Level
  message : String
  deriving DecidableEq, Repr

def Record.debug (message : String) : Record := ⟨.debug, message⟩

def Record.trace (message : String) : Record := ⟨.trace, message⟩

end SigV4.Log
