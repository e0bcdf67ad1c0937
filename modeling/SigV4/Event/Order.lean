import SigV4.Event.Message
/-!
The order of headers in a frame: by the octets of their names, with the signature of the frame
after all others, and headers of one name as they came.
-/
namespace SigV4.Event

def dateName : String := ":date"

def signatureName : String := ":chunk-signature"

def Header.le (left right : Header) : Bool :=
  if left.name = signatureName then right.name = signatureName
  else
    right.name = signatureName || decide (Bytes.ofText left.name ≤ Bytes.ofText right.name)

def sortHeaders (headers : List Header) : List Header := headers.mergeSort Header.le

end SigV4.Event
