import SigV4.Hex
/-!
SHA-256. The padded message is cut into blocks of sixteen words, each block is stretched to a
schedule of sixty-four, and the schedule is folded into the state.
-/
namespace SigV4.Sha256

structure State where
  a : UInt32
  b : UInt32
  c : UInt32
  d : UInt32
  e : UInt32
  f : UInt32
  g : UInt32
  h : UInt32
  deriving DecidableEq, Repr

def initial : State :=
  ⟨0x6a09e667, 0xbb67ae85, 0x3c6ef372, 0xa54ff53a, 0x510e527f, 0x9b05688c, 0x1f83d9ab, 0x5be0cd19⟩

def constants : List UInt32 :=
  [0x428a2f98, 0x71374491, 0xb5c0fbcf, 0xe9b5dba5, 0x3956c25b, 0x59f111f1, 0x923f82a4, 0xab1c5ed5,
   0xd807aa98, 0x12835b01, 0x243185be, 0x550c7dc3, 0x72be5d74, 0x80deb1fe, 0x9bdc06a7, 0xc19bf174,
   0xe49b69c1, 0xefbe4786, 0x0fc19dc6, 0x240ca1cc, 0x2de92c6f, 0x4a7484aa, 0x5cb0a9dc, 0x76f988da,
   0x983e5152, 0xa831c66d, 0xb00327c8, 0xbf597fc7, 0xc6e00bf3, 0xd5a79147, 0x06ca6351, 0x14292967,
   0x27b70a85, 0x2e1b2138, 0x4d2c6dfc, 0x53380d13, 0x650a7354, 0x766a0abb, 0x81c2c92e, 0x92722c85,
   0xa2bfe8a1, 0xa81a664b, 0xc24b8b70, 0xc76c51a3, 0xd192e819, 0xd6990624, 0xf40e3585, 0x106aa070,
   0x19a4c116, 0x1e376c08, 0x2748774c, 0x34b0bcb5, 0x391c0cb3, 0x4ed8aa4a, 0x5b9cca4f, 0x682e6ff3,
   0x748f82ee, 0x78a5636f, 0x84c87814, 0x8cc70208, 0x90befffa, 0xa4506ceb, 0xbef9a3f7, 0xc67178f2]

def rotate (word amount : UInt32) : UInt32 := (word >>> amount) ||| (word <<< (32 - amount))

def stretch (words : Array UInt32) (position : Nat) : Array UInt32 :=
  let early := words.getD (position + 1) 0
  let late := words.getD (position + 14) 0
  let mixedEarly := rotate early 7 ^^^ rotate early 18 ^^^ (early >>> 3)
  let mixedLate := rotate late 17 ^^^ rotate late 19 ^^^ (late >>> 10)
  words.push (words.getD position 0 + mixedEarly + words.getD (position + 9) 0 + mixedLate)

def schedule (block : Array UInt32) : Array UInt32 := (List.range 48).foldl stretch block

def round (state : State) (constant word : UInt32) : State :=
  let spread := rotate state.e 6 ^^^ rotate state.e 11 ^^^ rotate state.e 25
  let choice := (state.e &&& state.f) ^^^ (state.e.complement &&& state.g)
  let first := state.h + spread + choice + constant + word
  let fold := rotate state.a 2 ^^^ rotate state.a 13 ^^^ rotate state.a 22
  let majority := (state.a &&& state.b) ^^^ (state.a &&& state.c) ^^^ (state.b &&& state.c)
  ⟨first + (fold + majority), state.a, state.b, state.c, state.d + first, state.e, state.f, state.g⟩

def State.add (left right : State) : State :=
  ⟨left.a + right.a, left.b + right.b, left.c + right.c, left.d + right.d,
   left.e + right.e, left.f + right.f, left.g + right.g, left.h + right.h⟩

def compress (state : State) (block : Array UInt32) : State :=
  let rounds := constants.zip (schedule block).toList
  state.add (rounds.foldl (fun state (constant, word) => round state constant word) state)

/-- One bit, zeros up to eight octets short of a whole block, and the length in bits. -/
def pad (message : Bytes) : Bytes :=
  message ++ [0x80] ++ List.replicate ((119 - message.length % 64) % 64) 0
    ++ Bytes.bigEndian 8 (8 * message.length)

def words (read : Array UInt32) : Bytes → Array UInt32
  | first :: second :: third :: fourth :: rest =>
      words
        (read.push ((first.toUInt32 <<< 24) ||| (second.toUInt32 <<< 16)
          ||| (third.toUInt32 <<< 8) ||| fourth.toUInt32))
        rest
  | _ => read

def State.octets (state : State) : Bytes :=
  [state.a, state.b, state.c, state.d, state.e, state.f, state.g, state.h].flatMap
    fun word => Bytes.bigEndian 4 word.toNat

def hash (message : Bytes) : Bytes :=
  let padded := words #[] (pad message)
  let final := (List.range (padded.size / 16)).foldl
    (fun state block => compress state (padded.extract (16 * block) (16 * block + 16))) initial
  final.octets

def hexHash (message : Bytes) : String := Hex.encode (hash message)

@[simp] theorem length_hash (message : Bytes) : (hash message).length = 32 := by
  simp [hash, State.octets]

end SigV4.Sha256
