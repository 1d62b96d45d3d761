import AddressExchange.Bytes

/-!
# Keccak

The permutation of 25 lanes of 64 bits, the sponge built on it, and the hash functions that the
sponge gives with the rates and suffixes of FIPS 202.
-/

namespace AddressExchange.Keccak

/-- The lanes, row by row: lane `(x, y)` is at `x + 5 * y`. -/
abbrev State := Array UInt64

def emptyState : State := Array.replicate 25 0

/-- The lane at a place. -/
@[inline] def lane (s : State) (i : Nat) : UInt64 := s.getD i 0

/-- Turns the bits of a lane to the left. -/
@[inline] def turn (x n : UInt64) : UInt64 := (x <<< n) ||| (x >>> (64 - n))

/-- How far lanes are turned. -/
def turns : Array UInt64 :=
  #[0, 1, 62, 28, 27, 36, 44, 6, 55, 20, 3, 10, 43, 25, 39, 41, 45, 15, 21, 8, 18, 2, 61, 56, 14]

/-- What the rounds add to the first lane. -/
def roundConstants : List UInt64 :=
  [0x0000000000000001, 0x0000000000008082, 0x800000000000808a, 0x8000000080008000,
   0x000000000000808b, 0x0000000080000001, 0x8000000080008081, 0x8000000000008009,
   0x000000000000008a, 0x0000000000000088, 0x0000000080008009, 0x000000008000000a,
   0x000000008000808b, 0x800000000000008b, 0x8000000000008089, 0x8000000000008003,
   0x8000000000008002, 0x8000000000000080, 0x000000000000800a, 0x800000008000000a,
   0x8000000080008081, 0x8000000000008080, 0x0000000080000001, 0x8000000080008008]

/-- Adds to each lane the parities of two columns. -/
def theta (s : State) : State :=
  let column (x : Nat) : UInt64 :=
    lane s x ^^^ lane s (x + 5) ^^^ lane s (x + 10) ^^^ lane s (x + 15) ^^^ lane s (x + 20)
  let parity : Array UInt64 := Array.ofFn fun (i : Fin 5) => column i
  let change : Array UInt64 := Array.ofFn fun (i : Fin 5) =>
    lane parity ((i + 4) % 5) ^^^ turn (lane parity ((i + 1) % 5)) 1
  Array.ofFn fun (i : Fin 25) => lane s i ^^^ lane change (i % 5)

/-- Turns the lanes and moves them to other places. -/
def rhoPi (s : State) : State :=
  Array.ofFn fun (i : Fin 25) =>
    let x := i.val % 5
    let y := i.val / 5
    let source := (x + 3 * y) % 5 + 5 * x
    turn (lane s source) (turns.getD source 0)

/-- Combines each lane with the two behind it in its row. -/
def chi (s : State) : State :=
  Array.ofFn fun (i : Fin 25) =>
    let x := i.val % 5
    let row := i.val - x
    lane s i ^^^ (~~~ lane s (row + (x + 1) % 5) &&& lane s (row + (x + 2) % 5))

def round (s : State) (constant : UInt64) : State :=
  (chi (rhoPi (theta s))).modify 0 (· ^^^ constant)

/-- The permutation. -/
def permute (s : State) : State := roundConstants.foldl round s

/-! ## The sponge -/

/-- The lane that eight bytes stand for. -/
def laneOf (bs : Bytes) : UInt64 := bs.foldr (fun b n => b.toUInt64 ||| (n <<< 8)) 0

/-- The bytes of a lane. -/
def laneBytes (x : UInt64) : Bytes :=
  [x.toUInt8, (x >>> 8).toUInt8, (x >>> 16).toUInt8, (x >>> 24).toUInt8, (x >>> 32).toUInt8,
    (x >>> 40).toUInt8, (x >>> 48).toUInt8, (x >>> 56).toUInt8]

/-- Takes in one block. -/
def absorbBlock (s : State) (block : Bytes) : State :=
  let lanes := (Bytes.pieces 8 block).map laneOf
  permute (lanes.zipIdx.foldl (fun s (x, i) => s.modify i (· ^^^ x)) s)

/-- What fills the last block of a message of a length. -/
def padding (rate : Nat) (suffix : UInt8) (length : Nat) : Bytes :=
  let gap := rate - length % rate
  if gap = 1 then [suffix ||| 0x80] else suffix :: (Bytes.zeros (gap - 2) ++ [0x80])

/-- The state after a message. -/
def absorb (rate : Nat) (suffix : UInt8) (message : Bytes) : State :=
  (Bytes.pieces rate (message ++ padding rate suffix message.length)).foldl absorbBlock emptyState

/-- The first bytes of a state. -/
def output (rate : Nat) (s : State) : Bytes := (s.toList.take (rate / 8)).flatMap laneBytes

/-- The bytes of so many blocks. -/
def squeeze (rate : Nat) : Nat → State → Bytes
  | 0, _ => []
  | blocks + 1, s => output rate s ++ squeeze rate blocks (permute s)

/-- The first `length` bytes that a message gives. -/
def sponge (rate : Nat) (suffix : UInt8) (message : Bytes) (length : Nat) : Bytes :=
  (squeeze rate (length / rate + 1) (absorb rate suffix message)).take length

def shake256 (message : Bytes) (length : Nat) : Bytes := sponge 136 0x1f message length
def sha3_256 (message : Bytes) : Bytes := sponge 136 0x06 message 32
def sha3_512 (message : Bytes) : Bytes := sponge 72 0x06 message 64

/-- The rate of the function that long streams are drawn from. -/
def streamRate : Nat := 168

/-- The state from which a stream is drawn. -/
def stream (message : Bytes) : State := absorb streamRate 0x1f message

end AddressExchange.Keccak
