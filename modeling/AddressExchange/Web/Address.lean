import AddressExchange.Hex
import AddressExchange.Text.Literal

/-!
# Network addresses

Addresses of hosts and sockets, and their text forms: dotted octets, groups between colons of which
one run of zeros is left out, and a socket's address with its port.
-/

namespace AddressExchange.Web

/-- An address of 32 bits. -/
structure Ipv4 where
  bits : UInt32
  deriving DecidableEq, Repr

namespace Ipv4

/-- The address of four octets, highest first. -/
def ofOctets (a b c d : Nat) : Ipv4 := ⟨.ofNat (((a * 256 + b) * 256 + c) * 256 + d)⟩

/-- The octets, highest first. -/
def octets (a : Ipv4) : List Nat := [24, 16, 8, 0].map fun shift => (a.bits.toNat >>> shift) % 256

def text (a : Ipv4) : String := ".".intercalate (a.octets.map toString)

/-- An octet in decimal digits without leading zeros. -/
def octet? (cs : List Char) : Option Nat :=
  match cs with
  | '0' :: _ :: _ => none
  | cs => (Text.digits? cs).filter (· < 256)

/-- The address of four octets between points. -/
def dotted? (cs : List Char) : Option Ipv4 :=
  match cs.splitOn '.' with
  | [a, b, c, d] => do some (ofOctets (← octet? a) (← octet? b) (← octet? c) (← octet? d))
  | _ => none

end Ipv4

/-- The number that hexadecimal digits stand for; none for no digits. -/
def hexNumber? : List Char → Option Nat
  | [] => none
  | cs => cs.foldl (fun n c => do
      let d ← if c.toNat < 128 then Hex.value? (.ofNat c.toNat) else none
      return (← n) * 16 + d.toNat) (some 0)

/-- An address of 128 bits as eight groups of 16 bits. -/
structure Ipv6 where
  groups : List Nat
  deriving DecidableEq, Repr

namespace Ipv6

/-- A group: one to four hexadecimal digits. -/
def group? (cs : List Char) : Option Nat := if cs.length ≤ 4 then hexNumber? cs else none

/-- The groups of pieces. The last piece may be a dotted address, which stands for two groups. -/
def groups? : List (List Char) → Option (List Nat)
  | [] => some []
  | [last] =>
    match group? last with
    | some g => some [g]
    | none => (Ipv4.dotted? last).map fun a => [a.bits.toNat / 65536, a.bits.toNat % 65536]
  | piece :: pieces => do some ((← group? piece) :: (← groups? pieces))

/-- The pieces between colons; no text has no pieces. -/
def pieces (cs : List Char) : List (List Char) := if cs.isEmpty then [] else cs.splitOn ':'

/-- Cuts a text at its first two colons in a row. -/
def cut : List Char → Option (List Char × List Char)
  | ':' :: ':' :: rest => some ([], rest)
  | c :: rest => (cut rest).map fun (before, behind) => (c :: before, behind)
  | [] => none

/-- The address of a text. Two colons stand for the zeros that are missing, at least one group. -/
def ofText? (cs : List Char) : Option Ipv6 := do
  match cut cs with
  | none =>
    let groups ← groups? (pieces cs)
    if groups.length = 8 then some ⟨groups⟩ else none
  | some (before, behind) =>
    let high ← (pieces before).mapM group?
    let low ← groups? (pieces behind)
    let count := high.length + low.length
    if count ≤ 7 then some ⟨high ++ List.replicate (8 - count) 0 ++ low⟩ else none

/-- The longest run of at least two zeros, as its place and its length; of several the first. -/
def longestRun (groups : List Nat) : Option (Nat × Nat) :=
  (List.range groups.length).foldl (fun best i =>
    let n := ((groups.drop i).takeWhile (· = 0)).length
    if max 1 ((best.map (·.2)).getD 1) < n then some (i, n) else best) none

def text (a : Ipv6) : String :=
  let join (groups : List Nat) : String :=
    ":".intercalate (groups.map fun g => String.ofList (Nat.toDigits 16 g))
  match longestRun a.groups with
  | none => join a.groups
  | some (i, n) => join (a.groups.take i) ++ "::" ++ join (a.groups.drop (i + n))

end Ipv6

/-- The address of a host and a port on it. -/
inductive SocketAddress where
  | v4 (address : Ipv4) (port : Nat)
  | v6 (address : Ipv6) (scope port : Nat)
  deriving DecidableEq, Repr

namespace SocketAddress

/-- A decimal number up to a bound; leading zeros are fine. -/
def number? (high : Nat) (cs : List Char) : Option Nat := (Text.digits? cs).filter (· ≤ high)

/-- Reads the part between brackets: an address and perhaps a scope. -/
def bracketed? (cs : List Char) : Option (Ipv6 × Nat) :=
  let address := cs.takeWhile (· ≠ '%')
  match cs.dropWhile (· ≠ '%') with
  | [] => do some (← Ipv6.ofText? address, 0)
  | _ :: scope => do some (← Ipv6.ofText? address, ← number? 4294967295 scope)

/-- Reads `address:port`; an address of 128 bits stands between brackets. -/
def ofText? (s : String) : Option SocketAddress :=
  match s.toList with
  | '[' :: cs =>
    match cs.dropWhile (· ≠ ']') with
    | ']' :: ':' :: port => do
      let (address, scope) ← bracketed? (cs.takeWhile (· ≠ ']'))
      some (.v6 address scope (← number? 65535 port))
    | _ => none
  | cs =>
    match cs.splitOn ':' with
    | [address, port] => do some (.v4 (← Ipv4.dotted? address) (← number? 65535 port))
    | _ => none

end SocketAddress

end AddressExchange.Web
