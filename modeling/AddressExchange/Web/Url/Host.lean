import AddressExchange.Text.Utf8
import AddressExchange.Web.Address
import AddressExchange.Web.Url.Domain
import AddressExchange.Web.Url.Escape

/-!
# Hosts in URLs

A host is an address between brackets, an address in numbers, or a domain name.
-/

namespace AddressExchange.Web

/-- Why a text is no absolute URL. -/
inductive UrlFault where
  | emptyHost
  | domainName
  | port
  | ipv4
  | ipv6
  | domainCharacter
  | relative
  deriving DecidableEq, Repr

/-- The wording of a fault. -/
def UrlFault.message : UrlFault → String
  | .emptyHost => "empty host"
  | .domainName => "invalid international domain name"
  | .port => "invalid port number"
  | .ipv4 => "invalid IPv4 address"
  | .ipv6 => "invalid IPv6 address"
  | .domainCharacter => "invalid domain character"
  | .relative => "relative URL without a base"

/-- The host of a URL. -/
inductive Host where
  | domain (name : String)
  | ipv4 (address : Ipv4)
  | ipv6 (address : Ipv6)
  deriving DecidableEq, Repr

namespace Host

def text : Host → String
  | domain name => name
  | ipv4 address => address.text
  | ipv6 address => s!"[{address.text}]"

/-! ## Addresses in numbers -/

/-- The number of digits of a base. -/
def inBase? (base : Nat) (cs : List Char) : Option Nat := do
  let n ← hexNumber? cs
  if base = 16 then some n
  else if cs.all fun c => c.toNat - 48 < base && c ≤ '9' then
    some (cs.foldl (fun n c => n * base + (c.toNat - 48)) 0)
  else none

/-- A number of base ten, of base eight behind a zero, or of base sixteen behind `0x`. -/
def number? : List Char → Option Nat
  | ['0', 'x'] | ['0', 'X'] => some 0
  | '0' :: 'x' :: cs | '0' :: 'X' :: cs => inBase? 16 cs
  | '0' :: c :: cs => inBase? 8 (c :: cs)
  | cs => inBase? 10 cs

/-- The parts between points; a point at the end does not count. -/
def parts (name : List Char) : List (List Char) :=
  match (name.splitOn '.').reverse with
  | [] :: rest => rest.reverse
  | rest => rest.reverse

/-- Is a name meant as an address, because its last part is a number? -/
def endsInNumber (name : List Char) : Bool :=
  match (parts name).getLast? with
  | none => false
  | some last => (!last.isEmpty && last.all Char.isDigit) || (number? last).isSome

/-- The address of one to four numbers; the last one fills the bytes that are left. -/
def ipv4? (name : List Char) : Option Ipv4 := do
  let numbers ← (parts name).mapM number?
  let last ← numbers.getLast?
  let high := numbers.dropLast
  if 3 < high.length || high.any (255 < ·) || Nat.pow 256 (4 - high.length) ≤ last then none
  else some ⟨.ofNat (high.foldl (fun n b => n * 256 + b) 0 * Nat.pow 256 (4 - high.length) + last)⟩

/-! ## Hosts -/

/-- The host of a URL of the web. -/
def parse (cs : List Char) : Except UrlFault Host :=
  match cs with
  | '[' :: rest =>
    if rest.getLast? = some ']' then
      match Ipv6.ofText? rest.dropLast with
      | some address => .ok (ipv6 address)
      | none => .error .ipv6
    else .error .ipv6
  | cs =>
    let decoded := Text.Utf8.decode? (Escape.decode (Text.utf8 (String.ofList cs)))
    match decoded.bind fun s => Domain.ascii? s.toList with
    | none => .error .domainName
    | some [] => .error .emptyHost
    | some name =>
      if endsInNumber name then
        match ipv4? name with
        | some address => .ok (ipv4 address)
        | none => .error .ipv4
      else .ok (domain (String.ofList name))

/-- Characters that no host may hold. -/
def reserved : List Char :=
  ['\x00', '\t', '\n', '\r', ' ', '#', '/', ':', '<', '>', '?', '@', '[', '\\', ']', '^', '|']

/-- The host of any other URL. -/
def parseOther (cs : List Char) : Except UrlFault Host :=
  if cs.head? = some '[' then parse cs
  else if cs.any reserved.contains then .error .domainCharacter
  else .ok (domain (Escape.encode ⟨[]⟩ cs))

end Host

end AddressExchange.Web
