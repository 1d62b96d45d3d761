/-!
# Media types

The type of a body as a header tells it: a kind, a subtype, and parameters, which are checked and
left out.
-/

namespace AddressExchange.Web

/-- A media type in lower case. The last `+` of the subtype parts a suffix from it. -/
structure MediaType where
  kind : String
  subtype : String
  suffix : Option String
  deriving DecidableEq, Repr

namespace MediaType

/-- May the character stand in a name? -/
def isToken (c : Char) : Bool := c.isAlphanum || "!#$%&'*+-.^_`|~".contains c

/-- Where in the parameters a character stands. `empty` says that what it belongs to has no
character yet. -/
inductive Place where
  | name (empty : Bool)
  | value (empty : Bool)
  | quoted (empty : Bool)
  /-- Behind a closing quote. -/
  | behind

/-- Are these parameters? -/
def areParameters : Place → List Char → Bool
  | .name empty, [] => empty
  | .name empty, c :: cs =>
    if c = ' ' && empty then areParameters (.name true) cs
    else if isToken c then areParameters (.name false) cs
    else c = '=' && !empty && areParameters (.value true) cs
  | .value _, [] => true
  | .value empty, c :: cs =>
    if c = '"' && empty then areParameters (.quoted true) cs
    else if isToken c then areParameters (.value false) cs
    else c = ';' && !empty && areParameters (.name true) cs
  | .quoted _, [] => false
  | .quoted empty, c :: cs =>
    if c = '"' && !empty then areParameters .behind cs
    else ' ' ≤ c && c.toNat ≠ 127 && areParameters (.quoted false) cs
  | .behind, [] => true
  | .behind, c :: cs =>
    if c = ';' then areParameters (.name true) cs else c = ' ' && areParameters .behind cs

/-- Cuts a subtype at its last `+`, unless that begins it. -/
def cutSuffix (name : List Char) : List Char × Option (List Char) :=
  match name.reverse.dropWhile (· ≠ '+') with
  | _ :: c :: before => ((c :: before).reverse, some (name.reverse.takeWhile (· ≠ '+')).reverse)
  | _ => (name, none)

/-- Reads a media type. -/
def parse (s : String) : Option MediaType :=
  let lower (cs : List Char) : String := String.ofList (cs.map Char.toLower)
  let kind := s.toList.takeWhile isToken
  match s.toList.dropWhile isToken with
  | '/' :: rest =>
    let name := rest.takeWhile isToken
    let (subtype, suffix) := cutSuffix name
    let whole := some ⟨lower kind, lower subtype, suffix.map lower⟩
    if kind.isEmpty then none
    else match rest.dropWhile isToken with
      | [] => whole
      | ';' :: parameters =>
        if !name.isEmpty && areParameters (.name true) parameters then whole else none
      | _ => none
  | _ => none

/-- Is a body of this type JSON? -/
def isJson (t : MediaType) : Bool :=
  t.kind == "application" && (t.subtype == "json" || t.suffix == some "json")

end MediaType

end AddressExchange.Web
