import AddressExchange.Web.Url.Host

/-!
# URLs

Absolute URLs, read as browsers do: blanks around them and line ends inside do not count,
backslashes count as slashes, parts are escaped where they must be, and dots in the path are
resolved.
-/

namespace AddressExchange.Web

/-- A URL of the web. -/
structure Url where
  scheme : String
  username : String
  password : String
  host : Host
  /-- The port, if it is not the one of the scheme. -/
  port : Option Nat
  path : List String
  query : Option String
  fragment : Option String
  deriving DecidableEq, Repr

/-- An absolute URL. Of one that is not of the web only the scheme is kept. -/
inductive AnyUrl where
  | web (url : Url)
  | other (scheme : String)
  deriving DecidableEq, Repr

namespace Url

/-! ## As text -/

/-- The name and the password in front of a host. -/
def userinfo (u : Url) : String :=
  if u.username.isEmpty && u.password.isEmpty then ""
  else if u.password.isEmpty then s!"{u.username}@"
  else s!"{u.username}:{u.password}@"

def text (u : Url) : String :=
  let port := match u.port with
    | some n => s!":{n}"
    | none => ""
  let query := match u.query with
    | some q => s!"?{q}"
    | none => ""
  let fragment := match u.fragment with
    | some f => s!"#{f}"
    | none => ""
  s!"{u.scheme}://{u.userinfo}{u.host.text}{port}/" ++ "/".intercalate u.path ++ query ++ fragment

/-! ## Schemes -/

/-- The port of a scheme that has hosts like the web's. -/
def defaultPort? (scheme : String) : Option Nat :=
  [("http", 80), ("https", 443), ("ws", 80), ("wss", 443), ("ftp", 21)].lookup scheme

/-- The scheme in front of a colon, in lower case, and what follows. -/
def scheme? (cs : List Char) : Option (String × List Char) :=
  let inScheme (c : Char) : Bool := c.isAlphanum || c = '+' || c = '-' || c = '.'
  match cs.head?, cs.dropWhile inScheme with
  | some c, ':' :: rest =>
    if c.isAlpha then some (String.ofList ((cs.takeWhile inScheme).map Char.toLower), rest)
    else none
  | _, _ => none

/-! ## Name, password, host and port -/

/-- What stands between the scheme and the path. -/
structure Authority where
  username : String
  password : String
  host : Host
  port : Option Nat

/-- Cuts a text behind its last at sign. -/
def cutUser (cs : List Char) : Option (List Char) × List Char :=
  let behind := (cs.reverse.takeWhile (· ≠ '@')).reverse
  match cs.reverse.dropWhile (· ≠ '@') with
  | [] => (none, behind)
  | _ :: before => (some before.reverse, behind)

/-- The length of the host that a text begins with: up to a colon that stands outside brackets. -/
def hostLength (inside : Bool) : List Char → Nat
  | [] => 0
  | ':' :: cs => if inside then hostLength inside cs + 1 else 0
  | '[' :: cs => hostLength true cs + 1
  | ']' :: cs => hostLength false cs + 1
  | _ :: cs => hostLength inside cs + 1

/-- The port behind a colon; none if there are no digits. -/
def port? (cs : List Char) : Except UrlFault (Option Nat) :=
  if cs.isEmpty then .ok none
  else match (Text.digits? cs).filter (· < 65536) with
    | some n => .ok (some n)
    | none => .error .port

/-- Reads an authority. `web` says whether hosts are those of the web; `ends` whether nothing
follows the authority. -/
def authority (web ends : Bool) (cs : List Char) : Except UrlFault Authority := do
  let (user, rest) := cutUser cs
  if user = some [] && rest.isEmpty && !ends then throw .emptyHost
  let user := user.getD []
  let username := Escape.encode Escape.userinfo (user.takeWhile (· ≠ ':'))
  let password := Escape.encode Escape.userinfo ((user.dropWhile (· ≠ ':')).drop 1)
  let n := hostLength false rest
  let name := rest.take n
  if web && name.isEmpty then throw .emptyHost
  let host ← if web then Host.parse name else Host.parseOther name
  if name.isEmpty && !(rest.drop n).isEmpty then throw .emptyHost
  let port ← port? (((rest.drop n).drop 1).takeWhile (· ≠ '\\'))
  if name.isEmpty && !(username.isEmpty && password.isEmpty) then throw .emptyHost
  pure ⟨username, password, host, port⟩

/-! ## Path -/

/-- Is a step of a path a drive's letter? -/
def isDrive (step : String) : Bool :=
  match step.toList with
  | [c, d] => c.isAlpha && (d = ':' || d = '|')
  | _ => false

/-- Takes the last step away, unless it is a drive. -/
def up : List String → List String
  | [] => []
  | step :: steps => if isDrive step then step :: steps else steps

/-- Resolves dots in the steps of a path. `done` holds the steps so far, last one first. -/
def resolve (done : List String) : List String → List String
  | [] => done.reverse
  | step :: steps =>
    let plain := step.toLower
    if plain = "." || plain = "%2e" then
      resolve (if steps.isEmpty then "" :: done else done) steps
    else if plain = ".." || plain = ".%2e" || plain = "%2e." || plain = "%2e%2e" then
      resolve (if steps.isEmpty then "" :: up done else up done) steps
    else resolve (step :: done) steps

def isSlash (c : Char) : Bool := c = '/' || c = '\\'

/-- The steps of a path. -/
def steps (cs : List Char) : List String :=
  let cs := match cs with
    | c :: rest => if isSlash c then rest else c :: rest
    | [] => []
  resolve [] ((cs.splitOnP isSlash).map (Escape.encode Escape.path))

/-! ## Whole URLs -/

/-- A text without blanks and controls around it and without tabs and line ends. -/
def clean (s : String) : List Char :=
  let outside (c : Char) : Bool := c.toNat ≤ 0x20
  (((s.toList.dropWhile outside).reverse.dropWhile outside).reverse).filter fun c =>
    c ≠ '\t' && c ≠ '\n' && c ≠ '\r'

/-- Does a character end the authority? -/
def endsAuthority (web : Bool) (c : Char) : Bool :=
  c = '/' || c = '?' || c = '#' || (web && c = '\\')

/-- Reads what follows the slashes of a URL of the web. -/
def parseWeb (scheme : String) (standard : Nat) (cs : List Char) : Except UrlFault Url := do
  let rest := cs.dropWhile (!endsAuthority true ·)
  let a ← authority true rest.isEmpty (cs.takeWhile (!endsAuthority true ·))
  let inPath (c : Char) : Bool := c ≠ '?' && c ≠ '#'
  let behind := rest.dropWhile inPath
  let query := match behind with
    | '?' :: q => some (Escape.encode Escape.query (q.takeWhile (· ≠ '#')))
    | _ => none
  let fragment := match behind.dropWhile (· ≠ '#') with
    | _ :: f => some (Escape.encode Escape.fragment f)
    | [] => none
  pure {
    scheme, username := a.username, password := a.password, host := a.host
    port := a.port.filter (· ≠ standard)
    path := steps (rest.takeWhile inPath), query, fragment }

/-- Checks the host of a file's URL; a drive or nothing stands for none. -/
def checkFileHost (cs : List Char) : Except UrlFault Unit :=
  match cs with
  | a :: b :: rest =>
    let name := rest.takeWhile (!endsAuthority true ·)
    if isSlash a && isSlash b && !name.isEmpty && !isDrive (String.ofList name) then do
      let _ ← Host.parse name
    else .ok ()
  | _ => .ok ()

/-- Reads an absolute URL. -/
def parse (s : String) : Except UrlFault AnyUrl := do
  let some (scheme, rest) := scheme? (clean s) | throw .relative
  match defaultPort? scheme with
  | some standard => .web <$> parseWeb scheme standard (rest.dropWhile isSlash)
  | none =>
    if scheme = "file" then checkFileHost rest
    else match rest with
      | '/' :: '/' :: rest => do
        let ends := (rest.dropWhile (!endsAuthority false ·)).isEmpty
        let _ ← authority false ends (rest.takeWhile (!endsAuthority false ·))
      | _ => pure ()
    pure (.other scheme)

end Url

/-- The scheme of a URL. -/
def AnyUrl.scheme : AnyUrl → String
  | .web u => u.scheme
  | .other scheme => scheme

end AddressExchange.Web
