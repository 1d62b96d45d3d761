import AddressExchange.CommandLine.Options
import AddressExchange.Host.Settings

/-!
# Commands

What a command line asks for: a new key pair, a running Matcher, an allocation from a Matcher, or
the id of a wallet. Some options may be left out if the environment holds their values.
-/

namespace AddressExchange.CommandLine

/-- What to ask of a Matcher, and how. -/
structure RequestOptions where
  matcherUrl : String
  matcherKey : String
  seed : String
  since : Option Int
  stateFile : Option String
  timeoutSeconds : UInt64
  attempts : UInt32
  deriving DecidableEq, Repr

/-- How to run a Matcher. -/
structure ServeOptions where
  port : Nat
  bind : String
  keys : String
  addresses : Option String
  poolFile : Option String
  deriving DecidableEq, Repr

inductive Command where
  | keygen (directory : String) (force : Bool)
  | serve (options : ServeOptions)
  | request (options : RequestOptions)
  | payerId (seed : String)
  deriving DecidableEq, Repr

namespace Command

/-! ## Values -/

/-- A value that must be there. -/
def required {α : Type} : Option α → Except Stop α
  | some a => .ok a
  | none => .error .usage

/-- A value that must be readable. -/
def readable {α : Type} (read : String → Option α) (s : String) : Except Stop α := required (read s)

/-- A path has at least one character. -/
def path (s : String) : Except Stop String := if s.isEmpty then .error .usage else .ok s

/-- The value of an option, or else that of the environment. -/
def orElse (given : Given) (option : String) (env : Environment) (name : String) : Option String :=
  given.lookup option <|> env.lookup name

/-- The name of the seed in the environment. -/
def seedName : String := "BRIT_WALLET_SEED"

/-- The name of the Matcher's URL in the environment. -/
def urlName : String := "BRIT_MATCHER_URL"

/-! ## Reading -/

/-- The options of all commands. -/
def common : List Switch := [.verbose, .help]

def readKeygen (words : List String) : Except Stop Command := do
  let given ← options (common ++ [.value "out" (some 'o'), { name := "force" }]) [] none words
  let out ← path (← required (given.lookup "out"))
  .ok (.keygen out (given.lookup "force").isSome)

def readServe (env : Environment) (words : List String) : Except Stop Command := do
  let given ← options (common ++ [.value "port" (some 'p'), .value "bind" (some 'b'),
    .value "keys" (some 'k'), .value "addresses" (some 'a'), .value "pool-file" none]) [] none words
  let port ← readable (Text.integer? 0 65535) ((given.lookup "port").getD "3001")
  let keys ← path (← required (given.lookup "keys"))
  let addresses ← (given.lookup "addresses").mapM path
  let poolFile ← (orElse given "pool-file" env Settings.poolFileName).mapM path
  .ok (.serve ⟨port.toNat, (given.lookup "bind").getD "0.0.0.0", keys, addresses, poolFile⟩)

def readRequest (env : Environment) (words : List String) : Except Stop Command := do
  let given ← options (common ++ ["matcher-url", "matcher-key", "seed", "since", "state-file",
    "timeout", "attempts"].map (.value · none)) [] none words
  let matcherUrl ← required (orElse given "matcher-url" env urlName)
  let matcherKey ← path (← required (given.lookup "matcher-key"))
  let seed ← required (orElse given "seed" env seedName)
  let since ← (given.lookup "since").mapM (readable Text.int64?)
  let stateFile ← (given.lookup "state-file").mapM path
  let timeout ← readable Text.nat64? ((given.lookup "timeout").getD "30")
  let attempts ← readable (Text.integer? 0 4294967295) ((given.lookup "attempts").getD "4")
  .ok (.request ⟨matcherUrl, matcherKey, seed, since, stateFile, .ofNat timeout,
    .ofNat attempts.toNat⟩)

def readPayerId (env : Environment) (words : List String) : Except Stop Command := do
  let given ← options (common ++ [.value "seed" none]) [] none words
  .ok (.payerId (← required (orElse given "seed" env seedName)))

/-- The names of the commands, and the word that asks about them. -/
def names : List String := ["keygen", "serve", "request", "payer-id", "help"]

/-- What a question for help comes to: it may be about one command. -/
def about : List String → Stop
  | [] => .help
  | [name] => if names.contains name then .help else .usage
  | _ => .usage

/-- Reads a command line. -/
def read (env : Environment) (words : List String) : Except Stop Command := do
  match ← beforeName (common ++ [.version]) [] words with
  | ("keygen", words) => readKeygen words
  | ("serve", words) => readServe env words
  | ("request", words) => readRequest env words
  | ("payer-id", words) => readPayerId env words
  | ("help", words) => .error (about words)
  | _ => .error .usage

end Command

end AddressExchange.CommandLine
