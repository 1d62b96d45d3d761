import AddressExchange.CommandLine.Command
import AddressExchange.CommandLine.EnvironmentFile
import AddressExchange.CommandLine.Keygen
import AddressExchange.Crypto.PayerId
import AddressExchange.Fees.ReplayStore
import AddressExchange.Fees.Service
import AddressExchange.Host
import AddressExchange.Pool.AddressList

/-!
# Running commands

What each command does, and what a whole run prints and answers.
-/

namespace AddressExchange.CommandLine

open Session

/-! ## Wallets -/

/-- The id of the wallet with a seed in hexadecimal digits; blanks around it do not count. -/
def payerIdOfSeed (seed : String) : Session PayerId := do
  match Hex.decode (Text.trim seed) with
  | .error e => throw ⟨"Seed must be hex", [e.message]⟩
  | .ok bytes => because "Unusable wallet seed" (check (PayerId.ofSeed bytes))

/-- Prints the id of a wallet. -/
def payerId (seed : String) : Session Unit := do say (← payerIdOfSeed seed).toHex

/-- Reads the replay date from a file, or from the desk. -/
def loadDate (store : Option Path) : StateM Desk (Except Failure (Option Instant)) :=
  match store with
  | some path => Desk.onFiles (ReplayStore.load path)
  | none => do pure (.ok (← get).date)

/-- Keeps the replay date in a file, or on the desk. -/
def saveDate (store : Option Path) (date : Option Instant) : StateM Desk (Except Failure Unit) :=
  match store with
  | some path => Desk.onFiles (ReplayStore.save path date)
  | none => do
    modify fun d => { d with date }
    pure (.ok ())

/-- The surroundings of a wallet's fee service. -/
def walletHost (o : Outside) (endpoint : Web.Endpoint) (store : Option Path) : WalletHost Desk where
  cipher := o.cipher
  random := Desk.draw o
  draw := do pure (Bytes.ofLittleEndian (← Desk.draw o))
  post body := pure (o.post endpoint body)
  load := loadDate store
  save := saveDate store
  wait _ := pure ()

/-- Prints an allocation. -/
def showAllocation (a : Allocation) : Session Unit := do
  if a.addresses.isEmpty then say "\nNo addresses allocated this cycle."
  else
    say s!"\n✅ {a.addresses.length} address(es):"
    a.addresses.forM fun address => say s!"   {address}"
  match a.replayDate with
  | some t => say s!"\n   Replay date: {t.toMillis} ({Rfc3339.textWithOffset t})"
  | none => say "\n   Replay date: none"

/-- Asks a Matcher for an allocation. -/
def request (o : Outside) (r : RequestOptions) : Session Unit := do
  say s!"📨 Requesting addresses from: {r.matcherUrl}"
  let id ← payerIdOfSeed r.seed
  let key ← KeyFiles.readPublic r.matcherKey
  let config := { Web.TransportConfig.forBase r.matcherUrl with timeoutSeconds := r.timeoutSeconds }
  let endpoint ← because "Invalid Matcher URL" (check config.endpoint)
  let store := r.stateFile.map Path.ofText
  if let some millis := r.since then
    let date ← check (Instant.ofMillis millis)
    check (← atDesk (saveDate store (some date)))
  let host := walletHost o endpoint store
  let service ← check
    (← atDesk (FeeService.make host id key { retry := { maxAttempts := r.attempts } }))
  match ← atDesk (service.refresh host) with
  | (_, some a) => showAllocation a
  | (_, none) => complain "Exchange with the Matcher failed (run with -v for details)"

/-! ## Matchers -/

/-- Why the host cannot take requests at an address; none if it can. Only addresses of the machine
itself, of all its networks, and of groups are its own. -/
def bindFault? : Web.SocketAddress → Option String
  | .v4 a _ =>
    match a.octets with
    | first :: _ =>
      if a.bits = 0 || first = 127 || (224 ≤ first && first < 240) || a.bits = 0xffffffff then none
      else some "Cannot assign requested address (os error 99)"
    | [] => none
  | .v6 a scope _ =>
    let first := a.groups.headD 0
    if a.groups.dropLast.all (· = 0) && a.groups.getLastD 0 ≤ 1 then none
    else if 0xfe80 ≤ first && first < 0xfec0 && scope = 0 then some "Invalid argument (os error 22)"
    else some "Cannot assign requested address (os error 99)"

/-- The environment with what a file `.env` adds to it. -/
def fullEnvironment (o : Outside) : StateM Desk Environment := do
  match ← Desk.onFiles (Disk.read [".env"]) with
  | .ok content => pure (EnvironmentFile.load o.environment content)
  | .error _ => pure o.environment

/-- Loads a Matcher, with the addresses of a list if one is given. -/
def loadHost (o : Outside) (s : ServeOptions) : Session Host := do
  let settings := { Settings.ofEnvironment (← atDesk (fullEnvironment o)) with
    secretKeyFile := some (joinPath s.keys secretKeyFile), poolFile := s.poolFile }
  let host ← because "Failed to load Matcher state" (filing (Host.load settings))
  match s.addresses with
  | none => pure host
  | some list =>
    let entries ← because s!"Failed to read address list {list}" do
      let text ← filing (Disk.readText (.ofText list)).filing
      check (AddressList.parse text o.now)
    let (host, count) ← check (host.seed entries)
    let (result, host) ← atDesk (Desk.onFiles host.persist)
    because "Failed to save pool" (check result)
    say s!"   Activated addresses: {count}"
    pure host

/-- Runs a Matcher up to the point where it takes requests. -/
def serve (o : Outside) (s : ServeOptions) : Session Unit := do
  say "🚀 Starting BRIT Matcher..."
  let host ← loadHost o s
  let place := s!"{s.bind}:{s.port}"
  say s!"   Listening on: http://{place}"
  say s!"   Health check: http://{place}/health"
  if host.settings.adminToken.isNone then
    say "   Pool admin API disabled (set BRIT_ADMIN_TOKEN to enable)"
  say "\n   Press Ctrl+C to stop.\n"
  match Web.SocketAddress.ofText? place with
  | none => complain "invalid socket address syntax"
  | some address =>
    match bindFault? address with
    | some fault => complain fault
    | none => pure ()

/-! ## Whole runs -/

/-- The files that a command looks at or changes. -/
def Command.paths : Command → List Path
  | .keygen directory _ =>
    [.ofText (joinPath directory publicKeyFile), .ofText (joinPath directory secretKeyFile)]
  | .serve s =>
    [".env"] :: .ofText (joinPath s.keys secretKeyFile)
      :: (s.poolFile.toList ++ s.addresses.toList).map Path.ofText
  | .request r =>
    .ofText r.matcherKey
      :: (r.stateFile.toList.map Path.ofText).flatMap fun p => [p, ReplayStore.temporaryPath p]
  | .payerId _ => []

/-- Runs a command. -/
def Command.run (o : Outside) : Command → Session Unit
  | .keygen directory force => CommandLine.keygen o directory force
  | .serve options => CommandLine.serve o options
  | .request options => CommandLine.request o options
  | .payerId seed => CommandLine.payerId seed

/-- What a run answers and prints. -/
structure Outcome where
  code : Nat
  output : String := ""
  errors : String := ""
  deriving DecidableEq, Repr

/-- The name and version of the program. -/
def versionText : String := s!"brit {Host.version}\n"

/-- How the program is used. -/
def usageText : String := "Usage: brit [-v] <keygen|serve|request|payer-id|help> [options]\n"

/-- Runs a command line over files. -/
def run (o : Outside) (words : List String) : StateM Files Outcome := fun files =>
  match Command.read o.environment words with
  | .error .usage => ({ code := 2, errors := usageText }, files)
  | .error .version => ({ code := 0, output := versionText }, files)
  | .error .help => ({ code := 0, output := usageText }, files)
  | .ok command =>
    let (result, desk) := (command.run o).run { files }
    match result with
    | .ok () => ({ code := 0, output := desk.printed }, desk.files)
    | .error c => ({ code := 1, output := desk.printed, errors := c.text }, desk.files)

end AddressExchange.CommandLine
