import AddressExchange.CommandLine.Run
import AddressExchange.Envelope
import Std.Time.DateTime.Timestamp

/-!
# The program

Gathers what a run may look at, runs it, and carries out what it changed. No network is at hand
here, so a request to a Matcher ends like one that nobody answers.
-/

namespace AddressExchange.CommandLine

/-! ## Gathering -/

/-- The names of the variables that the program looks at. -/
def variableNames : List String :=
  [Command.seedName, Command.urlName, Settings.secretKeyFileName, Settings.poolFileName,
    Settings.cohortSizeName, Settings.rotationSecondsName, Settings.bodyLimitName,
    Settings.adminTokenName]

/-- The variables that are set. -/
def gatherEnvironment : IO Environment :=
  variableNames.filterMapM fun name => do return (← IO.getEnv name).map fun value => (name, value)

/-- The node at a path of the disk. -/
def gatherNode (p : Path) : IO (Option Node) := do
  match ← (IO.FS.readBinFile p.text).toBaseIO with
  | .ok content => return some (.file content.toList false)
  | .error (.noFileOrDirectory _ _ _) => return none
  | .error _ => return some .directory

/-- The nodes along paths. -/
def gatherFiles (paths : List Path) : IO Files := do
  let along (p : Path) : List Path := (List.range p.length).map fun n => p.take (n + 1)
  let all := (paths.flatMap along).eraseDups.filter fun p => p ≠ [Path.root]
  let nodes ← all.filterMapM fun p => do return (← gatherNode p).map fun n => (p, n)
  return { nodes }

/-- Random bytes by number, drawn out of a seed. -/
def randomBytes (seed : Bytes) (n : Nat) : Bytes :=
  Keccak.shake256 (seed ++ Bytes.littleEndian 8 n) 96

/-- What surrounds a run. -/
def gatherOutside : IO Outside := do
  let seed ← IO.getRandomBytes 64
  let millis := (← Std.Time.Timestamp.now).toMillisecondsSinceUnixEpoch.val
  let .ok now := Instant.ofMillis millis | throw (IO.userError "the clock is out of range")
  return {
    cipher := Envelope.cipher .standard
    random := randomBytes seed.toList
    now
    environment := ← gatherEnvironment
    post := fun _ _ => .error (.transport "no network is at hand") }

/-! ## Carrying out -/

/-- Brings a path of the disk into the state of a node. -/
def carryOut (p : Path) (old : Option Node) : Option Node → IO Unit
  | none => if old.isSome then IO.FS.removeFile p.text else pure ()
  | some .directory => IO.FS.createDirAll p.text
  | some (.file content ownerOnly) => do
    IO.FS.writeBinFile p.text ⟨content.toArray⟩
    if ownerOnly then IO.setAccessRights p.text ⟨⟨true, true, false⟩, {}, {}⟩

/-- Carries out what became of files, directories before what lies in them. -/
def carryOutAll (old new : Files) : IO Unit := do
  let paths := ((old.nodes ++ new.nodes).map (·.1)).eraseDups
  for p in paths.mergeSort fun p q => p.length ≤ q.length do
    if old.node? p ≠ new.node? p then carryOut p (old.node? p) (new.node? p)

/-- Runs the program. -/
def runProgram (words : List String) : IO UInt32 := do
  let o ← gatherOutside
  let paths := match Command.read o.environment words with
    | .ok command => command.paths
    | .error _ => []
  let files ← gatherFiles paths
  let (outcome, files') := (run o words).run files
  carryOutAll files files'
  IO.print outcome.output
  IO.eprint outcome.errors
  return .ofNat outcome.code

end AddressExchange.CommandLine

/-- The program's entry point. -/
def main (words : List String) : IO UInt32 := AddressExchange.CommandLine.runProgram words
