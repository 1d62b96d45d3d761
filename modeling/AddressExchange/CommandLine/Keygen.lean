import AddressExchange.CommandLine.Session
import AddressExchange.Text.Blank

/-!
# Key files

The two files of a Matcher's key pair: one to hand out, and one that only its owner may read.
-/

namespace AddressExchange.CommandLine

def publicKeyFile : String := "matcher.pub"
def secretKeyFile : String := "matcher.key"

/-- The text of a path one step further. -/
def joinPath (directory name : String) : String :=
  if directory.isEmpty || directory.endsWith '/' then directory ++ name else s!"{directory}/{name}"

namespace KeyFiles

/-- Is there anything at a path? What cannot be looked at is not there. -/
def isThere (path : Path) : Session Bool := do
  match ← Session.atDesk (Desk.onFiles (Disk.isThere path)) with
  | .ok found => pure found
  | .error _ => pure false

/-- Refuses a directory in which there are key files, unless they may be replaced. -/
def guard (directory : String) (force : Bool) : Session Unit := do
  unless force do
    let publicThere ← isThere (.ofText (joinPath directory publicKeyFile))
    let secretThere ← isThere (.ofText (joinPath directory secretKeyFile))
    if publicThere || secretThere then
      Session.complain s!"Key files already exist in {directory} (use --force to overwrite)"

/-- Removes a file; that there is none is no trouble. -/
def removeOld (path : Path) : Session Unit := do
  match ← Session.atDesk (Desk.onFiles (Disk.remove path)) with
  | .ok () | .error .notFound => pure ()
  | .error e => Session.complain e.message

/-- Writes a file that only its owner may read, in place of the one that was there. The content is
handed over to be written, and what becomes of it is not asked for. -/
def writeSecret (path : String) (content : Bytes) : Session Unit := do
  removeOld (.ofText path)
  Session.because s!"Failed to create {path}" (Session.disk (Disk.openNewPrivate (.ofText path)))
  Session.disk (Disk.handOver (.ofText path) content)
  Session.disk Disk.sync

/-- Writes a key pair into a directory. Key files that are there stay, unless `force` is set. -/
def write (directory : String) (force : Bool) (pair : KeyPair) : Session Unit := do
  guard directory force
  Session.disk (Disk.makeDirectories (.ofText directory))
  Session.disk (Disk.write (.ofText (joinPath directory publicKeyFile))
    (Text.utf8 pair.publicKey.toHex))
  writeSecret (joinPath directory secretKeyFile) (Text.utf8 pair.secretKey.toHex)

/-- Reads a public key; blanks around it do not count. -/
def readPublic (path : String) : Session PublicKey := do
  let text ← Session.because s!"Failed to read {path}" (Session.disk (Disk.readText (.ofText path)))
  Session.because "Invalid Matcher public key"
    (Session.check ((PublicKey.ofHex (Text.trim text)).mapError .ofKey))

end KeyFiles

/-- Makes a new key pair. -/
def keygen (o : Outside) (directory : String) (force : Bool) : Session Unit := do
  Session.say "🔑 Generating Matcher keys..."
  let pair := o.cipher.generate (← Session.atDesk (Desk.draw o))
  KeyFiles.write directory force pair
  Session.say s!"✅ Public key: {joinPath directory publicKeyFile}"
  Session.say s!"✅ Secret key: {joinPath directory secretKeyFile}"
  Session.say "\n⚠️  IMPORTANT: Keep matcher.key safe!"
  Session.say "   Hand out matcher.pub to wallets; matcher.key never leaves the Matcher host."

end AddressExchange.CommandLine
