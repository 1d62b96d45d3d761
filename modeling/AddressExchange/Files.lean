import AddressExchange.Text.Utf8

/-!
# Files

A tree of files and directories below a working directory, and the operations on it. An operation
that is refused leaves the tree as it was; only what is written behind the content of a file may be
there in part. The disk itself may refuse operations that write: what it does to the coming ones is
part of the tree.
-/

namespace AddressExchange

/-- Why an operation on files was refused. -/
inductive FileFault where
  | notFound
  | permission
  | alreadyThere
  | notDirectory
  | isDirectory
  | noSpace
  /-- The content of a file that should hold text is no text. -/
  | notText
  deriving DecidableEq, Repr

/-- The wording of a refusal. -/
def FileFault.message : FileFault → String
  | .notFound => "No such file or directory (os error 2)"
  | .permission => "Permission denied (os error 13)"
  | .alreadyThere => "File exists (os error 17)"
  | .notDirectory => "Not a directory (os error 20)"
  | .isDirectory => "Is a directory (os error 21)"
  | .noSpace => "No space left on device (os error 28)"
  | .notText => "stream did not contain valid UTF-8"

/-- A path as its steps from the working directory, or from the root, which is then the first step.
-/
abbrev Path := List String

namespace Path

/-- The step to the root of all files. -/
def root : String := "/"

/-- The path that a text names. Empty steps and steps to the same directory do not count. -/
def ofText (s : String) : Path :=
  let steps := ((s.toList.splitOn '/').map String.ofList).filter fun step => step ≠ "" && step ≠ "."
  if s.startsWith "/" then root :: steps else steps

/-- A text that names a path. -/
def text : Path → String
  | [] => "."
  | first :: steps =>
    if first = root then "/" ++ "/".intercalate steps else "/".intercalate (first :: steps)

/-- The directory that a path lies in. -/
def parent (p : Path) : Path := p.dropLast

/-- A name with its last part, from a point on, replaced. A point that begins the name does not
count. -/
def replaceExtension (extension name : String) : String :=
  let backwards := name.toList.reverse
  let (last, stem) := (backwards.takeWhile (· ≠ '.'), backwards.dropWhile (· ≠ '.'))
  let kept := match stem with
    | [] | ['.'] => last ++ stem
    | _ :: stem => stem
  String.ofList kept.reverse ++ "." ++ extension

/-- A path with the extension of its last step replaced. -/
def withExtension (extension : String) (p : Path) : Path :=
  match p.getLast? with
  | some name => p.dropLast ++ [replaceExtension extension name]
  | none => p

end Path

/-- What a path leads to. -/
inductive Node where
  | directory
  /-- A file; `ownerOnly` says that nobody but its owner may read it. -/
  | file (content : Bytes) (ownerOnly : Bool)
  deriving DecidableEq, Repr

/-- A tree of files. -/
structure Files where
  nodes : List (Path × Node) := []
  /-- What the disk does to the coming operations that write: refuse, or let pass. When the list is
  used up it lets all pass. -/
  trouble : List (Option FileFault) := []
  /-- How many bytes the coming refusals of content let pass before; when the list is used up, none. -/
  torn : List Nat := []

/-- An operation on files. -/
abbrev Disk := ExceptT FileFault (StateM Files)

namespace Files

/-- The node at a path; the working directory and the root are always there. -/
def node? (fs : Files) (p : Path) : Option Node :=
  if p = [] ∨ p = [Path.root] then some .directory else (fs.nodes.find? (·.1 = p)).map (·.2)

/-- Puts a node at a path. -/
def put (fs : Files) (p : Path) (n : Node) : Files :=
  { fs with nodes := (p, n) :: fs.nodes.filter (·.1 ≠ p) }

/-- Puts bytes behind the content of a file. -/
def extend (fs : Files) (p : Path) (content : Bytes) : Files :=
  match fs.node? p with
  | some (.file held ownerOnly) => fs.put p (.file (held ++ content) ownerOnly)
  | _ => fs

/-- Takes the node at a path away. -/
def erase (fs : Files) (p : Path) : Files :=
  { fs with nodes := fs.nodes.filter (·.1 ≠ p) }

/-- Walks from `done` along the steps that follow. -/
def walk (fs : Files) (done : Path) : Path → Except FileFault (Option Node)
  | [] => .ok (fs.node? done)
  | step :: steps =>
    match fs.node? done with
    | none => .error .notFound
    | some (.file _ _) => .error .notDirectory
    | some .directory => walk fs (done ++ [step]) steps

/-- What a path leads to; a fault if a step on the way is no directory. -/
def resolve (fs : Files) (p : Path) : Except FileFault (Option Node) := fs.walk [] p

/-- Is a path a directory? -/
def isDirectory (fs : Files) (p : Path) : Bool :=
  match fs.resolve p with
  | .ok (some .directory) => true
  | _ => false

/-- The content of a file. -/
def contentOf (fs : Files) (p : Path) : Except FileFault Bytes := do
  match ← fs.resolve p with
  | none => .error .notFound
  | some .directory => .error .isDirectory
  | some (.file content _) => .ok content

/-- Is there anything at a path? -/
def isThere (fs : Files) (p : Path) : Except FileFault Bool :=
  match fs.resolve p with
  | .ok node => .ok node.isSome
  | .error .notFound => .ok false
  | .error e => .error e

/-- The names in a directory, in the order of their bytes. -/
def names (fs : Files) (p : Path) : List String :=
  let below := fs.nodes.filterMap fun (q, _) =>
    if q ≠ [] ∧ q.dropLast = p then q.getLast? else none
  below.mergeSort fun a b => decide (a ≤ b)

end Files

namespace Disk

/-- Looks at the files. -/
def look (f : Files → Except FileFault α) : Disk α := fun fs => (f fs, fs)

/-- Changes the files, unless the disk or the operation itself refuses. -/
def change (f : Files → Except FileFault Files) : Disk Unit := fun fs =>
  match fs.trouble with
  | some e :: coming => (.error e, { fs with trouble := coming })
  | coming =>
    let coming := coming.drop 1
    match f fs with
    | .ok fs' => (.ok (), { fs' with trouble := coming })
    | .error e => (.error e, { fs with trouble := coming })

/-- Reads a file. -/
def read (p : Path) : Disk Bytes := look (·.contentOf p)

/-- Reads a file that holds text. -/
def readText (p : Path) : Disk String := do
  match Text.Utf8.decode? (← read p) with
  | some s => pure s
  | none => throw .notText

/-- Is there anything at a path? -/
def isThere (p : Path) : Disk Bool := look (·.isThere p)

/-- Opens a file to be written anew: what it held is gone. A file that is not there is made. -/
def openEmpty (p : Path) : Disk Unit := change fun fs => do
  match ← fs.resolve p with
  | some .directory => .error .isDirectory
  | some (.file _ ownerOnly) => .ok (fs.put p (.file [] ownerOnly))
  | none => .ok (fs.put p (.file [] false))

/-- Opens a file that must not be there yet and that only its owner may read. -/
def openNewPrivate (p : Path) : Disk Unit := change fun fs => do
  match ← fs.resolve p with
  | some _ => .error .alreadyThere
  | none => .ok (fs.put p (.file [] true))

/-- Writes behind what an open file holds. If the disk refuses, the first bytes may be there. -/
def append (p : Path) (content : Bytes) : Disk Unit := fun fs =>
  match fs.trouble with
  | some e :: coming =>
    let passed := content.take (fs.torn.headD 0)
    (.error e, { fs.extend p passed with trouble := coming, torn := fs.torn.drop 1 })
  | coming => (.ok (), { fs.extend p content with trouble := coming.drop 1 })

/-- Hands content over to be written behind what an open file holds, while the work goes on. If the
disk refuses it then, nobody is told. -/
def handOver (p : Path) (content : Bytes) : Disk Unit := fun fs =>
  (.ok (), ((append p content).run fs).2)

/-- Waits until what was written is kept. What the disk refused before is not told here either. -/
def sync : Disk Unit := change .ok

/-- Writes a file, in place of the one that was there. -/
def write (p : Path) (content : Bytes) : Disk Unit := do
  openEmpty p
  append p content

/-- Removes a file. -/
def remove (p : Path) : Disk Unit := change fun fs => do
  match ← fs.resolve p with
  | none => .error .notFound
  | some .directory => .error .isDirectory
  | some (.file _ _) => .ok (fs.erase p)

/-- Moves a file to another path, in place of the file that was there. -/
def rename (source target : Path) : Disk Unit := change fun fs => do
  match ← fs.resolve source, ← fs.resolve target with
  | none, _ => .error .notFound
  | some .directory, _ => .error .isDirectory
  | some (.file _ _), some .directory => .error .isDirectory
  | some (.file content ownerOnly), _ =>
    .ok ((fs.erase source).put target (.file content ownerOnly))

/-- Makes one directory. -/
def makeDirectory (p : Path) : Disk Unit := change fun fs => do
  match ← fs.resolve p with
  | some _ => .error .alreadyThere
  | none => .ok (fs.put p .directory)

/-- Makes the directories along a path; those that are there stay. -/
def makeDirectories (p : Path) : Disk Unit := change fun fs =>
  let rec go (fs : Files) (done : Path) : Path → Except FileFault Files
    | [] => .ok fs
    | step :: steps =>
      let here := done ++ [step]
      match fs.node? here with
      | some .directory => go fs here steps
      | some (.file _ _) => .error (if steps.isEmpty then .alreadyThere else .notDirectory)
      | none => go (fs.put here .directory) here steps
  go fs [] p

/-- Replaces a file whole: the content goes to a new file of the same directory, which then takes
its place. -/
def replace (p : Path) (content : Bytes) : Disk Unit := change fun fs => do
  match ← fs.resolve p with
  | some .directory => .error .isDirectory
  | _ => .ok (fs.put p (.file content true))

end Disk

end AddressExchange
