import AddressExchange.Host.Settings
import AddressExchange.Text.Utf8

/-!
# Environment files

A file of lines `name=value` that adds to the environment. Values may be quoted, run over several
lines, and name other variables. The file is read up to its first fault; what is in the environment
already stays.
-/

namespace AddressExchange.EnvironmentFile

/-! ## Lines -/

/-- Where in a line a character stands. -/
inductive Place where
  | plain
  /-- Behind a blank, where a comment may begin. -/
  | blank
  | single
  | double
  /-- Behind a backslash, at the place given. -/
  | escaped (within : Place)
  | comment
  deriving DecidableEq, Repr

/-- The place behind a character. -/
def Place.next (p : Place) (c : Char) : Place :=
  let outside : Place :=
    if c = '\\' then .escaped .plain else if c = '"' then .double
    else if c = '\'' then .single else .plain
  match p with
  | .comment => .comment
  | .escaped within => within
  | .single => if c = '\\' then .escaped .single else if c = '\'' then .plain else .single
  | .double => if c = '\\' then .escaped .double else if c = '"' then .plain else .double
  | .blank => if c = '#' then .comment else outside
  | .plain => if Text.isBlank c && c ≠ '\n' && c ≠ '\r' then .blank else outside

/-- Walks over a line. Gives the place at its end, and the line without its comment. -/
def walk (p : Place) : List Char → Place × List Char
  | [] => (p, [])
  | c :: cs =>
    let p := p.next c
    if p = .comment then (p, [])
    else
      let (q, kept) := walk p cs
      (q, c :: kept)

/-- Does a line begin with a hash sign? -/
def isComment (cs : List Char) : Bool := (Text.trimStart cs).head? = some '#'

/-- The line without its end. -/
def dropEnd (cs : List Char) : List Char :=
  match cs.reverse with
  | '\n' :: '\r' :: rest => rest.reverse
  | '\n' :: rest => rest.reverse
  | _ => cs

/-- Joins lines that belong together. `open_` holds the beginning of the first of them and the place
at its end. Lines that are never closed are left out; so are comments. -/
def join (open_ : List Char) (p : Place) : List (List Char) → List (List Char)
  | [] => []
  | line :: lines =>
    if isComment (open_ ++ line) then join [] .plain lines
    else
      let (q, kept) := walk p line
      match q with
      | .plain => dropEnd (open_ ++ kept) :: join [] .plain lines
      | .comment => (open_ ++ kept) :: join [] .plain lines
      | q => join (open_ ++ kept) q lines

/-- The lines of a file, each with its end, as far as they are text. -/
def readLines (content : Bytes) : List (List Char) :=
  let content := match content with
    | 0xef :: 0xbb :: 0xbf :: rest => rest
    | content => content
  let pieces := content.splitOn 10
  let ended := pieces.dropLast.map (· ++ [10])
  let all := ended ++ (pieces.getLast?.filter (!·.isEmpty)).toList
  let texts := (all.map Text.Utf8.decode?).takeWhile Option.isSome
  texts.filterMap fun s => s.map String.toList

/-! ## Values -/

/-- What a value is read into: the text so far, last character first, and the name of a variable
that is being read. -/
inductive Mode where
  | plain
  | single
  | double
  /-- Behind a blank, where only a comment may follow. -/
  | ended
  /-- Behind a backslash. -/
  | escape (quoted : Bool)
  /-- In the name of a variable. -/
  | name (quoted : Bool) (letters : List Char)
  /-- In the name of a variable between braces. -/
  | braced (quoted : Bool) (letters : List Char)
  | comment
  deriving DecidableEq, Repr

/-- May a character stand in the name of a variable of a value? -/
def isNameLetter (c : Char) : Bool := c.isAlphanum || (128 ≤ c.toNat && !Text.isBlank c)

/-- The mode that a quoted or unquoted part goes on in. -/
def Mode.back (quoted : Bool) : Mode := if quoted then .double else .plain

/-- Reads one character of a value. `find` gives the value of a variable. -/
def step (find : String → String) (out : List Char) (c : Char) : Mode → Option (List Char × Mode)
  | .comment => some (out, .comment)
  | .ended =>
    if c = ' ' || c = '\t' then some (out, .ended)
    else if c = '#' then some (out, .comment) else none
  | .escape quoted =>
    if c = '\\' || c = '\'' || c = '"' || c = '$' || c = ' ' then some (c :: out, .back quoted)
    else if c = 'n' then some ('\n' :: out, .back quoted)
    else none
  | .single => if c = '\'' then some (out, .plain) else some (c :: out, .single)
  | .name quoted letters =>
    if isNameLetter c then some (out, .name quoted (c :: letters))
    else if c = '\x7b' && letters.isEmpty then some (out, .braced quoted [])
    else
      let out := (find (String.ofList letters.reverse)).toList.reverse ++ out
      if c = '$' then some (out, .name quoted []) else some (c :: out, .back quoted)
  | .braced quoted letters =>
    if c = '\x7d' then
      some ((find (String.ofList letters.reverse)).toList.reverse ++ out, .back quoted)
    else some (out, .braced quoted (c :: letters))
  | .double =>
    if c = '$' then some (out, .name true [])
    else if c = '"' then some (out, .plain)
    else if c = '\\' then some (out, .escape true)
    else some (c :: out, .double)
  | .plain =>
    if c = '$' then some (out, .name false [])
    else if c = '\'' then some (out, .single)
    else if c = '"' then some (out, .double)
    else if c = '\\' then some (out, .escape false)
    else if c = ' ' || c = '\t' then some (out, .ended)
    else some (c :: out, .plain)

/-- Reads a value to its end. -/
def value? (find : String → String) (out : List Char) (m : Mode) : List Char → Option String
  | [] =>
    match m with
    | .single | .double | .escape true | .name true _ | .braced _ _ => none
    | .name false letters =>
      some (String.ofList out.reverse ++ find (String.ofList letters.reverse))
    | _ => some (String.ofList out.reverse)
  | c :: cs => do
    let (out, m) ← step find out c m
    value? find out m cs

/-! ## Assignments -/

/-- Reads a name, and what follows it and blanks. -/
def name? (cs : List Char) : Option (String × List Char) :=
  match cs with
  | c :: _ =>
    if c.isAlpha || c = '_' then
      let inName (c : Char) : Bool := c.isAlphanum || c = '_' || c = '.'
      some (String.ofList (cs.takeWhile inName), Text.trimStart (cs.dropWhile inName))
    else none
  | [] => none

/-- What a line says. -/
inductive Line where
  | nothing
  | assignment (name : String) (value : List Char)
  | fault

/-- Reads a line. The word `export` may stand in front of a name. -/
def Line.read (line : List Char) : Line :=
  let cs := Text.trimStart (Text.trimEnd line)
  if cs.isEmpty || cs.head? = some '#' then nothing
  else match name? cs with
    | some (name, '=' :: value) => assignment name (Text.trimStart value)
    | some ("export", rest) =>
      match name? rest with
      | some (name, '=' :: value) => assignment name (Text.trimStart value)
      | _ => fault
    | _ => fault

/-- Adds the variables of lines to an environment, up to the first fault. `given` holds the values
of the lines before, which count where the environment has none. -/
def addLines (env given : Environment) : List (List Char) → Environment
  | [] => env
  | line :: lines =>
    match Line.read line with
    | .nothing => addLines env given lines
    | .fault => env
    | .assignment name value =>
      let find (name : String) : String := (env.lookup name <|> given.lookup name).getD ""
      let isBare := value.isEmpty || value.head? = some '#'
      let result := if isBare then some "" else value? find [] .plain value
      match result with
      | none => env
      | some value =>
        let env := if (env.lookup name).isSome then env else (name, value) :: env
        addLines env ((name, value) :: given) lines

/-- Adds the variables of a file to an environment. -/
def load (env : Environment) (content : Bytes) : Environment :=
  addLines env [] (join [] .plain (readLines content))

end AddressExchange.EnvironmentFile
