/-!
# Options

How the words of a command line are read: options by a long name behind two hyphens or by a letter
behind one, each at most once, with their values behind an equals sign or in the next word.
-/

namespace AddressExchange.CommandLine

/-- An option that a command takes. -/
structure Switch where
  name : String
  letter : Option Char := none
  /-- Does a value belong to it? -/
  valued : Bool := false
  deriving DecidableEq, Repr

/-- Why the words are not carried out. -/
inductive Stop where
  /-- They are no command. -/
  | usage
  /-- They ask for the version. -/
  | version
  /-- They ask for help. -/
  | help
  deriving DecidableEq, Repr

/-- Options that were given, with their values. -/
abbrev Given := List (String × String)

namespace Switch

def verbose : Switch := { name := "verbose", letter := some 'v' }
def help : Switch := { name := "help", letter := some 'h' }
def version : Switch := { name := "version", letter := some 'V' }

/-- An option with a value. -/
def value (name : String) (letter : Option Char) : Switch := { name, letter, valued := true }

end Switch

/-- Takes an option in. Those that end the reading do so at once. -/
def add (given : Given) (s : Switch) (value : String) : Except Stop Given :=
  if s = .help then .error .help
  else if s = .version then .error .version
  else if (given.lookup s.name).isSome then .error .usage
  else .ok ((s.name, value) :: given)

/-- Reads the letters behind one hyphen. What follows the letter of an option with a value is that
value, or the next word is if nothing follows; the option is then given back. -/
def letters (switches : List Switch) (given : Given) :
    List Char → Except Stop (Given × Option Switch)
  | [] => .ok (given, none)
  | c :: cs =>
    match switches.find? (·.letter = some c) with
    | none => .error .usage
    | some s =>
      if !s.valued then do letters switches (← add given s "") cs
      else match cs with
        | [] => .ok (given, some s)
        | '=' :: value | value => do .ok (← add given s (String.ofList value), none)

/-- Reads the name behind two hyphens. -/
def long (switches : List Switch) (given : Given) (cs : List Char) :
    Except Stop (Given × Option Switch) := do
  match switches.find? (·.name.toList = cs.takeWhile (· ≠ '=')) with
  | none => .error .usage
  | some s =>
    match cs.dropWhile (· ≠ '='), s.valued with
    | [], false => .ok (← add given s "", none)
    | [], true => .ok (given, some s)
    | _ :: _, false => .error .usage
    | _ :: value, true => .ok (← add given s (String.ofList value), none)

/-- Reads the words of a command that takes nothing but options. `pending` waits for its value,
which cannot look like an option. -/
def options (switches : List Switch) (given : Given) (pending : Option Switch) :
    List String → Except Stop Given
  | [] => if pending.isSome then .error .usage else .ok given
  | word :: words =>
    match word.toList, pending with
    | ['-', '-'], none => if words.isEmpty then .ok given else .error .usage
    | '-' :: _ :: _, some _ => .error .usage
    | '-' :: '-' :: cs, none => do
      let (given, pending) ← long switches given cs
      options switches given pending words
    | '-' :: c :: cs, none => do
      let (given, pending) ← letters switches given (c :: cs)
      options switches given pending words
    | _, some s => do options switches (← add given s word) none words
    | _, none => .error .usage

/-- Reads the options in front of a command's name. Gives that name and the words behind it. -/
def beforeName (switches : List Switch) (given : Given) :
    List String → Except Stop (String × List String)
  | [] => .error .usage
  | word :: words =>
    match word.toList with
    | ['-', '-'] => .error .usage
    | '-' :: '-' :: cs => do
      let (given, _) ← long switches given cs
      beforeName switches given words
    | '-' :: c :: cs => do
      let (given, _) ← letters switches given (c :: cs)
      beforeName switches given words
    | _ => .ok (word, words)

end AddressExchange.CommandLine
