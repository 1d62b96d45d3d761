import AddressExchange.Json.Numeral

/-!
# Values that are passed over

The value of a member that nobody asked for is checked for its form and dropped. Strings inside it
need not be text, and numbers inside it may have any size.
-/

namespace AddressExchange.Json

/-- Passes over what follows a backslash. Gives the count of bytes read. -/
def skipEscape (bs : Bytes) : Except Fault Nat :=
  match bs with
  | [] => .error ⟨.endInString, 0⟩
  | 0x75 :: rest => (fourDigits rest).map fun _ => 5
  | b :: rest =>
    match shortEscape? b with
    | some _ => .ok 1
    | none => .error (.before .badEscape rest)

/-- Passes over a string up to its closing quote. The next `used` bytes were read with the backslash
before them. -/
def skipString : Nat → Bytes → Except Fault Bytes
  | _, [] => .error ⟨.endInString, 0⟩
  | used + 1, _ :: rest => skipString used rest
  | 0, b :: rest =>
    if b = 0x22 then .ok rest
    else if b = 0x5c then
      match skipEscape rest with
      | .error e => .error e
      | .ok used => skipString used rest
    else if b < 0x20 then .error (.before .controlCharacter (b :: rest))
    else skipString 0 rest

/-- Passes over a number. -/
def skipNumber (bs : Bytes) : Except Fault Bytes := (numeral .badNumber bs).map (·.2)

/-- A list or object that is open. -/
inductive Frame where
  | list
  | object
  deriving DecidableEq

/-- Passes over a scalar, or finds a bracket that opens. -/
def skipHead (bs : Bytes) : Except Fault (Option Frame × Bytes) :=
  match skipBlanks bs with
  | [] => .error ⟨.endInValue, 0⟩
  | 0x6e :: rest => (word [0x75, 0x6c, 0x6c] rest).map (none, ·)
  | 0x74 :: rest => (word [0x72, 0x75, 0x65] rest).map (none, ·)
  | 0x66 :: rest => (word [0x61, 0x6c, 0x73, 0x65] rest).map (none, ·)
  | 0x22 :: rest => (skipString 0 rest).map (none, ·)
  | 0x5b :: rest => .ok (some .list, rest)
  | 0x7b :: rest => .ok (some .object, rest)
  | b :: rest =>
    if b = 0x2d || isDigit b then (skipNumber (b :: rest)).map (none, ·)
    else .error (.before .noValue rest)

/-- Passes over the name of a member and its colon. -/
def skipName (bs : Bytes) : Except Fault Bytes := do
  match skipBlanks bs with
  | [] => .error ⟨.endInObject, 0⟩
  | 0x22 :: rest => colon (← skipString 0 rest)
  | _ :: rest => .error (.before .keyNotString rest)

/-- Closes the brackets that close here. `comma` says whether an item came before. Gives the frames
that stay open and the place of the next item, which is inside the first of them. -/
def closeFrames (comma : Bool) : List Frame → Bytes → Except Fault (List Frame × Bytes)
  | [], bs => .ok ([], bs)
  | frame :: frames, bs =>
    match skipBlanks bs with
    | [] => .error ⟨if frame = .list then .endInList else .endInObject, 0⟩
    | b :: rest =>
      if b = 0x2c && comma then .ok (frame :: frames, rest)
      else if b = (if frame = .list then 0x5d else 0x7d) then closeFrames true frames rest
      else if comma then
        .error (.before (if frame = .list then .noCommaInList else .noCommaInObject) rest)
      else .ok (frame :: frames, b :: rest)

/-- Passes over values until no frame is open. Each turn reads at least one byte, which bounds the
number of turns. -/
def skipFrames : Nat → List Frame → Bytes → Except Fault Bytes
  | 0, _, bs => .error (.before .noValue bs)
  | fuel + 1, frames, bs => do
    let (opened, bs) ← skipHead bs
    let (frames, bs) ←
      match opened with
      | some frame => closeFrames false (frame :: frames) bs
      | none => closeFrames true frames bs
    match frames with
    | [] => .ok bs
    | .list :: _ => skipFrames fuel frames bs
    | .object :: _ => do skipFrames fuel frames (← skipName bs)

/-- Passes over a value. -/
def skipValue (bs : Bytes) : Except Fault Bytes := skipFrames (bs.length + 1) [] bs

end AddressExchange.Json
