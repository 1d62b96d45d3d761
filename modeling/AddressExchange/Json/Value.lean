import AddressExchange.Text.Utf8

/-!
# JSON values as text

The two ways in which JSON is written: on one line without blanks, and spread over lines with an
indent of two blanks. Strings keep all characters but quotes, backslashes and control characters.
-/

namespace AddressExchange.Json

/-- A value to be written. Numbers are integers; the members of an object keep their order. -/
inductive Value where
  | null
  | bool (b : Bool)
  | number (n : Int)
  | text (s : String)
  | list (vs : List Value)
  | object (members : List (String × Value))

/-- The bytes that stand for one byte of a string. -/
def escapeByte (b : UInt8) : Bytes :=
  if b = 0x22 then [0x5c, 0x22]
  else if b = 0x5c then [0x5c, 0x5c]
  else if b = 0x08 then [0x5c, 0x62]
  else if b = 0x0c then [0x5c, 0x66]
  else if b = 0x0a then [0x5c, 0x6e]
  else if b = 0x0d then [0x5c, 0x72]
  else if b = 0x09 then [0x5c, 0x74]
  else if b < 0x20 then
    [0x5c, 0x75, 0x30, 0x30, if b < 0x10 then 0x30 else 0x31,
      if b &&& 15 < 10 then 48 + (b &&& 15) else 87 + (b &&& 15)]
  else [b]

/-- A string between quotes. -/
def quote (s : String) : Bytes := 0x22 :: ((Text.utf8 s).flatMap escapeByte ++ [0x22])

/-- Puts a separator between the pieces. -/
def joinWith (separator : Bytes) : List Bytes → Bytes
  | [] => []
  | piece :: pieces => piece ++ pieces.flatMap (separator ++ ·)

/-- The bytes of an ASCII text. -/
def ascii (s : String) : Bytes := Text.utf8 s

/-- Where a value is written: on one line, or at a depth of indentation. -/
inductive Style where
  | compact
  | indented (depth : Nat)

/-- The style of what is inside. -/
def Style.deeper : Style → Style
  | .compact => .compact
  | .indented depth => .indented (depth + 1)

/-- What stands in front of an item of a list or object. -/
def Style.lineBreak : Style → Bytes
  | .compact => []
  | .indented depth => 10 :: List.replicate (2 * depth) 32

/-- What stands between a name and its value. -/
def Style.colon : Style → Bytes
  | .compact => [0x3a]
  | .indented _ => [0x3a, 0x20]

/-- Puts items between brackets. -/
def enclose (style : Style) (left right : UInt8) (items : List Bytes) : Bytes :=
  match items with
  | [] => [left, right]
  | _ =>
    left :: (joinWith [0x2c] (items.map (style.deeper.lineBreak ++ ·)) ++
      (style.lineBreak ++ [right]))

mutual

/-- Writes a value. -/
def Value.write (style : Style) : Value → Bytes
  | .null => ascii "null"
  | .bool b => ascii (if b then "true" else "false")
  | .number n => ascii (toString n)
  | .text s => quote s
  | .list vs => enclose style 0x5b 0x5d (Value.writeAll style.deeper vs)
  | .object ms => enclose style 0x7b 0x7d (Value.writeMembers style.deeper ms)

/-- Writes the items of a list. -/
def Value.writeAll (style : Style) : List Value → List Bytes
  | [] => []
  | v :: vs => v.write style :: Value.writeAll style vs

/-- Writes the members of an object. -/
def Value.writeMembers (style : Style) : List (String × Value) → List Bytes
  | [] => []
  | (name, v) :: ms => (quote name ++ (style.colon ++ v.write style)) :: Value.writeMembers style ms

end

/-- The text on one line. -/
def Value.compact (v : Value) : Bytes := v.write .compact

/-- The text over several lines. -/
def Value.pretty (v : Value) : Bytes := v.write (.indented 0)

/-- A value that may be absent. -/
def Value.ofOption (f : α → Value) : Option α → Value
  | none => .null
  | some a => f a

end AddressExchange.Json
