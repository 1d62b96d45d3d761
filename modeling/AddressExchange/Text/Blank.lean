/-!
# Blanks

White space and control characters of Unicode, and the ways of cutting a text at blanks and line
ends.
-/

namespace AddressExchange.Text

/-- Has the character the property White_Space? -/
def isBlank (c : Char) : Bool :=
  let n := c.toNat
  (9 ≤ n && n ≤ 13) || n = 0x20 || n = 0x85 || n = 0xa0 || n = 0x1680 ||
  (0x2000 ≤ n && n ≤ 0x200a) || n = 0x2028 || n = 0x2029 || n = 0x202f || n = 0x205f || n = 0x3000

/-- Is the character in the category Cc? -/
def isControl (c : Char) : Bool :=
  let n := c.toNat
  n < 0x20 || (0x7f ≤ n && n ≤ 0x9f)

/-- The text without the blanks at its start. -/
def trimStart (cs : List Char) : List Char := cs.dropWhile isBlank

/-- The text without the blanks at its end. -/
def trimEnd (cs : List Char) : List Char := (cs.reverse.dropWhile isBlank).reverse

/-- The text without the blanks at both ends. -/
def trim (s : String) : String := String.ofList (trimEnd (trimStart s.toList))

/-- The pieces between blanks; none of them is empty. -/
def fields (s : String) : List String :=
  ((s.toList.splitOnP isBlank).filter (!·.isEmpty)).map String.ofList

/-- A line without the carriage return that ends it. -/
def dropReturn (cs : List Char) : List Char :=
  match cs.getLast? with
  | some '\r' => cs.dropLast
  | _ => cs

/-- The lines of a text. A line ends at a line feed, which a carriage return may precede; the last
one may do without. -/
def lines (s : String) : List String :=
  match (s.toList.splitOn '\n').reverse with
  | [] => []
  | last :: ended =>
    let whole := (ended.map dropReturn).reverse
    (if last.isEmpty then whole else whole ++ [last]).map String.ofList

end AddressExchange.Text
