import MathScript.Json.Basic
import MathScript.Number.Shortest
import MathScript.Text.Hex

/-!
# Writing JSON

The compact form, with no white space at all, and the indented form, two spaces
to a level.  A string escapes the quote, the backslash and what lies below
U+0020, and nothing else.
-/

namespace MathScript

namespace Decimal

/-- Zeros. -/
def zeros (n : Nat) : List Char :=
  List.replicate n '0'

/-- A positive decimal with its point: plainly where its first digit stands for
`10 ^ -5` to `10 ^ 15`, and otherwise with a power of ten, whose sign is always
written.  A plain one has at least one digit behind the point. -/
def chars (d : Decimal) : List Char :=
  let ds := Nat.toDigits 10 d.digits
  let top : Int := d.exponent + ds.length - 1
  if -5 ≤ top && top ≤ 15 then
    if 0 ≤ d.exponent then ds ++ zeros d.exponent.toNat ++ ['.', '0']
    else if 0 ≤ top then
      ds.take (top.toNat + 1) ++ '.' :: ds.drop (top.toNat + 1)
    else '0' :: '.' :: zeros ((-top).toNat - 1) ++ ds
  else
    let point := if ds.length = 1 then ds else ds.take 1 ++ '.' :: ds.drop 1
    let sign := if 0 ≤ top then '+' else '-'
    point ++ 'e' :: sign :: Nat.toDigits 10 top.natAbs

end Decimal

/-- A number as it is written. -/
def JsonNumber.chars : JsonNumber → List Char
  | .integer n => if n < 0 then '-' :: Nat.toDigits 10 n.natAbs else Nat.toDigits 10 n.natAbs
  | .double negative v =>
    let magnitude := if v.isZero then ['0', '.', '0'] else v.shortest.chars
    if negative then '-' :: magnitude else magnitude

namespace Json

/-- A character as it is written inside a string. -/
def escapeChar (c : Char) : List Char :=
  if c = '"' then ['\\', '"']
  else if c = '\\' then ['\\', '\\']
  else if c.toNat < 0x20 then
    if c = '\x08' then ['\\', 'b']
    else if c = '\t' then ['\\', 't']
    else if c = '\n' then ['\\', 'n']
    else if c = '\x0c' then ['\\', 'f']
    else if c = '\r' then ['\\', 'r']
    else ['\\', 'u', '0', '0', Text.hexDigit (c.toNat / 16), Text.hexDigit c.toNat]
  else [c]

/-- A string in quotes. -/
def stringChars (s : String) : List Char :=
  '"' :: s.toList.flatMap escapeChar ++ ['"']

mutual

/-- The compact form of a value. -/
def compactChars : Json → List Char
  | .null => ['n', 'u', 'l', 'l']
  | .bool true => ['t', 'r', 'u', 'e']
  | .bool false => ['f', 'a', 'l', 's', 'e']
  | .number n => n.chars
  | .string s => stringChars s
  | .array items => '[' :: compactItems items ++ [']']
  | .object fields => '\x7b' :: compactFields fields ++ ['\x7d']
termination_by structural j => j

/-- Items between commas. -/
def compactItems : List Json → List Char
  | [] => []
  | j :: js => compactChars j ++ compactMoreItems js
termination_by structural js => js

/-- Further items, each behind a comma. -/
def compactMoreItems : List Json → List Char
  | [] => []
  | j :: js => ',' :: compactChars j ++ compactMoreItems js
termination_by structural js => js

/-- Fields between commas. -/
def compactFields : List (String × Json) → List Char
  | [] => []
  | f :: fs => compactField f ++ compactMoreFields fs
termination_by structural fs => fs

/-- Further fields, each behind a comma. -/
def compactMoreFields : List (String × Json) → List Char
  | [] => []
  | f :: fs => ',' :: compactField f ++ compactMoreFields fs
termination_by structural fs => fs

/-- A key, a colon and a value. -/
def compactField : String × Json → List Char
  | (key, j) => stringChars key ++ ':' :: compactChars j
termination_by structural f => f

end

/-- A line break and the indentation of a level. -/
def newLine (level : Nat) : List Char :=
  '\n' :: List.replicate (2 * level) ' '

mutual

/-- The indented form of a value that stands at a level. -/
def prettyChars (level : Nat) : Json → List Char
  | .null => ['n', 'u', 'l', 'l']
  | .bool true => ['t', 'r', 'u', 'e']
  | .bool false => ['f', 'a', 'l', 's', 'e']
  | .number n => n.chars
  | .string s => stringChars s
  | .array [] => ['[', ']']
  | .array (j :: js) =>
    '[' :: newLine (level + 1) ++ prettyChars (level + 1) j ++ prettyMoreItems (level + 1) js ++
      newLine level ++ [']']
  | .object [] => ['\x7b', '\x7d']
  | .object (f :: fs) =>
    '\x7b' :: newLine (level + 1) ++ prettyField (level + 1) f ++
      prettyMoreFields (level + 1) fs ++ newLine level ++ ['\x7d']
termination_by structural j => j

/-- Further items, each behind a comma and a line break. -/
def prettyMoreItems (level : Nat) : List Json → List Char
  | [] => []
  | j :: js => ',' :: newLine level ++ prettyChars level j ++ prettyMoreItems level js
termination_by structural js => js

/-- Further fields, each behind a comma and a line break. -/
def prettyMoreFields (level : Nat) : List (String × Json) → List Char
  | [] => []
  | f :: fs => ',' :: newLine level ++ prettyField level f ++ prettyMoreFields level fs
termination_by structural fs => fs

/-- A key, a colon, a space and a value. -/
def prettyField (level : Nat) : String × Json → List Char
  | (key, j) => stringChars key ++ ':' :: ' ' :: prettyChars level j
termination_by structural f => f

end

/-- The compact form of a value. -/
def compact (j : Json) : String :=
  String.ofList (compactChars j)

/-- The indented form of a value. -/
def pretty (j : Json) : String :=
  String.ofList (prettyChars 0 j)

end Json
end MathScript
