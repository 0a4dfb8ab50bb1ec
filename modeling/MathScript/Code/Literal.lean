import MathScript.Text.Blank
import MathScript.Text.Hex

/-!
# Literals of the generated code

The two literals that depend on the text of a program.  A number loses the
leading zeros of its whole part, which Python would refuse; a string is put in
double quotes with every character escaped that would end the literal or the
line.
-/

namespace MathScript.Code

/-- Splits at the first point: what stands before it, and what stands after it
if there is one. -/
def splitPoint (cs : List Char) : List Char × Option (List Char) :=
  match cs.dropWhile (· != '.') with
  | _ :: fraction => (cs.takeWhile (· != '.'), some fraction)
  | [] => (cs, none)

/-- A whole part without superfluous zeros in front. -/
def trimZeros (whole : List Char) : List Char :=
  match whole.dropWhile (· == '0') with
  | [] => ['0']
  | digits => digits

/-- The characters of a number literal. -/
def numberChars (cs : List Char) : List Char :=
  match splitPoint cs with
  | (whole, some fraction) => trimZeros whole ++ '.' :: fraction
  | (whole, none) => trimZeros whole

/-- The literal for a number as it was written. -/
def numberLiteral (text : String) : String :=
  String.ofList (numberChars text.toList)

/-- Four hexadecimal digits. -/
def hex4 (n : Nat) : List Char :=
  [Text.hexDigit (n / 4096), Text.hexDigit (n / 256), Text.hexDigit (n / 16), Text.hexDigit n]

/-- A character as it is written inside a string literal. -/
def escapeChar (c : Char) : List Char :=
  if c = '\\' then ['\\', '\\']
  else if c = '"' then ['\\', '"']
  else if c = '\n' then ['\\', 'n']
  else if c = '\r' then ['\\', 'r']
  else if c = '\t' then ['\\', 't']
  else if Text.isControl c then '\\' :: 'u' :: hex4 c.toNat
  else [c]

/-- The characters of a string literal. -/
def stringChars (cs : List Char) : List Char :=
  '"' :: cs.flatMap escapeChar ++ ['"']

/-- The literal whose value is exactly `text`. -/
def stringLiteral (text : String) : String :=
  String.ofList (stringChars text.toList)

end MathScript.Code
