/-!
# White space and letter case

Unicode's `White_Space` characters, trimming by them, and the two case maps
that touch ASCII letters only.  Every other module that asks about blanks or
compares words without regard to case asks here.
-/

namespace MathScript.Text

/-- The characters with Unicode's `White_Space` property. -/
def isBlank (c : Char) : Bool :=
  let n := c.toNat
  (0x09 ≤ n && n ≤ 0x0D) || n == 0x20 || n == 0x85 || n == 0xA0 || n == 0x1680 ||
    (0x2000 ≤ n && n ≤ 0x200A) || n == 0x2028 || n == 0x2029 || n == 0x202F ||
    n == 0x205F || n == 0x3000

/-- The control characters: the first 32 code points, and U+007F to U+009F. -/
def isControl (c : Char) : Bool :=
  let n := c.toNat
  n ≤ 0x1F || (0x7F ≤ n && n ≤ 0x9F)

/-- Drops blanks from both ends of a list of characters. -/
def trimChars (cs : List Char) : List Char :=
  ((cs.dropWhile isBlank).reverse.dropWhile isBlank).reverse

/-- Drops blanks from both ends. -/
def trim (s : String) : String :=
  String.ofList (trimChars s.toList)

/-- Upper case for the ASCII letters; any other character stands for itself. -/
def asciiUpper (s : String) : String :=
  String.ofList (s.toList.map Char.toUpper)

/-- Lower case for the ASCII letters; any other character stands for itself. -/
def asciiLower (s : String) : String :=
  String.ofList (s.toList.map Char.toLower)

end MathScript.Text
