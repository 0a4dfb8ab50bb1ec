/-!
# Characters of YAML

The characters a document may hold, and the classes that its rules ask about.  A
line break is a line feed, U+2028 or U+2029: `unifyBreaks` makes line feeds of
the other forms, which the rules never tell apart.
-/

namespace MathScript.Yaml

/-- Whether a character may stand in a document. -/
def isPrintable (c : Char) : Bool :=
  let n := c.toNat
  n == 0x09 || n == 0x0A || n == 0x0D || (0x20 ≤ n && n ≤ 0x7E) || n == 0x85 ||
    (0xA0 ≤ n && n != 0xFFFE && n != 0xFFFF)

/-- Makes line feeds of CRLF, CR and U+0085. -/
def unifyBreaks : List Char → List Char
  | '\r' :: '\n' :: cs => '\n' :: unifyBreaks cs
  | c :: cs => (if c = '\r' || c = '\u0085' then '\n' else c) :: unifyBreaks cs
  | [] => []

/-- The mark of byte order, which may begin a line. -/
def byteOrderMark : Char := '\uFEFF'

def isBreak (c : Char) : Bool := c == '\n' || c == '\u2028' || c == '\u2029'

def isWhite (c : Char) : Bool := c == ' ' || c == '\t'

/-- The characters of anchors, of the names of directives and of tag handles. -/
def isWordChar (c : Char) : Bool := c.isAlphanum || c == '_' || c == '-'

/-- The characters that bound values in a flow collection. -/
def isFlowMark (c : Char) : Bool := [',', '[', ']', '\x7b', '\x7d'].contains c

/-- Whether a text is at its end, or begins with white space or a line break. -/
def atGap : List Char → Bool
  | [] => true
  | c :: _ => isWhite c || isBreak c

/-- Whether a text is at its end, or begins with a line break. -/
def atLineEnd : List Char → Bool
  | [] => true
  | c :: _ => isBreak c

/-- Whether a text begins with white space. -/
def atWhite : List Char → Bool
  | [] => false
  | c :: _ => isWhite c

/-- Whether a text begins with a character that `p` holds of. -/
def atChar (p : Char → Bool) : List Char → Bool
  | [] => false
  | c :: _ => p c

end MathScript.Yaml
