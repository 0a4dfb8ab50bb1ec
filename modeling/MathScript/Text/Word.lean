import MathScript.Text.WordRanges

/-!
# Word characters

A keyword ends where no word character follows it.  A word character is
Alphabetic, a Mark, a Decimal number, Connector punctuation, or one of the two
join controls; letters of identifiers are a small part of them.
-/

namespace MathScript.Text

/-- Whether `c` continues a word. -/
def isWord (c : Char) : Bool :=
  let n := c.toNat
  if n < 0x80 then c.isAlphanum || c == '_'
  else if n < 0x10000 then basicWordRanges.any fun r => r.1 ≤ n && n ≤ r.2
  else supplementaryWordRanges.any fun r => r.1 ≤ n && n ≤ r.2

end MathScript.Text
