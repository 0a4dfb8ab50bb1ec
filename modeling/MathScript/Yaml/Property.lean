import MathScript.Text.Hex
import MathScript.Text.Reader
import MathScript.Yaml.Spot
import MathScript.Yaml.Token

/-!
# Anchors, tags and directives of YAML

What may stand in front of a value and in front of a document.  All of these stay
on one line.  An octet that a tag escapes is kept as the character of its number.
-/

namespace MathScript.Yaml

open Text (Reader)

/-- Reads the name of an anchor or of an alias, up to a gap or a character that
may follow one. -/
def readAnchorName (cs : List Char) : Option (List Char × List Char) :=
  let name := cs.takeWhile isWordChar
  let rest := cs.drop name.length
  let ends := atGap rest || atChar (['?', ':', ',', ']', '\x7d', '%', '@', '\x60'].contains ·) rest
  if !name.isEmpty && ends then some (name, rest) else none

/-- Reads a `!`, word characters, and the closing `!` if it is there. -/
def readHandle : Reader (List Char)
  | '!' :: cs =>
    let word := cs.takeWhile isWordChar
    match cs.drop word.length with
    | '!' :: rest => some ('!' :: word ++ ['!'], rest)
    | rest => some ('!' :: word, rest)
  | _ => none

/-- Reads an escaped octet. -/
def readOctet : Reader Nat
  | '%' :: a :: b :: cs => do return ((← Text.hexValue? a) * 16 + (← Text.hexValue? b), cs)
  | _ => none

/-- How many octets a character has that begins with this one. -/
def octetCount? (first : Nat) : Option Nat :=
  if first < 0x80 then some 1
  else if 0xC0 ≤ first && first < 0xE0 then some 2
  else if 0xE0 ≤ first && first < 0xF0 then some 3
  else if 0xF0 ≤ first && first < 0xF8 then some 4
  else none

/-- Reads `n` escaped octets that continue a character. -/
def readTailOctets : (n : Nat) → Reader (List Char)
  | 0, cs => some ([], cs)
  | n + 1, cs => do
    let (octet, cs) ← readOctet cs
    if 0x80 ≤ octet && octet < 0xC0 then
      let (more, cs) ← readTailOctets n cs
      return (Char.ofNat octet :: more, cs)
    else none

/-- Reads the escaped octets of a character. -/
def readOctets (cs : List Char) : Option (List Char × List Char) := do
  let (first, cs) ← readOctet cs
  let count ← octetCount? first
  let (more, cs) ← readTailOctets (count - 1) cs
  return (Char.ofNat first :: more, cs)

/-- Whether a character may stand in a tag; commas and square brackets only where
the whole tag is written out. -/
def isTagChar (whole : Bool) (c : Char) : Bool :=
  isWordChar c ||
    [';', '/', '?', ':', '@', '&', '=', '+', '$', '.', '%', '!', '~', '*', '\x27', '(',
      ')'].contains c ||
    (whole && [',', '[', ']'].contains c)

/-- Reads the characters of a tag.  Each round takes a character, so the text
itself, as `ahead`, outlasts the loop. -/
def readTagChars (whole : Bool) : (ahead : List Char) → Reader (List Char)
  | [], cs => some ([], cs)
  | _ :: ahead, cs =>
    match cs with
    | [] => some ([], [])
    | c :: rest =>
      if c = '%' then do
        let (octets, cs) ← readOctets cs
        let (more, cs) ← readTagChars whole ahead cs
        return (octets ++ more, cs)
      else if isTagChar whole c then do
        let (more, cs) ← readTagChars whole ahead rest
        return (c :: more, cs)
      else some ([], cs)

/-- Reads the characters of a tag, at least one of them. -/
def readTagText (whole : Bool) (cs : List Char) : Option (List Char × List Char) := do
  match ← readTagChars whole cs cs with
  | ([], _) => none
  | r => return r

/-- Reads a tag: whole between `!<` and `>`, or a handle with a suffix.  Without a
closing `!` there is no handle but the shortest one, and a lone `!` is a whole tag
by itself. -/
def readTag (cs : List Char) : Option (Token × List Char) :=
  match cs with
  | '!' :: '<' :: cs => do
    match ← readTagText true cs with
    | (text, '>' :: rest) => return (.tag [] text, rest)
    | _ => none
  | _ => do
    let (handle, rest) ← readHandle cs
    if handle.length > 1 && handle.getLast? = some '!' then
      let (suffix, rest) ← readTagText false rest
      return (.tag handle suffix, rest)
    else
      let (more, rest) ← readTagChars false rest rest
      match handle.drop 1 ++ more with
      | [] => return (.tag [] ['!'], rest)
      | suffix => return (.tag ['!'] suffix, rest)

/-- Reads a natural of one to nine digits. -/
def readVersionPart (cs : List Char) : Option (Nat × List Char) :=
  let digits := cs.takeWhile Char.isDigit
  if digits.isEmpty || digits.length > 9 then none
  else some (digits.foldl (fun n d => 10 * n + (d.toNat - '0'.toNat)) 0, cs.drop digits.length)

/-- Reads the value of a directive that gives a version. -/
def readVersion (cs : List Char) : Option (Token × List Char) := do
  match ← readVersionPart (cs.dropWhile isWhite) with
  | (major, '.' :: cs) => do
    let (minor, cs) ← readVersionPart cs
    return (.versionDirective major minor, cs)
  | _ => none

/-- Reads the value of a directive that gives a tag handle. -/
def readTagDirective (cs : List Char) : Option (Token × List Char) := do
  let (handle, cs) ← readHandle (cs.dropWhile isWhite)
  if handle.getLast? != some '!' || !atWhite cs then none
  else
    let (expansion, cs) ← readTagText true (cs.dropWhile isWhite)
    if atGap cs then return (.tagDirective handle expansion, cs) else none

/-- Reads a directive behind its `%`, up to a comment or the end of its line. -/
def readDirective (cs : List Char) : Option (Token × List Char) :=
  let name := cs.takeWhile isWordChar
  let cs := cs.drop name.length
  if !atGap cs then none
  else if name = ['Y', 'A', 'M', 'L'] then readVersion cs
  else if name = ['T', 'A', 'G'] then readTagDirective cs
  else none

end MathScript.Yaml
