import MathScript.Yaml.Character

/-!
# Spots in a document

How far a document has been read, and the gaps that lie inside its scalars.  A
gap is white space, or line breaks with white space around them; in a scalar the
former is kept and the latter is folded.
-/

namespace MathScript.Yaml

/-- A place in a document.  Lines and columns count from 0. -/
structure Spot where
  /-- The text from there on. -/
  rest : List Char
  line : Nat
  column : Nat
  /-- How many bytes of the line stand in front, where a column counts characters. -/
  bytes : Nat
deriving DecidableEq, Repr

namespace Spot

/-- The place in front of a whole text. -/
def ofText (text : List Char) : Spot := ⟨text, 0, 0, 0⟩

/-- The place behind the next character. -/
def next (s : Spot) : Spot :=
  match s.rest with
  | [] => s
  | c :: cs =>
    if isBreak c then ⟨cs, s.line + 1, 0, 0⟩
    else ⟨cs, s.line, s.column + 1, s.bytes + c.utf8Size⟩

/-- The place behind `n` characters. -/
def advance : Spot → (n : Nat) → Spot
  | s, 0 => s
  | s, n + 1 => advance s.next n

/-- The place at which `rest` is left. -/
def moveTo (s : Spot) (rest : List Char) : Spot :=
  s.advance (s.rest.length - rest.length)

/-- The place behind the characters that `p` holds of. -/
def skipWhile (p : Char → Bool) (s : Spot) : Spot :=
  s.advance (s.rest.takeWhile p).length

/-- The end of a comment, if one begins here. -/
def skipComment (s : Spot) : Spot :=
  if atChar (· == '#') s.rest then s.skipWhile (!isBreak ·) else s

/-- Whether a marker of a document's start stands here. -/
def atStartMarker (s : Spot) : Bool :=
  s.column == 0 && ['-', '-', '-'].isPrefixOf s.rest && atGap (s.rest.drop 3)

/-- Whether a marker of a document's end stands here. -/
def atEndMarker (s : Spot) : Bool :=
  s.column == 0 && ['.', '.', '.'].isPrefixOf s.rest && atGap (s.rest.drop 3)

/-- Whether a marker of a document stands here. -/
def atMarker (s : Spot) : Bool :=
  s.atStartMarker || s.atEndMarker

/-- Passes white space and line breaks: the breaks, and the place behind.  A tab
left of the column `floor` is refused.  The text of the place drives the loop, as
`ahead`. -/
def passGap (floor : Nat) : (ahead : List Char) → Spot → Option (List Char × Spot)
  | [], s => some ([], s)
  | c :: ahead, s =>
    if isBreak c then (passGap floor ahead s.next).map fun r => (c :: r.1, r.2)
    else if isWhite c then
      if c = '\t' && s.column < floor then none else passGap floor ahead s.next
    else some ([], s)

end Spot

/-- What line breaks in a row stand for inside a scalar: a space if there is one
line feed, and one line feed less if there are more of them.  The other breaks
stand for themselves. -/
def foldBreaks : List Char → List Char
  | ['\n'] => [' ']
  | '\n' :: more => more
  | breaks => breaks

/-- A gap inside a scalar. -/
structure Gap where
  /-- The white space up to the first line break. -/
  white : List Char
  breaks : List Char

/-- What a gap stands for. -/
def Gap.text (g : Gap) : List Char :=
  if g.breaks.isEmpty then g.white else foldBreaks g.breaks

/-- Reads a gap.  Tabs left of the column `floor` are refused behind a break. -/
def Spot.readGap (floor : Nat) (s : Spot) : Option (Gap × Spot) :=
  let white := s.rest.takeWhile isWhite
  let s := s.advance white.length
  (passGap floor s.rest s).map fun r => (⟨white, r.1⟩, r.2)

end MathScript.Yaml
