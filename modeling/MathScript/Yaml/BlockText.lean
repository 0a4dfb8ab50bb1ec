import MathScript.Yaml.Spot

/-!
# Block scalars of YAML

A scalar of whole lines behind `|` or `>`: its header, the indentation of its
lines, and the breaks between and behind them.  Behind `>` single breaks between
lines are folded.
-/

namespace MathScript.Yaml

/-- What becomes of the breaks at the end of a block scalar. -/
inductive Chomping where
  /-- All of them are dropped. -/
  | strip
  /-- The first of them is kept. -/
  | clip
  /-- All of them are kept. -/
  | keep
deriving DecidableEq, Repr

/-- The header of a block scalar. -/
structure BlockHeader where
  chomping : Chomping
  /-- By how much its lines are indented, 0 if that is not written. -/
  indentation : Nat

/-- Reads an indicator of chomping, if one is there. -/
def readChomping : List Char → Chomping × List Char
  | '+' :: cs => (.keep, cs)
  | '-' :: cs => (.strip, cs)
  | cs => (.clip, cs)

/-- Reads an indicator of indentation, if one is there; 0 is refused. -/
def readIndentation : List Char → Option (Nat × List Char)
  | '0' :: _ => none
  | c :: cs => if c.isDigit then some (c.toNat - '0'.toNat, cs) else some (0, c :: cs)
  | [] => some (0, [])

/-- Reads the two indicators, which may come in either order. -/
def readHeader (cs : List Char) : Option (BlockHeader × List Char) := do
  let (chomping, cs) := readChomping cs
  let (indentation, cs) ← readIndentation cs
  if chomping = .clip && indentation != 0 then
    let (chomping, cs) := readChomping cs
    return (⟨chomping, indentation⟩, cs)
  else return (⟨chomping, indentation⟩, cs)

/-- Passes line breaks and indentation: the breaks, the greatest column reached,
and the place behind.  While the indentation is not known, which `indent` says by
0, all spaces belong to it; tabs never do.  The text of the place drives the loop,
as `ahead`. -/
def passIndents (indent widest : Nat) :
    (ahead : List Char) → Spot → Option (List Char × Nat × Spot)
  | [], s => some ([], max widest s.column, s)
  | c :: ahead, s =>
    let inside := indent == 0 || s.column < indent
    if c = ' ' && inside then passIndents indent widest ahead s.next
    else if c = '\t' && inside then none
    else if isBreak c then
      (passIndents indent (max widest s.column) ahead s.next).map fun r => (c :: r.1, r.2)
    else some ([], max widest s.column, s)

/-- The lines of a block scalar, without the breaks behind them. -/
structure BlockLines where
  text : List Char
  /-- The break behind the last line. -/
  lastBreak : List Char
  /-- The breaks behind that. -/
  moreBreaks : List Char
  spot : Spot

/-- Reads the lines that begin at the column `indent`.  `lastBreak` and
`moreBreaks` lie between the line before and this one, and `blank` tells whether
the line before begins with white space.  Each round takes a character, so the
text itself, as `ahead`, outlasts the loop. -/
def readLines (folded : Bool) (indent : Nat) :
    (ahead : List Char) → (lastBreak moreBreaks : List Char) → (blank : Bool) → Spot →
    Option BlockLines
  | [], lastBreak, moreBreaks, _, s => some ⟨[], lastBreak, moreBreaks, s⟩
  | _ :: ahead, lastBreak, moreBreaks, blank, s =>
    if s.column != indent || s.rest.isEmpty then some ⟨[], lastBreak, moreBreaks, s⟩
    else do
      let starts := atWhite s.rest
      let joint :=
        if folded && lastBreak = ['\n'] && !blank && !starts then
          if moreBreaks.isEmpty then [' '] else []
        else lastBreak
      let line := s.rest.takeWhile (!isBreak ·)
      let s := s.advance line.length
      let here := s.rest.take 1
      let s := s.next
      let (between, _, s) ← passIndents indent 0 s.rest s
      let more ← readLines folded indent ahead here between starts s
      return { more with text := joint ++ moreBreaks ++ line ++ more.text }

/-- Reads a block scalar from its indicator on.  Its lines are indented as its
header says, relative to the block around it, whose content begins at the column
`floor`; or else as the first of them is. -/
def readBlockText (folded : Bool) (floor : Nat) (s : Spot) : Option (List Char × Spot) := do
  let s := s.advance 1
  let (header, rest) ← readHeader s.rest
  let s := ((s.moveTo rest).skipWhile isWhite).skipComment
  if !atLineEnd s.rest then none
  else
    let s := s.next
    let given := if header.indentation = 0 then 0 else floor - 1 + header.indentation
    let (breaks, widest, s) ← passIndents given 0 s.rest s
    let indent := if given = 0 then max (max widest floor) 1 else given
    let lines ← readLines folded indent s.rest [] breaks false s
    let tail := match header.chomping with
      | .strip => []
      | .clip => lines.lastBreak
      | .keep => lines.lastBreak ++ lines.moreBreaks
    return (lines.text ++ tail, lines.spot)

end MathScript.Yaml
