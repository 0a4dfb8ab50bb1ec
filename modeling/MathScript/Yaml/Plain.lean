import MathScript.Yaml.Spot

/-!
# Plain scalars of YAML

A scalar without quotes ends at a colon in front of a gap, at a comment behind
one, at a marker of a document, and where a line is indented too little; inside a
flow collection also at the characters that bound values.
-/

namespace MathScript.Yaml

/-- Whether a plain scalar may begin with this text. -/
def startsPlain (flow : Bool) : List Char → Bool
  | [] => false
  | c :: rest =>
    let special := ['-', '?', ':', '#', '&', '*', '!', '|', '>', '\x27', '"', '%', '@', '\x60']
    (!isWhite c && !isBreak c && !isFlowMark c && !special.contains c) ||
      (c == '-' && !atWhite rest) ||
      (!flow && (c == '?' || c == ':') && !atGap rest)

/-- The characters of a plain scalar up to a gap or its end.  In a flow
collection a colon right in front of a mark is refused. -/
def plainRun (flow : Bool) : List Char → Option (List Char)
  | [] => some []
  | c :: cs =>
    if isWhite c || isBreak c then some []
    else if flow && c == ':' && atChar (fun d => isFlowMark d || d == '?') cs then none
    else if (c == ':' && atGap cs) || (flow && isFlowMark c) then some []
    else (plainRun flow cs).map (c :: ·)

/-- What was read of a plain scalar. -/
structure PlainText where
  text : List Char
  /-- A line break stands behind the last character. -/
  broken : Bool
  spot : Spot

/-- Reads on behind `gap`, which counts only if the scalar goes on; `broken` tells
whether there is a line break in it.  Each round takes a character, so the text
itself, as `ahead`, outlasts the loop. -/
def readPlainRuns (flow : Bool) (floor : Nat) :
    (ahead : List Char) → (gap : List Char) → (broken : Bool) → Spot → Option PlainText
  | [], _, broken, s => some ⟨[], broken, s⟩
  | _ :: ahead, gap, broken, s =>
    if s.atMarker || atChar (· == '#') s.rest then some ⟨[], broken, s⟩
    else do
      let run ← plainRun flow s.rest
      if run.isEmpty then return ⟨[], broken, s⟩
      let text := gap ++ run
      let s := s.advance run.length
      if s.rest.isEmpty || !atGap s.rest then return ⟨text, false, s⟩
      let (gap, s) ← s.readGap floor
      let broken := !gap.breaks.isEmpty
      if !flow && s.column < floor then return ⟨text, broken, s⟩
      let more ← readPlainRuns flow floor ahead gap.text broken s
      return { more with text := text ++ more.text }

/-- Reads a plain scalar; outside flow collections its further lines begin at the
column `floor` or to the right of it. -/
def readPlain (flow : Bool) (floor : Nat) (s : Spot) : Option PlainText :=
  readPlainRuns flow floor s.rest [] false s

end MathScript.Yaml
