import MathScript.Text.Blank
import MathScript.Token.Pattern

/-!
# Token tapes

A source text read as its tokens and what comes after the last of them: the
end of the text, or a place where no token starts.  Blanks, line breaks and
comments separate tokens and are dropped; a line break is CRLF, CR or LF, and
each one starts a new line.
-/

namespace MathScript

/-- What separates tokens. -/
inductive Gap where
  | lineBreak | blanks | comment
deriving DecidableEq, Repr

/-- The kind and length of the separator at the start of a text. -/
def firstGap? : List Char → Option (Gap × Nat)
  | '\r' :: '\n' :: _ => some (.lineBreak, 2)
  | '\r' :: _ => some (.lineBreak, 1)
  | '\n' :: _ => some (.lineBreak, 1)
  | '#' :: cs => some (.comment, 1 + (cs.takeWhile fun c => c != '\r' && c != '\n').length)
  | cs =>
    match (cs.takeWhile fun c => c == ' ' || c == '\t').length with
    | 0 => none
    | n => some (.blanks, n)

/-- No token and no separator starts with this text. -/
structure Unrecognised where
  /-- The offending text: up to a blank, and at most `Unrecognised.shown` characters. -/
  text : String
  line : Nat
deriving DecidableEq, Repr, Inhabited

namespace Unrecognised

/-- How much of the offending text is kept. -/
def shown : Nat := 16

/-- The failure at the start of `cs`. -/
def ofChars (line : Nat) (cs : List Char) : Unrecognised :=
  ⟨String.ofList ((cs.takeWhile fun c => !Text.isBlank c).take shown), line⟩

def message (e : Unrecognised) : String :=
  "Unrecognised input '" ++ e.text ++ "' at line " ++ toString e.line

end Unrecognised

/-- What follows the last token of a tape. -/
inductive Ending where
  /-- The text ends on this line. -/
  | complete (line : Nat)
  | unrecognised (e : Unrecognised)
deriving DecidableEq, Repr, Inhabited

/-- The line on which a tape ends. -/
def Ending.line : Ending → Nat
  | .complete line => line
  | .unrecognised e => e.line

/-- A text as its tokens and its ending. -/
structure Tape where
  tokens : List Token
  ending : Ending
deriving DecidableEq, Repr, Inhabited

namespace Tape

/-- Puts a token in front. -/
def cons (t : Token) (rest : Tape) : Tape :=
  { rest with tokens := t :: rest.tokens }

/-- Reads on from line `line`, after `pending` characters that belong to a
piece already read. -/
def scan (line : Nat) : (pending : Nat) → List Char → Tape
  | _, [] => ⟨[], .complete line⟩
  | pending + 1, _ :: cs => scan line pending cs
  | 0, c :: cs =>
    match firstGap? (c :: cs) with
    | some (.lineBreak, n) => scan (line + 1) (n - 1) cs
    | some (_, n) => scan line (n - 1) cs
    | none =>
      match firstToken? (c :: cs) with
      | some (kind, n) =>
        (scan line (n - 1) cs).cons ⟨kind, String.ofList ((c :: cs).take n), line⟩
      | none => ⟨[], .unrecognised (.ofChars line (c :: cs))⟩

/-- The tape of a source text. -/
def ofString (source : String) : Tape :=
  scan 1 0 source.toList

/-- The tokens of a source text, if it consists of tokens throughout. -/
def tokens? (tape : Tape) : Except Unrecognised (List Token) :=
  match tape.ending with
  | .complete _ => .ok tape.tokens
  | .unrecognised e => .error e

/-- One more pull at the tape: a token, the failure (which comes once), or
nothing; with the line then reached and what is left. -/
def pull (tape : Tape) : Option (Except Unrecognised Token) × Nat × Tape :=
  match tape.tokens, tape.ending with
  | t :: rest, _ => (some (.ok t), t.line, { tape with tokens := rest })
  | [], .unrecognised e => (some (.error e), e.line, ⟨[], .complete e.line⟩)
  | [], .complete line => (none, line, tape)

end Tape

/-- The tokens of a source text. -/
def tokenize (source : String) : Except Unrecognised (List Token) :=
  (Tape.ofString source).tokens?

/-- The signature of a source text: the kinds and texts of its tokens.  Sources
that differ in layout and comments alone share it. -/
def signature (source : String) : Except Unrecognised String := do
  let tokens ← tokenize source
  return " ".intercalate (tokens.map Token.signature)

end MathScript
