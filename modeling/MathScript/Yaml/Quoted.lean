import MathScript.Text.Hex
import MathScript.Yaml.Spot

/-!
# Quoted scalars of YAML

Between single quotes only a doubled quote is special; between double quotes a
backslash begins an escape, and one at the end of a line joins the next line to
it.  In both, gaps are folded, and no marker of a document begins a line.
-/

namespace MathScript.Yaml

/-- The character behind a backslash that stands for itself by its letter. -/
def escape? : Char → Option Char
  | '0' => some '\x00'
  | 'a' => some '\x07'
  | 'b' => some '\x08'
  | 't' | '\t' => some '\t'
  | 'n' => some '\n'
  | 'v' => some '\x0b'
  | 'f' => some '\x0c'
  | 'r' => some '\r'
  | 'e' => some '\x1b'
  | ' ' => some ' '
  | '"' => some '"'
  | '/' => some '/'
  | '\\' => some '\\'
  | 'N' => some '\u0085'
  | '_' => some '\u00a0'
  | 'L' => some '\u2028'
  | 'P' => some '\u2029'
  | _ => none

/-- How many hexadecimal digits follow a letter behind a backslash. -/
def escapeWidth? : Char → Option Nat
  | 'x' => some 2
  | 'u' => some 4
  | 'U' => some 8
  | _ => none

/-- The natural that hexadecimal digits stand for. -/
def hexNat? (digits : List Char) : Option Nat :=
  digits.foldlM (fun n c => (Text.hexValue? c).map (16 * n + ·)) 0

/-- The character with a number, if there is one. -/
def charOf? (n : Nat) : Option Char :=
  if n.isValidChar then some (Char.ofNat n) else none

/-- An escape behind its backslash: its character, and its length. -/
def readEscape : List Char → Option (Char × Nat)
  | [] => none
  | c :: cs =>
    match escapeWidth? c with
    | some width =>
      if (cs.take width).length = width then
        ((hexNat? (cs.take width)).bind charOf?).map fun e => (e, 1 + width)
      else none
    | none => (escape? c).map fun e => (e, 1)

/-- A piece of a quoted scalar that is no gap. -/
inductive Piece where
  /-- The closing quote. -/
  | close
  /-- A character, written as `length` characters. -/
  | char (c : Char) (length : Nat)
  /-- A backslash in front of a line break. -/
  | joinLine

/-- The piece at the start of a text, which is not a gap. -/
def readPiece (double : Bool) : List Char → Option Piece
  | [] => none
  | c :: cs =>
    if double then
      if c = '"' then some .close
      else if c = '\\' then
        if atChar isBreak cs then some .joinLine
        else (readEscape cs).map fun e => .char e.1 (1 + e.2)
      else some (.char c 1)
    else if c = '\x27' then
      if atChar (· == '\x27') cs then some (.char c 2) else some .close
    else some (.char c 1)

/-- Reads a quoted scalar behind its opening quote, up to the closing one and with
it.  Each round takes a character, so the text itself, as `ahead`, outlasts the
loop. -/
def readQuotedPieces (double : Bool) : (ahead : List Char) → Spot → Option (List Char × Spot)
  | [], _ => none
  | _ :: ahead, s =>
    if s.atMarker then none
    else if atChar (fun c => isWhite c || isBreak c) s.rest then do
      let (gap, s) ← s.readGap 0
      let (more, s) ← readQuotedPieces double ahead s
      return (gap.text ++ more, s)
    else do
      match ← readPiece double s.rest with
      | .close => return ([], s.advance 1)
      | .char c length =>
        let (more, s) ← readQuotedPieces double ahead (s.advance length)
        return (c :: more, s)
      | .joinLine =>
        let s := (s.advance 1).next
        let (breaks, s) ← Spot.passGap 0 s.rest s
        let (more, s) ← readQuotedPieces double ahead s
        return (breaks ++ more, s)

/-- Reads a quoted scalar. -/
def readQuoted (double : Bool) (s : Spot) : Option (List Char × Spot) :=
  readQuotedPieces double s.rest (s.advance 1)

end MathScript.Yaml
