import MathScript.Text.Word
import MathScript.Token.Basic

/-!
# Token patterns

The shapes that tokens can have, each with the length of the piece it matches
at the start of a text, and the rules in the order in which they are tried.
The order matters in two places: keywords stand before identifiers, and
operators of two characters before those of one.

Letters are compared under simple case folding, which also sends U+017F to `s`
and U+212A to `k`; those two characters therefore spell keywords and stand in
identifiers.  Digits are the ASCII ones.
-/

namespace MathScript

/-- Simple case folding, as far as it reaches an ASCII letter. -/
def foldLetter (c : Char) : Char :=
  if c = '\u017F' then 's' else if c = '\u212A' then 'k' else c.toLower

/-- Whether `c` can start an identifier. -/
def isNameStart (c : Char) : Bool :=
  c == '_' || (foldLetter c).isLower

/-- Whether `c` can continue an identifier. -/
def isNameChar (c : Char) : Bool :=
  isNameStart c || c.isDigit

/-- The longest an identifier can be, in characters. -/
def maxNameLength : Nat := 64

/-- The shape of a token. -/
inductive Pattern where
  /-- A pair of quotes on one line; nothing inside is an escape. -/
  | quoted
  /-- A reserved word, letter case ignored, ending at a word boundary. -/
  | keyword (word : List Char)
  /-- A letter or underscore, then letters, digits and underscores. -/
  | name
  /-- Digits, and a point only where digits follow it. -/
  | number
  /-- These characters exactly. -/
  | symbol (chars : List Char)
deriving DecidableEq, Repr

namespace Pattern

/-- The length of a string literal at the start of `cs`, quotes included. -/
def quotedLength? : List Char → Option Nat
  | '"' :: cs =>
    let body := cs.takeWhile fun c => c != '"' && c != '\r' && c != '\n'
    match cs.drop body.length with
    | '"' :: _ => some (body.length + 2)
    | _ => none
  | _ => none

/-- Whether a word can end in front of `cs`. -/
def endsWord : List Char → Bool
  | [] => true
  | c :: _ => !Text.isWord c

/-- The length of a number at the start of `cs`. -/
def numberLength? (cs : List Char) : Option Nat :=
  match (cs.takeWhile Char.isDigit).length with
  | 0 => none
  | whole =>
    match cs.drop whole with
    | '.' :: rest =>
      match (rest.takeWhile Char.isDigit).length with
      | 0 => some whole
      | fraction => some (whole + 1 + fraction)
    | _ => some whole

/-- How many characters at the start of `cs` have this shape, if any do. -/
def length? : Pattern → List Char → Option Nat
  | quoted, cs => quotedLength? cs
  | keyword word, cs =>
    if (cs.take word.length).map foldLetter = word && endsWord (cs.drop word.length) then
      some word.length
    else none
  | name, cs =>
    match cs with
    | c :: rest =>
      if isNameStart c then
        some (1 + ((rest.take (maxNameLength - 1)).takeWhile isNameChar).length)
      else none
    | [] => none
  | number, cs => numberLength? cs
  | symbol chars, cs => if chars.isPrefixOf cs then some chars.length else none

end Pattern

/-- The rules for tokens, in the order in which they are tried. -/
def tokenRules : List (TokenKind × Pattern) := [
  (.stringLiteral, .quoted),
  (.print, .keyword ['p', 'r', 'i', 'n', 't']),
  (.plot, .keyword ['p', 'l', 'o', 't']),
  (.solve, .keyword ['s', 'o', 'l', 'v', 'e']),
  (.ifWord, .keyword ['i', 'f']),
  (.elseWord, .keyword ['e', 'l', 's', 'e']),
  (.whileWord, .keyword ['w', 'h', 'i', 'l', 'e']),
  (.asWord, .keyword ['a', 's']),
  (.integer, .keyword ['i', 'n', 't', 'e', 'g', 'e', 'r']),
  (.rational, .keyword ['r', 'a', 't', 'i', 'o', 'n', 'a', 'l']),
  (.real, .keyword ['r', 'e', 'a', 'l']),
  (.complex, .keyword ['c', 'o', 'm', 'p', 'l', 'e', 'x']),
  (.string, .keyword ['s', 't', 'r', 'i', 'n', 'g']),
  (.inWord, .keyword ['i', 'n']),
  (.identifier, .name),
  (.number, .number),
  (.leftParen, .symbol ['(']),
  (.rightParen, .symbol [')']),
  (.leftBrace, .symbol ['\x7b']),
  (.rightBrace, .symbol ['\x7d']),
  (.semicolon, .symbol [';']),
  (.comma, .symbol [',']),
  (.equalTo, .symbol ['=', '=']),
  (.notEqual, .symbol ['!', '=']),
  (.lessOrEqual, .symbol ['<', '=']),
  (.greaterOrEqual, .symbol ['>', '=']),
  (.less, .symbol ['<']),
  (.greater, .symbol ['>']),
  (.plus, .symbol ['+']),
  (.minus, .symbol ['-']),
  (.times, .symbol ['*']),
  (.divide, .symbol ['/']),
  (.caret, .symbol ['^']),
  (.assign, .symbol ['='])]

/-- The kind and length of the token at the start of `cs`: the first rule that
matches decides. -/
def firstToken? (cs : List Char) : Option (TokenKind × Nat) :=
  tokenRules.findSome? fun r => (r.2.length? cs).map fun n => (r.1, n)

end MathScript
