/-!
# Tokens

The kinds of token of the language, the name each goes by in a signature, and
the token itself: a kind, the exact text, and the line it stands on.
-/

namespace MathScript

/-- The kinds of token. -/
inductive TokenKind where
  | stringLiteral | number | identifier
  | print | plot | solve | ifWord | elseWord | whileWord | asWord | inWord
  | integer | rational | real | complex | string
  | leftParen | rightParen | leftBrace | rightBrace | semicolon | comma
  | equalTo | notEqual | lessOrEqual | greaterOrEqual | less | greater
  | plus | minus | times | divide | caret | assign
deriving DecidableEq, Repr, Inhabited

/-- The name of a kind in signatures. -/
def TokenKind.name : TokenKind → String
  | .stringLiteral => "STRING_LITERAL"
  | .number => "NUMBER"
  | .identifier => "ID"
  | .print => "PRINT"
  | .plot => "PLOT"
  | .solve => "SOLVE"
  | .ifWord => "IF"
  | .elseWord => "ELSE"
  | .whileWord => "WHILE"
  | .asWord => "AS"
  | .inWord => "IN"
  | .integer => "INTEGER"
  | .rational => "RATIONAL"
  | .real => "REAL"
  | .complex => "COMPLEX"
  | .string => "STRING"
  | .leftParen => "LPAREN"
  | .rightParen => "RPAREN"
  | .leftBrace => "LCURLY"
  | .rightBrace => "RCURLY"
  | .semicolon => "SEMICOLON"
  | .comma => "COMMA"
  | .equalTo => "EQ"
  | .notEqual => "NEQ"
  | .lessOrEqual => "LTE"
  | .greaterOrEqual => "GTE"
  | .less => "LT"
  | .greater => "GT"
  | .plus => "PLUS"
  | .minus => "MINUS"
  | .times => "TIMES"
  | .divide => "DIVIDE"
  | .caret => "CARAT"
  | .assign => "EQUAL"

/-- A token.  `text` is the piece of source it was read from, unchanged, and
`line` counts from 1. -/
structure Token where
  kind : TokenKind
  text : String
  line : Nat
deriving DecidableEq, Repr, Inhabited

/-- What a token contributes to a signature: its kind and its text, no line. -/
def Token.signature (t : Token) : String :=
  t.kind.name ++ ":" ++ t.text

end MathScript
