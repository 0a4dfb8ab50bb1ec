import MathScript.Text.Blank

/-!
# Closed vocabularies

The number sets `SOLVE` can search, the types `AS` can convert to, and the
arithmetic and comparison operators: each with its spelling, and the reading of
a spelling, which names the vocabulary when it fails.
-/

namespace MathScript

/-- A word that stands for nothing in the vocabulary it was looked up in. -/
inductive UnknownWord where
  | domain (word : String)
  | castType (word : String)
  | arithmetic (word : String)
  | comparison (word : String)
deriving DecidableEq, Repr

def UnknownWord.message : UnknownWord → String
  | .domain w => "unknown domain '" ++ w ++ "'"
  | .castType w => "unknown cast type '" ++ w ++ "'"
  | .arithmetic w => "unknown arithmetic operator '" ++ w ++ "'"
  | .comparison w => "unknown comparison operator '" ++ w ++ "'"

/-- The number set that `SOLVE` searches. -/
inductive Domain where
  | integers | rationals | reals | complexes
deriving DecidableEq, Repr, Inhabited

namespace Domain

/-- The domain of a `SOLVE` that names none. -/
def standard : Domain := .reals

def keyword : Domain → String
  | integers => "INTEGER"
  | rationals => "RATIONAL"
  | reals => "REAL"
  | complexes => "COMPLEX"

/-- The set's name in SymPy. -/
def constant : Domain → String
  | integers => "Integers"
  | rationals => "Rationals"
  | reals => "Reals"
  | complexes => "Complexes"

/-- Reads a keyword in any case of its ASCII letters. -/
def ofKeyword (word : String) : Except UnknownWord Domain :=
  match Text.asciiUpper word with
  | "INTEGER" => .ok integers
  | "RATIONAL" => .ok rationals
  | "REAL" => .ok reals
  | "COMPLEX" => .ok complexes
  | _ => .error (.domain word)

end Domain

/-- The type that `AS` converts to. -/
inductive CastType where
  | integer | real | string
deriving DecidableEq, Repr, Inhabited

namespace CastType

def keyword : CastType → String
  | integer => "INTEGER"
  | real => "REAL"
  | string => "STRING"

/-- Reads a keyword in any case of its ASCII letters. -/
def ofKeyword (word : String) : Except UnknownWord CastType :=
  match Text.asciiUpper word with
  | "INTEGER" => .ok integer
  | "REAL" => .ok real
  | "STRING" => .ok string
  | _ => .error (.castType word)

end CastType

/-- The arithmetic operators. -/
inductive ArithOp where
  | add | sub | mul | div | pow
deriving DecidableEq, Repr, Inhabited

namespace ArithOp

def symbol : ArithOp → String
  | add => "+"
  | sub => "-"
  | mul => "*"
  | div => "/"
  | pow => "^"

def ofSymbol (word : String) : Except UnknownWord ArithOp :=
  match word with
  | "+" => .ok add
  | "-" => .ok sub
  | "*" => .ok mul
  | "/" => .ok div
  | "^" => .ok pow
  | _ => .error (.arithmetic word)

end ArithOp

/-- The comparison operators. -/
inductive CompareOp where
  | equal | notEqual | less | lessOrEqual | greater | greaterOrEqual
deriving DecidableEq, Repr, Inhabited

namespace CompareOp

def symbol : CompareOp → String
  | equal => "=="
  | notEqual => "!="
  | less => "<"
  | lessOrEqual => "<="
  | greater => ">"
  | greaterOrEqual => ">="

def ofSymbol (word : String) : Except UnknownWord CompareOp :=
  match word with
  | "==" => .ok equal
  | "!=" => .ok notEqual
  | "<" => .ok less
  | "<=" => .ok lessOrEqual
  | ">" => .ok greater
  | ">=" => .ok greaterOrEqual
  | _ => .error (.comparison word)

end CompareOp

end MathScript
