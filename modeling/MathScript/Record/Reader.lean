import MathScript.Code.Literal
import MathScript.Json.Reader
import MathScript.Program.Scope
import MathScript.Record.Basic

/-!
# Reading records

A record is read back only if it describes a program that could have been read
from source: known tags, identifiers and numbers of the right shape, no block and
no list of arguments without entries, no more than `maxDepth` levels, and every
name declared before it is read.  Parameters beyond the known ones are ignored.
-/

namespace MathScript

/-- What is wrong with a record. -/
inductive Malformation where
  | notJson
  | notARecord (found : Json)
  | noTag
  | noParams (tag : Record.Tag)
  | missing (key : String)
  | notAString (key : String)
  | notAList (key : String)
  | empty (key : String)
  | notABoolean (key : String)
  | notAnIdentifier (text : String)
  | notANumber (text : String)
  | unknownWord (e : UnknownWord)
  | notAProgram (tag : Record.Tag)
  | notAStatement (tag : Record.Tag)
  | notAnExpression (tag : Record.Tag)
  | tooDeep
deriving Repr, Inhabited

def Malformation.message : Malformation → String
  | notJson => "<invalid JSON>"
  | notARecord found => "expected a record, found " ++ found.compact
  | noTag => "record without a string 'type'"
  | noParams tag => "'" ++ tag.word ++ "' record without 'params'"
  | missing key => "missing param '" ++ key ++ "'"
  | notAString key => "param '" ++ key ++ "' must be a string"
  | notAList key => "param '" ++ key ++ "' must be a list"
  | empty key => "param '" ++ key ++ "' must not be empty"
  | notABoolean key => "param '" ++ key ++ "' must be a boolean"
  | notAnIdentifier text => "'" ++ text ++ "' is not an identifier"
  | notANumber text => "'" ++ text ++ "' is not a number"
  | unknownWord e => e.message
  | notAProgram tag => "expected Program, found " ++ tag.word
  | notAStatement tag => "expected a statement, found " ++ tag.word
  | notAnExpression tag => "expected an expression, found " ++ tag.word
  | tooDeep => "program nests deeper than " ++ toString maxDepth ++ " levels"

/-- Why a text is not the record of a program. -/
inductive RecordError where
  | unknownTag (tag : String)
  | malformed (cause : Malformation)
  | undefinedName (name : String)
deriving Repr, Inhabited

def RecordError.message : RecordError → String
  | unknownTag tag => "Unknown node type '" ++ tag ++ "'"
  | malformed cause => "Malformed record: " ++ cause.message
  | undefinedName name => "Undefined name '" ++ name ++ "' in serialised program"

namespace Record

/-- The fields of a record's `params`. -/
abbrev Params := List (String × Json)

/-- The outcome of reading a part of a record. -/
abbrev Result := Except RecordError

/-- Fails with a malformation. -/
def fail {α : Type} (cause : Malformation) : Result α :=
  .error (.malformed cause)

/-- A record taken apart. -/
def split : Json → Result (Tag × Params)
  | .object fields =>
    match Json.field? fields "type" with
    | some (.string word) =>
      match Tag.ofWord? word with
      | some tag =>
        match Json.field? fields "params" with
        | some (.object params) => .ok (tag, params)
        | _ => fail (.noParams tag)
      | none => .error (.unknownTag word)
    | _ => fail .noTag
  | found => fail (.notARecord found)

/-- A parameter that has to be there. -/
def param (params : Params) (key : String) : Result Json :=
  match Json.field? params key with
  | some v => .ok v
  | none => fail (.missing key)

/-- A parameter that may be missing or `null`. -/
def param? (params : Params) (key : String) : Option Json :=
  match Json.field? params key with
  | some .null | none => none
  | some v => some v

def stringParam (params : Params) (key : String) : Result String := do
  match ← param params key with
  | .string s => return s
  | _ => fail (.notAString key)

def boolParam (params : Params) (key : String) : Result Bool := do
  match ← param params key with
  | .bool b => return b
  | _ => fail (.notABoolean key)

/-- A list with at least one entry. -/
def listParam (params : Params) (key : String) : Result (List Json) := do
  match ← param params key with
  | .array [] => fail (.empty key)
  | .array items => return items
  | _ => fail (.notAList key)

/-- Whether a text is an identifier of ASCII characters: 1 to 64 of them. -/
def isIdentifier (text : String) : Bool :=
  match text.toList with
  | c :: cs => (c == '_' || c.isAlpha) && cs.all (fun d => d == '_' || d.isAlphanum) &&
    cs.length < 64
  | [] => false

/-- Whether a text is one or more digits. -/
def isDigits (cs : List Char) : Bool :=
  !cs.isEmpty && cs.all Char.isDigit

/-- Whether a text is digits, with a point and digits behind them or not. -/
def isNumber (text : String) : Bool :=
  match Code.splitPoint text.toList with
  | (whole, some fraction) => isDigits whole && isDigits fraction
  | (whole, none) => isDigits whole

def identifierParam (params : Params) (key : String) : Result String := do
  let name ← stringParam params key
  if isIdentifier name then return name else fail (.notAnIdentifier name)

/-- A parameter that holds a word of a vocabulary. -/
def wordParam {α : Type} (ofWord : String → Except UnknownWord α) (params : Params)
    (key : String) : Result α := do
  match ofWord (← stringParam params key) with
  | .ok a => return a
  | .error e => fail (.unknownWord e)

/-- The expression a record describes, if containers nest at most `n` deep in it.
Where none nests, there is no record. -/
def toExpr : (n : Nat) → Json → Result Expr
  | 0, found => fail (.notARecord found)
  | n + 1, found => do
    let (tag, params) ← split found
    match tag with
    | .number => do
      let text ← stringParam params "value"
      if isNumber text then return .number text else fail (.notANumber text)
    | .text => return .text (← stringParam params "value")
    | .name => return .name (← identifierParam params "name")
    | .binary => do
      let left ← toExpr n (← param params "left")
      let op ← wordParam ArithOp.ofSymbol params "op"
      let right ← toExpr n (← param params "right")
      return .binary left op right
    | .comparison => do
      let left ← toExpr n (← param params "left")
      let op ← wordParam CompareOp.ofSymbol params "op"
      let right ← toExpr n (← param params "right")
      return .comparison left op right
    | .concat => do
      let left ← toExpr n (← param params "left")
      let right ← toExpr n (← param params "right")
      return .concat left right (← boolParam params "padded")
    | .evaluation => do
      let name ← identifierParam params "name"
      return .evaluation name (← toExpr n (← param params "expr"))
    | .solve => do
      let equation ← toExpr n (← param params "expr")
      return .solve equation (← wordParam Domain.ofKeyword params "domain")
    | .cast => do
      let inner ← toExpr n (← param params "expr")
      return .cast inner (← wordParam CastType.ofKeyword params "type")
    | other => fail (.notAnExpression other)

/-- The statement a record describes, if containers nest at most `n` deep in it. -/
def toStmt : (n : Nat) → Json → Result Stmt
  | 0, found => fail (.notARecord found)
  | n + 1, found => do
    let (tag, params) ← split found
    match tag with
    | .assignment => do
      let name ← identifierParam params "name"
      return .assignment name (← toExpr n (← param params "expr"))
    | .input => do
      let name ← identifierParam params "name"
      let prompt ← (param? params "prompt").mapM (toExpr n)
      let cast ← (param? params "cast").mapM fun _ => wordParam CastType.ofKeyword params "cast"
      return .input name prompt cast
    | .print => return .print (← (← listParam params "args").mapM (toExpr n))
    | .plot => return .plot (← (← listParam params "args").mapM (toExpr n))
    | .ifElse => do
      let condition ← toExpr n (← param params "condition")
      let body ← (← listParam params "true_block").mapM (toStmt n)
      match param? params "false_block" with
      | none => return .ifThen condition body
      | some _ => do
        let otherwise ← (← listParam params "false_block").mapM (toStmt n)
        return .ifThenElse condition body otherwise
    | .whileLoop => do
      let condition ← toExpr n (← param params "condition")
      return .whileLoop condition (← (← listParam params "code_block").mapM (toStmt n))
    | other => fail (.notAStatement other)

/-- The program a record describes, whatever its depth and its names. -/
def toProgram (found : Json) : Result Program := do
  let (tag, params) ← split found
  match tag with
  | .program => return ⟨← (← listParam params "stmts").mapM (toStmt found.nesting)⟩
  | other => fail (.notAProgram other)

end Record

namespace Program

/-- Reads the program that a text is the record of. -/
def ofText (text : String) : Except RecordError Program := do
  match Json.ofString? text with
  | none => Record.fail .notJson
  | some json =>
    let p ← Record.toProgram json
    if p.depth > maxDepth then Record.fail .tooDeep
    match p.resolve with
    | .ok _ => return p
    | .error name => .error (.undefinedName name)

end Program
end MathScript
