import MathScript.Code.Literal
import MathScript.Program.Scope

/-!
# Generated code

Programs as Python over SymPy.  Names become `_0`, `_1`, … by their slots in a
name table, so that a program cannot touch a name of the code around it.  The
table is threaded through: a name that it lacks gets the next slot when it is
first written, and slots given out stay.

A program's code is a preamble, the statements, and a last line that takes
every name the code introduced out of the interpreter again.
-/

namespace MathScript.Code

/-- The library, the printing and the reading function, as the code calls them. -/
def library : String := "_s"
def printer : String := "_p"
def reader : String := "_i"

/-- One level of indentation. -/
def indentUnit : String := "    "

/-- The indentation of a statement inside `depth` blocks. -/
def indent : (depth : Nat) → String
  | 0 => ""
  | depth + 1 => indentUnit ++ indent depth

/-- Text written while slots are given out. -/
abbrev Emit := StateM NameTable

/-- The code's name for `name`, in a new slot if it had none. -/
def codeNameOf (name : String) : Emit String := do
  let table ← get
  set (table.declare name)
  return slotName (table.declareSlot name)

/-- A call of the function that converts to a type. -/
def conversion (type : CastType) (inner : String) : String :=
  let function := match type with
    | .integer => "int"
    | .real => "float"
    | .string => "str"
  function ++ "(" ++ inner ++ ")"

/-- An arithmetic operator as Python writes it. -/
def operator : ArithOp → String
  | .pow => "**"
  | op => op.symbol

/-- What joins the two parts of a concatenation. -/
def joiner (padded : Bool) : String :=
  if padded then "+\" \"+" else "+"

/-- The code of an expression. -/
def expr : Expr → Emit String
  | .number text => return numberLiteral text
  | .text contents => return stringLiteral contents
  | .name name => codeNameOf name
  | .binary left op right => do
    let l ← expr left
    let r ← expr right
    return "(" ++ l ++ ")" ++ operator op ++ "(" ++ r ++ ")"
  | .comparison left op right => do
    let l ← expr left
    let r ← expr right
    return "(" ++ l ++ ")" ++ op.symbol ++ "(" ++ r ++ ")"
  | .concat left right padded => do
    let l ← expr left
    let r ← expr right
    return "str(" ++ l ++ ")" ++ joiner padded ++ "str(" ++ r ++ ")"
  | .evaluation function argument => do
    let f ← codeNameOf function
    let x ← codeNameOf freeVariable
    let a ← expr argument
    return library ++ ".sympify(" ++ f ++ ").subs(\x7b" ++ x ++ ":(" ++ a ++ ")\x7d)"
  | .solve equation domain => do
    let e ← expr equation
    let x ← codeNameOf freeVariable
    return library ++ ".solveset(" ++ e ++ "," ++ x ++ ",domain=" ++ library ++ "." ++
      domain.constant ++ ")"
  | .cast inner type => do
    let e ← expr inner
    return conversion type e

/-- The code of some expressions, from left to right. -/
def exprs : List Expr → Emit (List String)
  | [] => return []
  | e :: es => do
    let first ← expr e
    return first :: (← exprs es)

/-- Expressions between commas. -/
def argumentList (es : List Expr) : Emit String := do
  return ",".intercalate (← exprs es)

mutual

/-- The lines of a statement inside `depth` blocks. -/
def stmt (depth : Nat) : Stmt → Emit (List String)
  | .assignment target value => do
    let v ← expr value
    let t ← codeNameOf target
    return [indent depth ++ t ++ "=" ++ v]
  | .input target prompt cast => do
    let p ← match prompt with
      | some e => expr e
      | none => pure ""
    let call := reader ++ "(" ++ p ++ ")"
    let v := match cast with
      | some type => conversion type call
      | none => call
    let t ← codeNameOf target
    return [indent depth ++ t ++ "=" ++ v]
  | .print arguments => do
    let a ← argumentList arguments
    return [indent depth ++ printer ++ "(" ++ a ++ ")"]
  | .plot arguments => do
    let a ← argumentList arguments
    return [indent depth ++ library ++ ".plot(" ++ a ++ ")"]
  | .ifThen condition body => do
    let c ← expr condition
    let b ← stmts (depth + 1) body
    return (indent depth ++ "if " ++ c ++ ":") :: b
  | .ifThenElse condition body otherwise => do
    let c ← expr condition
    let b ← stmts (depth + 1) body
    let o ← stmts (depth + 1) otherwise
    return (indent depth ++ "if " ++ c ++ ":") :: b ++ (indent depth ++ "else:") :: o
  | .whileLoop condition body => do
    let c ← expr condition
    let b ← stmts (depth + 1) body
    return (indent depth ++ "while " ++ c ++ ":") :: b
termination_by structural s => s

/-- The lines of some statements inside `depth` blocks. -/
def stmts (depth : Nat) : List Stmt → Emit (List String)
  | [] => return []
  | s :: ss => do
    let first ← stmt depth s
    return first ++ (← stmts depth ss)
termination_by structural ss => ss

end

/-- The names that the last line takes out of the interpreter. -/
def released (table : NameTable) : List String :=
  [library, printer, reader] ++ table.codeNames

/-- The last line of a program's code. -/
def teardown (table : NameTable) : String :=
  "[globals().pop(_k,None) for _k in (" ++
    ",".intercalate ((released table).map fun n => "\"" ++ n ++ "\"") ++ ",)]"

/-- The first lines of a program's code; `x` is the free variable's name in it. -/
def preamble (x : String) : List String :=
  ["import sympy as " ++ library,
   printer ++ "=print",
   reader ++ "=input",
   x ++ "=" ++ library ++ ".Symbol(\"" ++ freeVariable ++ "\")"]

/-- The lines of a program's code. -/
def programLines (p : Program) : Emit (List String) := do
  let x ← codeNameOf freeVariable
  let body ← stmts 0 p.statements
  return preamble x ++ body ++ [teardown (← get)]

/-- Lines as one text, without a break behind the last. -/
def joinLines (lines : List String) : String :=
  "\n".intercalate lines

end MathScript.Code

namespace MathScript

/-- The code of an expression, and the table with the slots it gave out. -/
def Expr.emit (e : Expr) (table : NameTable) : String × NameTable :=
  Code.expr e table

/-- The code of a statement, and the table with the slots it gave out. -/
def Stmt.emit (s : Stmt) (table : NameTable) : String × NameTable :=
  (Code.joinLines <$> Code.stmt 0 s) table

namespace Program

/-- The code of a program, and the table with the slots it gave out. -/
def emit (p : Program) (table : NameTable) : String × NameTable :=
  (Code.joinLines <$> Code.programLines p) table

/-- The code of a program, by the slots of its own declarations. -/
def code (p : Program) : String :=
  (p.emit p.declared).1

/-- Whether two programs have the same code. -/
def sameCode (p q : Program) : Bool :=
  p.code = q.code

end Program
end MathScript
