import MathScript.Grammar.Expression
import MathScript.Program.Equality

/-!
# Reading programs

The statements, and programs as sequences of them.  A target is declared once
its statement has been read up to the end of what it may read itself, and the
interrupt is asked before every statement, nested ones included.

As with expressions, a statement is written over the blocks inside it, and
`block` closes the recursion on how many more blocks may open.
-/

namespace MathScript
namespace Grammar

/-- Further expressions, each behind a comma.  The tokens `ahead` when the loop
starts outlast it, since each round takes one. -/
def moreArguments : (ahead : List Token) → Step (List Expr)
  | [] => return []
  | _ :: ahead => do
    if ← isAt .comma then
      let _ ← advance
      let e ← expression
      return e.expr :: (← moreArguments ahead)
    else return []

/-- Expressions between commas. -/
def arguments : Step (List Expr) := do
  let first ← expression
  return first.expr :: (← moreArguments (← get).tokens)

/-- Further statements, until `stop` stands ahead.  The tokens `ahead` when the
loop starts outlast it; where they are used up no statement can follow, and one
is tried all the same, to fail. -/
def moreStatements (statement : Step Stmt) (stop : Option TokenKind) :
    (ahead : List Token) → Step (List Stmt)
  | [] => do
    if (← peek) = stop then return []
    else return [← statement]
  | _ :: ahead => do
    if (← peek) = stop then return []
    else
      let s ← statement
      return s :: (← moreStatements statement stop ahead)

/-- One or more statements, up to `stop`. -/
def statements (statement : Step Stmt) (stop : Option TokenKind) : Step (List Stmt) := do
  let first ← statement
  return first :: (← moreStatements statement stop (← get).tokens)

/-- A condition in parentheses. -/
def condition : Step Expr := do
  let _ ← consume .leftParen
  let e ← expression
  let _ ← consume .rightParen
  return e.expr

/-- An input, from its `IN` on. -/
def input : Step Stmt := do
  let _ ← consume .inWord
  let prompt ← do
    if ← isAt .greater then pure none else pure (some (← prompt).expr)
  let _ ← consume .greater
  let target ← consume .identifier
  let cast ← do
    if ← isAt .asWord then
      let _ ← advance
      pure (some (← word castType?))
    else pure none
  declare target.text
  return .input target.text prompt cast

/-- A statement that ends in a semicolon, without it. -/
def simple : Step Stmt := do
  match ← peek with
  | some .identifier =>
    let target ← advance
    let _ ← consume .assign
    let e ← value
    declare target.text
    return .assignment target.text e.expr
  | some .print =>
    let _ ← advance
    return .print (← arguments)
  | some .plot =>
    let _ ← advance
    return .plot (← arguments)
  | some .inWord => input
  | _ => refuse

/-- A statement; `block` reads the blocks inside it. -/
def statementOf (interrupt : Interrupt) (block : Step (List Stmt)) : Step Stmt := do
  consult interrupt
  match ← peek with
  | some .ifWord =>
    let _ ← advance
    let c ← condition
    let body ← block
    if ← isAt .elseWord then
      let _ ← advance
      return .ifThenElse c body (← block)
    else return .ifThen c body
  | some .whileWord =>
    let _ ← advance
    let c ← condition
    return .whileLoop c (← block)
  | _ =>
    let s ← simple
    let _ ← consume .semicolon
    return s

/-- A single statement, or one or more in braces. -/
def blockOf (statement : Step Stmt) : Step (List Stmt) := nested do
  descend
  let body ← do
    if ← isAt .leftBrace then
      let _ ← advance
      let ss ← statements statement (some .rightBrace)
      let _ ← advance
      pure ss
    else pure [← statement]
  ascend
  return body

/-- A block inside which at most `n` more blocks may open. -/
def block (interrupt : Interrupt) : (n : Nat) → Step (List Stmt)
  | 0 => refuseDepth
  | n + 1 => blockOf (statementOf interrupt (block interrupt n))

/-- A statement. -/
def statement (interrupt : Interrupt) : Step Stmt :=
  statementOf interrupt (block interrupt maxDepth)

/-- A whole program: statements up to the end. -/
def program (interrupt : Interrupt) : Step Program := do
  return ⟨← statements (statement interrupt) none⟩

end Grammar

/-- What a source text was read as: a program, and the names it declares. -/
structure Parsed where
  program : Program
  names : NameTable
deriving DecidableEq, Repr

/-- The reading of a tape, with the cursor it leaves behind. -/
def Grammar.read (interrupt : Interrupt) (tape : Tape) :
    Except ParseError (Program × Grammar.Cursor) := do
  Grammar.program interrupt (← Cursor.ofTape tape)

/-- Reads a program, asking `interrupt` before every statement. -/
def parseUnder (interrupt : Interrupt) (source : String) : Except ParseError Parsed := do
  let (program, cursor) ← Grammar.read interrupt (Tape.ofString source)
  return ⟨program, cursor.names⟩

/-- Reads a program. -/
def parse (source : String) : Except ParseError Parsed :=
  parseUnder .never source

end MathScript
