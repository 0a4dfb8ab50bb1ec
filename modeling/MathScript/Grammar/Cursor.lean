import MathScript.Interrupt
import MathScript.Program.Names
import MathScript.Token.Tape

/-!
# Reading from a token tape

The state of a reading of a program, the ways in which a reading fails, and the
moves that every rule of the grammar is made of.

A reading sees one token ahead.  Consuming a token looks at the one behind it,
so a place where no token starts is reported as soon as the token in front of
it is consumed, before anything is said about that token.

Two counters keep the tree shallow.  `depth` counts the blocks, parentheses and
signs that are open; `level` is the level of the statement being read, 1 outside
all blocks.  A node is built only where its level and its height together stay
within `maxDepth`.
-/

namespace MathScript

/-- Why a source text is not a program, or why its reading was called off. -/
inductive ParseError where
  | lexical (e : Unrecognised)
  | invalidToken (text : String) (line : Nat)
  | unexpectedEnd
  | undefinedName (name : String) (line : Nat)
  | nestingTooDeep (line : Nat)
  | interrupted (reason : Interrupted)
deriving DecidableEq, Repr, Inhabited

namespace ParseError

def message : ParseError → String
  | lexical e => e.message
  | invalidToken text line => "Invalid token: '" ++ text ++ "' at line " ++ toString line
  | unexpectedEnd => "Unexpected end of input"
  | undefinedName name line => "Undefined name '" ++ name ++ "' at line " ++ toString line
  | nestingTooDeep line => "Nesting too deep at line " ++ toString line
  | interrupted reason => reason.message

/-- The line an error points at, if it points at one. -/
def line? : ParseError → Option Nat
  | lexical e => some e.line
  | invalidToken _ line | undefinedName _ line | nestingTooDeep line => some line
  | unexpectedEnd | interrupted _ => none

end ParseError

namespace Grammar

/-- How far a reading has come. -/
structure Cursor where
  /-- The tokens ahead; the first of them is the lookahead. -/
  tokens : List Token
  ending : Ending
  /-- What has been declared so far. -/
  names : NameTable
  /-- How often the interrupt was asked. -/
  checks : Nat
  depth : Nat
  level : Nat
deriving DecidableEq, Repr

/-- A part of a reading: it fails, or gives a result and moves the cursor. -/
abbrev Step (α : Type) := StateT Cursor (Except ParseError) α

/-- An expression under construction, with its height in nodes. -/
structure Node where
  expr : Expr
  height : Nat
deriving DecidableEq, Repr

namespace Cursor

/-- The kind of the lookahead, `none` at the end. -/
def kind? (c : Cursor) : Option TokenKind :=
  c.tokens.head?.map Token.kind

/-- The line of the lookahead, or of the end. -/
def line (c : Cursor) : Nat :=
  match c.tokens with
  | t :: _ => t.line
  | [] => c.ending.line

/-- The lookahead is not what the grammar wants here. -/
def unexpected (c : Cursor) : ParseError :=
  match c.tokens with
  | t :: _ => .invalidToken t.text t.line
  | [] => .unexpectedEnd

end Cursor

/-- A cursor in front of a tape, unless the tape fails at once. -/
def Cursor.ofTape (tape : Tape) : Except ParseError Cursor :=
  match tape.tokens, tape.ending with
  | [], .unrecognised e => .error (.lexical e)
  | tokens, ending => .ok ⟨tokens, ending, NameTable.fresh, 0, 0, 1⟩

/-- The kind of the lookahead. -/
def peek : Step (Option TokenKind) := do
  return (← get).kind?

/-- Whether the lookahead has this kind. -/
def isAt (kind : TokenKind) : Step Bool := do
  return (← peek) = some kind

/-- Fails at the lookahead. -/
def refuse {α : Type} : Step α := do
  throw (← get).unexpected

/-- Fails because of the nesting at the lookahead. -/
def refuseDepth {α : Type} : Step α := do
  throw (.nestingTooDeep (← get).line)

/-- Consumes the lookahead and looks at what follows. -/
def advance : Step Token := do
  let c ← get
  match c.tokens, c.ending with
  | [], _ => throw .unexpectedEnd
  | [_], .unrecognised e => throw (.lexical e)
  | t :: rest, _ =>
    set { c with tokens := rest }
    return t

/-- Consumes a lookahead of this kind, and fails at any other. -/
def consume (kind : TokenKind) : Step Token := do
  if ← isAt kind then advance else refuse

/-- Asks the interrupt whether to go on. -/
def consult (interrupt : Interrupt) : Step Unit := do
  let c ← get
  set { c with checks := c.checks + 1 }
  match interrupt.check c.checks with
  | some reason => throw (.interrupted reason)
  | none => return

/-- Opens a block, a parenthesis or a sign. -/
def openNesting : Step Unit := do
  modify fun c => { c with depth := c.depth + 1 }
  if (← get).depth > maxDepth then refuseDepth

/-- Closes what `openNesting` opened. -/
def closeNesting : Step Unit :=
  modify fun c => { c with depth := c.depth - 1 }

/-- Runs a step one nesting further in. -/
def nested {α : Type} (step : Step α) : Step α := do
  openNesting
  let a ← step
  closeNesting
  return a

/-- Goes down to the statements of a block. -/
def descend : Step Unit := do
  modify fun c => { c with level := c.level + 1 }
  if (← get).level > maxDepth then refuseDepth

/-- Comes back from the statements of a block. -/
def ascend : Step Unit :=
  modify fun c => { c with level := c.level - 1 }

/-- Adds a name to the table. -/
def declare (name : String) : Step Unit :=
  modify fun c => { c with names := c.names.declare name }

/-- Fails unless the name in `t` is declared. -/
def checkDeclared (t : Token) : Step Unit := do
  unless (← get).names.contains t.text do
    throw (.undefinedName t.text t.line)

/-- A node one above its tallest child. -/
def place (expr : Expr) (childHeight : Nat) : Step Node := do
  if (← get).level + (childHeight + 1) > maxDepth then refuseDepth
  return ⟨expr, childHeight + 1⟩

/-- A node without children. -/
def placeLeaf (expr : Expr) : Step Node :=
  place expr 0

/-- A node over one child. -/
def placeOver (inner : Node) (build : Expr → Expr) : Step Node :=
  place (build inner.expr) inner.height

/-- A node over two children. -/
def placeOverBoth (left right : Node) (build : Expr → Expr → Expr) : Step Node :=
  place (build left.expr right.expr) (max left.height right.height)

end Grammar
end MathScript
