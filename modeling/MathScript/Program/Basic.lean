import MathScript.Program.Keyword

/-!
# Programs

Expressions, statements and programs, their depth, and the two static facts
about an expression that the grammar and the scope rules ask for: whether it is
a string, and which names it reads.

The types hold any text as a name or a number and any list as a block; what a
program read from source satisfies beyond that is said where it is read.
Equality is structural.
-/

namespace MathScript

/-- An expression. -/
inductive Expr where
  /-- A number, as it was written. -/
  | number (text : String)
  /-- The contents of a string literal. -/
  | text (contents : String)
  | name (name : String)
  | binary (left : Expr) (op : ArithOp) (right : Expr)
  | comparison (left : Expr) (op : CompareOp) (right : Expr)
  /-- Two strings joined, with a space between them if `padded`. -/
  | concat (left right : Expr) (padded : Bool)
  /-- The expression `function` names, at `argument` in place of the free variable. -/
  | evaluation (function : String) (argument : Expr)
  | solve (equation : Expr) (domain : Domain)
  | cast (inner : Expr) (type : CastType)
deriving DecidableEq, Repr, Inhabited

namespace Expr

/-- Whether an expression is a string by its form alone. -/
def isString : Expr → Bool
  | text _ | concat .. | cast _ .string => true
  | _ => false

/-- The number of nodes on the longest way down. -/
def depth : Expr → Nat
  | number _ | text _ | name _ => 1
  | binary l _ r | comparison l _ r | concat l r _ => 1 + max l.depth r.depth
  | evaluation _ e | solve e _ | cast e _ => 1 + e.depth

/-- The names an expression reads, from left to right, each as often as it is
read. -/
def reads : Expr → List String
  | number _ | text _ => []
  | name n => [n]
  | binary l _ r | comparison l _ r | concat l r _ => l.reads ++ r.reads
  | evaluation f e => f :: e.reads
  | solve e _ | cast e _ => e.reads

end Expr

/-- The depth of the deepest of some expressions, 0 if there is none. -/
def maxExprDepth : List Expr → Nat
  | [] => 0
  | e :: es => max e.depth (maxExprDepth es)

/-- A statement. -/
inductive Stmt where
  | assignment (target : String) (value : Expr)
  | input (target : String) (prompt : Option Expr) (cast : Option CastType)
  | print (arguments : List Expr)
  | plot (arguments : List Expr)
  | ifThen (condition : Expr) (body : List Stmt)
  | ifThenElse (condition : Expr) (body otherwise : List Stmt)
  | whileLoop (condition : Expr) (body : List Stmt)
deriving Repr, Inhabited

mutual

/-- The number of nodes on the longest way down, the statement included. -/
def Stmt.depth : Stmt → Nat
  | .assignment _ e => 1 + e.depth
  | .input _ prompt _ => 1 + (prompt.map Expr.depth).getD 0
  | .print es | .plot es => 1 + maxExprDepth es
  | .ifThen c b => 1 + max c.depth (maxStmtDepth b)
  | .ifThenElse c b o => 1 + max c.depth (max (maxStmtDepth b) (maxStmtDepth o))
  | .whileLoop c b => 1 + max c.depth (maxStmtDepth b)
termination_by structural s => s

/-- The depth of the deepest of some statements, 0 if there is none. -/
def maxStmtDepth : List Stmt → Nat
  | [] => 0
  | s :: ss => max s.depth (maxStmtDepth ss)
termination_by structural ss => ss

end

/-- A program: statements in order. -/
structure Program where
  statements : List Stmt
deriving Repr, Inhabited

/-- The levels of nodes below the root. -/
def Program.depth (p : Program) : Nat :=
  maxStmtDepth p.statements

/-- The deepest program there is in source or in records.  Its record nests no
more than `3 * 40 + 2` containers of JSON, and a reader of JSON takes 127. -/
def maxDepth : Nat := 40

end MathScript
