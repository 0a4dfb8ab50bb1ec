import MathScript.Json.Printer
import MathScript.Program.Basic

/-!
# Records

Programs as JSON.  Every node, leaves included, is an object of two fields: its
tag under `type`, and its parts under `params`.  Because a name is a node of its
own, no text in a program can be taken for a name.
-/

namespace MathScript

namespace Record

/-- The tags of records. -/
inductive Tag where
  | program | assignment | input | print | plot | ifElse | whileLoop
  | number | text | name | binary | comparison | concat | evaluation | solve | cast
deriving DecidableEq, Repr, Inhabited

namespace Tag

def word : Tag → String
  | program => "Program"
  | assignment => "Assignment"
  | input => "Input"
  | print => "Print"
  | plot => "Plot"
  | ifElse => "If"
  | whileLoop => "While"
  | number => "Number"
  | text => "Text"
  | name => "Name"
  | binary => "BinaryOp"
  | comparison => "Comparison"
  | concat => "Concat"
  | evaluation => "Evaluation"
  | solve => "Solve"
  | cast => "Cast"

def all : List Tag :=
  [program, assignment, input, print, plot, ifElse, whileLoop, number, text, name, binary,
    comparison, concat, evaluation, solve, cast]

/-- The tag that is written as `word`. -/
def ofWord? (word : String) : Option Tag :=
  all.find? fun t => t.word = word

end Tag

/-- The record of a node; its parts come in the order of their keys. -/
def node (tag : Tag) (params : List (String × Json)) : Json :=
  .object [("params", .object params), ("type", .string tag.word)]

end Record

open Record

/-- The record of an expression. -/
def Expr.record : Expr → Json
  | .number written => node .number [("value", .string written)]
  | .text contents => node .text [("value", .string contents)]
  | .name n => node .name [("name", .string n)]
  | .binary left op right =>
    node .binary [("left", left.record), ("op", .string op.symbol), ("right", right.record)]
  | .comparison left op right =>
    node .comparison [("left", left.record), ("op", .string op.symbol), ("right", right.record)]
  | .concat left right padded =>
    node .concat [("left", left.record), ("padded", .bool padded), ("right", right.record)]
  | .evaluation function argument =>
    node .evaluation [("expr", argument.record), ("name", .string function)]
  | .solve equation domain =>
    node .solve [("domain", .string domain.keyword), ("expr", equation.record)]
  | .cast inner type =>
    node .cast [("expr", inner.record), ("type", .string type.keyword)]

namespace Record

/-- What may be missing, as `null` if it is. -/
def optional {α : Type} (record : α → Json) : Option α → Json
  | some a => record a
  | none => .null

/-- Records of expressions as an array. -/
def exprs (es : List Expr) : Json :=
  .array (es.map Expr.record)

end Record

mutual

/-- The record of a statement. -/
def Stmt.record : Stmt → Json
  | .assignment target value =>
    node .assignment [("expr", value.record), ("name", .string target)]
  | .input target prompt cast =>
    node .input [("cast", optional (fun t => .string t.keyword) cast), ("name", .string target),
      ("prompt", optional Expr.record prompt)]
  | .print arguments => node .print [("args", exprs arguments)]
  | .plot arguments => node .plot [("args", exprs arguments)]
  | .ifThen condition body =>
    node .ifElse [("condition", condition.record), ("false_block", .null),
      ("true_block", .array (Record.stmts body))]
  | .ifThenElse condition body otherwise =>
    node .ifElse [("condition", condition.record), ("false_block", .array (Record.stmts otherwise)),
      ("true_block", .array (Record.stmts body))]
  | .whileLoop condition body =>
    node .whileLoop [("code_block", .array (Record.stmts body)), ("condition", condition.record)]
termination_by structural s => s

/-- The records of statements. -/
def Record.stmts : List Stmt → List Json
  | [] => []
  | s :: ss => s.record :: Record.stmts ss
termination_by structural ss => ss

end

namespace Program

/-- The record of a program. -/
def record (p : Program) : Json :=
  node .program [("stmts", .array (Record.stmts p.statements))]

/-- The record of a program as text, without white space. -/
def toText (p : Program) : String :=
  p.record.compact

/-- The record of a program as indented text. -/
def toPrettyText (p : Program) : String :=
  p.record.pretty

end Program
end MathScript
