import MathScript.Program.Names

/-!
# Scope

A program declares the targets of its assignments and inputs, in program order,
and a name may be read once it is declared; the free variable always may.
Blocks open no scope of their own.  `Program.declared` is the table of the
declarations whether or not the reads are in order, `Program.resolve` the same
table if they are, and otherwise the first name read too early.
-/

namespace MathScript
namespace NameTable

/-- Checks some reads against a table: the first name it lacks is the error. -/
def admits (t : NameTable) (reads : List String) : Except String Unit :=
  match reads.find? fun n => !t.contains n with
  | some n => .error n
  | none => .ok ()

mutual

/-- Adds what a statement declares. -/
def addStmt (t : NameTable) : Stmt → NameTable
  | .assignment target _ => t.declare target
  | .input target _ _ => t.declare target
  | .print _ | .plot _ => t
  | .ifThen _ body => t.addStmts body
  | .ifThenElse _ body otherwise => (t.addStmts body).addStmts otherwise
  | .whileLoop _ body => t.addStmts body
termination_by structural s => s

/-- Adds what some statements declare. -/
def addStmts (t : NameTable) : List Stmt → NameTable
  | [] => t
  | s :: ss => (t.addStmt s).addStmts ss
termination_by structural ss => ss

end

mutual

/-- Adds what a statement declares, if it reads nothing before its time.  A
statement's expressions are read before its target is declared and before its
blocks. -/
def resolveStmt (t : NameTable) : Stmt → Except String NameTable
  | .assignment target value => do
    t.admits value.reads
    return t.declare target
  | .input target prompt _ => do
    t.admits ((prompt.map Expr.reads).getD [])
    return t.declare target
  | .print arguments | .plot arguments => do
    t.admits (arguments.flatMap Expr.reads)
    return t
  | .ifThen condition body => do
    t.admits condition.reads
    t.resolveStmts body
  | .ifThenElse condition body otherwise => do
    t.admits condition.reads
    (← t.resolveStmts body).resolveStmts otherwise
  | .whileLoop condition body => do
    t.admits condition.reads
    t.resolveStmts body
termination_by structural s => s

/-- Adds what some statements declare, if they read nothing before its time. -/
def resolveStmts (t : NameTable) : List Stmt → Except String NameTable
  | [] => .ok t
  | s :: ss => do (← t.resolveStmt s).resolveStmts ss
termination_by structural ss => ss

end
end NameTable

namespace Program

/-- The free variable and the names a program declares, in program order. -/
def declared (p : Program) : NameTable :=
  NameTable.fresh.addStmts p.statements

/-- The table of a program that declares every name before it reads it, or the
first name read too early. -/
def resolve (p : Program) : Except String NameTable :=
  NameTable.fresh.resolveStmts p.statements

end Program
end MathScript
