import Mathlib
import MathScript.Program.Scope

/-!
# Mentions of names

A program mentions names by reading them and by declaring them.  `Stmt.mentions`
lists the mentions in program order: what a statement reads in its expressions
comes before its target and before its blocks.

* `firstUndeclared`: the first thing read that is not declared by then.  It works
  over names as well as over whatever carries a name, such as a token.
* `resolveStmt_eq`: **the scope rules decide by the mentions alone**; a statement
  is refused for the first name read too early, and otherwise leaves the table
  with its declarations.
-/

namespace MathScript

/-- A place where something that carries a name is read or declared. -/
inductive Mention (α : Type) where
  | read (a : α)
  | declare (a : α)
deriving DecidableEq, Repr

/-- A mention of the image. -/
def Mention.map {α β : Type} (f : α → β) : Mention α → Mention β
  | .read a => .read (f a)
  | .declare a => .declare (f a)

/-- What is read or declared. -/
def Mention.subject {α : Type} : Mention α → α
  | .read a | .declare a => a

namespace NameTable

section Mentions

variable {α : Type} (name : α → String)

/-- The first thing read whose name is neither in the table nor declared before. -/
def firstUndeclared (t : NameTable) : List (Mention α) → Option α
  | [] => none
  | .read a :: ms => if t.contains (name a) then t.firstUndeclared ms else some a
  | .declare a :: ms => (t.declare (name a)).firstUndeclared ms

/-- The table with everything declared. -/
def after (t : NameTable) : List (Mention α) → NameTable
  | [] => t
  | .read _ :: ms => t.after ms
  | .declare a :: ms => (t.declare (name a)).after ms

/-! ## Sequences of mentions -/

theorem after_append (t : NameTable) (ms ns : List (Mention α)) :
    t.after name (ms ++ ns) = (t.after name ms).after name ns := by
  induction ms generalizing t with
  | nil => rfl
  | cons m ms ih =>
    cases m with
    | read a => exact ih t
    | declare a => exact ih (t.declare (name a))

theorem firstUndeclared_append (t : NameTable) (ms ns : List (Mention α)) :
    t.firstUndeclared name (ms ++ ns) =
      (t.firstUndeclared name ms).or ((t.after name ms).firstUndeclared name ns) := by
  induction ms generalizing t with
  | nil => rfl
  | cons m ms ih =>
    cases m with
    | read a =>
      simp only [List.cons_append, firstUndeclared, after]
      split
      · exact ih t
      · rfl
    | declare a => exact ih (t.declare (name a))

theorem after_reads (t : NameTable) (as : List α) : t.after name (as.map .read) = t := by
  induction as with
  | nil => rfl
  | cons a as ih => exact ih

theorem firstUndeclared_reads (t : NameTable) (as : List α) :
    t.firstUndeclared name (as.map .read) = as.find? fun a => !t.contains (name a) := by
  induction as with
  | nil => rfl
  | cons a as ih =>
    rw [List.map_cons, firstUndeclared, List.find?_cons, ih]
    cases t.contains (name a) <;> rfl

/-- Declarations alone are never too late. -/
theorem firstUndeclared_of_no_reads (t : NameTable) {ms : List (Mention α)}
    (h : ∀ a, .read a ∉ ms) : t.firstUndeclared name ms = none := by
  induction ms generalizing t with
  | nil => rfl
  | cons m ms ih =>
    have htail (a : α) : .read a ∉ ms := fun hmem => h a (List.mem_cons_of_mem _ hmem)
    cases m with
    | read a => exact absurd List.mem_cons_self (h a)
    | declare a => exact ih _ htail

theorem mem_of_firstUndeclared {name : α → String} {t : NameTable} {ms : List (Mention α)} {a : α}
    (h : t.firstUndeclared name ms = some a) : .read a ∈ ms := by
  induction ms generalizing t with
  | nil => cases h
  | cons m ms ih =>
    cases m with
    | read b =>
      rw [firstUndeclared] at h
      split at h
      · exact List.mem_cons_of_mem _ (ih h)
      · cases h
        exact List.mem_cons_self
    | declare b => exact List.mem_cons_of_mem _ (ih h)

/-- Nothing but the names of what is mentioned matters. -/
theorem firstUndeclared_map (t : NameTable) (ms : List (Mention α)) :
    t.firstUndeclared id (ms.map (Mention.map name)) = (t.firstUndeclared name ms).map name := by
  induction ms generalizing t with
  | nil => rfl
  | cons m ms ih =>
    cases m with
    | read a =>
      simp only [List.map_cons, Mention.map, firstUndeclared, id_eq]
      split
      · exact ih t
      · rfl
    | declare a => exact ih (t.declare (name a))

theorem after_map (t : NameTable) (ms : List (Mention α)) :
    t.after id (ms.map (Mention.map name)) = t.after name ms := by
  induction ms generalizing t with
  | nil => rfl
  | cons m ms ih =>
    cases m with
    | read a => exact ih t
    | declare a => exact ih (t.declare (name a))

end Mentions

end NameTable

/-! ## The mentions of a program -/

mutual

/-- What a statement mentions, in program order. -/
def Stmt.mentions : Stmt → List (Mention String)
  | .assignment target value => value.reads.map .read ++ [.declare target]
  | .input target prompt _ => ((prompt.map Expr.reads).getD []).map .read ++ [.declare target]
  | .print es | .plot es => (es.flatMap Expr.reads).map .read
  | .ifThen c b => c.reads.map .read ++ mentionsOf b
  | .ifThenElse c b o => c.reads.map .read ++ (mentionsOf b ++ mentionsOf o)
  | .whileLoop c b => c.reads.map .read ++ mentionsOf b
termination_by structural s => s

/-- What some statements mention, in program order. -/
def mentionsOf : List Stmt → List (Mention String)
  | [] => []
  | s :: ss => s.mentions ++ mentionsOf ss
termination_by structural ss => ss

end

/-- What a program mentions, in program order. -/
def Program.mentions (p : Program) : List (Mention String) :=
  mentionsOf p.statements

/-- The names a program reads and declares, each as often as it does. -/
def Program.names (p : Program) : List String :=
  p.mentions.map Mention.subject

namespace NameTable

mutual

theorem addStmt_eq : ∀ (t : NameTable) (s : Stmt), t.addStmt s = t.after id s.mentions
  | t, .assignment _ _ => by rw [Stmt.mentions, after_append, after_reads]; rfl
  | t, .input _ _ _ => by rw [Stmt.mentions, after_append, after_reads]; rfl
  | t, .print _ => by rw [Stmt.mentions, after_reads]; rfl
  | t, .plot _ => by rw [Stmt.mentions, after_reads]; rfl
  | t, .ifThen _ b => by rw [Stmt.mentions, after_append, after_reads, addStmt, addStmts_eq t b]
  | t, .ifThenElse _ b o => by
    rw [Stmt.mentions, after_append, after_reads, after_append, addStmt, addStmts_eq t b,
      addStmts_eq _ o]
  | t, .whileLoop _ b => by rw [Stmt.mentions, after_append, after_reads, addStmt, addStmts_eq t b]
termination_by structural _ s => s

/-- **The declarations of a program are those among its mentions.** -/
theorem addStmts_eq : ∀ (t : NameTable) (ss : List Stmt), t.addStmts ss = t.after id (mentionsOf ss)
  | _, [] => rfl
  | t, s :: ss => by rw [mentionsOf, after_append, addStmts, addStmt_eq t s, addStmts_eq _ ss]
termination_by structural _ ss => ss

end

/-- The table after some mentions, or the first name read too early. -/
def check (t : NameTable) (ms : List (Mention String)) : Except String NameTable :=
  match t.firstUndeclared id ms with
  | some n => .error n
  | none => .ok (t.after id ms)

theorem check_append (t : NameTable) (ms ns : List (Mention String)) :
    t.check (ms ++ ns) = t.check ms >>= fun t => t.check ns := by
  simp only [check, firstUndeclared_append, after_append]
  cases t.firstUndeclared id ms <;> rfl

theorem admits_eq (t : NameTable) (names : List String) :
    (t.admits names >>= fun _ => .ok t) = t.check (names.map .read) := by
  rw [check, firstUndeclared_reads, after_reads, admits]
  show (match names.find? fun n => !t.contains n with | some n => _ | none => _) >>= _ = _
  simp only [id_eq]
  cases names.find? fun n => !t.contains n <;> rfl

/-- What is done once some reads are admitted. -/
theorem admits_bind {β : Type} (t : NameTable) (names : List String)
    (f : NameTable → Except String β) :
    (t.admits names >>= fun _ => f t) = t.check (names.map .read) >>= f := by
  rw [← admits_eq]
  cases t.admits names <;> rfl

mutual

/-- **The scope rules decide by the mentions alone.** -/
theorem resolveStmt_eq : ∀ (t : NameTable) (s : Stmt), t.resolveStmt s = t.check s.mentions
  | t, .assignment target value => by
    rw [Stmt.mentions, check_append, ← admits_bind]
    rfl
  | t, .input target prompt _ => by
    rw [Stmt.mentions, check_append, ← admits_bind]
    rfl
  | t, .print es => by
    rw [Stmt.mentions, ← admits_eq]
    rfl
  | t, .plot es => by
    rw [Stmt.mentions, ← admits_eq]
    rfl
  | t, .ifThen c b => by
    rw [Stmt.mentions, check_append, ← admits_bind]
    exact congrArg _ (funext fun _ => resolveStmts_eq t b)
  | t, .ifThenElse c b o => by
    rw [Stmt.mentions, check_append, ← admits_bind]
    refine congrArg (t.admits c.reads >>= ·) (funext fun _ => ?_)
    rw [check_append, ← resolveStmts_eq t b]
    exact congrArg _ (funext fun t => resolveStmts_eq t o)
  | t, .whileLoop c b => by
    rw [Stmt.mentions, check_append, ← admits_bind]
    exact congrArg _ (funext fun _ => resolveStmts_eq t b)
termination_by structural _ s => s

theorem resolveStmts_eq : ∀ (t : NameTable) (ss : List Stmt),
    t.resolveStmts ss = t.check (mentionsOf ss)
  | _, [] => rfl
  | t, s :: ss => by
    rw [mentionsOf, check_append, resolveStmts, resolveStmt_eq t s]
    exact congrArg _ (funext fun t => resolveStmts_eq t ss)
termination_by structural _ ss => ss

end

end NameTable

namespace Program

theorem declared_eq (p : Program) : p.declared = NameTable.fresh.after id p.mentions :=
  NameTable.addStmts_eq NameTable.fresh p.statements

theorem resolve_eq (p : Program) : p.resolve = NameTable.fresh.check p.mentions :=
  NameTable.resolveStmts_eq NameTable.fresh p.statements

/-- A program that keeps the scope rules reads no name before its time. -/
theorem firstUndeclared_of_resolve {p : Program} {t : NameTable} (h : p.resolve = .ok t) :
    NameTable.fresh.firstUndeclared id p.mentions = none := by
  rw [resolve_eq, NameTable.check] at h
  split at h
  · cases h
  · next hnone => exact hnone

/-- A program that declares its names in time leaves the table of its
declarations. -/
theorem eq_declared_of_resolve {p : Program} {t : NameTable} (h : p.resolve = .ok t) :
    t = p.declared := by
  have hnone := firstUndeclared_of_resolve h
  rw [resolve_eq, NameTable.check, hnone] at h
  rw [declared_eq]
  exact (Except.ok.inj h).symm

end Program
end MathScript
