import MathScript.Proofs.Token.Reserved

/-!
# What source can express

The tree holds more than the grammar builds, also among the programs that records
admit.  Source cannot express

* a name that spells a keyword;
* a string with a quote or a line break in it;
* strings joined without a space where neither side is a string by its form, and `+` as
  an operation on numbers where one is, short of a sign in front of it;
* strings joined with a space, other than by the commas of an assigned value, where each
  stands behind a string, or of a prompt.

`Program.Expressible` says that a program is free of all these.
-/

namespace MathScript

namespace Expr

/-- Source can express the expression anywhere. -/
def Plain : Expr → Prop
  | number _ => True
  | text s => IsQuotable s.toList
  | name n => ¬IsReserved n
  | binary l op r =>
    l.Plain ∧ r.Plain ∧
      (op = .add → l = .number "0" ∨ (l.isString = false ∧ r.isString = false))
  | comparison l _ r => l.Plain ∧ r.Plain
  | concat l r padded =>
    l.Plain ∧ r.Plain ∧ padded = false ∧ (l.isString = true ∨ r.isString = true)
  | evaluation f e => ¬IsReserved f ∧ e.Plain
  | solve e _ | cast e _ => e.Plain

/-- Plain expressions between commas, each comma behind what satisfies `L`. -/
def Joined (L : Expr → Prop) : Expr → Prop
  | concat l r true => L l ∧ l.Joined L ∧ r.Plain
  | e => e.Plain

/-- Source can express the expression as an assigned value. -/
def IsValue (e : Expr) : Prop :=
  e.Joined fun l => l.isString = true

/-- Source can express the expression as a prompt. -/
def IsPrompt (e : Expr) : Prop :=
  e.Joined fun _ => True

theorem Plain.joined {e : Expr} (h : e.Plain) (L : Expr → Prop) : e.Joined L := by
  unfold Joined
  split
  · cases h.2.2.1
  · exact h

end Expr

mutual

/-- Source can express the statement. -/
def Stmt.Expressible : Stmt → Prop
  | .assignment target value => ¬IsReserved target ∧ value.IsValue
  | .input target prompt _ => ¬IsReserved target ∧ ∀ e ∈ prompt, e.IsPrompt
  | .print es | .plot es => ∀ e ∈ es, e.Plain
  | .ifThen c b | .whileLoop c b => c.Plain ∧ Stmt.AllExpressible b
  | .ifThenElse c b o => c.Plain ∧ Stmt.AllExpressible b ∧ Stmt.AllExpressible o
termination_by structural s => s

/-- Source can express each of the statements. -/
def Stmt.AllExpressible : List Stmt → Prop
  | [] => True
  | s :: ss => s.Expressible ∧ Stmt.AllExpressible ss
termination_by structural ss => ss

end

/-- **Source can express the program**, as far as names, strings and their joints go. -/
def Program.Expressible (p : Program) : Prop :=
  Stmt.AllExpressible p.statements

end MathScript
