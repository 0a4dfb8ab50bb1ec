import MathScript.Program.Basic

/-!
# Equality of programs

Statements hold lists of statements, so their structural equality is decided by
a comparison written out here; `Stmt.same_iff` says that it decides equality,
and the instances for statements and programs follow.
-/

namespace MathScript

mutual

/-- Whether two statements agree part by part. -/
def Stmt.same : Stmt → Stmt → Bool
  | .assignment t e, .assignment t' e' => t = t' && e = e'
  | .input t p c, .input t' p' c' => t = t' && p = p' && c = c'
  | .print es, .print es' => es = es'
  | .plot es, .plot es' => es = es'
  | .ifThen c b, .ifThen c' b' => c = c' && sameStmts b b'
  | .ifThenElse c b o, .ifThenElse c' b' o' => c = c' && sameStmts b b' && sameStmts o o'
  | .whileLoop c b, .whileLoop c' b' => c = c' && sameStmts b b'
  | _, _ => false
termination_by structural s => s

/-- Whether two lists of statements agree place by place. -/
def sameStmts : List Stmt → List Stmt → Bool
  | [], [] => true
  | s :: ss, s' :: ss' => s.same s' && sameStmts ss ss'
  | _, _ => false
termination_by structural ss => ss

end

mutual

theorem Stmt.same_iff : ∀ s s' : Stmt, s.same s' = true ↔ s = s'
  | .assignment .., s' => by cases s' <;> simp [Stmt.same]
  | .input .., s' => by cases s' <;> simp [Stmt.same, and_assoc]
  | .print _, s' => by cases s' <;> simp [Stmt.same]
  | .plot _, s' => by cases s' <;> simp [Stmt.same]
  | .ifThen _ b, s' => by cases s' <;> simp [Stmt.same, sameStmts_iff b]
  | .ifThenElse _ b o, s' => by
    cases s' <;> simp [Stmt.same, sameStmts_iff b, sameStmts_iff o, and_assoc]
  | .whileLoop _ b, s' => by cases s' <;> simp [Stmt.same, sameStmts_iff b]
termination_by structural s => s

theorem sameStmts_iff : ∀ ss ss' : List Stmt, sameStmts ss ss' = true ↔ ss = ss'
  | [], ss' => by cases ss' <;> simp [sameStmts]
  | s :: ss, ss' => by cases ss' <;> simp [sameStmts, Stmt.same_iff s, sameStmts_iff ss]
termination_by structural ss => ss

end

instance : DecidableEq Stmt := fun s s' =>
  decidable_of_iff (s.same s' = true) (Stmt.same_iff s s')

instance : DecidableEq Program := fun p q =>
  decidable_of_iff (p.statements = q.statements) (by cases p; cases q; simp)

end MathScript
