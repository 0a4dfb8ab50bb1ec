import Mathlib
import MathScript.Code.Literal
import MathScript.Program.Scope
import MathScript.Record.Reader

/-!
# The shape of programs

The types of the tree hold any text as a name or a number and any list as a
block.  `Shaped N M` says what a program is like that came from somewhere: no
list of statements or arguments is empty, every name satisfies `N` and every
number satisfies `M`.

* `IsAsciiName`, `IsNumeral`: the names and numbers that records admit, said by
  their characters; `isIdentifier_iff` and `isNumber_iff` tie the two tests of
  the record reader to them.
* `Program.Admissible`: **the programs that records admit.**
-/

namespace MathScript

/-! ## Names and numbers -/

/-- A letter or an underscore, then at most 63 letters, digits and underscores,
all of them ASCII characters. -/
def IsAsciiName (text : String) : Prop :=
  ∃ c cs, text.toList = c :: cs ∧ (c = '_' ∨ c.isAlpha = true) ∧
    (∀ d ∈ cs, d = '_' ∨ d.isAlphanum = true) ∧ cs.length ≤ 63

theorem isIdentifier_iff (text : String) : Record.isIdentifier text = true ↔ IsAsciiName text := by
  unfold Record.isIdentifier IsAsciiName
  cases text.toList with
  | nil => simp
  | cons c cs =>
    simp only [Bool.and_eq_true, Bool.or_eq_true, beq_iff_eq, List.all_eq_true, decide_eq_true_eq]
    constructor
    · rintro ⟨⟨hc, hcs⟩, hlen⟩
      exact ⟨c, cs, rfl, hc, hcs, by omega⟩
    · rintro ⟨c', cs', he, hc, hcs, hlen⟩
      obtain ⟨rfl, rfl⟩ := List.cons.inj he
      exact ⟨⟨hc, hcs⟩, by omega⟩

/-- One or more digits. -/
def IsDigits (cs : List Char) : Prop :=
  cs ≠ [] ∧ ∀ c ∈ cs, c.isDigit = true

theorem isDigits_iff (cs : List Char) : Record.isDigits cs = true ↔ IsDigits cs := by
  simp [Record.isDigits, IsDigits]

instance (cs : List Char) : Decidable (IsDigits cs) :=
  decidable_of_iff _ (isDigits_iff cs)

/-- Digits, or digits, a point and digits. -/
def IsNumeral (text : String) : Prop :=
  ∃ whole, IsDigits whole ∧ (text.toList = whole ∨
    ∃ fraction, IsDigits fraction ∧ text.toList = whole ++ '.' :: fraction)

theorem IsDigits.no_point {cs : List Char} (h : IsDigits cs) : ∀ c ∈ cs, (c != '.') = true := by
  intro c hc
  have := h.2 c hc
  rw [bne_iff_ne]
  rintro rfl
  exact absurd this (by decide)

/-- Without a point there is nothing to split. -/
theorem splitPoint_of_no_point {cs : List Char} (h : ∀ c ∈ cs, (c != '.') = true) :
    Code.splitPoint cs = (cs, none) := by
  have hdrop : cs.dropWhile (· != '.') = [] := List.dropWhile_eq_nil_iff.mpr h
  rw [Code.splitPoint, hdrop]

/-- The first point splits. -/
theorem splitPoint_append {whole : List Char} (h : ∀ c ∈ whole, (c != '.') = true)
    (fraction : List Char) :
    Code.splitPoint (whole ++ '.' :: fraction) = (whole, some fraction) := by
  have hdrop : (whole ++ '.' :: fraction).dropWhile (· != '.') = '.' :: fraction := by
    rw [List.dropWhile_append_of_pos h, List.dropWhile_cons_of_neg (by decide)]
  have htake : (whole ++ '.' :: fraction).takeWhile (· != '.') = whole := by
    rw [List.takeWhile_append_of_pos h, List.takeWhile_cons_of_neg (by decide), List.append_nil]
  rw [Code.splitPoint, hdrop, htake]

/-- What splits has the two parts around a point. -/
theorem splitPoint_eq_some {cs whole fraction : List Char}
    (h : Code.splitPoint cs = (whole, some fraction)) : cs = whole ++ '.' :: fraction := by
  have hcs : cs.takeWhile (· != '.') ++ cs.dropWhile (· != '.') = cs :=
    List.takeWhile_append_dropWhile
  have hhead := List.head?_dropWhile_not (· != '.') cs
  rw [Code.splitPoint] at h
  cases hd : cs.dropWhile (· != '.') with
  | nil => simp [hd] at h
  | cons c rest =>
    simp only [hd, Prod.mk.injEq, Option.some.injEq] at h hhead hcs
    obtain ⟨rfl, rfl⟩ := h
    obtain rfl : c = '.' := by simpa using hhead
    exact hcs.symm

theorem splitPoint_eq_none {cs whole : List Char} (h : Code.splitPoint cs = (whole, none)) :
    cs = whole := by
  rw [Code.splitPoint] at h
  split at h
  · simp at h
  · exact (Prod.mk.inj h).1

theorem isNumber_iff (text : String) : Record.isNumber text = true ↔ IsNumeral text := by
  constructor
  · intro h
    unfold Record.isNumber at h
    split at h
    · next whole fraction hs =>
      simp only [Bool.and_eq_true, isDigits_iff] at h
      exact ⟨whole, h.1, Or.inr ⟨fraction, h.2, splitPoint_eq_some hs⟩⟩
    · next whole hs =>
      exact ⟨whole, (isDigits_iff whole).mp h, Or.inl (splitPoint_eq_none hs)⟩
  · rintro ⟨whole, hw, he | ⟨fraction, hf, he⟩⟩
    · rw [Record.isNumber, he, splitPoint_of_no_point hw.no_point]
      exact (isDigits_iff whole).mpr hw
    · rw [Record.isNumber, he, splitPoint_append hw.no_point]
      simp [isDigits_iff, hw, hf]

/-! ## Depths -/

theorem Expr.depth_pos (e : Expr) : 0 < e.depth := by
  cases e <;> rw [Expr.depth] <;> omega

theorem Stmt.depth_pos (s : Stmt) : 0 < s.depth := by
  cases s <;> rw [Stmt.depth] <;> omega

theorem depth_le_maxExprDepth : ∀ {es : List Expr} {e : Expr}, e ∈ es → e.depth ≤ maxExprDepth es
  | e' :: es, e, h => by
    rw [maxExprDepth]
    rcases List.mem_cons.mp h with rfl | h
    · omega
    · have := depth_le_maxExprDepth h
      omega

theorem depth_le_maxStmtDepth : ∀ {ss : List Stmt} {s : Stmt}, s ∈ ss → s.depth ≤ maxStmtDepth ss
  | s' :: ss, s, h => by
    rw [maxStmtDepth]
    rcases List.mem_cons.mp h with rfl | h
    · omega
    · have := depth_le_maxStmtDepth h
      omega

/-! ## Shapes -/

section Shapes

variable (N M : String → Prop)

/-- Every name of an expression satisfies `N` and every number `M`. -/
def Expr.Shaped : Expr → Prop
  | .number written => M written
  | .text _ => True
  | .name n => N n
  | .binary l _ r | .comparison l _ r | .concat l r _ => l.Shaped ∧ r.Shaped
  | .evaluation f e => N f ∧ e.Shaped
  | .solve e _ | .cast e _ => e.Shaped

mutual

/-- Every name of a statement satisfies `N`, every number `M`, and no list in it
is empty. -/
def Stmt.Shaped : Stmt → Prop
  | .assignment target value => N target ∧ value.Shaped N M
  | .input target prompt _ => N target ∧ ∀ e ∈ prompt, e.Shaped N M
  | .print es | .plot es => es ≠ [] ∧ ∀ e ∈ es, e.Shaped N M
  | .ifThen c b => c.Shaped N M ∧ b ≠ [] ∧ Stmt.AllShaped b
  | .ifThenElse c b o =>
    c.Shaped N M ∧ (b ≠ [] ∧ Stmt.AllShaped b) ∧ (o ≠ [] ∧ Stmt.AllShaped o)
  | .whileLoop c b => c.Shaped N M ∧ b ≠ [] ∧ Stmt.AllShaped b
termination_by structural s => s

/-- `Shaped`, for each of some statements. -/
def Stmt.AllShaped : List Stmt → Prop
  | [] => True
  | s :: ss => s.Shaped ∧ Stmt.AllShaped ss
termination_by structural ss => ss

end

theorem Stmt.allShaped_iff : ∀ ss : List Stmt, Stmt.AllShaped N M ss ↔ ∀ s ∈ ss, s.Shaped N M
  | [] => by simp [Stmt.AllShaped]
  | s :: ss => by rw [Stmt.AllShaped, Stmt.allShaped_iff ss, List.forall_mem_cons]

/-- Every name of a program satisfies `N`, every number `M`, and no list in it is
empty. -/
structure Program.Shaped (p : Program) : Prop where
  nonempty : p.statements ≠ []
  statements : Stmt.AllShaped N M p.statements

end Shapes

/-- **The programs that records admit.** -/
structure Program.Admissible (p : Program) : Prop where
  shaped : p.Shaped IsAsciiName IsNumeral
  depth_le : p.depth ≤ maxDepth
  resolves : ∃ names, p.resolve = .ok names

end MathScript
