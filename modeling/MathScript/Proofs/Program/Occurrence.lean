import MathScript.Proofs.Program.Expressible

/-!
# Places in a program

The nodes of an expression by the way down to them, and the expressions of a program by what
they are there for.

* `Expr.node?`: the node at the end of a way.  `Stmt.expressions`: the expressions of a
  statement and its blocks, each with its role.
* `Plain.node`, `Joined.node`: **what source can express, it can express at each node**;
  where a comma joins strings, the way from the root turns left only.
* `Expressible.fits`: each expression of an expressible program suits its role.
-/

namespace MathScript

/-- A step down in an expression. -/
inductive Branch where
  | left | right
  /-- To the only part there is. -/
  | inner
deriving DecidableEq, Repr

namespace Expr

/-! ## Nodes of an expression -/

/-- The part of an expression on a branch. -/
def part? : Expr → Branch → Option Expr
  | binary l _ _, .left | comparison l _ _, .left | concat l _ _, .left => some l
  | binary _ _ r, .right | comparison _ _ r, .right | concat _ r _, .right => some r
  | evaluation _ e, .inner | solve e _, .inner | cast e _, .inner => some e
  | _, _ => none

/-- The node at the end of a way down from the root. -/
def node? : Expr → List Branch → Option Expr
  | e, [] => some e
  | e, b :: path => (e.part? b).bind fun part => part.node? path

/-- `n` is a node of the expression. -/
def HasNode (e n : Expr) : Prop :=
  ∃ path, e.node? path = some n

/-- The parts of an expression. -/
def parts : Expr → List Expr
  | number _ | text _ | name _ => []
  | binary l _ r | comparison l _ r | concat l r _ => [l, r]
  | evaluation _ e | solve e _ | cast e _ => [e]

variable {e n part : Expr} {b : Branch} {path : List Branch} {L : Expr → Prop}

theorem mem_parts_of_part? (h : e.part? b = some part) : part ∈ e.parts := by
  cases b with
  | left | right =>
    cases e with
    | binary | comparison | concat =>
      obtain rfl := Option.some.inj h
      simp [parts]
    | _ => cases h
  | inner =>
    cases e with
    | evaluation | solve | cast =>
      obtain rfl := Option.some.inj h
      exact List.mem_singleton_self _
    | _ => cases h

/-- A node is the root, or a node of a part. -/
theorem HasNode.root_or_part (h : e.HasNode n) : n = e ∨ ∃ part ∈ e.parts, part.HasNode n := by
  obtain ⟨path, h⟩ := h
  cases path with
  | nil => exact .inl (Option.some.inj h).symm
  | cons b path =>
    obtain ⟨part, hpart, hnode⟩ := Option.bind_eq_some_iff.mp h
    exact .inr ⟨part, mem_parts_of_part? hpart, path, hnode⟩

theorem HasNode.of_ne (h : e.HasNode n) (hne : n ≠ e) : ∃ part ∈ e.parts, part.HasNode n :=
  h.root_or_part.resolve_left hne

theorem Plain.of_mem_parts (h : e.Plain) (hpart : part ∈ e.parts) : part.Plain := by
  cases e with
  | number | text | name => cases hpart
  | binary l op r =>
    obtain ⟨hl, hr, -⟩ := h
    rcases List.mem_pair.mp hpart with rfl | rfl
    · exact hl
    · exact hr
  | comparison l op r =>
    obtain ⟨hl, hr⟩ := h
    rcases List.mem_pair.mp hpart with rfl | rfl
    · exact hl
    · exact hr
  | concat l r padded =>
    obtain ⟨hl, hr, -⟩ := h
    rcases List.mem_pair.mp hpart with rfl | rfl
    · exact hl
    · exact hr
  | evaluation f e =>
    obtain rfl := List.mem_singleton.mp hpart
    exact h.2
  | solve e | cast e =>
    obtain rfl := List.mem_singleton.mp hpart
    exact h

/-- **What is plain is plain at each node.** -/
theorem Plain.node (h : e.Plain) (hn : e.node? path = some n) : n.Plain := by
  induction path generalizing e with
  | nil =>
    obtain rfl := Option.some.inj hn
    exact h
  | cons b path ih =>
    obtain ⟨part, hpart, hn⟩ := Option.bind_eq_some_iff.mp hn
    exact ih (h.of_mem_parts (mem_parts_of_part? hpart)) hn

theorem Plain.not_padded {l r : Expr} (h : (concat l r true).Plain) : False := by
  obtain ⟨-, -, hpadded, -⟩ := h
  cases hpadded

/-- **Commas join along the left spine.**  A node of expressions between commas is plain, or
it is what a comma joins: then the way to it turns left only, and its right side is plain. -/
theorem Joined.node (h : e.Joined L) (hn : e.node? path = some n) :
    n.Plain ∨ ∃ l r, n = .concat l r true ∧ (∀ b ∈ path, b = .left) ∧ L l ∧ r.Plain := by
  induction path generalizing e with
  | nil =>
    obtain rfl := Option.some.inj hn
    unfold Joined at h
    split at h
    · next l r => exact .inr ⟨l, r, rfl, by simp, h.1, h.2.2⟩
    · exact .inl h
  | cons b path ih =>
    obtain ⟨part, hpart, hn⟩ := Option.bind_eq_some_iff.mp hn
    unfold Joined at h
    split at h
    · next l r =>
      obtain ⟨-, hl, hr⟩ := h
      cases b with
      | left =>
        obtain rfl := Option.some.inj hpart
        refine (ih hl hn).imp_right ?_
        rintro ⟨l', r', rfl, hleft, hjoined⟩
        exact ⟨l', r', rfl, List.forall_mem_cons.mpr ⟨rfl, hleft⟩, hjoined⟩
      | right =>
        obtain rfl := Option.some.inj hpart
        exact .inl (hr.node hn)
      | inner => cases hpart
    · exact .inl ((h.of_mem_parts (mem_parts_of_part? hpart)).node hn)

end Expr

/-! ## Expressions of a program -/

/-- What an expression of a program is there for. -/
inductive Role where
  /-- Assigned to a name. -/
  | value
  /-- Shown by an input. -/
  | prompt
  /-- Printed or plotted. -/
  | argument
  /-- Asked by a branch or a loop. -/
  | condition
deriving DecidableEq, Repr

/-- Source can express the expression in the role. -/
def Role.Suits : Role → Expr → Prop
  | value, e => e.IsValue
  | prompt, e => e.IsPrompt
  | argument, e | condition, e => e.Plain

mutual

/-- The expressions of a statement and its blocks, with their roles. -/
def Stmt.expressions : Stmt → List (Role × Expr)
  | .assignment _ e => [(.value, e)]
  | .input _ prompt _ => prompt.toList.map fun e => (.prompt, e)
  | .print es | .plot es => es.map fun e => (.argument, e)
  | .ifThen c b | .whileLoop c b => (.condition, c) :: Stmt.expressionsOf b
  | .ifThenElse c b o => (.condition, c) :: (Stmt.expressionsOf b ++ Stmt.expressionsOf o)
termination_by structural s => s

/-- The expressions of some statements and their blocks, with their roles. -/
def Stmt.expressionsOf : List Stmt → List (Role × Expr)
  | [] => []
  | s :: ss => s.expressions ++ Stmt.expressionsOf ss
termination_by structural ss => ss

end

/-- The expressions of a program, with their roles. -/
def Program.expressions (p : Program) : List (Role × Expr) :=
  Stmt.expressionsOf p.statements

variable {role : Role} {e : Expr}

theorem Role.suits_of_prompt {prompt : Option Expr} (h : ∀ e ∈ prompt, e.IsPrompt)
    (he : (role, e) ∈ prompt.toList.map fun e => (Role.prompt, e)) : role.Suits e := by
  obtain ⟨e, hmem, heq⟩ := List.mem_map.mp he
  cases heq
  exact h e (Option.mem_toList.mp hmem)

theorem Role.suits_of_arguments {es : List Expr} (h : ∀ e ∈ es, e.Plain)
    (he : (role, e) ∈ es.map fun e => (Role.argument, e)) : role.Suits e := by
  obtain ⟨e, hmem, heq⟩ := List.mem_map.mp he
  cases heq
  exact h e hmem

mutual

theorem Stmt.Expressible.fits : ∀ {s : Stmt}, s.Expressible → (role, e) ∈ s.expressions →
    role.Suits e
  | .assignment _ _, h, he => by
    cases List.mem_singleton.mp he
    exact h.2
  | .input _ _ _, h, he => Role.suits_of_prompt h.2 he
  | .print _, h, he => Role.suits_of_arguments h he
  | .plot _, h, he => Role.suits_of_arguments h he
  | .ifThen _ _, h, he => by
    rcases List.mem_cons.mp he with heq | he
    · cases heq
      exact h.1
    · exact Stmt.AllExpressible.fits h.2 he
  | .ifThenElse _ _ _, h, he => by
    obtain ⟨hc, hb, ho⟩ := h
    rcases List.mem_cons.mp he with heq | he
    · cases heq
      exact hc
    · rcases List.mem_append.mp he with he | he
      · exact Stmt.AllExpressible.fits hb he
      · exact Stmt.AllExpressible.fits ho he
  | .whileLoop _ _, h, he => by
    rcases List.mem_cons.mp he with heq | he
    · cases heq
      exact h.1
    · exact Stmt.AllExpressible.fits h.2 he

theorem Stmt.AllExpressible.fits : ∀ {ss : List Stmt}, Stmt.AllExpressible ss →
    (role, e) ∈ Stmt.expressionsOf ss → role.Suits e
  | [], _, he => by cases he
  | _ :: _, h, he => by
    rcases List.mem_append.mp he with he | he
    · exact h.1.fits he
    · exact Stmt.AllExpressible.fits h.2 he

end

/-- **Each expression of an expressible program suits its role.** -/
theorem Program.Expressible.fits {p : Program} (h : p.Expressible)
    (he : (role, e) ∈ p.expressions) : role.Suits e :=
  Stmt.AllExpressible.fits h he

end MathScript
