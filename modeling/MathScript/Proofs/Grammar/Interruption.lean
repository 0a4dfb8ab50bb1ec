import MathScript.Proofs.Grammar.Moves
import MathScript.Proofs.Result

/-!
# Where a reading is called off

Only `consult` asks the interrupt, and it does so before each statement that is
tried.  Expressions, conditions and simple statements ask nothing (`Quiet`).  What
asks (`Heeds`) puts one question for each statement that the same reading tries with
nothing to call it off: either none of them is answered with a reason to stop, and the
reading ends as that one does, or it ends with the reason that is given first.

* `attempts`: how many statements the reading of a tape tries.
* `heeds_program`: **a reading is called off by its questions and changed by
  nothing else about the interrupt**.
* `ne_interrupted_of_read_never`: with nothing to call it off, a reading is not called off.
-/

namespace MathScript

/-- The first reason to stop that `count` questions from the `n`-th on are answered
with. -/
def Interrupt.reason? (i : Interrupt) : (n count : Nat) → Option Interrupted
  | _, 0 => none
  | n, count + 1 => (i.check n).or (i.reason? (n + 1) count)

namespace Interrupt

theorem reason?_add (i : Interrupt) (n k m : Nat) :
    i.reason? n (k + m) = (i.reason? n k).or (i.reason? (n + k) m) := by
  induction k generalizing n with
  | zero => rw [Nat.zero_add, reason?, Option.none_or, Nat.add_zero]
  | succ k ih => rw [Nat.succ_add, reason?, reason?, ih, Option.or_assoc, Nat.add_right_comm]; rfl

end Interrupt

namespace Grammar

variable {α β : Type}

/-! ## Steps that ask nothing -/

/-- The step asks nothing and is never called off. -/
def Quiet (step : Step α) : Prop :=
  ∀ c, Meets step c (fun _ c' => c'.checks = c.checks) fun e => ∀ reason, e ≠ .interrupted reason

theorem quiet_pure (a : α) : Quiet (pure a) :=
  fun _ => rfl

theorem Quiet.bind {step : Step α} {next : α → Step β} (h : Quiet step)
    (hn : ∀ a, Gives step a → Quiet (next a)) : Quiet (step >>= next) := by
  intro c
  rw [meets_bind]
  refine ((h c).and (ensures_gives step c)).mono ?_ fun _ he => he.1
  rintro a c₁ ⟨h₁, ha⟩
  exact (hn a ha c₁).mono (fun _ c₂ h₂ => h₂.trans h₁) fun _ he => he

theorem quiet_get : Quiet get :=
  fun _ => rfl

theorem quiet_modify {f : Cursor → Cursor} (h : ∀ c, (f c).checks = c.checks) :
    Quiet (modify f) :=
  fun c => h c

theorem quiet_refuse : Quiet (refuse : Step α) := by
  intro c
  rw [meets_refuse, Cursor.unexpected]
  split <;> simp

theorem quiet_refuseDepth : Quiet (refuseDepth : Step α) := by
  intro c
  rw [meets_refuseDepth]
  simp

theorem quiet_advance : Quiet advance := by
  intro c
  unfold advance
  rw [meets_bind, meets_get]
  split
  · exact fun _ => ParseError.noConfusion
  · exact fun _ => ParseError.noConfusion
  · rfl

theorem quiet_checkDeclared (t : Token) : Quiet (checkDeclared t) := by
  intro c
  rw [meets_checkDeclared]
  split
  · rfl
  · simp

theorem quiet_descend : Quiet descend := by
  intro c
  rw [meets_descend]
  split
  · simp
  · rfl

theorem quiet_ascend : Quiet ascend :=
  quiet_modify fun _ => rfl

theorem quiet_openNesting : Quiet openNesting := by
  intro c
  rw [meets_openNesting]
  split
  · simp
  · rfl

theorem quiet_closeNesting : Quiet closeNesting :=
  quiet_modify fun _ => rfl

theorem Quiet.nested {step : Step α} (h : Quiet step) : Quiet (nested step) :=
  quiet_openNesting.bind fun _ _ => h.bind fun a _ => quiet_closeNesting.bind fun _ _ =>
    quiet_pure a

theorem quiet_place (e : Expr) (height : Nat) : Quiet (place e height) := by
  intro c
  rw [meets_place]
  split
  · simp
  · rfl

theorem Move.quiet {plan : Plan α} {step : Step α} (h : Move False plan step) : Quiet step := by
  cases h with
  | pure a => exact quiet_pure a
  | get => exact quiet_get
  | refuse => exact quiet_refuse
  | refuseDepth => exact quiet_refuseDepth
  | advance => exact quiet_advance
  | declare name => exact quiet_modify fun _ => rfl
  | checkDeclared t => exact quiet_checkDeclared t
  | consult h => exact h.elim

/-- **Whatever is put together from moves without asking is quiet.** -/
theorem Orderly.quiet {plan : Plan α} {step : Step α} (h : Orderly False plan step) :
    Quiet step := by
  induction h with
  | move h => exact h.quiet
  | place _ => exact quiet_place _ _
  | bind _ _ ih ihn => exact ih.bind ihn
  | nested _ ih => exact ih.nested
  | descended _ ih =>
    exact quiet_descend.bind fun _ _ => ih.bind fun a _ => quiet_ascend.bind fun _ _ =>
      quiet_pure a

theorem quiet_peek : Quiet peek :=
  orderly_peek.quiet

theorem quiet_isAt (kind : TokenKind) : Quiet (isAt kind) :=
  (orderly_isAt kind).quiet

theorem quiet_consume (kind : TokenKind) : Quiet (consume kind) :=
  (orderly_consume kind).quiet

theorem quiet_condition : Quiet condition :=
  orderly_condition.quiet

theorem quiet_simple : Quiet simple :=
  orderly_simple.quiet

/-! ## What is tried -/

/-- What is counted behind a step: nothing, if the step fails. -/
def behind (step : Step α) (count : α → Cursor → Nat) (c : Cursor) : Nat :=
  match step c with
  | .ok (a, c') => count a c'
  | .error _ => 0

theorem behind_zero (step : Step α) (c : Cursor) : behind step (fun _ _ => 0) c = 0 := by
  unfold behind
  cases step c <;> rfl

/-- The statements tried by a reading of a statement, itself and those in its blocks. -/
def attemptsOf (block : Step (List Stmt)) (inBlock : Cursor → Nat) (c : Cursor) : Nat :=
  1 + behind (consult .never) (fun _ => behind peek fun kind =>
    if kind = some .ifWord then
      behind advance fun _ => behind condition fun _ c =>
        inBlock c + behind block (fun _ => behind (isAt .elseWord) fun b =>
          if b then behind advance fun _ => inBlock else fun _ => 0) c
    else if kind = some .whileWord then behind advance fun _ => behind condition fun _ => inBlock
    else fun _ => 0) c

/-- Those tried by a reading of further statements. -/
def attemptsInMore (statement : Step Stmt) (inOne : Cursor → Nat) (stop : Option TokenKind) :
    (ahead : List Token) → Cursor → Nat
  | [] => behind peek fun kind => if kind = stop then fun _ => 0 else inOne
  | _ :: ahead => behind peek fun kind =>
    if kind = stop then fun _ => 0
    else fun c => inOne c + behind statement (fun _ => attemptsInMore statement inOne stop ahead) c

/-- Those tried by a reading of one or more statements. -/
def attemptsInAll (statement : Step Stmt) (inOne : Cursor → Nat) (stop : Option TokenKind)
    (c : Cursor) : Nat :=
  inOne c + behind statement
    (fun _ => behind get fun d => attemptsInMore statement inOne stop d.tokens) c

/-- Those tried by a reading of what stands in a block. -/
def attemptsInBody (statement : Step Stmt) (inOne : Cursor → Nat) : Cursor → Nat :=
  behind (isAt .leftBrace) fun b =>
    if b then behind advance fun _ => attemptsInAll statement inOne (some .rightBrace) else inOne

/-- Those tried by a reading of a block inside which at most `n` more blocks may open. -/
def attemptsInBlock : (n : Nat) → Cursor → Nat
  | 0 => fun _ => 0
  | n + 1 => behind openNesting fun _ => behind descend fun _ =>
    attemptsInBody (statementOf .never (block .never n))
      (attemptsOf (block .never n) (attemptsInBlock n))

/-- Those tried by a reading of a program. -/
def attemptsInProgram : Cursor → Nat :=
  attemptsInAll (statement .never) (attemptsOf (block .never maxDepth) (attemptsInBlock maxDepth))
    none

/-- Those tried by a reading of a tape, whether it comes to an end or not. -/
def attempts (tape : Tape) : Nat :=
  match Cursor.ofTape tape with
  | .ok c => attemptsInProgram c
  | .error _ => 0

/-! ## What asks -/

/-- Started at a cursor, the step asks `count` questions there, whatever the answers:
without a reason to stop it ends as it does where nothing calls it off, and otherwise
with the first reason. -/
def Heeds (count : Cursor → Nat) (step : Interrupt → Step α) : Prop :=
  ∀ c,
    Meets (step .never) c (fun _ c' => c'.checks = c.checks + count c)
      (fun e => ∀ reason, e ≠ .interrupted reason) ∧
    ∀ i, step i c = match i.reason? c.checks (count c) with
      | some reason => .error (.interrupted reason)
      | none => step .never c

section Heeds

variable {k k' : Cursor → Nat}

theorem Quiet.heeds {step : Step α} (h : Quiet step) : Heeds (fun _ => 0) fun _ => step :=
  fun c => ⟨h c, fun _ => rfl⟩

theorem heeds_consult : Heeds (fun _ => 1) consult := by
  intro c
  refine ⟨rfl, fun i => ?_⟩
  show (match i.check c.checks with | some reason => _ | none => _ : Step Unit) _ = _
  rw [Interrupt.reason?]
  cases i.check c.checks <;> rfl

/-- **One behind the other**: the questions of both. -/
theorem Heeds.bind {m : α → Cursor → Nat} {step : Interrupt → Step α}
    {next : Interrupt → α → Step β} (h : Heeds k step)
    (hn : ∀ a, Heeds (m a) fun i => next i a) :
    Heeds (fun c => k c + behind (step .never) m c) fun i => step i >>= next i := by
  intro c
  obtain ⟨hcalm, hstep⟩ := h c
  unfold Meets at hcalm
  -- how many questions the second step asks depends on how the first one ends uninterrupted
  cases hr : step .never c with
  | error e =>
    rw [hr] at hcalm
    have hcount : behind (step .never) m c = 0 := by rw [behind, hr]
    beta_reduce
    rw [hcount]
    refine ⟨meets_bind.mpr ?_, fun i => ?_⟩
    · unfold Meets
      rw [hr]
      exact hcalm
    · show (step i c >>= fun r => next i r.1 r.2) =
        match i.reason? c.checks (k c) with
        | some reason => .error (.interrupted reason)
        | none => step .never c >>= fun r => next .never r.1 r.2
      rw [hstep i, hr]
      cases i.reason? c.checks (k c) <;> rfl
  | ok r =>
    rw [hr] at hcalm
    have hchecks : r.2.checks = c.checks + k c := hcalm
    have hcount : behind (step .never) m c = m r.1 r.2 := by rw [behind, hr]
    obtain ⟨hcalm', hnext⟩ := hn r.1 r.2
    beta_reduce
    rw [hcount]
    refine ⟨meets_bind.mpr ?_, fun i => ?_⟩
    · unfold Meets
      rw [hr]
      refine hcalm'.mono (fun _ c₂ (h₂ : c₂.checks = r.2.checks + m r.1 r.2) => ?_) fun _ he => he
      omega
    · show (step i c >>= fun r => next i r.1 r.2) =
        match i.reason? c.checks (k c + m r.1 r.2) with
        | some reason => .error (.interrupted reason)
        | none => step .never c >>= fun r => next .never r.1 r.2
      rw [hstep i, hr, Interrupt.reason?_add, ← hchecks]
      cases i.reason? c.checks (k c) with
      | some reason => rfl
      | none => exact hnext i

/-- Behind a step that asks nothing. -/
theorem Quiet.bind_heeds {m : α → Cursor → Nat} {step : Step α} {next : Interrupt → α → Step β}
    (h : Quiet step) (hn : ∀ a, Heeds (m a) fun i => next i a) :
    Heeds (behind step m) fun i => step >>= next i := by
  have hbind := h.heeds.bind hn
  simp only [Nat.zero_add] at hbind
  exact hbind

/-- In front of steps that ask nothing. -/
theorem Heeds.bind_quiet {step : Interrupt → Step α} {next : α → Step β} (h : Heeds k step)
    (hn : ∀ a, Quiet (next a)) : Heeds k fun i => step i >>= next := by
  have hbind := h.bind fun a => (hn a).heeds
  simp only [behind_zero, Nat.add_zero] at hbind
  exact hbind

theorem Heeds.ite {p : Prop} [Decidable p] {step step' : Interrupt → Step α} (h : Heeds k step)
    (h' : Heeds k' step') :
    Heeds (if p then k else k') fun i => if p then step i else step' i := by
  by_cases hp : p
  · simpa only [if_pos hp] using h
  · simpa only [if_neg hp] using h'

theorem Heeds.nested {step : Interrupt → Step α} (h : Heeds k step) :
    Heeds (behind openNesting fun _ => k) fun i => nested (step i) :=
  quiet_openNesting.bind_heeds fun _ => h.bind_quiet fun a => quiet_closeNesting.bind fun _ _ =>
    quiet_pure a

end Heeds

/-! ## Statements -/

section Statements

variable {k : Cursor → Nat} {statement : Interrupt → Step Stmt}

theorem heeds_moreStatements (h : Heeds k statement) (stop : Option TokenKind)
    (ahead : List Token) :
    Heeds (attemptsInMore (statement .never) k stop ahead) fun i =>
      moreStatements (statement i) stop ahead := by
  induction ahead with
  | nil =>
    refine quiet_peek.bind_heeds fun kind => Heeds.ite (quiet_pure _).heeds ?_
    exact h.bind_quiet fun s => quiet_pure _
  | cons _ ahead ih =>
    refine quiet_peek.bind_heeds fun kind => Heeds.ite (quiet_pure _).heeds ?_
    exact h.bind fun s => ih.bind_quiet fun ss => quiet_pure _

theorem heeds_statements (h : Heeds k statement) (stop : Option TokenKind) :
    Heeds (attemptsInAll (statement .never) k stop) fun i => statements (statement i) stop :=
  h.bind fun _ => quiet_get.bind_heeds fun c => (heeds_moreStatements h stop c.tokens).bind_quiet
    fun _ => quiet_pure _

/-- A statement by the kind it starts with. -/
theorem statementOf_eq (i : Interrupt) (block : Step (List Stmt)) :
    statementOf i block = consult i >>= fun _ => peek >>= fun kind =>
      if kind = some .ifWord then advance >>= fun _ => condition >>= fun c => block >>= fun body =>
        isAt .elseWord >>= fun b => if b then advance >>= fun _ => block >>= fun otherwise =>
          pure (.ifThenElse c body otherwise) else pure (.ifThen c body)
      else if kind = some .whileWord then advance >>= fun _ => condition >>= fun c =>
        block >>= fun body => pure (.whileLoop c body)
      else simple >>= fun s => consume .semicolon >>= fun _ => pure s := by
  refine congrArg (consult i >>= ·) (funext fun _ => congrArg (peek >>= ·) (funext fun kind => ?_))
  split <;> simp_all

theorem heeds_statementOf {block : Interrupt → Step (List Stmt)} (h : Heeds k block) :
    Heeds (attemptsOf (block .never) k) fun i => statementOf i (block i) := by
  simp only [statementOf_eq]
  refine heeds_consult.bind fun _ => quiet_peek.bind_heeds fun kind =>
    Heeds.ite ?_ (Heeds.ite ?_ ?_)
  · refine quiet_advance.bind_heeds fun _ => quiet_condition.bind_heeds fun c => h.bind fun body =>
      (quiet_isAt _).bind_heeds fun b => Heeds.ite ?_ (quiet_pure _).heeds
    exact quiet_advance.bind_heeds fun _ => h.bind_quiet fun otherwise => quiet_pure _
  · exact quiet_advance.bind_heeds fun _ => quiet_condition.bind_heeds fun c =>
      h.bind_quiet fun body => quiet_pure _
  · exact (quiet_simple.bind fun s _ => (quiet_consume _).bind fun _ _ => quiet_pure s).heeds

theorem heeds_body (h : Heeds k statement) :
    Heeds (attemptsInBody (statement .never) k) fun i => body (statement i) := by
  refine (quiet_isAt _).bind_heeds fun b => Heeds.ite ?_ ?_
  · exact quiet_advance.bind_heeds fun _ => (heeds_statements h _).bind_quiet fun ss =>
      quiet_advance.bind fun _ _ => quiet_pure ss
  · exact h.bind_quiet fun s => quiet_pure [s]

theorem heeds_blockOf (h : Heeds k statement) :
    Heeds (behind openNesting fun _ => behind descend fun _ =>
      attemptsInBody (statement .never) k) fun i => blockOf (statement i) := by
  simp only [blockOf_eq]
  exact Heeds.nested (quiet_descend.bind_heeds fun _ => (heeds_body h).bind_quiet fun ss =>
    quiet_ascend.bind fun _ _ => quiet_pure ss)

theorem heeds_block (n : Nat) : Heeds (attemptsInBlock n) fun i => block i n := by
  induction n with
  | zero => exact quiet_refuseDepth.heeds
  | succ n ih =>
    have hstatement := heeds_statementOf ih
    have hblock := heeds_blockOf hstatement
    rw [attemptsInBlock]
    exact hblock

/-- **A reading is called off by its questions and changed by nothing else about the
interrupt.** -/
theorem heeds_program : Heeds attemptsInProgram program :=
  (heeds_statements (heeds_statementOf (heeds_block maxDepth)) none).bind_quiet fun _ =>
    quiet_pure _

end Statements

/-- Behind a tape that starts, a reading is a reading of its program. -/
theorem read_of_ofTape {tape : Tape} {c : Cursor} (h : Cursor.ofTape tape = .ok c)
    (i : Interrupt) : read i tape = program i c := by
  rw [read, h]
  exact pure_bind c (program i)

/-- **A reading of a tape is called off by its questions alone.** -/
theorem read_eq (i : Interrupt) (tape : Tape) :
    read i tape = match i.reason? 0 (attempts tape) with
      | some reason => .error (.interrupted reason)
      | none => read .never tape := by
  cases hc : Cursor.ofTape tape with
  | error e =>
    have hread : ∀ j, read j tape = .error e := fun j => by rw [read, hc]; rfl
    have hattempts : attempts tape = 0 := by rw [attempts, hc]
    rw [hattempts, hread, hread, Interrupt.reason?]
  | ok c =>
    have hattempts : attempts tape = attemptsInProgram c := by rw [attempts, hc]
    have hchecks : c.checks = 0 := by rw [Cursor.eq_of_ofTape hc]
    have hcalled := (heeds_program c).2 i
    rw [hchecks, ← hattempts, ← read_of_ofTape hc, ← read_of_ofTape hc] at hcalled
    exact hcalled

/-- A reading that comes to an end has asked as often as it tried a statement. -/
theorem checks_of_read {tape : Tape} {p : Program} {c : Cursor}
    (h : read .never tape = .ok (p, c)) : c.checks = attempts tape := by
  cases hc : Cursor.ofTape tape with
  | error e =>
    rw [read, hc] at h
    cases h
  | ok c₀ =>
    have hchecks : c₀.checks = 0 := by rw [Cursor.eq_of_ofTape hc]
    rw [read_of_ofTape hc] at h
    have hcalm : c.checks = c₀.checks + attemptsInProgram c₀ := (heeds_program c₀).1.of_eq_ok h
    rw [attempts, hc, hcalm, hchecks, Nat.zero_add]

/-- With nothing to call it off, a reading is not called off. -/
theorem ne_interrupted_of_read_never {tape : Tape} {e : ParseError}
    (h : read .never tape = .error e) (reason : Interrupted) : e ≠ .interrupted reason := by
  rcases bind_eq_error.mp h with htape | ⟨c, -, hprogram⟩
  · unfold Cursor.ofTape at htape
    split at htape
    · cases htape
      simp
    · cases htape
  · exact (heeds_program c).1.of_eq_error hprogram reason

end Grammar

theorem ne_interrupted_of_parse {source : String} {e : ParseError} (h : parse source = .error e)
    (reason : Interrupted) : e ≠ .interrupted reason := by
  rcases bind_eq_error.mp h with hread | ⟨r, -, hr⟩
  · exact Grammar.ne_interrupted_of_read_never hread reason
  · cases hr

end MathScript
