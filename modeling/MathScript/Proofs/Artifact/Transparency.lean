import MathScript.Proofs.Artifact.Delivery

/-!
# Interrupts are transparent

A reading asks its interrupt once before each statement it tries, a compilation asks
once more behind a reading that succeeds.  Work is called off by the first of these
questions that is answered with a reason to stop, and by nothing else: where none of
them is, the interrupt leaves no trace, errors of the source included.

* `Grammar.attempts_of_read`: a program that is read has as many statements, nested ones
  included, as were tried.
* `parseUnder_eq`, `Compiler.compileUnder_eq`: how work under an interrupt ends, by how
  it ends under none.
* `interrupts_are_transparent`: **work under an interrupt ends as it does under none, or
  with the reason of the first question that stops it**.
-/

namespace MathScript

/-! ## The question that stops the work -/

namespace Interrupt

/-- The interrupt stops work at the `n`-th point, and at none before it. -/
def StopsAt (i : Interrupt) (n : Nat) (reason : Interrupted) : Prop :=
  i.check n = some reason ∧ ∀ m < n, i.check m = none

theorem reason?_eq_some_from {i : Interrupt} {reason : Interrupted} (k count : Nat) :
    i.reason? k count = some reason ↔
      ∃ n < count, i.check (k + n) = some reason ∧ ∀ m < n, i.check (k + m) = none := by
  induction count generalizing k with
  | zero => simp [reason?]
  | succ count ih =>
    rw [reason?]
    cases hk : i.check k with
    | some r =>
      rw [Option.some_or]
      constructor
      · intro h
        exact ⟨0, Nat.succ_pos _, hk.trans h, fun m hm => absurd hm (Nat.not_lt_zero m)⟩
      · rintro ⟨n, -, hn, hbefore⟩
        cases n with
        | zero => exact hk.symm.trans hn
        | succ n => exact absurd (hbefore 0 (Nat.succ_pos n)) (by rw [Nat.add_zero, hk]; simp)
    | none =>
      rw [Option.none_or, ih]
      -- a point behind the first one is the same point counted from the next
      constructor
      · rintro ⟨n, hn, hstop, hbefore⟩
        refine ⟨n + 1, Nat.succ_lt_succ hn, by rwa [Nat.add_comm n, ← Nat.add_assoc], ?_⟩
        intro m hm
        cases m with
        | zero => exact hk
        | succ m =>
          rw [Nat.add_comm m, ← Nat.add_assoc]
          exact hbefore m (Nat.lt_of_succ_lt_succ hm)
      · rintro ⟨n, hn, hstop, hbefore⟩
        cases n with
        | zero => exact absurd hstop (by rw [Nat.add_zero, hk]; simp)
        | succ n =>
          refine ⟨n, Nat.lt_of_succ_lt_succ hn, by rwa [Nat.add_assoc, Nat.add_comm 1], ?_⟩
          intro m hm
          rw [Nat.add_assoc, Nat.add_comm 1]
          exact hbefore (m + 1) (Nat.succ_lt_succ hm)

theorem reason?_eq_some {i : Interrupt} {reason : Interrupted} {count : Nat} :
    i.reason? 0 count = some reason ↔ ∃ n < count, i.StopsAt n reason := by
  rw [reason?_eq_some_from]
  simp only [Nat.zero_add, StopsAt]

theorem reason?_one (i : Interrupt) (n : Nat) : i.reason? n 1 = i.check n := by
  show (i.check n).or none = i.check n
  exact Option.or_none

/-- Some question is answered with a reason to stop exactly where one of the points
stops the work. -/
theorem exists_reason?_iff {i : Interrupt} {count : Nat} :
    (∃ reason, i.reason? 0 count = some reason) ↔ ∃ n < count, (i.check n).isSome := by
  induction count with
  | zero => simp [reason?]
  | succ count ih =>
    rw [reason?_add, Nat.zero_add]
    cases h : i.reason? 0 count with
    | some r =>
      obtain ⟨n, hn, hcheck⟩ := ih.mp ⟨r, h⟩
      exact ⟨fun _ => ⟨n, Nat.lt_succ_of_lt hn, hcheck⟩, fun _ => ⟨r, rfl⟩⟩
    | none =>
      rw [h] at ih
      rw [Option.none_or, reason?_one]
      constructor
      · rintro ⟨r, hr⟩
        exact ⟨count, Nat.lt_succ_self _, by rw [hr]; rfl⟩
      · rintro ⟨n, hn, hcheck⟩
        rcases Nat.lt_succ_iff_lt_or_eq.mp hn with hn | rfl
        · exact absurd (ih.mpr ⟨n, hn, hcheck⟩) (by simp)
        · exact Option.isSome_iff_exists.mp hcheck

end Interrupt

/-! ## How many statements are tried -/

mutual

/-- The number of statements in a statement, itself included. -/
def Stmt.tally : Stmt → Nat
  | .assignment .. | .input .. | .print _ | .plot _ => 1
  | .ifThen _ b | .whileLoop _ b => 1 + tallyStmts b
  | .ifThenElse _ b o => 1 + (tallyStmts b + tallyStmts o)
termination_by structural s => s

/-- The number of statements in some statements, nested ones included. -/
def tallyStmts : List Stmt → Nat
  | [] => 0
  | s :: ss => s.tally + tallyStmts ss
termination_by structural ss => ss

end

namespace Grammar

variable {α β : Type}

/-- What the step gives back has the property. -/
def Yields (property : α → Prop) (step : Step α) : Prop :=
  ∀ c, Ensures step c fun a _ => property a

theorem yields_pure {property : α → Prop} {a : α} (h : property a) : Yields property (pure a) :=
  fun _ => h

/-- Only the last step matters. -/
theorem Yields.bind {property : β → Prop} {step : Step α} {next : α → Step β}
    (h : ∀ a, Yields property (next a)) : Yields property (step >>= next) := by
  intro c
  rw [Ensures, meets_bind]
  unfold Meets
  cases step c with
  | ok r => exact h r.1 r.2
  | error e => trivial

theorem yields_simple : Yields (fun s => s.tally = 1) simple := by
  refine Yields.bind fun kind => ?_
  split
  · exact .bind fun _ => .bind fun _ => .bind fun _ => .bind fun _ => yields_pure rfl
  · exact .bind fun _ => .bind fun _ => yields_pure rfl
  · exact .bind fun _ => .bind fun _ => yields_pure rfl
  · rw [input_eq]
    exact .bind fun _ => .bind fun _ => .bind fun _ => .bind fun _ => .bind fun _ =>
      .bind fun _ => yields_pure rfl
  · exact fun _ => trivial

/-- The step asks as often as its result counts, `before` of it apart. -/
def Tallies (before : Nat) (size : α → Nat) (step : Step α) : Prop :=
  ∀ c, Ensures step c fun a c' => c'.checks + before = c.checks + size a

section Tallies

variable {k : Nat} {size : α → Nat} {size' : β → Nat}

/-- What the first step has counted, the second one is told. -/
theorem Tallies.bind {step : Step α} {next : α → Step β} (h : Tallies k size step)
    (hn : ∀ a, Tallies (size a) size' (next a)) : Tallies k size' (step >>= next) := by
  intro c
  rw [Ensures, meets_bind]
  refine (h c).mono (fun a c₁ h₁ => ?_) fun _ _ => trivial
  refine (hn a c₁).mono (fun b c₂ h₂ => ?_) fun _ _ => trivial
  omega

theorem tallies_pure {a : α} (h : k = size a) : Tallies k size (pure a) := by
  intro c
  show c.checks + k = c.checks + size a
  rw [h]

theorem Quiet.tallies {step : Step α} (h : Quiet step) : Tallies k (fun _ => k) step := by
  refine fun c => (h c).mono (fun _ c' hc' => ?_) fun _ _ => trivial
  rw [hc']

/-- More may have been counted before. -/
theorem Tallies.behind {step : Step α} (h : Tallies 0 size step) :
    Tallies k (fun a => k + size a) step := by
  refine fun c => (h c).mono (fun a c' (hc' : c'.checks + 0 = c.checks + size a) => ?_)
    fun _ _ => trivial
  show c'.checks + k = c.checks + (k + size a)
  omega

theorem tallies_consult : Tallies 0 (fun _ => 1) (consult .never) :=
  fun _ => rfl

theorem Tallies.nested {step : Step α} (h : Tallies 0 size step) : Tallies 0 size (nested step) :=
  quiet_openNesting.tallies.bind fun _ => h.bind fun _ => quiet_closeNesting.tallies.bind fun _ =>
    tallies_pure rfl

theorem tallies_simple : Tallies 1 Stmt.tally simple := by
  intro c
  refine ((quiet_simple c).and (yields_simple c)).mono ?_ fun _ _ => trivial
  rintro s c' ⟨hquiet, hyields⟩
  rw [hquiet, hyields]

end Tallies

section Statements

variable {statement : Step Stmt}

theorem tallies_moreStatements (h : Tallies 0 Stmt.tally statement) (stop : Option TokenKind)
    (ahead : List Token) : Tallies 0 tallyStmts (moreStatements statement stop ahead) := by
  induction ahead with
  | nil =>
    refine quiet_peek.tallies.bind fun kind => ?_
    split
    · exact tallies_pure rfl
    · exact h.bind fun s => tallies_pure rfl
  | cons _ ahead ih =>
    refine quiet_peek.tallies.bind fun kind => ?_
    split
    · exact tallies_pure rfl
    · exact h.bind fun s => ih.behind.bind fun ss => tallies_pure rfl

theorem tallies_statements (h : Tallies 0 Stmt.tally statement) (stop : Option TokenKind) :
    Tallies 0 tallyStmts (statements statement stop) :=
  h.bind fun _ => quiet_get.tallies.bind fun c =>
    (tallies_moreStatements h stop c.tokens).behind.bind fun _ => tallies_pure rfl

theorem tallies_statementOf {block : Step (List Stmt)} (h : Tallies 0 tallyStmts block) :
    Tallies 0 Stmt.tally (statementOf .never block) := by
  rw [statementOf_eq]
  refine tallies_consult.bind fun _ => quiet_peek.tallies.bind fun kind => ?_
  split
  · refine quiet_advance.tallies.bind fun _ => quiet_condition.tallies.bind fun c =>
      h.behind.bind fun body => (quiet_isAt _).tallies.bind fun b => ?_
    split
    · exact quiet_advance.tallies.bind fun _ => h.behind.bind fun otherwise =>
        tallies_pure (Nat.add_assoc ..)
    · exact tallies_pure rfl
  · split
    · exact quiet_advance.tallies.bind fun _ => quiet_condition.tallies.bind fun c =>
        h.behind.bind fun body => tallies_pure rfl
    · exact tallies_simple.bind fun s => (quiet_consume _).tallies.bind fun _ => tallies_pure rfl

theorem tallies_body (h : Tallies 0 Stmt.tally statement) :
    Tallies 0 tallyStmts (body statement) := by
  refine (quiet_isAt _).tallies.bind fun b => ?_
  split
  · exact quiet_advance.tallies.bind fun _ => (tallies_statements h _).bind fun ss =>
      quiet_advance.tallies.bind fun _ => tallies_pure rfl
  · exact h.bind fun s => tallies_pure rfl

theorem tallies_block (n : Nat) : Tallies 0 tallyStmts (block .never n) := by
  induction n with
  | zero => exact fun _ => trivial
  | succ n ih =>
    rw [block, blockOf_eq]
    exact Tallies.nested (quiet_descend.tallies.bind fun _ =>
      (tallies_body (tallies_statementOf ih)).bind fun ss =>
        (quiet_modify fun _ => rfl : Quiet ascend).tallies.bind fun _ => tallies_pure rfl)

theorem tallies_program : Tallies 0 (fun p => tallyStmts p.statements) (program .never) :=
  (tallies_statements (tallies_statementOf (tallies_block maxDepth)) none).bind fun _ =>
    tallies_pure rfl

end Statements

/-- **A program that is read has as many statements as were tried.** -/
theorem attempts_of_read {tape : Tape} {p : Program} {c : Cursor}
    (h : read .never tape = .ok (p, c)) : attempts tape = tallyStmts p.statements := by
  rw [← checks_of_read h]
  cases hc : Cursor.ofTape tape with
  | error e =>
    rw [read, hc] at h
    cases h
  | ok c₀ =>
    have hchecks : c₀.checks = 0 := by rw [Cursor.eq_of_ofTape hc]
    rw [read_of_ofTape hc] at h
    have hrun : c.checks + 0 = c₀.checks + tallyStmts p.statements := (tallies_program c₀).of_eq_ok h
    rw [hchecks, Nat.zero_add] at hrun
    exact hrun

end Grammar

/-! ## Work under an interrupt -/

/-- **A reading under an interrupt ends as one under none, unless it is called off.** -/
theorem parseUnder_eq (i : Interrupt) (source : String) :
    parseUnder i source = match i.reason? 0 (Grammar.attempts (Tape.ofString source)) with
      | some reason => .error (.interrupted reason)
      | none => parse source := by
  unfold parse parseUnder
  rw [Grammar.read_eq]
  cases i.reason? 0 (Grammar.attempts (Tape.ofString source)) <;> rfl

theorem attempts_of_parse {source : String} {p : Program} {t : NameTable}
    (h : parse source = .ok ⟨p, t⟩) :
    Grammar.attempts (Tape.ofString source) = tallyStmts p.statements := by
  obtain ⟨⟨q, c⟩, hread, hr⟩ := bind_eq_ok.mp h
  cases hr
  exact Grammar.attempts_of_read hread

/-- A statement that cannot be read has been tried, and none behind it. -/
example : Grammar.attempts (Tape.ofString "WHILE (1) { PRINT 1; PRINT ; } PRINT 2;") = 3 := by cbv

/-- How often a compilation under no interrupt asks: for each statement it tries, and
once more if it has read them all. -/
def Compiler.questions (source : String) : Nat :=
  Grammar.attempts (Tape.ofString source) +
    match parse source with
    | .ok _ => 1
    | .error _ => 0

/-- No compilation under no interrupt is called off. -/
theorem Compiler.ne_interrupted_of_compile {c : Compiler} {source : String} {e : CompileError}
    (h : c.compile source = .error e) (reason : Interrupted) :
    e ≠ .interrupted reason ∧ e ≠ .source (.interrupted reason) := by
  rw [compile_eq] at h
  cases hparse : parse source with
  | ok r =>
    rw [hparse] at h
    have hpack : c.pack r.program = .error e := h
    unfold pack at hpack
    split at hpack
    · cases hpack
    · cases hpack
      exact ⟨CompileError.noConfusion, CompileError.noConfusion⟩
  | error e' =>
    rw [hparse] at h
    cases h
    refine ⟨CompileError.noConfusion, fun he => ?_⟩
    exact ne_interrupted_of_parse hparse reason (CompileError.source.inj he)

/-- **A compilation under an interrupt ends as one under none, unless it is called
off.** -/
theorem Compiler.compileUnder_eq (c : Compiler) (i : Interrupt) (source : String) :
    c.compileUnder i source = match i.reason? 0 (questions source) with
      | some reason => .error (.interrupted reason)
      | none => c.compile source := by
  rw [compile_eq, questions, Interrupt.reason?_add, Nat.zero_add]
  unfold compileUnder parse parseUnder
  rw [Grammar.read_eq]
  cases i.reason? 0 (Grammar.attempts (Tape.ofString source)) with
  | some reason => rfl
  | none =>
    cases hread : Grammar.read .never (Tape.ofString source) with
    | error e =>
      exact congrArg Except.error
        (ofParseError_of_ne (Grammar.ne_interrupted_of_read_never hread)).1
    | ok r =>
      have hchecks : r.2.checks = Grammar.attempts (Tape.ofString source) :=
        Grammar.checks_of_read hread
      show (match i.check r.2.checks with | some reason => _ | none => c.pack r.1) =
        match i.reason? (Grammar.attempts (Tape.ofString source)) 1 with
        | some reason => _
        | none => c.pack r.1
      rw [Interrupt.reason?_one, ← hchecks]

/-- What ends as `y`, or with a reason to stop that `y` never ends with. -/
theorem ends_with_reason_iff {ε α : Type} {x y : Except ε α} {reason? : Option Interrupted}
    {stop : Interrupted → ε} (hstop : ∀ r r', stop r = stop r' → r = r')
    (hy : ∀ reason, y ≠ .error (stop reason))
    (h : x = match reason? with
      | some reason => .error (stop reason)
      | none => y) :
    (x = y ∨ ∃ reason, x = .error (stop reason)) ∧
      ∀ reason, x = .error (stop reason) ↔ reason? = some reason := by
  subst h
  cases reason? with
  | none => exact ⟨.inl rfl, fun reason => ⟨fun hr => absurd hr (hy reason), fun hr => nomatch hr⟩⟩
  | some r =>
    refine ⟨.inr ⟨r, rfl⟩, fun reason => ⟨fun hr => ?_, fun hr => ?_⟩⟩
    · rw [hstop r reason (Except.error.inj hr)]
    · cases hr
      rfl

/-- **Interrupts are transparent.**  Whatever the source and the interrupt, a reading
under the interrupt ends as one under none, or with the reason of the interrupt.  It
ends with a reason exactly where that is the answer to one of the questions asked
before the statements that a reading under none tries, and the first answer that is
one.  A compilation asks once more behind a reading that succeeds, and an interrupt
shows up as an interruption of the compilation alone. -/
theorem interrupts_are_transparent (source : String) (i : Interrupt) :
    (parseUnder i source = parse source ∨
      ∃ reason, parseUnder i source = .error (.interrupted reason)) ∧
    (∀ reason, parseUnder i source = .error (.interrupted reason) ↔
      ∃ n < Grammar.attempts (Tape.ofString source), i.StopsAt n reason) ∧
    ((∃ reason, parseUnder i source = .error (.interrupted reason)) ↔
      ∃ n < Grammar.attempts (Tape.ofString source), (i.check n).isSome) ∧
    (∀ p t, parse source = .ok ⟨p, t⟩ →
      Grammar.attempts (Tape.ofString source) = tallyStmts p.statements) ∧
    ∀ c : Compiler,
      (c.compileUnder i source = c.compile source ∨
        ∃ reason, c.compileUnder i source = .error (.interrupted reason)) ∧
      (∀ reason, c.compileUnder i source = .error (.interrupted reason) ↔
        ∃ n < Compiler.questions source, i.StopsAt n reason) ∧
      ∀ e, c.compileUnder i source = .error e →
        (∀ reason, e ≠ .source (.interrupted reason)) ∧
        ((∃ n < Compiler.questions source, (i.check n).isSome) →
          ∃ reason, e = .interrupted reason ∧ e.blamesSource = false ∧
            e.blamesArtifact = false) := by
  have hparse : ∀ reason, parse source ≠ .error (.interrupted reason) :=
    fun reason h => ne_interrupted_of_parse h reason rfl
  obtain ⟨hread, hreason⟩ := ends_with_reason_iff (fun _ _ => ParseError.interrupted.inj) hparse
    (parseUnder_eq i source)
  refine ⟨hread, fun reason => (hreason reason).trans Interrupt.reason?_eq_some,
    (exists_congr hreason).trans Interrupt.exists_reason?_iff, fun p t => attempts_of_parse,
    fun c => ?_⟩
  have hcompile : ∀ reason, c.compile source ≠ .error (.interrupted reason) :=
    fun reason h => (Compiler.ne_interrupted_of_compile h reason).1 rfl
  obtain ⟨hcompiled, hstopped⟩ := ends_with_reason_iff
    (fun _ _ => CompileError.interrupted.inj) hcompile (c.compileUnder_eq i source)
  refine ⟨hcompiled, fun reason => (hstopped reason).trans Interrupt.reason?_eq_some,
    fun e he => ⟨?_, fun hstops => ?_⟩⟩
  · rintro reason rfl
    rcases hcompiled with hsame | ⟨reason', hr⟩
    · rw [hsame] at he
      exact (Compiler.ne_interrupted_of_compile he reason).2 rfl
    · rw [he] at hr
      cases hr
  · obtain ⟨reason, hr⟩ := Interrupt.exists_reason?_iff.mpr hstops
    have herror := (hstopped reason).mpr hr
    rw [he] at herror
    cases herror
    exact ⟨reason, rfl, rfl, rfl⟩

/-- Cancelled behind its last statement, a text is read and not compiled. -/
theorem interrupts_are_transparent_late :
    let source := "IF (1) PRINT 1;"
    let i : Interrupt := ⟨fun n => decide (2 ≤ n), fun _ => false⟩
    parseUnder i source = parse source ∧
      (Compiler.ephemeral ⟨List.replicate 32 7, rfl⟩).compileUnder i source =
        .error (.interrupted .cancelled) := by
  intro source i
  have hparse : parse source =
      .ok ⟨⟨[.ifThen (.number "1") [.print [.number "1"]]]⟩, NameTable.fresh⟩ := by cbv
  obtain ⟨hsame, hread, -, htally, hcompile⟩ := interrupts_are_transparent source i
  have hattempts : Grammar.attempts (Tape.ofString source) = 2 := htally _ _ hparse
  have hquestions : Compiler.questions source = 3 := by
    rw [Compiler.questions, hattempts, hparse]
    rfl
  refine ⟨hsame.resolve_right ?_, ((hcompile _).2.1 .cancelled).mpr ?_⟩
  · rintro ⟨reason, hr⟩
    obtain ⟨n, hn, hstop, -⟩ := (hread reason).mp hr
    rw [hattempts] at hn
    have hcheck : i.check n = none := by
      show (if decide (2 ≤ n) = true then _ else _) = _
      rw [if_neg (by simpa using hn)]
      rfl
    rw [hcheck] at hstop
    cases hstop
  · exact ⟨2, hquestions ▸ Nat.lt_succ_self 2, by decide, by decide⟩

end MathScript
