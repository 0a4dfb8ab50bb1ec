import MathScript.Proofs.Grammar.Composition

/-!
# Where nesting is too deep

A text that derives a program in which names are declared in time is read exactly where
the program is no deeper than `maxDepth` and no more nestings than that are open at one
token, exponents and whole expressions outside parentheses among them.  Without these two
the bound would be a larger one: forty parentheses are one too many.

* `parse_iff_opens`: **what the limits on nesting let through**.
* `forty_parentheses`: blocks, parentheses and signs alone do not say it.
-/

namespace MathScript

open Grammar

/-- **The limits on nesting are exact.**  Of the texts that derive a program with every
name declared before it is read, those are read whose programs are no deeper than
`maxDepth` and which open no more nestings than that at the toll of a reading; the
nesting of all others is reported as too deep. -/
theorem parse_iff_opens {source : String} {tokens : List Token} (h : tokenize source = .ok tokens)
    {p : Program} {ms : List (Mention Token)} (hd : DerivesProgram tokens p ms)
    {names : NameTable} (hp : p.resolve = .ok names) :
    (parse source = .ok ⟨p, names⟩ ↔
      p.depth ≤ maxDepth ∧ ∃ ms, OpensStmts .reading maxDepth tokens p.statements ms) ∧
    ((∃ line, parse source = .error (.nestingTooDeep line)) ↔
      ¬(p.depth ≤ maxDepth ∧ ∃ ms, OpensStmts .reading maxDepth tokens p.statements ms)) := by
  obtain rfl : names = p.declared := Program.eq_declared_of_resolve hp
  have hread : parse source = .ok ⟨p, p.declared⟩ ↔
      p.depth ≤ maxDepth ∧ ∃ ms, OpensStmts .reading maxDepth tokens p.statements ms := by
    constructor
    · intro hparse
      obtain ⟨ms, hms⟩ := derivesEachIn_of_parse h hparse
        (List.forall₂_same.mpr fun _ _ => ⟨rfl, fun _ => rfl⟩)
      exact ⟨((parse_decides_grammar h).1 p _ hparse).2.2, ms, hms.derivesIn.opens⟩
    · rintro ⟨hdepth, ms, hms⟩
      have hheight : maxStmtDepth p.statements ≤ maxDepth - 1 + 1 := hdepth
      exact parse_of_room h (hms.derivesIn hheight) le_rfl (by decide) hp
  refine ⟨hread, ?_⟩
  rw [← hread]
  rcases (parse_decides_grammar h).2 p ms hd with ⟨hok, -⟩ | ⟨t, -, -, ht⟩ | ⟨line, hdeep⟩
  · simp [hok]
  · rw [hp] at ht
    cases ht
  · simp [hdeep]

/-! ## Parentheses -/

/-- A number in so many parentheses. -/
def parenthesised : Nat → List Token
  | 0 => [⟨.number, "1", 1⟩]
  | n + 1 => ⟨.leftParen, "(", 1⟩ :: (parenthesised n ++ [⟨.rightParen, ")", 1⟩])

theorem Grammar.Opens.expression_of_primary {toll : Toll} {k : Nat} {ts : List Token} {e : Expr}
    (h : Opens toll k .primary ts e) : Opens toll k .expression ts e :=
  .plain (.compared (.first rfl (.first rfl (.first rfl (.unsigned (.base h))))))

/-- Each pair of parentheses opens one nesting. -/
theorem opens_parenthesised (toll : Toll) (n : Nat) :
    Opens toll n .primary (parenthesised n) (.number "1") := by
  induction n with
  | zero => exact .number rfl
  | succ n ih => exact .parentheses rfl ih.expression_of_primary rfl

/-- The tokens of an assignment of a number in so many parentheses. -/
def assigned (n : Nat) : List Token :=
  ⟨.identifier, "a", 1⟩ :: ⟨.assign, "=", 1⟩ :: (parenthesised n ++ [⟨.semicolon, ";", 1⟩])

theorem opens_assigned (toll : Toll) (n : Nat) :
    OpensStmts toll (n + toll.expression) (assigned n) [.assignment "a" (.number "1")]
      (readsOf (parenthesised n) ++ [.declare ⟨.identifier, "a", 1⟩]) :=
  .one (.assignment rfl rfl (.first rfl (opens_parenthesised toll n).expression_of_primary) le_rfl
    rfl)

theorem alone_of_mem_assigned {n : Nat} : ∀ t ∈ assigned n, t.Alone ∧ t.line = 1 := by
  have hinside : ∀ t ∈ parenthesised n, t.Alone ∧ t.line = 1 := by
    induction n with
    | zero => exact List.forall_mem_singleton.mpr ⟨rfl, rfl⟩
    | succ n ih =>
      exact List.forall_mem_cons.mpr ⟨⟨rfl, rfl⟩,
        List.forall_mem_append.mpr ⟨ih, List.forall_mem_singleton.mpr ⟨rfl, rfl⟩⟩⟩
  exact List.forall_mem_cons.mpr ⟨⟨rfl, rfl⟩, List.forall_mem_cons.mpr ⟨⟨rfl, rfl⟩,
    List.forall_mem_append.mpr ⟨hinside, List.forall_mem_singleton.mpr ⟨rfl, rfl⟩⟩⟩⟩

/-- With thirty-nine parentheses the limit is met. -/
theorem parse_iff_opens_thirtyNine :
    let source := String.ofList (spaced (assigned 39))
    let p : Program := ⟨[.assignment "a" (.number "1")]⟩
    tokenize source = .ok (assigned 39) ∧ (∃ ms, DerivesProgram (assigned 39) p ms) ∧
      p.resolve = .ok p.declared ∧ parse source = .ok ⟨p, p.declared⟩ := by
  intro source p
  have htokens : tokenize source = .ok (assigned 39) := tokenize_spaced alone_of_mem_assigned
  have hopens := opens_assigned .reading 39
  have hresolve : p.resolve = .ok p.declared := by cbv
  exact ⟨htokens, ⟨_, hopens.derives⟩, hresolve,
    (parse_iff_opens htokens hopens.derives hresolve).1.mpr ⟨by decide, _, hopens⟩⟩

set_option maxRecDepth 4000 in
/-- **Forty parentheses are one too many**: with nothing else open and a program of depth 2,
the nesting is too deep. -/
theorem forty_parentheses :
    let source := String.ofList (spaced (assigned 40))
    let p : Program := ⟨[.assignment "a" (.number "1")]⟩
    tokenize source = .ok (assigned 40) ∧ (∃ ms, DerivesProgram (assigned 40) p ms) ∧
      p.resolve = .ok p.declared ∧ p.depth = 2 ∧
      (∃ ms, OpensStmts .free maxDepth (assigned 40) p.statements ms) ∧
      parse source = .error (.nestingTooDeep 1) := by
  intro source p
  have htokens : tokenize source = .ok (assigned 40) := tokenize_spaced alone_of_mem_assigned
  have hopens := opens_assigned .free 40
  obtain ⟨line, htape⟩ := tape_of_tokenize htokens
  have hrun : program .never ⟨assigned 40, .complete line, NameTable.fresh, 0, 0, 1⟩ =
      .error (.nestingTooDeep 1) := by cbv
  refine ⟨htokens, ⟨_, hopens.derives⟩, by cbv, by decide, ⟨_, hopens⟩, ?_⟩
  rw [parse, parseUnder_of_tape htape, hrun]
  rfl

end MathScript
