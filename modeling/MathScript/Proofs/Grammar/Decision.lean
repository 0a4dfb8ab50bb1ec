import MathScript.Proofs.Grammar.Soundness
import MathScript.Proofs.Grammar.Statements
import MathScript.Proofs.Token.Shape

/-!
# Reading decides the grammar

What is read from a text derives from its tokens, and what derives from its
tokens is read, short of a name declared too late and of nesting that is too
deep.

* `resolve_of_parse`: a text is read as a program that keeps the scope rules and
  the bound on its depth.
* `parse_of_room`: nesting does not stop a reading that has room for it.
* `parse_decides_grammar`: **reading a text decides the grammar**.
-/

namespace MathScript

open Grammar

/-- A program that derives keeps the scope rules if its tokens do. -/
theorem Grammar.DerivesProgram.resolve_eq {ts : List Token} {p : Program}
    {ms : List (Mention Token)} (h : DerivesProgram ts p ms) :
    p.resolve = match NameTable.fresh.firstUndeclared Token.text ms with
      | some t => .error t.text
      | none => .ok p.declared := by
  have hms : ms.map (Mention.map Token.text) = p.mentions := h.mentions_eq
  rw [Program.resolve_eq, Program.declared_eq, NameTable.check, ← hms,
    NameTable.firstUndeclared_map]
  cases NameTable.fresh.firstUndeclared Token.text ms <;> rfl

/-- What a text is read as declares every name before it reads it. -/
theorem resolve_of_parse {interrupt : Interrupt} {source : String} {p : Program} {t : NameTable}
    (h : parseUnder interrupt source = .ok ⟨p, t⟩) : p.resolve = .ok t := by
  obtain ⟨ms, hd, hnone, rfl, _⟩ := derives_of_parseUnder h
  have hms : ms.map (Mention.map Token.text) = p.mentions := hd.mentions_eq
  rw [hd.resolve_eq, hnone, Program.declared_eq, ← hms, NameTable.after_map]

/-- A text of tokens is read by reading a program in front of them. -/
theorem parse_eq_program {source : String} {t : Token} {us : List Token} {line : Nat}
    (h : Tape.ofString source = ⟨t :: us, .complete line⟩) :
    parse source = program .never ⟨t :: us, .complete line, NameTable.fresh, 0, 0, 1⟩ >>= fun r =>
      .ok ⟨r.1, r.2.names⟩ := by
  unfold parse parseUnder Grammar.read
  rw [h]
  rfl

/-- The cursor in front of all tokens of a text. -/
def Grammar.Cursor.start (tokens : List Token) (ending : Ending) : Cursor :=
  ⟨tokens, ending, NameTable.fresh, 0, 0, 1⟩

/-- In front of tokens that derive a program, a reading comes to it, or has an excuse. -/
theorem meets_program {tokens : List Token} {p : Program} {ms : List (Mention Token)}
    {n height : Nat} (hd : DerivesStmtsIn n height tokens p.statements ms) (room : Prop)
    (hroom : room → n ≤ maxDepth ∧ 1 + height ≤ maxDepth) (line : Nat) :
    Meets (program .never) (.start tokens (.complete line))
      (fun q c => q = p ∧ Passes (.start tokens (.complete line)) tokens ms c)
      (Excuses room NameTable.fresh ms) := by
  have hprogram : Completes room n height (program .never) tokens [] ms (· = p) := by
    have hread := hd.accepts room maxDepth [] none (fun hr => (hroom hr).1) ⟨rfl, .inl rfl⟩
    exact hread.bind_nil fun ss hss => completes_pure (by rw [hss])
  refine hprogram _ line (List.append_nil _).symm rfl fun hr => ⟨?_, (hroom hr).2⟩
  show 0 + n ≤ maxDepth
  rw [Nat.zero_add]
  exact (hroom hr).1

/-- Tokens that derive a program are read as it, or there is an excuse. -/
theorem parse_of_derivesIn {source : String} {tokens : List Token}
    (h : tokenize source = .ok tokens) {p : Program} {ms : List (Mention Token)} {n height : Nat}
    (hd : DerivesStmtsIn n height tokens p.statements ms) (room : Prop)
    (hroom : room → n ≤ maxDepth ∧ 1 + height ≤ maxDepth) :
    (parse source = .ok ⟨p, p.declared⟩ ∧
        NameTable.fresh.firstUndeclared Token.text ms = none) ∨
      ∃ e, parse source = .error e ∧ Excuses room NameTable.fresh ms e := by
  obtain ⟨line, htape⟩ := tape_of_tokenize h
  obtain ⟨t, us, rfl, _⟩ := hd.derives.starts
  have hrun := meets_program hd room hroom line
  have hparse := parse_eq_program htape
  cases hr : program .never ⟨t :: us, .complete line, NameTable.fresh, 0, 0, 1⟩ with
  | error e =>
    rw [hr] at hparse
    exact .inr ⟨e, hparse, hrun.of_eq_error hr⟩
  | ok r =>
    obtain ⟨q, c⟩ := r
    rw [hr] at hparse
    obtain ⟨rfl, hp⟩ := hrun.of_eq_ok hr
    have hms : ms.map (Mention.map Token.text) = q.mentions := DerivesStmts.mentions_eq hd.derives
    have hnames : c.names = q.declared := by
      rw [Program.declared_eq, ← hms, NameTable.after_map]
      exact hp.names
    refine .inl ⟨?_, hp.declared⟩
    rw [hparse, ← hnames]
    rfl

/-- Whatever the room. -/
theorem parse_of_derives {source : String} {tokens : List Token}
    (h : tokenize source = .ok tokens) {p : Program} {ms : List (Mention Token)}
    (hd : DerivesProgram tokens p ms) :
    (parse source = .ok ⟨p, p.declared⟩ ∧
        NameTable.fresh.firstUndeclared Token.text ms = none) ∨
      ∃ e, parse source = .error e ∧ ((∃ line, e = .nestingTooDeep line) ∨
        ∃ t, NameTable.fresh.firstUndeclared Token.text ms = some t ∧
          e = .undefinedName t.text t.line) := by
  obtain ⟨n, hd⟩ := DerivesStmts.opens .reading hd
  refine (parse_of_derivesIn h (hd.derivesIn (Nat.le_succ _)) False False.elim).imp_right ?_
  rintro ⟨e, hp, he⟩
  exact ⟨e, hp, he.imp_left And.right⟩

/-- **Nesting does not stop a reading that has room for it.** -/
theorem parse_of_room {source : String} {tokens : List Token} (h : tokenize source = .ok tokens)
    {p : Program} {ms : List (Mention Token)} {n height : Nat}
    (hd : DerivesStmtsIn n height tokens p.statements ms) (hn : n ≤ maxDepth)
    (hheight : 1 + height ≤ maxDepth) {names : NameTable} (hp : p.resolve = .ok names) :
    parse source = .ok ⟨p, p.declared⟩ := by
  have hresolve := Grammar.DerivesProgram.resolve_eq hd.derives
  rcases parse_of_derivesIn h hd True fun _ => ⟨hn, hheight⟩ with
    ⟨hread, -⟩ | ⟨e, -, ⟨hroom, -⟩ | ⟨t, ht, -⟩⟩
  · exact hread
  · exact absurd trivial hroom
  · rw [ht, hp] at hresolve
    cases hresolve

/-- **Reading decides the grammar.**  A text of tokens that is read as a program
derives it, and the program keeps the scope rules and the bound on its depth.  A
text whose tokens derive a program is read as that program with the table of its
declarations; or the first name that it reads too early is reported, on the line
where that stands; or the nesting is too deep. -/
theorem parse_decides_grammar {source : String} {tokens : List Token}
    (h : tokenize source = .ok tokens) :
    (∀ p t, parse source = .ok ⟨p, t⟩ →
      (∃ ms, DerivesProgram tokens p ms) ∧ p.resolve = .ok t ∧ p.depth ≤ maxDepth) ∧
    ∀ p ms, DerivesProgram tokens p ms →
      (parse source = .ok ⟨p, p.declared⟩ ∧ p.resolve = .ok p.declared) ∨
      (∃ t, NameTable.fresh.firstUndeclared Token.text ms = some t ∧
        parse source = .error (.undefinedName t.text t.line) ∧ p.resolve = .error t.text) ∨
      ∃ line, parse source = .error (.nestingTooDeep line) := by
  refine ⟨fun p t hp => ?_, fun p ms hd => ?_⟩
  · obtain ⟨ms, hd, _, _, hdepth⟩ := derives_of_parseUnder hp
    obtain ⟨line, htape⟩ := tape_of_tokenize h
    rw [htape] at hd
    exact ⟨⟨ms, hd⟩, resolve_of_parse hp, hdepth⟩
  · rcases parse_of_derives h hd with ⟨hp, hnone⟩ | ⟨e, hp, ⟨line, rfl⟩ | ⟨t, ht, rfl⟩⟩
    · refine .inl ⟨hp, ?_⟩
      rw [hd.resolve_eq, hnone]
    · exact .inr (.inr ⟨line, hp⟩)
    · refine .inr (.inl ⟨t, ht, hp, ?_⟩)
      rw [hd.resolve_eq, ht]

/-- One `ELSE` behind two open `IF`s. -/
def danglingElse : String :=
  "IF (x > 0) IF (x > 1) PRINT(1); ELSE PRINT(-x);"

theorem parse_decides_grammar_danglingElse :
    tokenize danglingElse = .ok (Tape.ofString danglingElse).tokens ∧
      ∃ ms, DerivesProgram (Tape.ofString danglingElse).tokens
        ⟨[.ifThen (.comparison (.name "x") .greater (.number "0"))
          [.ifThenElse (.comparison (.name "x") .greater (.number "1")) [.print [.number "1"]]
            [.print [.binary (.number "0") .sub (.name "x")]]]]⟩ ms := by
  have hlex : tokenize danglingElse = .ok (Tape.ofString danglingElse).tokens := by cbv
  exact ⟨hlex, ((parse_decides_grammar hlex).1 _ NameTable.fresh (by cbv)).1⟩

end MathScript
