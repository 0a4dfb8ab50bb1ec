import MathScript.Proofs.Grammar.Agreement
import MathScript.Proofs.Grammar.Timeliness
import MathScript.Proofs.Record.Source

/-!
# Errors at the earliest token

A text that is no program is refused at the first token behind which no program goes on, or
at its end if none of its tokens is to blame; and of the names it reads, the first one that
is not declared by then is reported.

* `parse_errors_are_earliest`: **no error could have been reported earlier**.
-/

namespace MathScript

open Grammar

/-- Some tokens complete these to a program. -/
def Viable (ts : List Token) : Prop :=
  ∃ us p ms, DerivesProgram (ts ++ us) p ms

/-- Some tokens that can be written complete these to a program in which every name is
declared before it is read. -/
def ViableInScope (ts : List Token) : Prop :=
  ∃ us p ms, (∀ t ∈ us, t.Printed) ∧ DerivesProgram (ts ++ us) p ms ∧
    NameTable.fresh.firstUndeclared Token.text ms = none

/-- What leads to statements leads to a program, and needs no more names than it reads. -/
theorem Grammar.LeadsStmts.viableInScope {ts : List Token} {ms : List (Mention Token)}
    (h : LeadsStmts ts ms) (hms : NameTable.fresh.firstUndeclared Token.text ms = none) :
    ViableInScope ts := by
  obtain ⟨kinds, ss, ns, hns, hd⟩ := h
  refine ⟨standIns kinds, ⟨ss⟩, ms ++ ns, ?_, hd, ?_⟩
  · intro t ht
    obtain ⟨kind, _, rfl⟩ := List.mem_map.mp ht
    exact kind.printed_standIn
  · rw [NameTable.firstUndeclared_append, hms, Option.none_or]
    exact NameTable.firstUndeclared_of_no_reads _ _ hns

/-- A reading of a program fails for the names and the nesting alone. -/
theorem error_of_derives {ts : List Token} {p : Program} {ms : List (Mention Token)}
    (hd : DerivesProgram ts p ms) {line : Nat} {e : ParseError}
    (h : program .never (Cursor.start ts (.complete line)) = .error e) :
    (∃ line, e = .nestingTooDeep line) ∨
      ∃ t, NameTable.fresh.firstUndeclared Token.text ms = some t ∧
        e = .undefinedName t.text t.line := by
  obtain ⟨n, hd⟩ := DerivesStmts.opens .reading hd
  have hrun := meets_program (hd.derivesIn (Nat.le_succ _)) False False.elim line
  exact (hrun.of_eq_error h).imp_left And.right

/-- An error that is about the tokens comes of reading a program in front of them. -/
theorem program_of_parse_error {source : String} {e : ParseError} (h : parse source = .error e)
    (he : ¬e.Apart) :
    program .never (Cursor.start (Tape.ofString source).tokens (Tape.ofString source).ending) =
        .error e ∧
      (Cursor.start (Tape.ofString source).tokens (Tape.ofString source).ending).Closed := by
  rcases bind_eq_error.mp h with hread | ⟨r, _, hr⟩
  · rcases bind_eq_error.mp hread with hstart | ⟨c, hc, hrun⟩
    · unfold Cursor.ofTape at hstart
      split at hstart
      · cases hstart
        exact absurd trivial he
      · cases hstart
    · have hclosed := Cursor.closed_of_ofTape hc
      rw [Cursor.eq_of_ofTape hc] at hrun hclosed
      exact ⟨hrun, hclosed⟩
  · cases hr

/-- Where the error of a text is due, and that it is the same however the text goes on. -/
theorem due_of_parse_error {source : String} {e : ParseError} (h : parse source = .error e)
    (he : ¬e.Apart) :
    ∃ ts rest, (Tape.ofString source).tokens = ts ++ rest ∧
      Due LeadsStmts NameTable.fresh ts rest e ∧
      ∀ rest' line, rest'.head? = rest.head? →
        program .never (Cursor.start (ts ++ rest') (.complete line)) = .error e := by
  obtain ⟨hrun, -⟩ := program_of_parse_error h he
  have hlevel : (Cursor.start (Tape.ofString source).tokens (Tape.ofString source).ending).level ≤
      maxDepth := by
    show 1 ≤ maxDepth
    decide
  have htimely : Timely LeadsStmts (program .never)
      (Cursor.start (Tape.ofString source).tokens (Tape.ofString source).ending) :=
    timely_program .never hlevel
  exact (Meets.of_eq_error htimely hrun).resolve_left he

/-- The token behind some others, and those up to it. -/
theorem cut_at {α : Type} (ts us : List α) (t : α) :
    (ts ++ t :: us)[ts.length]? = some t ∧ (ts ++ t :: us).take ts.length = ts ∧
      (ts ++ t :: us).take (ts.length + 1) = ts ++ [t] := by
  refine ⟨by simp, by simp, ?_⟩
  rw [List.take_append]
  simp

/-! ## Errors -/

section Errors

variable {source : String}

/-- **A token is refused where no sentence goes on with it.** -/
theorem earliest_of_invalidToken {text : String} {line : Nat}
    (h : parse source = .error (.invalidToken text line)) :
    ∃ i t, (Tape.ofString source).tokens[i]? = some t ∧ t.text = text ∧ t.line = line ∧
      ViableInScope ((Tape.ofString source).tokens.take i) ∧
      ¬Viable ((Tape.ofString source).tokens.take (i + 1)) := by
  obtain ⟨ts, rest, hts, hdue, hrun⟩ := due_of_parse_error h id
  obtain ⟨t, us, ms, rfl, rfl, rfl, hlead, hms⟩ := hdue.of_invalidToken
  obtain ⟨hget, htake, htake'⟩ := cut_at ts us t
  rw [hts]
  refine ⟨ts.length, t, hget, rfl, rfl, ?_, ?_⟩
  · rw [htake]
    exact hlead.viableInScope hms
  · rintro ⟨vs, p, ms', hd⟩
    -- a sentence would be read, and yet the reading fails in front of this token
    rw [htake', List.append_assoc] at hd
    rcases error_of_derives hd (hrun (t :: vs) 1 rfl) with ⟨_, he⟩ | ⟨_, _, he⟩ <;> cases he

/-- **A text ends too early where more could come and has to.** -/
theorem earliest_of_unexpectedEnd (h : parse source = .error .unexpectedEnd) :
    tokenize source = .ok (Tape.ofString source).tokens ∧
      ViableInScope (Tape.ofString source).tokens ∧
      ¬∃ p ms, DerivesProgram (Tape.ofString source).tokens p ms := by
  obtain ⟨ts, rest, hts, hdue, hrun⟩ := due_of_parse_error h id
  obtain ⟨ms, rfl, hlead, hms⟩ := hdue.of_unexpectedEnd
  refine ⟨?_, ?_, ?_⟩
  · obtain ⟨hprogram, hclosed⟩ := program_of_parse_error h id
    obtain ⟨line, hline⟩ := ((orderly_program .never).halts _ hclosed).of_eq_error hprogram rfl
    exact tokenize_of_ending hline
  · rw [hts, List.append_nil]
    exact hlead.viableInScope hms
  · rintro ⟨p, ms', hd⟩
    rw [hts] at hd
    rcases error_of_derives hd (hrun [] 1 rfl) with ⟨_, he⟩ | ⟨_, _, he⟩ <;> cases he

/-- **A name is reported where it is the first to be read undeclared**, whatever the text goes
on with. -/
theorem earliest_of_undefinedName {name : String} {line : Nat}
    (h : parse source = .error (.undefinedName name line)) :
    ∃ i t, (Tape.ofString source).tokens[i]? = some t ∧ t.kind = .identifier ∧ t.text = name ∧
      t.line = line ∧ ViableInScope ((Tape.ofString source).tokens.take i) ∧
      Viable ((Tape.ofString source).tokens.take (i + 1)) ∧
      ∀ us p ms, DerivesProgram ((Tape.ofString source).tokens.take (i + 1) ++ us) p ms →
        (readIn ms).Sublist ((Tape.ofString source).tokens.take (i + 1) ++ us) ∧
          NameTable.fresh.firstUndeclared Token.text ms = some t := by
  obtain ⟨ts, rest, hts, hdue, hrun⟩ := due_of_parse_error h id
  obtain ⟨t, us, ms, rfl, hi, rfl, rfl, hlead, hms, hread⟩ := hdue.of_undefinedName
  obtain ⟨hget, htake, htake'⟩ := cut_at ts us t
  rw [hts]
  refine ⟨ts.length, t, hget, hi, rfl, rfl, ?_, ?_, fun vs p ms' hd => ?_⟩
  · rw [htake]
    exact hlead.viableInScope hms
  · rw [htake']
    obtain ⟨kinds, ss, ns, _, hd⟩ := hread
    exact ⟨standIns kinds, ⟨ss⟩, _, hd⟩
  · rw [htake'] at hd ⊢
    refine ⟨DerivesStmts.readIn_sublist hd, ?_⟩
    have hrun' : program .never (Cursor.start (ts ++ [t] ++ vs) (.complete 1)) =
        .error (.undefinedName t.text t.line) := by
      rw [List.append_assoc]
      exact hrun (t :: vs) 1 rfl
    rcases error_of_derives hd hrun' with ⟨_, he⟩ | ⟨t', ht', he⟩
    · cases he
    · -- what the sentence reads first is an identifier with the same text on the same line
      have hmem : t' ∈ ms'.map Mention.subject :=
        List.mem_map.mpr ⟨_, NameTable.mem_of_firstUndeclared ht', rfl⟩
      have hi' : t'.kind = .identifier := ((DerivesStmts.covers hd t').mp hmem).2
      obtain ⟨kind, text, line⟩ := t
      obtain ⟨kind', text', line'⟩ := t'
      obtain rfl : kind = .identifier := hi
      obtain rfl : kind' = .identifier := hi'
      cases he
      exact ht'

end Errors

/-- **Errors are reported at the earliest token.**  If a token is refused, some sentence
starts with what stands in front of it and none goes on with it.  If a text ends too early,
some sentence starts with it, but it is none itself.  If a name is not declared, some
sentence starts with the tokens up to it, and in every such sentence it is the first token
that reads a name not declared by then. -/
theorem parse_errors_are_earliest (source : String) :
    let tokens := (Tape.ofString source).tokens
    (∀ text line, parse source = .error (.invalidToken text line) →
      ∃ i t, tokens[i]? = some t ∧ t.text = text ∧ t.line = line ∧
        ViableInScope (tokens.take i) ∧ ¬Viable (tokens.take (i + 1))) ∧
    (parse source = .error .unexpectedEnd →
      tokenize source = .ok tokens ∧ ViableInScope tokens ∧
        ¬∃ p ms, DerivesProgram tokens p ms) ∧
    ∀ name line, parse source = .error (.undefinedName name line) →
      ∃ i t, tokens[i]? = some t ∧ t.kind = .identifier ∧ t.text = name ∧ t.line = line ∧
        ViableInScope (tokens.take i) ∧ Viable (tokens.take (i + 1)) ∧
        ∀ us p ms, DerivesProgram (tokens.take (i + 1) ++ us) p ms →
          (readIn ms).Sublist (tokens.take (i + 1) ++ us) ∧
            NameTable.fresh.firstUndeclared Token.text ms = some t :=
  ⟨fun _ _ h => earliest_of_invalidToken h, fun h => earliest_of_unexpectedEnd h,
    fun _ _ h => earliest_of_undefinedName h⟩

/-- A comma behind a number is refused. -/
def refusedComma : String :=
  "x = 1, 2;"

/-- A block that is not closed. -/
def openBlock : String :=
  "IF (1 > 0) \x7b PRINT 1;"

/-- A name that is read on the second line and declared on the third. -/
def earlyName : String :=
  "a = 1;\nb = a + c;\nc = 2;"

set_option maxRecDepth 2000 in
theorem parse_errors_are_earliest_three :
    (parse refusedComma = .error (.invalidToken "," 1) ∧
      ∃ i t, (Tape.ofString refusedComma).tokens[i]? = some t ∧ t.text = "," ∧ t.line = 1 ∧
        ViableInScope ((Tape.ofString refusedComma).tokens.take i) ∧
        ¬Viable ((Tape.ofString refusedComma).tokens.take (i + 1))) ∧
    (parse openBlock = .error .unexpectedEnd ∧ ViableInScope (Tape.ofString openBlock).tokens) ∧
    parse earlyName = .error (.undefinedName "c" 2) ∧
      ∃ i t, (Tape.ofString earlyName).tokens[i]? = some t ∧ t.text = "c" ∧ t.line = 2 ∧
        ∀ us p ms, DerivesProgram ((Tape.ofString earlyName).tokens.take (i + 1) ++ us) p ms →
          NameTable.fresh.firstUndeclared Token.text ms = some t := by
  have hcomma : parse refusedComma = .error (.invalidToken "," 1) := by cbv
  have hblock : parse openBlock = .error .unexpectedEnd := by cbv
  have hname : parse earlyName = .error (.undefinedName "c" 2) := by cbv
  refine ⟨⟨hcomma, (parse_errors_are_earliest refusedComma).1 _ _ hcomma⟩,
    ⟨hblock, ((parse_errors_are_earliest openBlock).2.1 hblock).2.1⟩, hname, ?_⟩
  obtain ⟨i, t, hget, -, htext, hline, -, -, hfirst⟩ :=
    (parse_errors_are_earliest earlyName).2.2 _ _ hname
  exact ⟨i, t, hget, htext, hline, fun us p ms hd => (hfirst us p ms hd).2⟩

end MathScript
