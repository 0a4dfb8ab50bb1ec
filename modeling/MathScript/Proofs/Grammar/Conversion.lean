import MathScript.Proofs.Grammar.Composition
import MathScript.Proofs.Grammar.Outside
import MathScript.Proofs.Token.Continued

/-!
# Conversions of what `SOLVE` finds

`AS` stands behind an expression to convert it, and behind the operand of `SOLVE` to name its
domain.  A reading takes it for the second before it sees the word behind, so `STRING`, which is
no domain, is refused there.

* `solve_fails`, `value_fails`, `simple_fails`, `program_fails`: a reading fails where `SOLVE`
  does.
* `sum_of_parse`: what is read as a value and derives as a sum is no more than that.
* `conversion_of_sum`: **sums are converted, and what `SOLVE` finds where it has a domain**.
* `solve_not_converted`: without one it is not.
-/

namespace MathScript

open Grammar

namespace Grammar

/-! ## Where a reading fails -/

section Fails

variable {c : Cursor} {fails : ParseError → Prop} {s w d : Token} {ts rest : List Token} {e : Expr}
  {k m line : Nat}

/-- **Behind the operand of `SOLVE`, `AS` is refused where no domain follows**, at the word
behind it. -/
theorem solve_fails (h : DerivesIn k .sum ts e) (hm : k ≤ m) (hs : s.kind = .solve)
    (hw : w.kind = .asWord) (hd : domain? d.kind = none)
    (ht : c.tokens = s :: (ts ++ w :: d :: rest)) (hc : c.ending = .complete line)
    (hroom : c.Room k e.depth) (hdeclared : missing? c.names ts = none) :
    Meets (solve (operand m)) c (fun _ _ => False) (· = .invalidToken d.text d.line) := by
  have hread := h.accepts True m (w :: d :: rest) (fun _ => hm) (Level.ends_cons _ hw (by decide))
  unfold solve
  rw [meets_bind, meets_consume ht hc hs, meets_bind]
  refine (hread { c with tokens := ts ++ w :: d :: rest } line rfl hc fun _ =>
    ⟨hroom.depth, hroom.level⟩).mono ?_ ?_
  · rintro n c₁ ⟨-, hp⟩
    have ht₁ : c₁.tokens = w :: d :: rest := List.append_cancel_left hp.tokens.symm
    have hc₁ : c₁.ending = .complete line := hp.ending.trans hc
    have hkind : c₁.kind? = some .asWord := by
      rw [Cursor.kind?, ht₁]
      exact congrArg some hw
    have hword : Meets (word domain?) { c₁ with tokens := d :: rest } (fun _ _ => False)
        (· = .invalidToken d.text d.line) := by
      have hnone : (Cursor.kind? { c₁ with tokens := d :: rest }).bind domain? = none := hd
      unfold word
      rw [meets_bind, meets_peek, hnone]
      rfl
    simp only [meets_bind, meets_isAt, hkind, decide_true, Bool.or_true, if_true,
      meets_advance ht₁ hc₁]
    exact hword.of_fails
  · rintro error (⟨hno, -⟩ | ⟨t, ht, -⟩)
    · exact absurd trivial hno
    · rw [show c.names.firstUndeclared Token.text (readsOf ts) = none from hdeclared] at ht
      cases ht

/-- A value fails where its `SOLVE` does. -/
theorem value_fails (h : DerivesIn k .sum ts e) (hk : k ≤ maxDepth) (hs : s.kind = .solve)
    (hw : w.kind = .asWord) (hd : domain? d.kind = none)
    (ht : c.tokens = s :: (ts ++ w :: d :: rest)) (hc : c.ending = .complete line)
    (hroom : c.Room (k + 1) e.depth) (hdeclared : missing? c.names ts = none) :
    Meets value c (fun _ _ => False) (· = .invalidToken d.text d.line) := by
  have hdepth := hroom.depth
  have hat : Cursor.kind? { c with depth := c.depth + 1 } = some .solve := by
    rw [Cursor.kind?, ht]
    exact congrArg some hs
  have hinner : Cursor.Room { c with depth := c.depth + 1 } k e.depth := by
    refine ⟨?_, hroom.level⟩
    show c.depth + 1 + k ≤ maxDepth
    omega
  have hsolve := solve_fails h hk hs hw hd (c := { c with depth := c.depth + 1 }) ht hc hinner
    hdeclared
  have hexpression : Meets expression c (fun _ _ => False) (· = .invalidToken d.text d.line) := by
    unfold expression
    rw [expressionOf_eq, meets_nested, if_neg (by omega)]
    refine Meets.bind_fails ?_
    unfold convertible
    rw [meets_bind, meets_isAt, hat]
    exact hsolve
  unfold value leftAssociative
  exact hexpression.bind_fails

/-- An assignment fails where its value does. -/
theorem simple_fails {target eq : Token} {us : List Token} (hi : target.kind = .identifier)
    (ha : eq.kind = .assign) (ht : c.tokens = target :: eq :: us) (hc : c.ending = .complete line)
    (hvalue : Meets value { c with tokens := us } (fun _ _ => False) fails) :
    Meets simple c (fun _ _ => False) fails := by
  have hkind : c.kind? = some .identifier := by
    rw [Cursor.kind?, ht]
    exact congrArg some hi
  unfold simple
  rw [meets_bind, meets_peek, hkind]
  simp only [meets_bind]
  rw [meets_advance ht hc, meets_consume (c := { c with tokens := eq :: us }) rfl hc ha]
  exact hvalue.of_fails

/-- A program fails where the value of its first assignment does. -/
theorem program_fails {target eq : Token} {us : List Token} (hi : target.kind = .identifier)
    (ha : eq.kind = .assign)
    (hvalue : ∀ checks, Meets value { Cursor.start us (.complete line) with checks }
      (fun _ _ => False) fails) :
    Meets (program .never) (.start (target :: eq :: us) (.complete line)) (fun _ _ => False)
      fails := by
  have hkind : Cursor.kind? { Cursor.start (target :: eq :: us) (.complete line) with checks := 1 } =
      some .identifier := congrArg some hi
  have hstatement : Meets (statement .never) (.start (target :: eq :: us) (.complete line))
      (fun _ _ => False) fails := by
    unfold statement statementOf
    rw [meets_bind]
    show Meets (peek >>= _) { Cursor.start _ _ with checks := 1 } _ _
    rw [meets_bind, meets_peek, hkind]
    exact (simple_fails hi ha rfl rfl (hvalue 1)).bind_fails
  unfold program statements
  exact hstatement.bind_fails.bind_fails

end Fails

/-! ## Assignments -/

/-- An assignment shows its semicolon outside all parentheses. -/
theorem DerivesStmt.not_arithmetic {d : Bool} {tokens : List Token} {s : Stmt}
    {ms : List (Mention Token)} (h : DerivesStmt d tokens s ms) {target eq : Token}
    {ts us : List Token} (htokens : tokens ++ us = target :: eq :: ts)
    (hi : target.kind = .identifier) : ¬Arithmetic ts := by
  intro hts
  cases h with
  | assignment _ _ he hsemi =>
    obtain ⟨-, htail⟩ := List.cons.inj htokens
    obtain ⟨-, hsplit⟩ := List.cons.inj htail
    rw [← hsplit, List.append_eq, List.append_assoc] at hts
    have hshown := hts.shown he.balanced (isPlain_of_kind hsemi (by decide))
    rw [hsemi] at hshown
    cases hshown
  | input hw | print hw | plot hw | ifThen hw | ifThenElse hw | whileLoop hw =>
    obtain ⟨rfl, -⟩ := List.cons.inj htokens
    rw [hw] at hi
    cases hi

theorem DerivesStmts.not_arithmetic {target eq : Token} {ts : List Token} {ss : List Stmt}
    {ms : List (Mention Token)} (h : DerivesStmts (target :: eq :: ts) ss ms)
    (hi : target.kind = .identifier) : ¬Arithmetic ts := by
  generalize htokens : target :: eq :: ts = tokens at h
  cases h with
  | one h => exact h.not_arithmetic ((List.append_nil _).trans htokens.symm) hi
  | cons h _ => exact h.not_arithmetic htokens.symm hi

/-- What an assignment opens, its value opens. -/
theorem OpensStmts.value_of_assignment {toll : Toll} {n : Nat} {target eq semi : Token}
    {ts : List Token} {name : String} {e : Expr} {ms : List (Mention Token)}
    (h : OpensStmts toll n (target :: eq :: (ts ++ [semi])) [.assignment name e] ms) :
    ∃ k, k + toll.expression ≤ n ∧ Opens toll k .value ts e := by
  generalize htokens : target :: eq :: (ts ++ [semi]) = tokens at h
  cases h with
  | one h =>
    cases h with
    | assignment _ _ he hn _ =>
      obtain ⟨-, htail⟩ := List.cons.inj htokens
      obtain ⟨-, htail⟩ := List.cons.inj htail
      obtain ⟨rfl, -⟩ := List.append_inj' htail rfl
      exact ⟨_, hn, he⟩
  | cons _ hs => cases hs

theorem derives_value_of_sum {ts : List Token} {e : Expr} (h : Derives .sum ts e) :
    Derives .value ts e :=
  .first rfl (.plain (.compared (.first rfl h)))

end Grammar

/-- A text fails where its program does. -/
theorem parse_eq_error {source : String} {ts : List Token} {line : Nat} {error : ParseError}
    (htape : Tape.ofString source = ⟨ts, .complete line⟩)
    (h : Meets (program .never) (.start ts (.complete line)) (fun _ _ => False) (· = error)) :
    parse source = .error error := by
  have hrun : program .never (.start ts (.complete line)) = .error error :=
    run_eq_iff.mpr (h.mono (fun _ _ hnot => hnot.elim) fun _ he => congrArg Except.error he)
  have hread : parse source = _ := parseUnder_of_tape htape
  rw [hread]
  exact congrArg (Except.map _) hrun

/-! ## Texts around an expression -/

/-- The tokens of `t =`, and of `t = SOLVE`. -/
def assigning : List Token :=
  [⟨.identifier, "t", 1⟩, ⟨.assign, "=", 1⟩]

def solving : List Token :=
  assigning ++ [⟨.solve, "SOLVE", 1⟩]

/-- The tokens of `AS STRING;` on a line. -/
def asString (line : Nat) : List Token :=
  [⟨.asWord, "AS", line⟩, ⟨.string, "STRING", line⟩, ⟨.semicolon, ";", line⟩]

/-- The tokens of an assignment to `t`. -/
theorem opens_assigning {toll : Toll} {k n : Nat} {ts : List Token} {e : Expr}
    (h : Opens toll k .value ts e) (hn : k + toll.expression ≤ n) {semi : Token}
    (hsemi : semi.kind = .semicolon) :
    OpensStmts toll n (assigning ++ (ts ++ [semi])) [.assignment "t" e]
      (readsOf ts ++ [.declare ⟨.identifier, "t", 1⟩]) := by
  have hstmt : OpensStmt toll n false
      (⟨.identifier, "t", 1⟩ :: ⟨.assign, "=", 1⟩ :: (ts ++ [semi]))
      (.assignment (Token.text ⟨.identifier, "t", 1⟩) e)
      (readsOf ts ++ [.declare ⟨.identifier, "t", 1⟩]) := .assignment rfl rfl h hn hsemi
  exact .one hstmt

theorem endsToken_space : EndsToken ' ' :=
  endsToken_of_mem_gapHeads (by decide)

theorem alone_of_mem_solving : ∀ t ∈ solving, t.Alone ∧ t.line = 1 := by
  exact List.forall_mem_cons.mpr ⟨⟨rfl, rfl⟩, List.forall_mem_cons.mpr ⟨⟨rfl, rfl⟩,
    List.forall_mem_singleton.mpr ⟨rfl, rfl⟩⟩⟩

theorem alone_of_mem_assigning : ∀ t ∈ assigning, t.Alone ∧ t.line = 1 := by
  intro t ht
  exact alone_of_mem_solving t (List.mem_append_left _ ht)

theorem scan_semicolon (line : Nat) :
    Tape.scan line 0 ";".toList = ⟨[⟨.semicolon, ";", line⟩], .complete line⟩ := by
  rfl

theorem scan_asString (line : Nat) :
    Tape.scan line 0 " AS STRING;".toList = ⟨asString line, .complete line⟩ := by
  rfl

theorem scan_asDomain (domain : Domain) (line : Nat) :
    Tape.scan line 0 (" AS " ++ domain.keyword ++ ";").toList =
      ⟨[⟨.asWord, "AS", line⟩, ⟨domain.kind, domain.keyword, line⟩, ⟨.semicolon, ";", line⟩],
        .complete line⟩ := by
  cases domain <;> rfl

theorem scan_inDomain (domain : Domain) (line : Nat) :
    Tape.scan line 0 (" IN " ++ domain.keyword ++ " AS STRING;").toList =
      ⟨⟨.inWord, "IN", line⟩ :: ⟨domain.kind, domain.keyword, line⟩ :: asString line,
        .complete line⟩ := by
  cases domain <;> rfl

section Assigned

variable {e : String} {ts : List Token} {tree : Expr} {p : Program} {names : NameTable}

/-- What is assigned to, and ends in a semicolon, does not end in a comment. -/
theorem isClosed_of_parse (hlex : tokenize e = .ok ts) (hts : Arithmetic ts)
    (h : parse ("t = " ++ e ++ ";") = .ok ⟨p, names⟩) : IsClosed 1 e.toList := by
  obtain ⟨last, htape⟩ := tape_of_tokenize hlex
  have hscan : Tape.scan 1 0 e.toList = ⟨ts, .complete last⟩ := htape
  have htext : ("t = " ++ e ++ ";").toList = spaced assigning ++ (e.toList ++ [';']) := by
    rw [String.toList_append, String.toList_append, List.append_assoc]
    rfl
  intro hopen
  obtain ⟨ms, hd, -⟩ := derives_of_parseUnder h
  rw [Tape.ofString, htext, scan_spaced_append 1 alone_of_mem_assigning, hopen, hscan] at hd
  exact DerivesStmts.not_arithmetic hd rfl hts

/-- **A sum that is read as a value is read as the tree that it derives**: its names are
declared, and its nestings are those of a sum. -/
theorem sum_of_parse (hlex : tokenize e = .ok ts) (hsum : Derives .sum ts tree)
    (h : parse ("t = " ++ e ++ ";") = .ok ⟨p, names⟩) :
    p = ⟨[.assignment "t" tree]⟩ ∧ IsClosed 1 e.toList ∧ missing? NameTable.fresh ts = none ∧
      ∃ k, k + 1 ≤ maxDepth ∧ Opens .reading k .sum ts tree := by
  have harithmetic := hsum.arithmetic rfl
  have hclosed := isClosed_of_parse hlex harithmetic h
  have htokens : tokenize ("t = " ++ e ++ ";") = .ok _ := tokenize_between hlex rfl
    alone_of_mem_assigning hclosed endsToken_semicolon (by decide) rfl scan_semicolon
  obtain ⟨n, hopens⟩ := (derives_value_of_sum hsum).opens .free
  have hd : DerivesProgram (assigning ++ (ts ++ [⟨.semicolon, ";", (Tape.ofString e).ending.line⟩]))
      ⟨[.assignment "t" tree]⟩ _ := (opens_assigning hopens le_rfl rfl).derives
  obtain ⟨rfl, hnone⟩ : p = ⟨[.assignment "t" tree]⟩ ∧ missing? NameTable.fresh ts = none := by
    rcases parse_of_derives htokens hd with ⟨hread, hnone⟩ | ⟨error, hread, -⟩
    · rw [h] at hread
      rw [NameTable.firstUndeclared_append, Option.or_eq_none_iff] at hnone
      exact ⟨congrArg Parsed.program (Except.ok.inj hread), hnone.1⟩
    · rw [h] at hread
      cases hread
  obtain ⟨ms, hms⟩ := derivesEachIn_of_parse htokens h
    (List.forall₂_same.mpr fun _ _ => ⟨rfl, fun _ => rfl⟩)
  obtain ⟨k, hk, hvalue⟩ := OpensStmts.value_of_assignment hms.derivesIn.opens
  exact ⟨rfl, hclosed, hnone, k, hk, hvalue.sum_of_value harithmetic⟩

/-- What opens no more nestings than there may be, and is no deeper, is read. -/
theorem parse_of_assigning {text : String} {k : Nat} (semi : Token)
    (hlex : tokenize text = .ok (assigning ++ (ts ++ [semi]))) (hsemi : semi.kind = .semicolon)
    (h : Opens .reading k .expression ts tree) (hk : k + 1 ≤ maxDepth)
    (hdepth : 1 + tree.depth ≤ maxDepth)
    (hresolve : Program.resolve ⟨[.assignment "t" tree]⟩ = .ok names) :
    parse text = .ok ⟨⟨[.assignment "t" tree]⟩, names⟩ := by
  have hopens : OpensStmts .reading maxDepth _ [.assignment "t" tree] _ :=
    opens_assigning (.first rfl h) hk hsemi
  have hheight : maxStmtDepth [.assignment "t" tree] ≤ (maxDepth - 1) + 1 := by
    rw [Nat.sub_add_cancel (by decide)]
    simpa [maxStmtDepth, Stmt.depth] using hdepth
  rw [Program.eq_declared_of_resolve hresolve]
  exact parse_of_room hlex (hopens.derivesIn hheight) le_rfl (by decide) hresolve

section Behind

variable {k : Nat} (hlex : tokenize e = .ok ts) (hclosed : IsClosed 1 e.toList)
  (h : Opens .reading k .sum ts tree) (hk : k + 1 ≤ maxDepth)
include hlex hclosed h hk

/-- What `SOLVE` finds without a domain is not converted to a string: `AS` is taken for what
names the domain. -/
theorem parse_solve_asString (hdepth : 1 + tree.depth ≤ maxDepth)
    (hdeclared : missing? NameTable.fresh ts = none) :
    parse ("t = SOLVE " ++ e ++ " AS STRING;") =
      .error (.invalidToken "STRING" (Tape.ofString e).ending.line) := by
  let last := (Tape.ofString e).ending.line
  have htokens : tokenize ("t = SOLVE " ++ e ++ " AS STRING;") = .ok _ := tokenize_between hlex rfl
    alone_of_mem_solving hclosed endsToken_space (by decide) rfl scan_asString
  obtain ⟨line, htape⟩ := tape_of_tokenize htokens
  have hvalue : ∀ checks, Meets value
      { Cursor.start (⟨.solve, "SOLVE", 1⟩ :: (ts ++ asString last)) (.complete line) with checks }
      (fun _ _ => False) (· = .invalidToken "STRING" last) := by
    intro checks
    exact value_fails (d := ⟨.string, "STRING", last⟩) h.derivesIn (Nat.le_of_succ_le hk) rfl rfl rfl
      rfl rfl ⟨(Nat.zero_add _).trans_le hk, hdepth⟩ hdeclared
  have hprogram : Meets (program .never) (.start (⟨.identifier, "t", 1⟩ :: ⟨.assign, "=", 1⟩ ::
      ⟨.solve, "SOLVE", 1⟩ :: (ts ++ asString last)) (.complete line)) _ _ :=
    program_fails rfl rfl hvalue
  exact parse_eq_error htape hprogram

variable (hresolve : Program.resolve ⟨[.assignment "t" tree]⟩ = .ok names)
include hresolve

/-- A sum is converted. -/
theorem parse_sum_asString (hdepth : 2 + tree.depth ≤ maxDepth) :
    parse ("t = " ++ e ++ " AS STRING;") =
      .ok ⟨⟨[.assignment "t" (.cast tree .string)]⟩, names⟩ := by
  let last := (Tape.ofString e).ending.line
  have hcast : Opens .reading k .expression (ts ++ [⟨.asWord, "AS", last⟩, ⟨.string, "STRING", last⟩])
      (.cast tree .string) := .converted .string (.compared (.first rfl h)) rfl rfl
  refine parse_of_assigning ⟨.semicolon, ";", last⟩ ?_ rfl hcast hk ?_ hresolve
  · rw [tokenize_between hlex rfl alone_of_mem_assigning hclosed endsToken_space (by decide) rfl
      scan_asString, List.append_assoc]
    rfl
  · rw [Expr.depth]
    omega

/-- `AS` names the domain of what `SOLVE` finds. -/
theorem parse_solve_asDomain (hdepth : 2 + tree.depth ≤ maxDepth) (domain : Domain) :
    parse ("t = SOLVE " ++ e ++ (" AS " ++ domain.keyword ++ ";")) =
      .ok ⟨⟨[.assignment "t" (.solve tree domain)]⟩, names⟩ := by
  let last := (Tape.ofString e).ending.line
  have hsolve : Opens .reading k .convertible (⟨.solve, "SOLVE", 1⟩ ::
      (ts ++ [⟨.asWord, "AS", last⟩, ⟨domain.kind, domain.keyword, last⟩])) (.solve tree domain) :=
    .solvedIn domain rfl h (.inr rfl) rfl
  have hhead : (" AS " ++ domain.keyword ++ ";").toList.head? = some ' ' := by cases domain <;> rfl
  refine parse_of_assigning ⟨.semicolon, ";", last⟩ ?_ rfl (.plain hsolve) hk ?_ hresolve
  · rw [tokenize_between hlex rfl alone_of_mem_solving hclosed endsToken_space (by decide)
      hhead (scan_asDomain domain), solving]
    simp only [List.append_assoc, List.cons_append, List.nil_append, last]
  · rw [Expr.depth]
    omega

/-- What `SOLVE` finds in a domain is converted. -/
theorem parse_solve_inDomain (hdepth : 3 + tree.depth ≤ maxDepth) (domain : Domain) :
    parse ("t = SOLVE " ++ e ++ (" IN " ++ domain.keyword ++ " AS STRING;")) =
      .ok ⟨⟨[.assignment "t" (.cast (.solve tree domain) .string)]⟩, names⟩ := by
  let last := (Tape.ofString e).ending.line
  have hsolve : Opens .reading k .convertible (⟨.solve, "SOLVE", 1⟩ ::
      (ts ++ [⟨.inWord, "IN", last⟩, ⟨domain.kind, domain.keyword, last⟩])) (.solve tree domain) :=
    .solvedIn domain rfl h (.inl rfl) rfl
  have hhead : (" IN " ++ domain.keyword ++ " AS STRING;").toList.head? = some ' ' := by
    cases domain <;> rfl
  have hcast : Opens .reading k .expression _ (.cast (.solve tree domain) .string) :=
    .converted (w := ⟨.asWord, "AS", last⟩) (d := ⟨.string, "STRING", last⟩) .string hsolve rfl rfl
  refine parse_of_assigning ⟨.semicolon, ";", last⟩ ?_ rfl hcast hk ?_ hresolve
  · rw [tokenize_between hlex rfl alone_of_mem_solving hclosed endsToken_space (by decide)
      hhead (scan_inDomain domain), solving, asString]
    simp only [List.append_assoc, List.cons_append, List.nil_append, last]
  · rw [Expr.depth, Expr.depth]
    omega

end Behind

/-- **A sum that is read is converted to a string, and so is what `SOLVE` finds in a domain.**
Without one the word behind `AS` is taken for the domain, and `STRING` is refused. -/
theorem conversion_of_sum (hlex : tokenize e = .ok ts) (hsum : Derives .sum ts tree)
    (h : parse ("t = " ++ e ++ ";") = .ok ⟨p, names⟩) (hdepth : p.depth ≤ 38) :
    p = ⟨[.assignment "t" tree]⟩ ∧
      parse ("t = " ++ e ++ " AS STRING;") =
        .ok ⟨⟨[.assignment "t" (.cast tree .string)]⟩, names⟩ ∧
      parse ("t = SOLVE " ++ e ++ " AS STRING;") =
        .error (.invalidToken "STRING" (Tape.ofString e).ending.line) ∧
      (∀ domain : Domain,
        parse ("t = SOLVE " ++ e ++ (" AS " ++ domain.keyword ++ ";")) =
          .ok ⟨⟨[.assignment "t" (.solve tree domain)]⟩, names⟩) ∧
      ∀ domain : Domain,
        parse ("t = SOLVE " ++ e ++ (" IN " ++ domain.keyword ++ " AS STRING;")) =
          .ok ⟨⟨[.assignment "t" (.cast (.solve tree domain) .string)]⟩, names⟩ := by
  obtain ⟨rfl, hclosed, hdeclared, k, hk, hopens⟩ := sum_of_parse hlex hsum h
  have hresolve : Program.resolve ⟨[.assignment "t" tree]⟩ = .ok names := resolve_of_parse h
  have hroom : 3 + tree.depth ≤ maxDepth := by
    have hprogram : Program.depth ⟨[.assignment "t" tree]⟩ = 1 + tree.depth := by
      simp [Program.depth, maxStmtDepth, Stmt.depth]
    have hmax : maxDepth = 40 := rfl
    omega
  refine ⟨rfl, ?_, ?_, ?_, ?_⟩
  · exact parse_sum_asString hlex hclosed hopens hk hresolve (by omega)
  · exact parse_solve_asString hlex hclosed hopens hk (by omega) hdeclared
  · exact parse_solve_asDomain hlex hclosed hopens hk hresolve (by omega)
  · exact parse_solve_inDomain hlex hclosed hopens hk hresolve hroom

end Assigned

/-- A sum on two lines. -/
theorem conversion_of_sum_twoLines :
    let e := "x +\n1"
    let tree := Expr.binary (.name "x") .add (.number "1")
    tokenize e = .ok [⟨.identifier, "x", 1⟩, ⟨.plus, "+", 1⟩, ⟨.number, "1", 2⟩] ∧
      parse ("t = " ++ e ++ ";") = .ok ⟨⟨[.assignment "t" tree]⟩, ⟨["x", "t"]⟩⟩ ∧
      parse ("t = " ++ e ++ " AS STRING;") =
        .ok ⟨⟨[.assignment "t" (.cast tree .string)]⟩, ⟨["x", "t"]⟩⟩ ∧
      parse ("t = SOLVE " ++ e ++ " AS STRING;") = .error (.invalidToken "STRING" 2) := by
  intro e tree
  have hlex : tokenize e = .ok [⟨.identifier, "x", 1⟩, ⟨.plus, "+", 1⟩, ⟨.number, "1", 2⟩] := by cbv
  have h : parse ("t = " ++ e ++ ";") = .ok ⟨⟨[.assignment "t" tree]⟩, ⟨["x", "t"]⟩⟩ := by cbv
  have hname : Derives .product [⟨.identifier, "x", 1⟩] (.name "x") :=
    .first rfl (.unsigned (.base (.name rfl)))
  have hnumber : Derives .product [⟨.number, "1", 2⟩] (.number "1") :=
    .first rfl (.unsigned (.base (.number rfl)))
  have hsum : Derives .sum [⟨.identifier, "x", 1⟩, ⟨.plus, "+", 1⟩, ⟨.number, "1", 2⟩] tree :=
    .joined rfl (.first rfl hname) (.add rfl rfl) hnumber
  have hline : (Tape.ofString e).ending.line = 2 := by
    subst e
    cbv
  obtain ⟨-, hcast, hrefused, -⟩ := conversion_of_sum hlex hsum h (by decide)
  rw [hline] at hrefused
  exact ⟨hlex, h, hcast, hrefused⟩

/-- **`SOLVE` without a domain is not converted to a string**, though its operand is. -/
theorem solve_not_converted :
    let e := "x"
    tokenize e = .ok [⟨.identifier, "x", 1⟩] ∧
      Derives .sum [⟨.identifier, "x", 1⟩] (.name "x") ∧
      parse ("t = " ++ e ++ ";") = .ok ⟨⟨[.assignment "t" (.name "x")]⟩, ⟨["x", "t"]⟩⟩ ∧
      Program.depth ⟨[.assignment "t" (.name "x")]⟩ ≤ 38 ∧
      ¬∃ names, parse ("t = SOLVE " ++ e ++ " AS STRING;") =
        .ok ⟨⟨[.assignment "t" (.cast (.solve (.name "x") .standard) .string)]⟩, names⟩ := by
  intro e
  have hlex : tokenize e = .ok [⟨.identifier, "x", 1⟩] := by cbv
  have hname : Derives .sum [⟨.identifier, "x", 1⟩] (.name "x") :=
    .first rfl (.first rfl (.unsigned (.base (.name rfl))))
  have h : parse ("t = " ++ e ++ ";") = .ok ⟨⟨[.assignment "t" (.name "x")]⟩, ⟨["x", "t"]⟩⟩ := by cbv
  have hrefused : parse ("t = SOLVE " ++ e ++ " AS STRING;") = .error (.invalidToken "STRING" 1) := by
    subst e
    cbv
  refine ⟨hlex, hname, h, by decide, ?_⟩
  rintro ⟨names, hread⟩
  rw [hrefused] at hread
  cases hread

end MathScript
