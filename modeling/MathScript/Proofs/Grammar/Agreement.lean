import Mathlib.Data.List.Forall2
import MathScript.Proofs.Grammar.Decision
import MathScript.Proofs.Grammar.Interruption

/-!
# Readings of like tokens

A reading looks at the kinds of tokens, and at the texts of identifiers, numbers and
string literals; lines, and the spelling of keywords, only get into its errors.  Two
readings whose tokens are alike in this therefore go the same way, side by side
(`Agrees`), and end alike.

* `agrees_program`: **readings from like cursors agree**.
* `tokenize_of_parseUnder`: a text that is read as a program consists of tokens throughout.
* `parseUnder_alike`: texts of like tokens are read as the same program, or fail in the
  same way.
-/

namespace MathScript

/-! ## What is alike -/

/-- The tokens are the same to a reading: of one kind, and with one text where the text
is what the token stands for. -/
structure Token.Alike (t u : Token) : Prop where
  kind_eq : t.kind = u.kind
  text_eq : t.kind = .identifier ∨ t.kind = .number ∨ t.kind = .stringLiteral → t.text = u.text

instance (t u : Token) : Decidable (t.Alike u) :=
  decidable_of_iff (t.kind = u.kind ∧
      (t.kind = .identifier ∨ t.kind = .number ∨ t.kind = .stringLiteral → t.text = u.text))
    ⟨fun h => ⟨h.1, h.2⟩, fun h => ⟨h.kind_eq, h.text_eq⟩⟩

theorem Token.Alike.text_eq_of_kind {t u : Token} (h : t.Alike u) {k? : Option TokenKind}
    {k : TokenKind} (hk : k? = some k) (ht : k? = some t.kind)
    (hs : k = .identifier ∨ k = .number ∨ k = .stringLiteral) : t.text = u.text := by
  obtain rfl : k = t.kind := Option.some.inj (hk.symm.trans ht)
  exact h.text_eq hs

/-- The errors are of one variant, and about one name if they are about a name. -/
inductive ParseError.Alike : ParseError → ParseError → Prop
  | lexical (e : Unrecognised) : Alike (.lexical e) (.lexical e)
  | invalidToken (text text' : String) (line line' : Nat) :
    Alike (.invalidToken text line) (.invalidToken text' line')
  | unexpectedEnd : Alike .unexpectedEnd .unexpectedEnd
  | undefinedName (name : String) (line line' : Nat) :
    Alike (.undefinedName name line) (.undefinedName name line')
  | nestingTooDeep (line line' : Nat) : Alike (.nestingTooDeep line) (.nestingTooDeep line')
  | interrupted (reason : Interrupted) : Alike (.interrupted reason) (.interrupted reason)

/-- Behind the tokens comes the end of the texts, or the same failure. -/
inductive Ending.Alike : Ending → Ending → Prop
  | complete (line line' : Nat) : Alike (.complete line) (.complete line')
  | unrecognised (e : Unrecognised) : Alike (.unrecognised e) (.unrecognised e)

namespace Grammar

/-- The cursors are the same to a reading.  A failure is reported as soon as the token in
front of it is consumed, so no reading comes to stand in front of one. -/
structure Cursor.Alike (c d : Cursor) : Prop where
  tokens : List.Forall₂ Token.Alike c.tokens d.tokens
  ending : c.ending.Alike d.ending
  complete : c.tokens = [] → ∃ line, c.ending = .complete line
  names : c.names = d.names
  checks : c.checks = d.checks
  depth : c.depth = d.depth
  level : c.level = d.level

namespace Cursor.Alike

variable {c d : Cursor}

theorem kind?_eq (h : c.Alike d) : c.kind? = d.kind? := by
  have htokens := h.tokens
  unfold Cursor.kind?
  generalize c.tokens = ts, d.tokens = us at htokens
  cases htokens with
  | nil => rfl
  | cons ht _ => exact congrArg some ht.kind_eq

theorem unexpected (h : c.Alike d) : c.unexpected.Alike d.unexpected := by
  have htokens := h.tokens
  unfold Cursor.unexpected
  generalize c.tokens = ts, d.tokens = us at htokens
  cases htokens with
  | nil => exact .unexpectedEnd
  | cons _ _ => exact .invalidToken ..

end Cursor.Alike

variable {α β : Type} {c d : Cursor} {step step' : Step α} {next next' : α → Step β}

/-- Started at `c` and at `d`, the steps have one result and end at like cursors, or
have like errors. -/
def Agree (step step' : Step α) (c d : Cursor) : Prop :=
  match step c, step' d with
  | .ok (a, c'), .ok (b, d') => a = b ∧ c'.Alike d'
  | .error e, .error f => e.Alike f
  | _, _ => False

/-- Started at like cursors, the steps agree. -/
def Agrees (step step' : Step α) : Prop :=
  ∀ ⦃c d⦄, c.Alike d → Agree step step' c d

/-! ## Moves -/

theorem Agree.bind (h : Agree step step' c d) (hn : ∀ a, Agrees (next a) (next' a)) :
    Agree (step >>= next) (step' >>= next') c d := by
  unfold Agree at h
  show (match (step c >>= fun r => next r.1 r.2), (step' d >>= fun r => next' r.1 r.2) with
    | .ok (a, c'), .ok (b, d') => a = b ∧ c'.Alike d'
    | .error e, .error f => e.Alike f
    | _, _ => False)
  cases hc : step c with
  | error e =>
    cases hd : step' d with
    | error f =>
      rw [hc, hd] at h
      exact h
    | ok s =>
      rw [hc, hd] at h
      exact h.elim
  | ok r =>
    cases hd : step' d with
    | error f =>
      rw [hc, hd] at h
      exact h.elim
    | ok s =>
      rw [hc, hd] at h
      obtain ⟨a, c'⟩ := r
      obtain ⟨b, d'⟩ := s
      obtain ⟨rfl, hcd⟩ := h
      exact hn a hcd

theorem Agrees.bind (h : Agrees step step') (hn : ∀ a, Agrees (next a) (next' a)) :
    Agrees (step >>= next) (step' >>= next') :=
  fun _ _ hcd => (h hcd).bind hn

theorem agrees_pure (a : α) : Agrees (pure a) (pure a) :=
  fun _ _ hcd => ⟨rfl, hcd⟩

theorem Agrees.ite {p : Prop} [Decidable p] {other other' : Step α} (h : Agrees step step')
    (ho : Agrees other other') :
    Agrees (if p then step else other) (if p then step' else other') := by
  split
  · exact h
  · exact ho

/-- A step that looks at the cursor does the same at like ones. -/
theorem agrees_get_bind {next next' : Cursor → Step β}
    (h : ∀ c d, c.Alike d → Agree (next c) (next' d) c d) :
    Agrees (get >>= next) (get >>= next') :=
  fun c d hcd => h c d hcd

theorem agrees_modify {f : Cursor → Cursor} (h : ∀ c d, c.Alike d → (f c).Alike (f d)) :
    Agrees (modify f) (modify f) :=
  fun c d hcd => ⟨rfl, h c d hcd⟩

/-- The kind of the lookahead is one and the same. -/
theorem agrees_peek_bind {next next' : Option TokenKind → Step β}
    (h : ∀ c d, c.Alike d → Agree (next c.kind?) (next' c.kind?) c d) :
    Agrees (peek >>= next) (peek >>= next') := by
  intro c d hcd
  have hnext := h c d hcd
  show Agree (next c.kind?) (next' d.kind?) c d
  rwa [← hcd.kind?_eq]

theorem agrees_isAt (kind : TokenKind) : Agrees (isAt kind) (isAt kind) := by
  intro c d hcd
  show decide (c.kind? = some kind) = decide (d.kind? = some kind) ∧ c.Alike d
  rw [hcd.kind?_eq]
  exact ⟨rfl, hcd⟩

theorem agrees_refuse : Agrees (refuse : Step α) refuse :=
  fun _ _ hcd => hcd.unexpected

theorem agrees_refuseDepth : Agrees (refuseDepth : Step α) refuseDepth :=
  fun _ _ _ => .nestingTooDeep ..

/-- The consumed tokens are alike, and of the kind that was ahead. -/
theorem agree_advance_bind {next next' : Token → Step β} (hcd : c.Alike d)
    (h : ∀ t u, t.Alike u → c.kind? = some t.kind → Agrees (next t) (next' u)) :
    Agree (advance >>= next) (advance >>= next') c d := by
  obtain ⟨ts, ending, names, checks, depth, level⟩ := c
  obtain ⟨us, ending', names', checks', depth', level'⟩ := d
  obtain ⟨htokens, hending, -, rfl, rfl, rfl, rfl⟩ := hcd
  cases htokens with
  | nil => exact ParseError.Alike.unexpectedEnd
  | @cons t u ts us ht hrest =>
    have hnext : Cursor.Alike ⟨ts, ending, names, checks, depth, level⟩
        ⟨us, ending', names, checks, depth, level⟩ → Agree (next t) (next' u) _ _ :=
      fun hcd => h t u ht rfl hcd
    cases hrest with
    | nil =>
      cases hending with
      | complete line line' =>
        exact hnext ⟨.nil, .complete .., fun _ => ⟨line, rfl⟩, rfl, rfl, rfl, rfl⟩
      | unrecognised e => exact ParseError.Alike.lexical e
    | cons hu hrest =>
      exact hnext ⟨.cons hu hrest, hending, nofun, rfl, rfl, rfl, rfl⟩

theorem agrees_advance_bind {next next' : Token → Step β}
    (h : ∀ t u, t.Alike u → Agrees (next t) (next' u)) :
    Agrees (advance >>= next) (advance >>= next') :=
  fun _ _ hcd => agree_advance_bind hcd fun t u htu _ => h t u htu

theorem agrees_consume_bind {kind : TokenKind} {next next' : Token → Step β}
    (h : ∀ t u, t.Alike u → t.kind = kind → Agrees (next t) (next' u)) :
    Agrees (consume kind >>= next) (consume kind >>= next') := by
  intro c d hcd
  unfold consume
  simp only [bind_assoc, ite_bind]
  show Agree (if decide (c.kind? = some kind) then _ else _)
    (if decide (d.kind? = some kind) then _ else _) c d
  rw [← hcd.kind?_eq]
  by_cases hk : c.kind? = some kind
  · rw [decide_eq_true hk]
    refine agree_advance_bind hcd fun t u htu ht => h t u htu ?_
    exact Option.some.inj (ht.symm.trans hk)
  · rw [decide_eq_false hk]
    exact hcd.unexpected

theorem agrees_declare (name : String) : Agrees (declare name) (declare name) :=
  agrees_modify fun _ _ hcd => { hcd with names := by rw [hcd.names] }

theorem agrees_checkDeclared {t u : Token} (h : t.text = u.text) :
    Agrees (checkDeclared t) (checkDeclared u) := by
  refine agrees_get_bind fun c d hcd => ?_
  rw [← hcd.names, ← h]
  split
  · exact ⟨rfl, hcd⟩
  · exact ParseError.Alike.undefinedName ..

theorem agrees_descend : Agrees descend descend := by
  unfold descend
  refine (agrees_modify fun c d hcd => ?_).bind fun _ => agrees_get_bind fun c d hcd => ?_
  · exact { hcd with level := congrArg (· + 1) hcd.level }
  · rw [← hcd.level]
    exact (agrees_refuseDepth.ite (agrees_pure _)) hcd

theorem agrees_ascend : Agrees ascend ascend :=
  agrees_modify fun _ _ hcd => { hcd with level := congrArg (· - 1) hcd.level }

theorem agrees_openNesting : Agrees openNesting openNesting := by
  unfold openNesting
  refine (agrees_modify fun c d hcd => ?_).bind fun _ => agrees_get_bind fun c d hcd => ?_
  · exact { hcd with depth := congrArg (· + 1) hcd.depth }
  · rw [← hcd.depth]
    exact (agrees_refuseDepth.ite (agrees_pure _)) hcd

theorem agrees_closeNesting : Agrees closeNesting closeNesting :=
  agrees_modify fun _ _ hcd => { hcd with depth := congrArg (· - 1) hcd.depth }

theorem Agrees.nested (h : Agrees step step') : Agrees (nested step) (nested step') :=
  agrees_openNesting.bind fun _ => h.bind fun a => agrees_closeNesting.bind fun _ => agrees_pure a

theorem agrees_place (e : Expr) (height : Nat) : Agrees (place e height) (place e height) := by
  refine agrees_get_bind fun c d hcd => ?_
  rw [← hcd.level]
  exact (agrees_refuseDepth.bind fun _ => agrees_pure _).ite (agrees_pure _) hcd

theorem agrees_word (meaning? : TokenKind → Option α) :
    Agrees (word meaning?) (word meaning?) := by
  refine agrees_peek_bind fun c d hcd => ?_
  split
  · exact agrees_advance_bind (fun _ _ _ => agrees_pure _) hcd
  · exact agrees_refuse hcd

theorem agrees_consult (interrupt : Interrupt) :
    Agrees (consult interrupt) (consult interrupt) := by
  refine agrees_get_bind fun c d hcd => ?_
  rw [← hcd.checks]
  have hset : Agree (set { c with checks := c.checks + 1 }) (set { d with checks := c.checks + 1 })
      c d := ⟨rfl, { hcd with checks := rfl }⟩
  refine hset.bind fun _ => ?_
  split
  · exact fun _ _ _ => ParseError.Alike.interrupted _
  · exact agrees_pure _

/-! ## Expressions -/

theorem agrees_foldLeft {part part' : Step Node}
    {operator? : Expr → TokenKind → Option (Expr → Expr → Expr)} (h : Agrees part part')
    {ahead ahead' : List Token} (hl : ahead.length = ahead'.length) (left : Node) :
    Agrees (foldLeft part operator? ahead left) (foldLeft part' operator? ahead' left) := by
  induction ahead generalizing ahead' left with
  | nil =>
    obtain rfl := List.length_eq_zero_iff.mp hl.symm
    exact agrees_pure left
  | cons _ ahead ih =>
    cases ahead' with
    | nil => cases hl
    | cons _ ahead' =>
      refine agrees_peek_bind fun c d hcd => ?_
      split
      · exact agrees_pure left hcd
      · refine (agrees_advance_bind fun _ _ _ => h.bind fun right => ?_) hcd
        exact (agrees_place _ _).bind fun joined => ih (Nat.succ.inj hl) joined

theorem agrees_leftAssociative {part : Step Node}
    {operator? : Expr → TokenKind → Option (Expr → Expr → Expr)} (h : Agrees part part) :
    Agrees (leftAssociative part operator?) (leftAssociative part operator?) :=
  h.bind fun first => agrees_get_bind fun _ _ hcd =>
    agrees_foldLeft h hcd.tokens.length_eq first hcd

theorem agrees_primary {inner : Step Node} (hi : Agrees inner inner) :
    Agrees (primary inner) (primary inner) := by
  refine agrees_peek_bind fun c d hcd => ?_
  split
  · next hk =>
    refine agree_advance_bind hcd fun t u htu ht => ?_
    rw [htu.text_eq_of_kind hk ht (by simp)]
    exact agrees_place _ _
  · next hk =>
    refine agree_advance_bind hcd fun t u htu ht => ?_
    rw [htu.text_eq_of_kind hk ht (by simp)]
    exact agrees_place _ _
  · next hk =>
    refine agree_advance_bind hcd fun t u htu ht => ?_
    have htext : t.text = u.text := htu.text_eq_of_kind hk ht (by simp)
    refine (agrees_checkDeclared htext).bind fun _ => (agrees_isAt _).bind fun b => ?_
    rw [htext]
    refine Agrees.ite ?_ (agrees_place _ _)
    exact agrees_advance_bind fun _ _ _ => hi.bind fun _ => agrees_consume_bind fun _ _ _ _ =>
      agrees_place _ _
  · exact agree_advance_bind hcd fun _ _ _ _ => hi.bind fun e => agrees_consume_bind fun _ _ _ _ =>
      agrees_pure e
  · exact agrees_refuse hcd

theorem agrees_power {inner exponent : Step Node} (hi : Agrees inner inner)
    (he : Agrees exponent exponent) : Agrees (power inner exponent) (power inner exponent) :=
  (agrees_primary hi).bind fun base => (agrees_isAt _).bind fun _ =>
    .ite (agrees_advance_bind fun _ _ _ => he.nested.bind fun _ => agrees_place _ _)
      (agrees_pure base)

theorem agrees_unary {inner signed : Step Node} (hi : Agrees inner inner)
    (hs : Agrees signed signed) : Agrees (unary inner signed) (unary inner signed) := by
  refine agrees_peek_bind fun c d hcd => ?_
  split
  · exact agree_advance_bind hcd fun _ _ _ _ => hs.nested.bind fun _ =>
      (agrees_place _ _).bind fun _ => agrees_place _ _
  · exact agrees_power hi hs hcd

theorem agrees_sum {operand : Step Node} (h : Agrees operand operand) :
    Agrees (sum operand) (sum operand) :=
  agrees_leftAssociative (agrees_leftAssociative h)

theorem agrees_solve {operand : Step Node} (h : Agrees operand operand) :
    Agrees (solve operand) (solve operand) :=
  agrees_consume_bind fun _ _ _ _ => (agrees_sum h).bind fun _ => (agrees_isAt _).bind fun _ =>
    (agrees_isAt _).bind fun _ =>
    .ite (agrees_advance_bind fun _ _ _ => (agrees_word _).bind fun _ => agrees_place _ _)
      (agrees_place _ _)

theorem agrees_convertible {operand : Step Node} (h : Agrees operand operand) :
    Agrees (convertible operand) (convertible operand) :=
  (agrees_isAt _).bind fun _ => .ite (agrees_solve h) (agrees_leftAssociative (agrees_sum h))

theorem agrees_expressionOf {operand : Step Node} (h : Agrees operand operand) :
    Agrees (expressionOf operand) (expressionOf operand) := by
  rw [expressionOf_eq]
  refine Agrees.nested ((agrees_convertible h).bind fun e => (agrees_isAt _).bind fun _ => ?_)
  exact .ite (agrees_advance_bind fun _ _ _ => (agrees_word _).bind fun _ => agrees_place _ _)
    (agrees_pure e)

theorem agrees_operand (n : Nat) : Agrees (operand n) (operand n) := by
  induction n with
  | zero => exact agrees_unary agrees_refuseDepth agrees_refuseDepth
  | succ n ih => exact agrees_unary (agrees_expressionOf ih) ih

theorem agrees_expression : Agrees expression expression :=
  agrees_expressionOf (agrees_operand maxDepth)

theorem agrees_value : Agrees value value :=
  agrees_leftAssociative agrees_expression

theorem agrees_prompt : Agrees prompt prompt :=
  agrees_leftAssociative (agrees_sum (agrees_operand maxDepth))

/-! ## Simple statements -/

theorem agrees_moreArguments {ahead ahead' : List Token} (hl : ahead.length = ahead'.length) :
    Agrees (moreArguments ahead) (moreArguments ahead') := by
  induction ahead generalizing ahead' with
  | nil =>
    obtain rfl := List.length_eq_zero_iff.mp hl.symm
    exact agrees_pure _
  | cons _ ahead ih =>
    cases ahead' with
    | nil => cases hl
    | cons _ ahead' =>
      refine (agrees_isAt _).bind fun _ => .ite ?_ (agrees_pure _)
      exact agrees_advance_bind fun _ _ _ => agrees_expression.bind fun _ =>
        (ih (Nat.succ.inj hl)).bind fun _ => agrees_pure _

theorem agrees_arguments : Agrees arguments arguments :=
  agrees_expression.bind fun _ => agrees_get_bind fun _ _ hcd =>
    ((agrees_moreArguments hcd.tokens.length_eq).bind fun _ => agrees_pure _) hcd

theorem agrees_condition : Agrees condition condition :=
  agrees_consume_bind fun _ _ _ _ => agrees_expression.bind fun _ =>
    agrees_consume_bind fun _ _ _ _ => agrees_pure _

theorem agrees_optionalPrompt : Agrees optionalPrompt optionalPrompt :=
  (agrees_isAt _).bind fun _ => .ite (agrees_pure _) (agrees_prompt.bind fun _ => agrees_pure _)

theorem agrees_optionalCast : Agrees optionalCast optionalCast :=
  (agrees_isAt _).bind fun _ =>
    .ite (agrees_advance_bind fun _ _ _ => (agrees_word _).bind fun _ => agrees_pure _)
      (agrees_pure _)

theorem agrees_input : Agrees input input := by
  rw [input_eq]
  refine agrees_consume_bind fun _ _ _ _ => agrees_optionalPrompt.bind fun _ =>
    agrees_consume_bind fun _ _ _ _ => agrees_consume_bind fun t u htu ht =>
    agrees_optionalCast.bind fun _ => ?_
  rw [htu.text_eq (.inl ht)]
  exact (agrees_declare _).bind fun _ => agrees_pure _

theorem agrees_simple : Agrees simple simple := by
  refine agrees_peek_bind fun c d hcd => ?_
  split
  · next hk =>
    refine agree_advance_bind hcd fun t u htu ht => agrees_consume_bind fun _ _ _ _ =>
      agrees_value.bind fun _ => ?_
    rw [htu.text_eq_of_kind hk ht (by simp)]
    exact (agrees_declare _).bind fun _ => agrees_pure _
  · exact agree_advance_bind hcd fun _ _ _ _ => agrees_arguments.bind fun _ => agrees_pure _
  · exact agree_advance_bind hcd fun _ _ _ _ => agrees_arguments.bind fun _ => agrees_pure _
  · exact agrees_input hcd
  · exact agrees_refuse hcd

/-! ## Statements -/

theorem agrees_moreStatements {statement : Step Stmt} (h : Agrees statement statement)
    (stop : Option TokenKind) {ahead ahead' : List Token} (hl : ahead.length = ahead'.length) :
    Agrees (moreStatements statement stop ahead) (moreStatements statement stop ahead') := by
  induction ahead generalizing ahead' with
  | nil =>
    obtain rfl := List.length_eq_zero_iff.mp hl.symm
    refine agrees_peek_bind fun c d hcd => ?_
    exact (agrees_pure _).ite (h.bind fun _ => agrees_pure _) hcd
  | cons _ ahead ih =>
    cases ahead' with
    | nil => cases hl
    | cons _ ahead' =>
      refine agrees_peek_bind fun c d hcd => ?_
      refine (agrees_pure _).ite (h.bind fun _ => ?_) hcd
      exact (ih (Nat.succ.inj hl)).bind fun _ => agrees_pure _

theorem agrees_statements {statement : Step Stmt} (h : Agrees statement statement)
    (stop : Option TokenKind) : Agrees (statements statement stop) (statements statement stop) :=
  h.bind fun _ => agrees_get_bind fun _ _ hcd =>
    ((agrees_moreStatements h stop hcd.tokens.length_eq).bind fun _ => agrees_pure _) hcd

theorem agrees_statementOf (interrupt : Interrupt) {block : Step (List Stmt)}
    (h : Agrees block block) :
    Agrees (statementOf interrupt block) (statementOf interrupt block) := by
  rw [statementOf_eq]
  refine (agrees_consult interrupt).bind fun _ => agrees_peek_bind fun c d hcd =>
    Agrees.ite ?_ (Agrees.ite ?_ ?_) hcd
  · refine agrees_advance_bind fun _ _ _ => agrees_condition.bind fun _ => h.bind fun _ =>
      (agrees_isAt _).bind fun _ => .ite ?_ (agrees_pure _)
    exact agrees_advance_bind fun _ _ _ => h.bind fun _ => agrees_pure _
  · exact agrees_advance_bind fun _ _ _ => agrees_condition.bind fun _ => h.bind fun _ =>
      agrees_pure _
  · exact agrees_simple.bind fun s => agrees_consume_bind fun _ _ _ _ => agrees_pure s

theorem agrees_body {statement : Step Stmt} (h : Agrees statement statement) :
    Agrees (body statement) (body statement) := by
  refine (agrees_isAt _).bind fun _ => .ite ?_ (h.bind fun _ => agrees_pure _)
  exact agrees_advance_bind fun _ _ _ => (agrees_statements h _).bind fun ss =>
    agrees_advance_bind fun _ _ _ => agrees_pure ss

theorem agrees_blockOf {statement : Step Stmt} (h : Agrees statement statement) :
    Agrees (blockOf statement) (blockOf statement) := by
  rw [blockOf_eq]
  exact (agrees_descend.bind fun _ => (agrees_body h).bind fun ss => agrees_ascend.bind fun _ =>
    agrees_pure ss).nested

theorem agrees_block (interrupt : Interrupt) (n : Nat) :
    Agrees (block interrupt n) (block interrupt n) := by
  induction n with
  | zero => exact agrees_refuseDepth
  | succ n ih => exact agrees_blockOf (agrees_statementOf interrupt ih)

/-- **Readings from like cursors agree.** -/
theorem agrees_program (interrupt : Interrupt) :
    Agrees (program interrupt) (program interrupt) :=
  (agrees_statements (agrees_statementOf interrupt (agrees_block interrupt maxDepth)) none).bind
    fun _ => agrees_pure _

/-- A reading that comes to the end of a tape has come to the end of the text. -/
theorem complete_of_program {interrupt : Interrupt} {p : Program} {c c' : Cursor}
    (hc : c.Closed) (hl : c.level ≤ maxDepth)
    (h : program interrupt c = .ok (p, c')) : ∃ line, c.ending = .complete line := by
  obtain ⟨hclosed, hending⟩ := ((orderly_program interrupt).halts c hc).of_eq_ok h
  obtain ⟨_, _, hnil, -⟩ := (ensures_program interrupt c hl).of_eq_ok h
  rw [← hending]
  exact hclosed hnil

end Grammar

theorem tokenize_of_ending {source : String} {line : Nat}
    (h : (Tape.ofString source).ending = .complete line) :
    tokenize source = .ok (Tape.ofString source).tokens := by
  rw [tokenize, Tape.tokens?, h]

/-- **A text that is read as a program consists of tokens throughout.** -/
theorem tokenize_of_parseUnder {interrupt : Interrupt} {source : String} {r : Parsed}
    (h : parseUnder interrupt source = .ok r) :
    tokenize source = .ok (Tape.ofString source).tokens := by
  obtain ⟨⟨p, c'⟩, hread, -⟩ := bind_eq_ok.mp h
  obtain ⟨c, hstart, hprogram⟩ := bind_eq_ok.mp hread
  have hc := Grammar.Cursor.eq_of_ofTape hstart
  have hlevel : c.level ≤ maxDepth := by
    rw [hc]
    show 1 ≤ maxDepth
    decide
  obtain ⟨line, hline⟩ :=
    Grammar.complete_of_program (Grammar.Cursor.closed_of_ofTape hstart) hlevel hprogram
  rw [hc] at hline
  exact tokenize_of_ending hline

/-- Where a text consists of tokens throughout, its reading is that of its tokens. -/
theorem parseUnder_of_tape {interrupt : Interrupt} {source : String} {ts : List Token} {line : Nat}
    (h : Tape.ofString source = ⟨ts, .complete line⟩) :
    parseUnder interrupt source =
      (Grammar.program interrupt ⟨ts, .complete line, NameTable.fresh, 0, 0, 1⟩).map
        fun r => ⟨r.1, r.2.names⟩ := by
  unfold parseUnder Grammar.read
  rw [h]
  cases ts <;> rfl

/-- **Texts of like tokens are read as one program with one table, or fail in the
same way.** -/
theorem parseUnder_alike (interrupt : Interrupt) {a b : String} {ts us : List Token}
    (ha : tokenize a = .ok ts) (hb : tokenize b = .ok us) (h : List.Forall₂ Token.Alike ts us) :
    (∃ r, parseUnder interrupt a = .ok r ∧ parseUnder interrupt b = .ok r) ∨
      ∃ e f, parseUnder interrupt a = .error e ∧ parseUnder interrupt b = .error f ∧ e.Alike f := by
  obtain ⟨line, hta⟩ := tape_of_tokenize ha
  obtain ⟨line', htb⟩ := tape_of_tokenize hb
  rw [parseUnder_of_tape hta, parseUnder_of_tape htb]
  have hagree := Grammar.agrees_program interrupt
    (c := ⟨ts, .complete line, NameTable.fresh, 0, 0, 1⟩)
    (d := ⟨us, .complete line', NameTable.fresh, 0, 0, 1⟩)
    ⟨h, .complete .., fun _ => ⟨line, rfl⟩, rfl, rfl, rfl, rfl⟩
  unfold Grammar.Agree at hagree
  split at hagree
  · next p c' q d' hc hd =>
    obtain ⟨rfl, hcd⟩ := hagree
    refine .inl ⟨⟨p, c'.names⟩, ?_, ?_⟩
    · rw [hc]
      rfl
    · rw [hd, hcd.names]
      rfl
  · next e f hc hd =>
    refine .inr ⟨e, f, ?_, ?_, hagree⟩
    · rw [hc]
      rfl
    · rw [hd]
      rfl
  · exact hagree.elim

end MathScript
