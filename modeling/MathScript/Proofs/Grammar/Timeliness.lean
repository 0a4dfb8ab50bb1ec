import MathScript.Proofs.Grammar.Beginnings

/-!
# Every rule is timely

Rule by rule, a reading fails no later than it must.  What a rule hands to another one begins
what it reads itself, and where it looks ahead on its own behalf there is a completion for
every token it refuses.

* `isReader_expression`, `timely_program`: **expressions and programs are read in time**.
-/

namespace MathScript
namespace Grammar

variable {α β : Type} {ahead : Prospect} {c : Cursor}

/-- The step reads expressions of the level, and in time. -/
structure IsReader (level : Level) (step : Step Node) : Prop where
  sound : Sound level step
  planned : ∃ plan, Orderly False plan step
  timely : ∀ c, Timely (Begins (Derives level)) step c

theorem isReader_refuseDepth (level : Level) : IsReader level refuseDepth :=
  ⟨sound_refuseDepth level, ⟨_, .refuseDepth⟩, fun _ => timely_refuseDepth⟩

/-! ## Expressions -/

section Expressions

variable {level part : Level} {step inner exponent signed operand : Step Node}

/-- A part of a rule, and what comes behind it. -/
theorem Timely.reading {next : Node → Step β} (ht : Timely (Begins (Derives level)) step c)
    (hs : Ensures step c fun n c' => ∃ ts rest, c.tokens = ts ++ rest ∧
      c' = { c with tokens := rest } ∧ missing? c.names ts = none ∧ Derives level ts n.expr)
    (hpart : ∀ ts ms, Begins (Derives level) ts ms → ahead ts ms)
    (hn : ∀ n ts rest, c.tokens = ts ++ rest → Derives level ts n.expr →
      ahead.after ts (readsOf ts) [] [] →
        Timely (ahead.after ts (readsOf ts)) (next n) { c with tokens := rest }) :
    Timely ahead (step >>= next) c := by
  refine (ht.mono hpart).bind (Meets.mono hs ?_ fun _ _ => trivial)
  rintro n _ ⟨ts, rest, hts, rfl, hnames, hd⟩
  have hhere : ahead ts (readsOf ts) := hpart _ _ (begins_of_derives hd)
  exact ⟨ts, readsOf ts, .reads hts hnames, hn n ts rest hts hd (Prospect.after_nil hhere)⟩

theorem IsReader.bind {next : Node → Step β} (h : IsReader level step)
    (hpart : ∀ ts ms, Begins (Derives level) ts ms → ahead ts ms)
    (hn : ∀ n ts rest, c.tokens = ts ++ rest → Derives level ts n.expr →
      ahead.after ts (readsOf ts) [] [] →
        Timely (ahead.after ts (readsOf ts)) (next n) { c with tokens := rest }) :
    Timely ahead (step >>= next) c := by
  refine (h.timely c).reading ((h.sound c).mono ?_ fun _ _ => trivial) hpart hn
  rintro n _ ⟨ts, rest, hts, rfl, ⟨_, _, hd⟩, hf⟩
  exact ⟨ts, rest, hts, rfl, hf.declared, hd.derives⟩

theorem IsReader.nested_bind {next : Node → Step β} (h : IsReader level step)
    (hpart : ∀ ts ms, Begins (Derives level) ts ms → ahead ts ms)
    (hn : ∀ n ts rest, c.tokens = ts ++ rest → Derives level ts n.expr →
      ahead.after ts (readsOf ts) [] [] →
        Timely (ahead.after ts (readsOf ts)) (next n) { c with tokens := rest }) :
    Timely ahead (nested step >>= next) c := by
  refine (h.timely _).nested.reading ((ensures_nested h.sound c).mono ?_ fun _ _ => trivial)
    hpart hn
  rintro n _ ⟨ts, rest, hts, rfl, ⟨_, _, hd⟩, hf⟩
  exact ⟨ts, rest, hts, rfl, hf.declared, hd.derives⟩

theorem timely_primary (hi : IsReader .expression inner) :
    Timely (Begins (Derives .primary)) (primary inner) c := by
  unfold primary
  refine timely_peek ?_
  split
  · next hk => exact timely_advance_bind hk fun _ _ _ _ => timely_place _ _
  · next hk => exact timely_advance_bind hk fun _ _ _ _ => timely_place _ _
  · next hk =>
    refine timely_name_bind hk (begins_nil .primary) (fun _ => begins_name) fun t rest _ htk => ?_
    refine timely_isAt ?_
    split
    · next hl =>
      refine timely_advance_bind (of_decide_eq_true hl) fun lp rest₁ _ hlp => ?_
      refine hi.bind (fun _ _ hb => hb.argument htk hlp) fun n ts rest₂ _ _ hhere => ?_
      exact timely_consume_bind hhere fun _ _ _ _ => timely_place _ _
    · exact timely_place _ _
  · next hk =>
    refine timely_advance_bind hk fun lp rest _ hlp => ?_
    refine hi.bind (fun _ _ hb => hb.inParentheses hlp) fun n ts rest₁ _ _ hhere => ?_
    exact timely_consume_bind hhere fun _ _ _ _ => timely_pure _
  · exact timely_refuse (begins_nil .primary)

theorem isReader_primary (hi : IsReader .expression inner) :
    IsReader .primary (primary inner) :=
  have ⟨_, hinner⟩ := hi.planned
  ⟨sound_primary hi.sound, ⟨_, orderly_primary hi.sound hinner⟩, fun _ => timely_primary hi⟩

theorem timely_power (hi : IsReader .expression inner) (hs : IsReader .signed exponent) :
    Timely (Begins (Derives .power)) (power inner exponent) c := by
  unfold power
  refine (isReader_primary hi).bind (fun _ _ hb => hb.mono fun _ _ he => ⟨_, .base he⟩)
    fun b ts rest _ hbase _ => ?_
  refine timely_isAt ?_
  split
  · next hk =>
    refine timely_advance_bind (of_decide_eq_true hk) fun t rest₁ _ htk => ?_
    exact hs.nested_bind (fun _ _ hb => hb.exponent hbase htk) fun _ _ _ _ _ _ => timely_place _ _
  · exact timely_pure _

theorem timely_unary (hi : IsReader .expression inner) (hs : IsReader .signed signed) :
    Timely (Begins (Derives .signed)) (unary inner signed) c := by
  unfold unary
  refine timely_peek ?_
  split
  · next op hop =>
    obtain ⟨kind, hk, hop⟩ := Option.bind_eq_some_iff.mp hop
    refine timely_advance_bind hk fun t rest _ htk => ?_
    refine hs.nested_bind (fun _ _ hb => hb.behindSign (htk ▸ hop)) fun _ _ _ _ _ _ => ?_
    exact timely_place_bind (timely_place _ _)
  · exact (timely_power hi hs).mono fun _ _ hb => hb.mono fun _ _ he => ⟨_, .unsigned he⟩

theorem isReader_unary (hi : IsReader .expression inner) (hs : IsReader .signed signed) :
    IsReader .signed (unary inner signed) :=
  have ⟨_, hinner⟩ := hi.planned
  have ⟨_, hsigned⟩ := hs.planned
  ⟨sound_unary hi.sound hs.sound, ⟨_, orderly_unary hi.sound hs.sound hinner hsigned⟩,
    fun _ => timely_unary hi hs⟩

/-- Fewer tokens are ahead behind a token and some others. -/
theorem length_lt_behind {n : Nat} {t : Token} {rest us rest' : List Token}
    (hn : c.tokens.length < n + 1) (ht : c.tokens = t :: rest) (hus : rest = us ++ rest') :
    rest'.length < n := by
  rw [ht, hus, List.length_cons, List.length_append] at hn
  omega

/-- Behind each operand the loop is where it was, with fewer tokens ahead. -/
theorem timely_further (hp : level.part? = some part) (hs : IsReader part step) {n : Nat}
    {c : Cursor} (hn : c.tokens.length < n) {ts : List Token} {left : Node}
    (hl : Derives level ts left.expr) :
    Timely ((Begins (Derives level)).after ts (readsOf ts))
      (further step level.operator? left) c := by
  induction n generalizing c ts left with
  | zero => exact absurd hn (Nat.not_lt_zero _)
  | succ n ih =>
    obtain ⟨_, hstep⟩ := hs.planned
    rw [further_eq hstep.advances]
    refine timely_peek ?_
    split
    · exact timely_pure _
    · next build hb =>
      obtain ⟨kind, hk, hb⟩ := Option.bind_eq_some_iff.mp hb
      unfold joinedTo
      simp only [bind_assoc]
      refine timely_advance_bind hk fun t rest ht htk => ?_
      have hoperator : level.operator? left.expr t.kind = some build := htk ▸ hb
      refine hs.bind (fun _ _ hb => hb.nextOperand hp hl hoperator) fun r us rest₁ hus hr _ => ?_
      refine timely_place_bind ?_
      have hjoins : Joins level t.kind left.expr r.expr (build left.expr r.expr) :=
        joins_iff.mpr ⟨build, hoperator, rfl⟩
      have hrest : rest₁.length < n := length_lt_behind hn ht hus
      have hmore : Timely
          ((Begins (Derives level)).after (ts ++ t :: us) (readsOf (ts ++ t :: us)))
          (further step level.operator?
            ⟨build left.expr r.expr, max left.height r.height + 1⟩) { c with tokens := rest₁ } :=
        ih hrest (.joined hp hl hjoins hr)
      rw [readsOf_operator _ _ hjoins.ne_identifier] at hmore
      rw [Prospect.after_after, Prospect.after_after]
      exact hmore

theorem isReader_leftAssociative (hp : level.part? = some part) (hs : IsReader part step) :
    IsReader level (leftAssociative step level.operator?) where
  sound := sound_leftAssociative hs.sound hp
  planned :=
    have ⟨_, hstep⟩ := hs.planned
    ⟨_, orderly_leftAssociative level hs.sound hstep⟩
  timely c := by
    rw [leftAssociative_eq]
    refine hs.bind (fun _ _ hb => hb.mono fun _ _ he => ⟨_, .first hp he⟩)
      fun n ts rest _ hd _ => ?_
    exact timely_further hp hs (Nat.lt_succ_self _) (.first hp hd)

theorem isReader_sum (h : IsReader .signed operand) : IsReader .sum (sum operand) := by
  have hproduct : IsReader .product (leftAssociative operand productOperator?) :=
    isReader_leftAssociative rfl h
  exact isReader_leftAssociative rfl hproduct

theorem timely_solve (h : IsReader .signed operand) :
    Timely (Begins (Derives .expression)) (solve operand) c := by
  unfold solve
  refine timely_consume_bind (begins_nil .expression) fun s rest _ hs => ?_
  refine (isReader_sum h).bind (fun _ _ hb => hb.behindSolve hs) fun e ts rest₁ _ he _ => ?_
  refine timely_isAt (timely_isAt ?_)
  split
  · next hk =>
    obtain ⟨kind, hkind, hword⟩ : ∃ kind, Cursor.kind? { c with tokens := rest₁ } = some kind ∧
        (kind = .inWord ∨ kind = .asWord) := by
      simp only [Bool.or_eq_true, decide_eq_true_eq] at hk
      rcases hk with hk | hk
      · exact ⟨_, hk, .inl rfl⟩
      · exact ⟨_, hk, .inr rfl⟩
    refine timely_advance_bind hkind fun w rest₂ _ hw => ?_
    refine timely_word_bind ?_ fun _ _ _ _ _ => timely_place _ _
    simpa [Prospect.after] using begins_domain hs he (hw ▸ hword)
  · exact timely_place _ _

theorem timely_convertible (h : IsReader .signed operand) :
    Timely (Begins (Derives .expression)) (convertible operand) c := by
  unfold convertible
  refine timely_isAt ?_
  split
  · exact timely_solve h
  · have hcomparison : IsReader .comparison (leftAssociative (sum operand) comparisonOperator?) :=
      isReader_leftAssociative rfl (isReader_sum h)
    exact (hcomparison.timely c).mono fun _ _ hb => hb.mono fun _ _ he =>
      ⟨_, .plain (.compared he)⟩

theorem isReader_expressionOf (h : IsReader .signed operand) :
    IsReader .expression (expressionOf operand) where
  sound := sound_expressionOf h.sound
  planned :=
    have ⟨_, hoperand⟩ := h.planned
    ⟨_, orderly_expressionOf h.sound hoperand⟩
  timely c := by
    rw [expressionOf_eq]
    refine Timely.nested ?_
    refine (timely_convertible h).bind ((ensures_convertible h.sound _).mono ?_ fun _ _ => trivial)
    rintro e _ ⟨ts, rest, hts, rfl, hf, hd⟩
    refine ⟨ts, readsOf ts, .reads hts hf.declared, timely_isAt ?_⟩
    split
    · next hk =>
      have hword : Cursor.kind? { c with tokens := rest, depth := c.depth + 1 } = some .asWord :=
        of_decide_eq_true hk
      rcases hd with hd | ⟨-, hne⟩
      · refine timely_advance_bind hword fun w rest₁ _ hw => ?_
        refine timely_word_bind ?_ fun _ _ _ _ _ => timely_place _ _
        simpa [Prospect.after] using begins_type hd.derives hw
      · exact absurd hword hne
    · exact timely_pure _

end Expressions

theorem isReader_operand (n : Nat) : IsReader .signed (operand n) := by
  induction n with
  | zero => exact isReader_unary (isReader_refuseDepth _) (isReader_refuseDepth _)
  | succ n ih => exact isReader_unary (isReader_expressionOf ih) ih

theorem isReader_expression : IsReader .expression expression :=
  isReader_expressionOf (isReader_operand maxDepth)

theorem isReader_value : IsReader .value value :=
  isReader_leftAssociative rfl isReader_expression

theorem isReader_prompt : IsReader .prompt prompt :=
  isReader_leftAssociative rfl (isReader_sum (isReader_operand maxDepth))

/-! ## Parts of statements -/

/-- What may come behind an argument. -/
def MoreArguments : Prospect := fun ts ms =>
  ts = [] ∧ ms = [] ∨ ∃ t us, ts = t :: us ∧ t.kind = .comma ∧ Begins DerivesArguments us ms

theorem MoreArguments.behind {ts us : List Token} {ms : List (Mention Token)} {e : Expr}
    (he : Derives .expression us e) (h : MoreArguments ts ms) :
    Begins DerivesArguments (us ++ ts) (readsOf us ++ ms) := by
  rcases h with ⟨rfl, rfl⟩ | ⟨t, ts, rfl, ht, h⟩
  · rw [List.append_nil, List.append_nil]
    exact begins_of_derives (.one he)
  · exact h.nextArgument he ht

theorem Begins.oneArgument {ts : List Token} {ms : List (Mention Token)}
    (h : Begins (Derives .expression) ts ms) : Begins DerivesArguments ts ms :=
  h.mono fun _ _ he => ⟨_, .one he⟩

theorem timely_furtherArguments {n : Nat} {c : Cursor} (hn : c.tokens.length < n) :
    Timely MoreArguments furtherArguments c := by
  induction n generalizing c with
  | zero => exact absurd hn (Nat.not_lt_zero _)
  | succ n ih =>
    rw [furtherArguments_eq]
    refine timely_isAt ?_
    split
    · next hk =>
      simp only [bind_assoc]
      refine timely_advance_bind (of_decide_eq_true hk) fun t rest ht htk => ?_
      refine isReader_expression.bind
        (fun us _ hb => .inr ⟨t, us, rfl, htk, hb.oneArgument⟩) fun e us rest₁ hus he _ => ?_
      have hrest : rest₁.length < n := length_lt_behind hn ht hus
      have hmore : Timely MoreArguments furtherArguments { c with tokens := rest₁ } := ih hrest
      exact (hmore.mono fun vs _ hv => .inr ⟨t, us ++ vs, rfl, htk, hv.behind he⟩).map _
    · exact timely_pure _

theorem timely_arguments : Timely (Begins DerivesArguments) arguments c := by
  rw [arguments_eq]
  refine isReader_expression.bind (fun _ _ hb => hb.oneArgument) fun e ts rest _ he _ => ?_
  exact ((timely_furtherArguments (Nat.lt_succ_self _)).mono fun _ _ hv => hv.behind he).map _

theorem timely_condition (h : ahead [] [])
    (hpart : ∀ lp ts ms, lp.kind = .leftParen → Begins (Derives .expression) ts ms →
      ahead (lp :: ts) ms) : Timely ahead condition c := by
  unfold condition
  refine timely_consume_bind h fun lp rest _ hlp => ?_
  refine isReader_expression.bind (fun ts ms hb => hpart lp ts ms hlp hb)
    fun e ts rest₁ _ _ hhere => ?_
  exact timely_consume_bind hhere fun _ _ _ _ => timely_pure _

theorem timely_optionalPrompt : Timely (Begins DerivesPrompt) optionalPrompt c := by
  unfold optionalPrompt
  refine timely_isAt ?_
  split
  · exact timely_pure _
  · exact ((isReader_prompt.timely c).mono fun _ _ hb => hb.mono fun _ _ he =>
      ⟨_, .some he⟩).map _

theorem timely_optionalCast (h : ∀ w : Token, w.kind = .asWord → ahead [w] []) :
    Timely ahead optionalCast c := by
  unfold optionalCast
  refine timely_isAt ?_
  split
  · next hk =>
    refine timely_advance_bind (of_decide_eq_true hk) fun w rest _ hw => ?_
    exact timely_word_bind (Prospect.after_nil (h w hw)) fun _ _ _ _ _ => timely_pure _
  · exact timely_pure _

theorem timely_input (hc : c.level ≤ maxDepth) : Timely LeadsStmt input c := by
  rw [input_eq]
  refine timely_consume_bind leadsStmt_nil fun w rest _ hw => ?_
  refine (timely_optionalPrompt.mono fun _ _ hb => hb.shown hw).bind
    ((ensures_optionalPrompt { c with tokens := rest } hc).mono ?_ fun _ _ => trivial)
  rintro prompt c₁ ⟨ts, hp, hprompt, -⟩
  have hprompt : DerivesPrompt ts prompt := hprompt.opens.derives
  refine ⟨ts, readsOf ts, hp, ?_⟩
  have hshown : LeadsStmt (w :: ts) (readsOf ts) := (begins_of_derives hprompt).shown hw
  refine timely_consume_bind (Prospect.after_nil hshown) fun gt rest₁ _ hg => ?_
  refine timely_consume_bind ?_ fun target rest₂ _ hi => ?_
  · have hcut : [gt] ++ standIns [.identifier, .semicolon] = gt :: TokenKind.standIn .identifier ::
        ([] ++ [TokenKind.standIn .semicolon]) := rfl
    simpa [Prospect.after] using leadsStmt_input hw hprompt hg (TokenKind.kind_standIn _) .none
      (TokenKind.kind_standIn _) hcut
  · refine Timely.bind (timely_optionalCast fun as has => ?_)
      ((ensures_optionalCast _).mono ?_ fun _ _ => trivial)
    · have hcut : [gt, target, as] ++ standIns [.integer, .semicolon] = gt :: target ::
          ([as, TokenKind.standIn .integer] ++ [TokenKind.standIn .semicolon]) := rfl
      simpa [Prospect.after] using leadsStmt_input hw hprompt hg hi
        (.some .integer has (TokenKind.kind_standIn .integer)) (TokenKind.kind_standIn _) hcut
    · rintro cast c₂ ⟨us, hq, -⟩
      exact ⟨us, [], hq, timely_declare_bind (timely_pure _)⟩

theorem timely_simple (hc : c.level ≤ maxDepth) : Timely LeadsStmt simple c := by
  unfold simple
  refine timely_peek ?_
  split
  · next hk =>
    refine timely_advance_bind hk fun target rest _ hi => ?_
    refine timely_consume_bind (Prospect.after_nil (leadsStmt_target hi)) fun eq rest₁ _ ha => ?_
    refine isReader_value.bind (fun _ _ hb => hb.assigned hi ha) fun _ _ _ _ _ _ => ?_
    exact timely_declare_bind (timely_pure _)
  · next hk =>
    refine timely_advance_bind hk fun w rest _ hw => ?_
    exact (timely_arguments.mono fun _ _ hb => hb.listed (.inl hw)).map _
  · next hk =>
    refine timely_advance_bind hk fun w rest _ hw => ?_
    exact (timely_arguments.mono fun _ _ hb => hb.listed (.inr hw)).map _
  · exact timely_input hc
  · exact timely_refuse leadsStmt_nil

/-! ## Statements -/

/-- What may come behind a statement. -/
def MoreStatements : Prospect := fun ts ms =>
  ts = [] ∧ ms = [] ∨ LeadsStmts ts ms

theorem MoreStatements.behind {ts us : List Token} {ms ns : List (Mention Token)} {s : Stmt}
    {d : Bool} (hs : DerivesStmt d us s ns) (h : MoreStatements ts ms) :
    LeadsStmts (us ++ ts) (ns ++ ms) := by
  rcases h with ⟨rfl, rfl⟩ | h
  · rw [List.append_nil, List.append_nil]
    exact leads_of_derives (.one hs)
  · exact h.behind hs

/-- The step reads statements, and in time. -/
structure IsStmtReader (statement : Step Stmt) : Prop where
  sound : SoundStmt statement
  takes : Takes statement
  timely : ∀ c, c.level ≤ maxDepth → Timely LeadsStmt statement c

/-- The step reads blocks, and in time. -/
structure IsBlockReader (block : Step (List Stmt)) : Prop where
  sound : SoundBlock block
  advances : Advances block
  timely : ∀ c, Timely LeadsBlock block c

section Statements

variable {statement : Step Stmt} {block : Step (List Stmt)}

theorem timely_furtherStatements (h : IsStmtReader statement) (stop : Option TokenKind) {n : Nat}
    {c : Cursor} (hc : c.level ≤ maxDepth) (hn : c.tokens.length < n) :
    Timely MoreStatements (furtherStatements statement stop) c := by
  induction n generalizing c with
  | zero => exact absurd hn (Nat.not_lt_zero _)
  | succ n ih =>
    rw [furtherStatements_eq h.takes]
    refine timely_peek ?_
    split
    · exact timely_pure _
    · refine ((h.timely c hc).mono fun _ _ hl => .inr hl.first).bind
        (((h.sound c hc).and (h.takes c)).mono ?_ fun _ _ => trivial)
      rintro s c₁ ⟨⟨d, ts, ms, hp, hd, -, -⟩, hfewer⟩
      have hmore := ih (hp.level ▸ hc) (hfewer.trans_le (Nat.le_of_lt_succ hn))
      refine ⟨ts, ms, hp, (hmore.mono fun us _ hm => ?_).map _⟩
      exact .inr (hm.behind hd.derives)

theorem timely_statements (h : IsStmtReader statement) (stop : Option TokenKind)
    (hc : c.level ≤ maxDepth) : Timely LeadsStmts (statements statement stop) c := by
  rw [statements_eq]
  refine ((h.timely c hc).mono fun _ _ hl => hl.first).bind
    ((h.sound c hc).mono ?_ fun _ _ => trivial)
  rintro s c₁ ⟨d, ts, ms, hp, hd, -, -⟩
  have hc₁ : c₁.level ≤ maxDepth := hp.level ▸ hc
  refine ⟨ts, ms, hp, ?_⟩
  exact ((timely_furtherStatements h stop hc₁ (Nat.lt_succ_self _)).mono fun _ _ hm =>
    hm.behind hd.derives).map _

/-- `IF` and `WHILE` are alike up to the block. -/
theorem timely_guarded {next : Expr → List Stmt → Step Stmt} {w : Token}
    (hb : IsBlockReader block) (hw : w.kind = .ifWord ∨ w.kind = .whileWord)
    (hn : ∀ e ss c' lp rp ts us ms d, lp.kind = .leftParen → rp.kind = .rightParen →
      Derives .expression ts e → DerivesBlock d us ss ms →
      (d = true → c'.kind? ≠ some .elseWord) →
        Timely (LeadsStmt.after (w :: lp :: (ts ++ rp :: us)) (readsOf ts ++ ms)) (next e ss) c') :
    Timely (LeadsStmt.after [w] []) (condition >>= fun e => block >>= next e) c := by
  refine Timely.bind (timely_condition (Prospect.after_nil (leadsStmt_guard hw))
    fun lp ts ms hl h => h.condition hw hl) ((ensures_condition c).mono ?_ fun _ _ => trivial)
  rintro e c₁ ⟨lp, rp, ts, hl, hr, hp, ⟨_, _, he⟩, -⟩
  refine ⟨_, _, hp, ?_⟩
  refine Timely.bind ((hb.timely c₁).mono fun us ms h => ?_)
    ((hb.sound c₁).mono ?_ fun _ _ => trivial)
  · simpa [Prospect.after] using h.guarded hw hl he.derives hr
  · rintro ss c₂ ⟨d, us, ms, hq, hd, -, helse⟩
    refine ⟨us, ms, hq, ?_⟩
    have hnext := hn e ss c₂ lp rp ts us ms d hl hr he.derives hd.opens.derives helse
    rw [Prospect.after_after, Prospect.after_after]
    simpa using hnext

theorem timely_statementOf (interrupt : Interrupt) (hb : IsBlockReader block)
    (hc : c.level ≤ maxDepth) : Timely LeadsStmt (statementOf interrupt block) c := by
  unfold statementOf
  refine timely_consult_bind (timely_peek ?_)
  split
  · next hk =>
    refine timely_advance_bind hk fun w rest _ hw => timely_guarded hb (.inl hw) ?_
    intro e ss c' lp rp ts us ms d hl hr he hd helse
    refine timely_isAt ?_
    split
    · next hel =>
      have hclosed : d = false := by
        cases d with
        | false => rfl
        | true => exact absurd (of_decide_eq_true hel) (helse rfl)
      subst hclosed
      refine timely_advance_bind (of_decide_eq_true hel) fun el rest₁ _ helk => ?_
      refine ((hb.timely _).mono fun vs ns h => ?_).map _
      simpa [Prospect.after] using h.otherwise hw hl he hr hd helk
    · exact timely_pure _
  · next hk =>
    exact timely_advance_bind hk fun w rest _ hw => timely_guarded hb (.inr hw)
      fun _ _ _ _ _ _ _ _ _ _ _ _ _ _ => timely_pure _
  · have hc₁ : Cursor.level { c with checks := c.checks + 1 } ≤ maxDepth := hc
    refine (timely_simple hc₁).bind ((sound_simple _ hc₁).mono ?_ fun _ _ => trivial)
    rintro s c₁ ⟨ts, ms, hp, -, hs⟩
    refine ⟨ts, ms, hp, timely_consume_bind (Prospect.after_nil ?_) fun _ _ _ _ => timely_pure _⟩
    exact leadsStmt_of_semicolon fun semi hsemi => (hs semi hsemi).opens.derives

theorem isStmtReader_statementOf (interrupt : Interrupt) (hb : IsBlockReader block) :
    IsStmtReader (statementOf interrupt block) :=
  ⟨sound_statementOf interrupt hb.sound, takes_statementOf interrupt hb.advances,
    fun _ hc => timely_statementOf interrupt hb hc⟩

theorem timely_body (h : IsStmtReader statement) (hc : c.level ≤ maxDepth) :
    Timely LeadsBlock (body statement) c := by
  unfold body
  refine timely_isAt ?_
  split
  · next hk =>
    refine timely_advance_bind (of_decide_eq_true hk) fun lb rest _ hl => ?_
    have hc₁ : Cursor.level { c with tokens := rest } ≤ maxDepth := hc
    refine Timely.bind ((timely_statements h _ hc₁).mono fun _ _ hb => hb.inBraces hl)
      ((ensures_statements h.sound _ _ hc₁).mono ?_ fun _ _ => trivial)
    rintro ss c₁ ⟨hr, ts, ms, hp, -, -⟩
    exact ⟨ts, ms, hp, timely_advance_bind hr fun _ _ _ _ => timely_pure _⟩
  · exact ((h.timely c hc).mono fun _ _ hl => hl.block).map _

theorem isBlockReader_blockOf (h : IsStmtReader statement)
    (ha : Advances (blockOf statement)) :
    IsBlockReader (blockOf statement) where
  sound := sound_blockOf h.sound
  advances := ha
  timely c := by
    rw [blockOf_eq]
    exact Timely.nested (Timely.descended fun hlevel => timely_body h hlevel)

end Statements

theorem isBlockReader_block (interrupt : Interrupt) (n : Nat) :
    IsBlockReader (block interrupt n) := by
  induction n with
  | zero => exact ⟨sound_block interrupt 0, fun _ => trivial, fun _ => timely_refuseDepth⟩
  | succ n ih =>
    exact isBlockReader_blockOf (isStmtReader_statementOf interrupt ih)
      (orderly_block interrupt (n + 1)).advances

/-- **A program is read in time.** -/
theorem timely_program (interrupt : Interrupt) (hc : c.level ≤ maxDepth) :
    Timely LeadsStmts (program interrupt) c := by
  have h := isStmtReader_statementOf interrupt (isBlockReader_block interrupt maxDepth)
  exact (timely_statements h none hc).map _

end Grammar
end MathScript
