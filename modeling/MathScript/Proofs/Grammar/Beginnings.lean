import MathScript.Proofs.Grammar.Lookahead
import MathScript.Proofs.Grammar.Printing

/-!
# Beginnings of sentences

What can stand in front of the end of an expression or of a statement, shown by how it can
be completed: by a number where an operand is wanted, by the brackets, words and semicolons
that are still open, by a statement that prints a number where a block is wanted.  None of
this reads a name, so that the names read so far are all that matter.

* `Begins`, `Leads`: the beginnings of what derives, where names are only read and where
  they are declared as well.
* `Begins.within`, `Leads.within`: **what begins a part begins the whole**.
-/

namespace MathScript

/-- A token of the kind, as it could be written. -/
def TokenKind.standIn : TokenKind → Token
  | .number => .ofNumber "1"
  | .identifier => .ofName "x"
  | .stringLiteral => .ofText ""
  | kind => kind.token

theorem TokenKind.kind_standIn (kind : TokenKind) : kind.standIn.kind = kind := by
  cases kind <;> rfl

theorem TokenKind.printed_standIn (kind : TokenKind) : kind.standIn.Printed := by
  unfold Token.Printed Token.Alone
  cases kind <;> decide

namespace Grammar

/-- Tokens of these kinds. -/
def standIns (kinds : List TokenKind) : List Token :=
  kinds.map TokenKind.standIn

theorem standIns_append (kinds kinds' : List TokenKind) :
    standIns (kinds ++ kinds') = standIns kinds ++ standIns kinds' :=
  List.map_append

theorem readsOf_singleton {t : Token} (h : t.kind ≠ .identifier) : readsOf [t] = [] :=
  readsOf_cons_other [] h

theorem readsOf_concat_other {t : Token} (ts : List Token) (h : t.kind ≠ .identifier) :
    readsOf (ts ++ [t]) = readsOf ts := by
  rw [readsOf_append, readsOf_singleton h, List.append_nil]

theorem readsOf_standIns {kinds : List TokenKind} (h : .identifier ∉ kinds) :
    readsOf (standIns kinds) = [] := by
  induction kinds with
  | nil => rfl
  | cons kind kinds ih =>
    obtain ⟨hkind, hkinds⟩ := not_or.mp fun hmem => h (List.mem_cons.mpr hmem)
    have hother : kind.standIn.kind ≠ .identifier := by
      rw [kind.kind_standIn]
      exact Ne.symm hkind
    rw [standIns, List.map_cons, readsOf_cons_other _ hother]
    exact ih hkinds

/-! ## Where every name is read -/

section Begins

variable {α β : Type}

/-- The tokens begin what derives, read their names, and need no more names. -/
def Begins (derives : List Token → α → Prop) : Prospect := fun ts ms =>
  ms = readsOf ts ∧ ∃ kinds a, .identifier ∉ kinds ∧ derives (ts ++ standIns kinds) a

variable {derives : List Token → α → Prop} {derives' : List Token → β → Prop} {ts : List Token}
  {ms : List (Mention Token)}

theorem begins_of_derives {a : α} (h : derives ts a) : Begins derives ts (readsOf ts) :=
  ⟨rfl, [], a, List.not_mem_nil, by simpa [standIns] using h⟩

/-- **What begins a part begins the whole.** -/
theorem Begins.within (front : List Token) (ns : List (Mention Token)) (back : List TokenKind)
    (hfront : readsOf front = ns) (hback : .identifier ∉ back)
    (h : ∀ us a, derives us a → ∃ b, derives' (front ++ (us ++ standIns back)) b)
    (hb : Begins derives ts ms) : Begins derives' (front ++ ts) (ns ++ ms) := by
  obtain ⟨rfl, kinds, a, hkinds, hd⟩ := hb
  obtain ⟨b, hd'⟩ := h _ a hd
  refine ⟨by rw [readsOf_append, hfront], kinds ++ back, b, ?_, ?_⟩
  · exact fun hmem => (List.mem_append.mp hmem).elim hkinds hback
  · rw [standIns_append]
    simpa using hd'

theorem Begins.mono (h : ∀ us a, derives us a → ∃ b, derives' us b) (hb : Begins derives ts ms) :
    Begins derives' ts ms :=
  hb.within [] [] [] rfl List.not_mem_nil fun us a hd => by simpa [standIns] using h us a hd

end Begins

/-! ### Expressions -/

section Expressions

variable {level part : Level} {ts us : List Token} {ms : List (Mention Token)} {e : Expr}

/-- A number can stand at every level. -/
theorem derives_number {t : Token} (ht : t.kind = .number) (level : Level) :
    ∃ e, Derives level [t] e := by
  have hsum : Derives .sum [t] (.number t.text) :=
    .first rfl (.first rfl (.unsigned (.base (.number ht))))
  have hexpression : Derives .expression [t] (.number t.text) :=
    .plain (.compared (.first rfl hsum))
  cases level with
  | primary => exact ⟨_, .number ht⟩
  | power => exact ⟨_, .base (.number ht)⟩
  | signed => exact ⟨_, .unsigned (.base (.number ht))⟩
  | product => exact ⟨_, .first rfl (.unsigned (.base (.number ht)))⟩
  | sum => exact ⟨_, hsum⟩
  | comparison => exact ⟨_, .first rfl hsum⟩
  | convertible => exact ⟨_, .compared (.first rfl hsum)⟩
  | expression => exact ⟨_, hexpression⟩
  | value => exact ⟨_, .first rfl hexpression⟩
  | prompt => exact ⟨_, .first rfl hsum⟩

theorem begins_nil (level : Level) : Begins (Derives level) [] [] := by
  obtain ⟨e, he⟩ := derives_number (TokenKind.kind_standIn .number) level
  exact ⟨rfl, [.number], e, by decide, he⟩

theorem begins_name {t : Token} (ht : t.kind = .identifier) :
    Begins (Derives .primary) [t] [.read t] := by
  have hreads : readsOf [t] = [.read t] := readsOf_cons_identifier [] ht
  exact hreads ▸ begins_of_derives (.name ht)

/-- Inside the parentheses of an evaluation. -/
theorem Begins.argument {f lp : Token} (hf : f.kind = .identifier) (hl : lp.kind = .leftParen)
    (h : Begins (Derives .expression) ts ms) :
    Begins (Derives .primary) (f :: lp :: ts) (.read f :: ms) := by
  refine h.within [f, lp] [.read f] [.rightParen] ?_ (by decide) fun us e he =>
    ⟨_, .evaluation hf hl he (TokenKind.kind_standIn _)⟩
  rw [readsOf_cons_identifier _ hf, readsOf_singleton (by rw [hl]; decide)]

theorem Begins.inParentheses {lp : Token} (hl : lp.kind = .leftParen)
    (h : Begins (Derives .expression) ts ms) : Begins (Derives .primary) (lp :: ts) ms :=
  h.within [lp] [] [.rightParen] (readsOf_singleton (by rw [hl]; decide)) (by decide)
    fun us e he => ⟨_, .parentheses hl he (TokenKind.kind_standIn _)⟩

/-- Behind a base and `^`. -/
theorem Begins.exponent {t : Token} (hb : Derives .primary us e) (ht : t.kind = .caret)
    (h : Begins (Derives .signed) ts ms) :
    Begins (Derives .power) (us ++ t :: ts) (readsOf us ++ ms) := by
  have hfront : readsOf (us ++ [t]) = readsOf us :=
    readsOf_concat_other us (by rw [ht]; decide)
  simpa using h.within (us ++ [t]) _ [] hfront (by decide) fun vs e he =>
    ⟨_, by simpa [standIns] using Derives.power hb ht he⟩

theorem Begins.behindSign {t : Token} {op : ArithOp} (ht : sign? t.kind = some op)
    (h : Begins (Derives .signed) ts ms) : Begins (Derives .signed) (t :: ts) ms := by
  have hsign : t.kind = .plus ∨ t.kind = .minus := by
    revert ht
    cases t.kind <;> simp [sign?]
  refine h.within [t] [] [] (readsOf_singleton ?_) (by decide) fun us e he => ?_
  · rcases hsign with hk | hk <;> rw [hk] <;> decide
  · rcases hsign with hk | hk
    · exact ⟨_, by simpa [standIns] using Derives.plus hk he⟩
    · exact ⟨_, by simpa [standIns] using Derives.minus hk he⟩

/-- Behind an operand and an operator. -/
theorem Begins.nextOperand {t : Token} {build : Expr → Expr → Expr}
    (hp : level.part? = some part) (hl : Derives level us e)
    (ht : level.operator? e t.kind = some build) (h : Begins (Derives part) ts ms) :
    Begins (Derives level) (us ++ t :: ts) (readsOf us ++ ms) := by
  have hjoins (r : Expr) : Joins level t.kind e r (build e r) := joins_iff.mpr ⟨build, ht, rfl⟩
  have hfront : readsOf (us ++ [t]) = readsOf us :=
    readsOf_concat_other us (hjoins e).ne_identifier
  simpa using h.within (us ++ [t]) _ [] hfront (by decide) fun vs r hr =>
    ⟨_, by simpa [standIns] using Derives.joined hp hl (hjoins r) hr⟩

theorem Begins.behindSolve {s : Token} (hs : s.kind = .solve) (h : Begins (Derives .sum) ts ms) :
    Begins (Derives .expression) (s :: ts) ms :=
  h.within [s] [] [] (readsOf_singleton (by rw [hs]; decide)) (by decide) fun us e he =>
    ⟨_, by simpa [standIns] using Derives.solved hs he⟩

/-- Behind the word in front of a domain. -/
theorem begins_domain {s w : Token} (hs : s.kind = .solve) (he : Derives .sum ts e)
    (hw : w.kind = .inWord ∨ w.kind = .asWord) :
    Begins (Derives .expression) (s :: (ts ++ [w])) (readsOf ts) := by
  have hword : w.kind ≠ .identifier := by
    rcases hw with hw | hw <;> rw [hw] <;> decide
  refine ⟨?_, [.integer], .solve e .integers, by decide, .plain ?_⟩
  · rw [readsOf_cons_other _ (by rw [hs]; decide), readsOf_concat_other _ hword]
  · simpa [standIns] using Derives.solvedIn .integers hs he hw (TokenKind.kind_standIn .integer)

/-- Behind the word in front of a type. -/
theorem begins_type {w : Token} (he : Derives .convertible ts e) (hw : w.kind = .asWord) :
    Begins (Derives .expression) (ts ++ [w]) (readsOf ts) := by
  refine ⟨?_, [.integer], .cast e .integer, by decide, ?_⟩
  · rw [readsOf_concat_other _ (by rw [hw]; decide)]
  · simpa [standIns] using Derives.converted .integer he hw (TokenKind.kind_standIn .integer)

/-- Behind an argument and a comma. -/
theorem Begins.nextArgument {t : Token} (he : Derives .expression us e) (ht : t.kind = .comma)
    (h : Begins DerivesArguments ts ms) :
    Begins DerivesArguments (us ++ t :: ts) (readsOf us ++ ms) := by
  have hfront : readsOf (us ++ [t]) = readsOf us :=
    readsOf_concat_other us (by rw [ht]; decide)
  simpa using h.within (us ++ [t]) _ [] hfront (by decide) fun vs es hes =>
    ⟨_, by simpa [standIns] using DerivesArguments.cons he ht hes⟩

end Expressions

/-! ## Where names are declared -/

section Leads

variable {α β : Type}

/-- The tokens begin what derives and mention this, and no more names need be read. -/
def Leads (derives : List Token → α → List (Mention Token) → Prop) : Prospect := fun ts ms =>
  ∃ kinds a ns, (∀ t, .read t ∉ ns) ∧ derives (ts ++ standIns kinds) a (ms ++ ns)

variable {derives : List Token → α → List (Mention Token) → Prop}
  {derives' : List Token → β → List (Mention Token) → Prop} {ts : List Token}
  {ms : List (Mention Token)}

theorem leads_of_derives {a : α} (h : derives ts a ms) : Leads derives ts ms :=
  ⟨[], a, [], fun _ => List.not_mem_nil, by simpa [standIns] using h⟩

theorem Leads.within (front : List Token) (ns : List (Mention Token)) (back : List TokenKind)
    (h : ∀ us a os, derives us a os →
      ∃ b, derives' (front ++ (us ++ standIns back)) b (ns ++ os))
    (hl : Leads derives ts ms) : Leads derives' (front ++ ts) (ns ++ ms) := by
  obtain ⟨kinds, a, os, hos, hd⟩ := hl
  obtain ⟨b, hd'⟩ := h _ a _ hd
  refine ⟨kinds ++ back, b, os, hos, ?_⟩
  rw [standIns_append]
  simpa using hd'

/-- What is cut off at stand-ins may be cut in front of them. -/
theorem Leads.shorten (ts : List Token) (kinds : List TokenKind)
    (h : Leads derives (ts ++ standIns kinds) ms) : Leads derives ts ms := by
  obtain ⟨kinds', a, ns, hns, hd⟩ := h
  refine ⟨kinds ++ kinds', a, ns, hns, ?_⟩
  rwa [standIns_append, ← List.append_assoc]

/-- What reads its names and needs no more may stand where names are declared. -/
theorem Begins.leads {derives : List Token → α → Prop} (front : List Token)
    (back : List TokenKind) (os : List (Mention Token)) (hos : ∀ t, .read t ∉ os)
    (h : ∀ us a, derives us a →
      ∃ b, derives' (front ++ (us ++ standIns back)) b (readsOf us ++ os))
    (hb : Begins derives ts ms) : Leads derives' (front ++ ts) ms := by
  obtain ⟨rfl, kinds, a, hkinds, hd⟩ := hb
  obtain ⟨b, hd'⟩ := h _ a hd
  refine ⟨kinds ++ back, b, os, hos, ?_⟩
  rw [readsOf_append, readsOf_standIns hkinds, List.append_nil] at hd'
  rw [standIns_append]
  simpa using hd'

end Leads

/-- The tokens begin a statement. -/
abbrev LeadsStmt : Prospect :=
  Leads fun ts s ms => ∃ d, DerivesStmt d ts s ms

/-- The tokens begin a block. -/
abbrev LeadsBlock : Prospect :=
  Leads fun ts ss ms => ∃ d, DerivesBlock d ts ss ms

/-- The tokens begin statements. -/
abbrev LeadsStmts : Prospect :=
  Leads DerivesStmts

section Statements

variable {ts us vs : List Token} {ms ns os : List (Mention Token)} {e : Expr} {s : Stmt}
  {ss : List Stmt} {d : Bool}

theorem derivesStmt_print {w n semi : Token} (hw : w.kind = .print) (hn : n.kind = .number)
    (hs : semi.kind = .semicolon) : ∃ s, DerivesStmt false [w, n, semi] s [] := by
  obtain ⟨e, he⟩ := derives_number hn .expression
  have hprint := DerivesStmt.print hw (.one he) hs
  rw [readsOf_singleton (by rw [hn]; decide)] at hprint
  exact ⟨_, hprint⟩

/-- A statement that prints a number can stand wherever a statement can. -/
theorem derivesStmt_standIns :
    ∃ s, DerivesStmt false (standIns [.print, .number, .semicolon]) s [] :=
  derivesStmt_print (TokenKind.kind_standIn _) (TokenKind.kind_standIn _)
    (TokenKind.kind_standIn _)

theorem leadsStmt_nil : LeadsStmt [] [] := by
  obtain ⟨s, hs⟩ := derivesStmt_standIns
  exact ⟨[.print, .number, .semicolon], s, [], fun _ => List.not_mem_nil, false, hs⟩

/-- In front of the semicolon. -/
theorem leadsStmt_of_semicolon
    (h : ∀ semi : Token, semi.kind = .semicolon → DerivesStmt d (ts ++ [semi]) s ms) :
    LeadsStmt ts ms := by
  refine ⟨[.semicolon], s, [], fun _ => List.not_mem_nil, d, ?_⟩
  rw [List.append_nil]
  exact h _ (TokenKind.kind_standIn _)

theorem Begins.assigned {target eq : Token} (hi : target.kind = .identifier)
    (ha : eq.kind = .assign) (h : Begins (Derives .value) ts ms) :
    LeadsStmt (target :: eq :: ts) ms :=
  h.leads [target, eq] [.semicolon] [.declare target] (by simp) fun us e he =>
    ⟨_, false, .assignment hi ha he (TokenKind.kind_standIn _)⟩

theorem leadsStmt_target {target : Token} (hi : target.kind = .identifier) :
    LeadsStmt [target] [] := by
  have ha := TokenKind.kind_standIn .assign
  exact ((begins_nil .value).assigned hi ha).shorten [target] [.assign]

/-- In front of the prompt and inside it. -/
theorem Begins.shown {w : Token} (hw : w.kind = .inWord) (h : Begins DerivesPrompt ts ms) :
    LeadsStmt (w :: ts) ms :=
  h.leads [w] [.greater, .identifier, .semicolon] [.declare (TokenKind.standIn .identifier)]
    (by simp) fun us prompt hp => ⟨.input (TokenKind.standIn .identifier).text prompt none, false,
      .input hw hp (TokenKind.kind_standIn .greater) (TokenKind.kind_standIn .identifier) .none
        (TokenKind.kind_standIn .semicolon)⟩

/-- Behind the prompt, wherever the rest of the input is cut. -/
theorem leadsStmt_input {w gt target semi : Token} {prompt : Option Expr}
    {cast : Option CastType} {kinds : List TokenKind} (hw : w.kind = .inWord)
    (hp : DerivesPrompt ts prompt) (hg : gt.kind = .greater) (hi : target.kind = .identifier)
    (hc : DerivesCast us cast) (hs : semi.kind = .semicolon)
    (hcut : vs ++ standIns kinds = gt :: target :: (us ++ [semi])) :
    LeadsStmt (w :: (ts ++ vs)) (readsOf ts) := by
  refine ⟨kinds, .input target.text prompt cast, [.declare target], by simp, false, ?_⟩
  rw [List.cons_append, List.append_assoc, hcut]
  exact .input hw hp hg hi hc hs

/-- `PRINT` and `PLOT` are alike. -/
theorem Begins.listed {w : Token} (hw : w.kind = .print ∨ w.kind = .plot)
    (h : Begins DerivesArguments ts ms) : LeadsStmt (w :: ts) ms := by
  refine h.leads [w] [.semicolon] [] (fun _ => List.not_mem_nil) fun us es hes => ?_
  rw [List.append_nil]
  rcases hw with hw | hw
  · exact ⟨_, false, .print hw hes (TokenKind.kind_standIn _)⟩
  · exact ⟨_, false, .plot hw hes (TokenKind.kind_standIn _)⟩

/-- `IF` and `WHILE` are alike up to the block. -/
theorem derivesStmt_guarded {w lp rp : Token} (hw : w.kind = .ifWord ∨ w.kind = .whileWord)
    (hl : lp.kind = .leftParen) (he : Derives .expression ts e) (hr : rp.kind = .rightParen)
    (hb : DerivesBlock d us ss ms) :
    ∃ s d, DerivesStmt d (w :: lp :: (ts ++ rp :: us)) s (readsOf ts ++ ms) := by
  rcases hw with hw | hw
  · exact ⟨_, _, .ifThen hw hl he hr hb⟩
  · exact ⟨_, _, .whileLoop hw hl he hr hb⟩

theorem Begins.condition {w lp : Token} (hw : w.kind = .ifWord ∨ w.kind = .whileWord)
    (hl : lp.kind = .leftParen) (h : Begins (Derives .expression) ts ms) :
    LeadsStmt (w :: lp :: ts) ms := by
  obtain ⟨s, hs⟩ := derivesStmt_standIns
  exact h.leads [w, lp] [.rightParen, .print, .number, .semicolon] []
    (fun _ => List.not_mem_nil) fun us e he =>
      derivesStmt_guarded hw hl he (TokenKind.kind_standIn _) (.single hs)

theorem leadsStmt_guard {w : Token} (hw : w.kind = .ifWord ∨ w.kind = .whileWord) :
    LeadsStmt [w] [] := by
  have hl := TokenKind.kind_standIn .leftParen
  exact ((begins_nil .expression).condition hw hl).shorten [w] [.leftParen]

theorem LeadsBlock.guarded {w lp rp : Token} (hw : w.kind = .ifWord ∨ w.kind = .whileWord)
    (hl : lp.kind = .leftParen) (he : Derives .expression us e) (hr : rp.kind = .rightParen)
    (h : LeadsBlock ts ms) :
    LeadsStmt (w :: lp :: (us ++ rp :: ts)) (readsOf us ++ ms) := by
  simpa using Leads.within (w :: lp :: (us ++ [rp])) (readsOf us) [] (fun vs ss os hb => by
    obtain ⟨d, hb⟩ := hb
    simpa [standIns] using derivesStmt_guarded hw hl he hr hb) h

theorem LeadsBlock.otherwise {w lp rp el : Token} (hw : w.kind = .ifWord)
    (hl : lp.kind = .leftParen) (he : Derives .expression us e) (hr : rp.kind = .rightParen)
    (hb : DerivesBlock false vs ss ns) (hel : el.kind = .elseWord) (h : LeadsBlock ts ms) :
    LeadsStmt (w :: lp :: (us ++ rp :: (vs ++ el :: ts))) (readsOf us ++ (ns ++ ms)) := by
  simpa using Leads.within (w :: lp :: (us ++ rp :: (vs ++ [el]))) (readsOf us ++ ns) []
    (fun ts os ms ho => by
      obtain ⟨d, ho⟩ := ho
      exact ⟨_, d, by simpa [standIns] using DerivesStmt.ifThenElse hw hl he hr hb hel ho⟩) h

theorem LeadsStmt.block (h : LeadsStmt ts ms) : LeadsBlock ts ms :=
  Leads.within [] [] [] (fun us s os hs => by
    obtain ⟨d, hs⟩ := hs
    exact ⟨[s], d, by simpa [standIns] using DerivesBlock.single hs⟩) h

theorem LeadsStmts.inBraces {lb : Token} (hl : lb.kind = .leftBrace) (h : LeadsStmts ts ms) :
    LeadsBlock (lb :: ts) ms :=
  Leads.within [lb] [] [.rightBrace] (fun _ ss _ hss =>
    ⟨ss, false, .braces hl hss (TokenKind.kind_standIn _)⟩) h

theorem LeadsStmt.first (h : LeadsStmt ts ms) : LeadsStmts ts ms :=
  Leads.within [] [] [] (fun us s os hs => by
    obtain ⟨d, hs⟩ := hs
    exact ⟨[s], by simpa [standIns] using DerivesStmts.one hs⟩) h

theorem LeadsStmts.behind (hs : DerivesStmt d us s ns) (h : LeadsStmts ts ms) :
    LeadsStmts (us ++ ts) (ns ++ ms) :=
  Leads.within us ns [] (fun vs ss os hss =>
    ⟨s :: ss, by simpa [standIns] using DerivesStmts.cons hs hss⟩) h

end Statements

end Grammar
end MathScript
