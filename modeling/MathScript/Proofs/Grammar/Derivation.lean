import MathScript.Grammar.Expression
import MathScript.Proofs.Program.Mention

/-!
# The grammar

Which tokens derive which tree, with no reading in sight.  Where the rules leave
a choice, the grammar makes it:

* operators group to the left, `^` to the right, and a sign is an operator
  behind 0;
* `+` beside a string joins strings; a comma joins in a prompt, and in an
  assigned value behind a string only;
* `IN` or `AS` behind the operand of `SOLVE` names the domain, so that only a
  `SOLVE` with a domain can be converted;
* a statement that would take an `ELSE` behind it is *dangling*, and no dangling
  statement stands in front of an `ELSE`.  This gives each `ELSE` to the nearest
  `IF`.

A derivation of statements also lists what they mention, token by token.

* `Derives.reads_eq`, `mentions_eq`: **the identifiers among the tokens are what
  the tree mentions**.
-/

namespace MathScript

/-- The token of a comparison. -/
def CompareOp.kind : CompareOp → TokenKind
  | equal => .equalTo
  | notEqual => .notEqual
  | less => .less
  | lessOrEqual => .lessOrEqual
  | greater => .greater
  | greaterOrEqual => .greaterOrEqual

/-- The token of a domain. -/
def Domain.kind : Domain → TokenKind
  | integers => .integer
  | rationals => .rational
  | reals => .real
  | complexes => .complex

/-- The token of a type. -/
def CastType.kind : CastType → TokenKind
  | integer => .integer
  | real => .real
  | string => .string

namespace Grammar

/-! ## Expressions -/

/-- The levels of an expression. -/
inductive Level where
  | primary | power | signed | product | sum | comparison
  /-- What a conversion can stand behind. -/
  | convertible
  | expression
  /-- What can be assigned. -/
  | value
  /-- What an input can show. -/
  | prompt
deriving DecidableEq, Repr

/-- The level of the operands, where the operators of a level group to the left. -/
def Level.part? : Level → Option Level
  | .product => some .signed
  | .sum => some .product
  | .comparison => some .sum
  | .value => some .expression
  | .prompt => some .sum
  | _ => none

/-- What an operator of a level makes of its operands. -/
inductive Joins : Level → TokenKind → (left right : Expr) → Expr → Prop
  | multiply {l r} : Joins .product .times l r (.binary l .mul r)
  | divide {l r} : Joins .product .divide l r (.binary l .div r)
  | add {l r} (hl : l.isString = false) (hr : r.isString = false) :
      Joins .sum .plus l r (.binary l .add r)
  | append {l r} (h : l.isString = true ∨ r.isString = true) :
      Joins .sum .plus l r (.concat l r false)
  | subtract {l r} : Joins .sum .minus l r (.binary l .sub r)
  | compare {l r} (op : CompareOp) : Joins .comparison op.kind l r (.comparison l op r)
  | valueComma {l r} (h : l.isString = true) : Joins .value .comma l r (.concat l r true)
  | promptComma {l r} : Joins .prompt .comma l r (.concat l r true)

/-- The tokens derive the expression at the level. -/
inductive Derives : Level → List Token → Expr → Prop
  | number {t : Token} (ht : t.kind = .number) : Derives .primary [t] (.number t.text)
  | text {t : Token} (ht : t.kind = .stringLiteral) : Derives .primary [t] (.text (unquote t.text))
  | name {t : Token} (ht : t.kind = .identifier) : Derives .primary [t] (.name t.text)
  | evaluation {f lp rp : Token} {ts : List Token} {e : Expr}
      (hf : f.kind = .identifier) (hl : lp.kind = .leftParen)
      (he : Derives .expression ts e) (hr : rp.kind = .rightParen) :
      Derives .primary (f :: lp :: (ts ++ [rp])) (.evaluation f.text e)
  | parentheses {lp rp : Token} {ts : List Token} {e : Expr}
      (hl : lp.kind = .leftParen) (he : Derives .expression ts e)
      (hr : rp.kind = .rightParen) : Derives .primary (lp :: (ts ++ [rp])) e
  | base {ts : List Token} {e : Expr} (h : Derives .primary ts e) : Derives .power ts e
  | power {t : Token} {ts us : List Token} {b e : Expr}
      (hb : Derives .primary ts b) (ht : t.kind = .caret)
      (he : Derives .signed us e) : Derives .power (ts ++ t :: us) (.binary b .pow e)
  | unsigned {ts : List Token} {e : Expr} (h : Derives .power ts e) : Derives .signed ts e
  | plus {t : Token} {ts : List Token} {e : Expr} (ht : t.kind = .plus) (h : Derives .signed ts e) :
      Derives .signed (t :: ts) (.binary (.number "0") .add e)
  | minus {t : Token} {ts : List Token} {e : Expr}
      (ht : t.kind = .minus) (h : Derives .signed ts e) :
      Derives .signed (t :: ts) (.binary (.number "0") .sub e)
  | first {level part : Level} {ts : List Token} {e : Expr}
      (hp : level.part? = some part) (h : Derives part ts e) :
      Derives level ts e
  | joined {level part : Level} {t : Token} {ts us : List Token} {l r e : Expr}
      (hp : level.part? = some part) (hl : Derives level ts l)
      (hj : Joins level t.kind l r e) (hr : Derives part us r) : Derives level (ts ++ t :: us) e
  | compared {ts : List Token} {e : Expr} (h : Derives .comparison ts e) : Derives .convertible ts e
  | solvedIn {s w d : Token} {ts : List Token} {e : Expr}
      (domain : Domain) (hs : s.kind = .solve) (he : Derives .sum ts e)
      (hw : w.kind = .inWord ∨ w.kind = .asWord) (hd : d.kind = domain.kind) :
      Derives .convertible (s :: (ts ++ [w, d])) (.solve e domain)
  | solved {s : Token} {ts : List Token} {e : Expr}
      (hs : s.kind = .solve) (he : Derives .sum ts e) :
      Derives .expression (s :: ts) (.solve e .standard)
  | plain {ts : List Token} {e : Expr} (h : Derives .convertible ts e) : Derives .expression ts e
  | converted {w d : Token} {ts : List Token} {e : Expr}
      (type : CastType) (he : Derives .convertible ts e)
      (hw : w.kind = .asWord) (hd : d.kind = type.kind) :
      Derives .expression (ts ++ [w, d]) (.cast e type)

/-! ## Statements -/

/-- The tokens derive the expressions between commas. -/
inductive DerivesArguments : List Token → List Expr → Prop
  | one {ts : List Token} {e : Expr} (h : Derives .expression ts e) : DerivesArguments ts [e]
  | cons {t : Token} {ts us : List Token} {e : Expr} {es : List Expr}
      (he : Derives .expression ts e) (ht : t.kind = .comma)
      (hs : DerivesArguments us es) : DerivesArguments (ts ++ t :: us) (e :: es)

/-- The tokens derive a prompt, or there is none. -/
inductive DerivesPrompt : List Token → Option Expr → Prop
  | none : DerivesPrompt [] none
  | some {ts : List Token} {e : Expr} (h : Derives .prompt ts e) : DerivesPrompt ts (some e)

/-- The tokens derive the conversion of an input, or there is none. -/
inductive DerivesCast : List Token → Option CastType → Prop
  | none : DerivesCast [] none
  | some {w d : Token} (type : CastType) (hw : w.kind = .asWord) (hd : d.kind = type.kind) :
      DerivesCast [w, d] (some type)

/-- The identifiers among the tokens of an expression, as reads. -/
def readsOf (ts : List Token) : List (Mention Token) :=
  (ts.filter fun t => t.kind = .identifier).map .read

mutual

/-- The tokens derive the statement and mention these tokens; whether the
statement is dangling comes first. -/
inductive DerivesStmt : Bool → List Token → Stmt → List (Mention Token) → Prop
  | assignment {target eq semi : Token} {ts : List Token} {e : Expr}
      (hi : target.kind = .identifier) (ha : eq.kind = .assign)
      (he : Derives .value ts e) (hs : semi.kind = .semicolon) :
      DerivesStmt false (target :: eq :: (ts ++ [semi])) (.assignment target.text e)
        (readsOf ts ++ [.declare target])
  | input {w gt target semi : Token} {ts us : List Token} {prompt : Option Expr}
      {cast : Option CastType}
      (hw : w.kind = .inWord)
      (hp : DerivesPrompt ts prompt) (hg : gt.kind = .greater) (hi : target.kind = .identifier)
      (hc : DerivesCast us cast) (hs : semi.kind = .semicolon) :
      DerivesStmt false (w :: (ts ++ gt :: target :: (us ++ [semi])))
        (.input target.text prompt cast) (readsOf ts ++ [.declare target])
  | print {w semi : Token} {ts : List Token} {es : List Expr}
      (hw : w.kind = .print) (h : DerivesArguments ts es)
      (hs : semi.kind = .semicolon) :
      DerivesStmt false (w :: (ts ++ [semi])) (.print es) (readsOf ts)
  | plot {w semi : Token} {ts : List Token} {es : List Expr}
      (hw : w.kind = .plot) (h : DerivesArguments ts es)
      (hs : semi.kind = .semicolon) :
      DerivesStmt false (w :: (ts ++ [semi])) (.plot es) (readsOf ts)
  | ifThen {w lp rp : Token} {ts us : List Token} {c : Expr} {b : List Stmt}
      {ms : List (Mention Token)} {d : Bool}
      (hw : w.kind = .ifWord) (hl : lp.kind = .leftParen)
      (hc : Derives .expression ts c) (hr : rp.kind = .rightParen) (hb : DerivesBlock d us b ms) :
      DerivesStmt true (w :: lp :: (ts ++ rp :: us)) (.ifThen c b) (readsOf ts ++ ms)
  | ifThenElse {w lp rp el : Token} {ts us vs : List Token} {c : Expr} {b o : List Stmt}
      {ms ns : List (Mention Token)} {d : Bool}
      (hw : w.kind = .ifWord)
      (hl : lp.kind = .leftParen) (hc : Derives .expression ts c) (hr : rp.kind = .rightParen)
      (hb : DerivesBlock false us b ms) (he : el.kind = .elseWord) (ho : DerivesBlock d vs o ns) :
      DerivesStmt d (w :: lp :: (ts ++ rp :: (us ++ el :: vs))) (.ifThenElse c b o)
        (readsOf ts ++ (ms ++ ns))
  | whileLoop {w lp rp : Token} {ts us : List Token} {c : Expr} {b : List Stmt}
      {ms : List (Mention Token)} {d : Bool}
      (hw : w.kind = .whileWord) (hl : lp.kind = .leftParen)
      (hc : Derives .expression ts c) (hr : rp.kind = .rightParen) (hb : DerivesBlock d us b ms) :
      DerivesStmt d (w :: lp :: (ts ++ rp :: us)) (.whileLoop c b) (readsOf ts ++ ms)

/-- The tokens derive the statements as a block. -/
inductive DerivesBlock : Bool → List Token → List Stmt → List (Mention Token) → Prop
  | single {ts : List Token} {s : Stmt} {ms : List (Mention Token)} {d : Bool}
      (h : DerivesStmt d ts s ms) : DerivesBlock d ts [s] ms
  | braces {lb rb : Token} {ts : List Token} {ss : List Stmt} {ms : List (Mention Token)}
      (hl : lb.kind = .leftBrace) (h : DerivesStmts ts ss ms)
      (hr : rb.kind = .rightBrace) : DerivesBlock false (lb :: (ts ++ [rb])) ss ms

/-- The tokens derive the statements, one after the other. -/
inductive DerivesStmts : List Token → List Stmt → List (Mention Token) → Prop
  | one {ts : List Token} {s : Stmt} {ms : List (Mention Token)} {d : Bool}
      (h : DerivesStmt d ts s ms) : DerivesStmts ts [s] ms
  | cons {ts us : List Token} {s : Stmt} {ss : List Stmt} {ms ns : List (Mention Token)} {d : Bool}
      (h : DerivesStmt d ts s ms) (hs : DerivesStmts us ss ns) :
      DerivesStmts (ts ++ us) (s :: ss) (ms ++ ns)

end

/-- The tokens derive the program and mention these tokens. -/
def DerivesProgram (ts : List Token) (p : Program) (ms : List (Mention Token)) : Prop :=
  DerivesStmts ts p.statements ms

/-! ## What a derivation reads -/

theorem readsOf_append (ts us : List Token) : readsOf (ts ++ us) = readsOf ts ++ readsOf us := by
  rw [readsOf, List.filter_append, List.map_append]
  rfl

theorem readsOf_cons_identifier {t : Token} (ts : List Token) (h : t.kind = .identifier) :
    readsOf (t :: ts) = .read t :: readsOf ts := by
  rw [readsOf, List.filter_cons_of_pos (by rw [h]; rfl)]
  rfl

theorem readsOf_cons_other {t : Token} (ts : List Token) (h : t.kind ≠ .identifier) :
    readsOf (t :: ts) = readsOf ts := by
  rw [readsOf, List.filter_cons_of_neg (by simpa using h)]
  rfl

/-- What reads nothing among the tokens may be left out in front. -/
theorem readsOf_operator {t : Token} (ts us : List Token) (h : t.kind ≠ .identifier) :
    readsOf (ts ++ t :: us) = readsOf ts ++ readsOf us := by
  rw [readsOf_append, readsOf_cons_other us h]

/-- The first identifier among some tokens that is not declared. -/
def missing? (t : NameTable) (ts : List Token) : Option Token :=
  t.firstUndeclared Token.text (readsOf ts)

theorem missing?_append (t : NameTable) (ts us : List Token) :
    missing? t (ts ++ us) = (missing? t ts).or (missing? t us) := by
  rw [missing?, readsOf_append, NameTable.firstUndeclared_append, readsOf,
    NameTable.after_reads]
  rfl

theorem missing?_cons_other (t : NameTable) {u : Token} (us : List Token)
    (h : u.kind ≠ .identifier) : missing? t (u :: us) = missing? t us := by
  rw [missing?, readsOf_cons_other us h]
  rfl

theorem missing?_append_other (t : NameTable) {u : Token} (ts : List Token)
    (h : u.kind ≠ .identifier) : missing? t (ts ++ [u]) = missing? t ts := by
  rw [missing?_append, missing?_cons_other t [] h]
  exact Option.or_none

theorem missing?_cons_identifier (t : NameTable) {u : Token} (us : List Token)
    (h : u.kind = .identifier) :
    missing? t (u :: us) = if t.contains u.text then missing? t us else some u := by
  rw [missing?, readsOf_cons_identifier us h]
  rfl

namespace Joins

variable {level : Level} {k : TokenKind} {l r e : Expr}

theorem ne_identifier (h : Joins level k l r e) : k ≠ .identifier := by
  cases h with
  | compare op => cases op <;> decide
  | _ => decide

theorem reads_eq (h : Joins level k l r e) : e.reads = l.reads ++ r.reads := by
  cases h <;> rfl

theorem depth_eq (h : Joins level k l r e) : e.depth = 1 + max l.depth r.depth := by
  cases h <;> rfl

end Joins

/-- **The identifiers among the tokens of an expression are the names it
reads.** -/
theorem Derives.reads_eq {level : Level} {ts : List Token} {e : Expr} (h : Derives level ts e) :
    (readsOf ts).map (Mention.map Token.text) = e.reads.map .read := by
  induction h with
  | number ht => rw [readsOf_cons_other _ (by rw [ht]; decide)]; rfl
  | text ht => rw [readsOf_cons_other _ (by rw [ht]; decide)]; rfl
  | name ht => rw [readsOf_cons_identifier _ ht]; rfl
  | evaluation hf hl he hr ih =>
    rw [readsOf_cons_identifier _ hf, readsOf_cons_other _ (by rw [hl]; decide),
      readsOf_operator _ _ (by rw [hr]; decide)]
    simpa [readsOf, Mention.map, Expr.reads] using ih
  | parentheses hl he hr ih =>
    rw [readsOf_cons_other _ (by rw [hl]; decide), readsOf_operator _ _ (by rw [hr]; decide)]
    simpa [readsOf] using ih
  | power hb ht he ihb ihe =>
    rw [readsOf_operator _ _ (by rw [ht]; decide), List.map_append, ihb, ihe, ← List.map_append]
    rfl
  | plus ht h ih => rw [readsOf_cons_other _ (by rw [ht]; decide), ih]; rfl
  | minus ht h ih => rw [readsOf_cons_other _ (by rw [ht]; decide), ih]; rfl
  | joined hp hl hj hr ihl ihr =>
    rw [readsOf_operator _ _ hj.ne_identifier, List.map_append, ihl, ihr, ← List.map_append,
      hj.reads_eq]
  | solvedIn domain hs he hw hd ih =>
    have hw' : ∀ w : Token, w.kind = .inWord ∨ w.kind = .asWord → w.kind ≠ .identifier := by
      rintro w (h | h) <;> rw [h] <;> decide
    rw [readsOf_cons_other _ (by rw [hs]; decide), readsOf_operator _ _ (hw' _ hw),
      readsOf_cons_other _ (by rw [hd]; cases domain <;> decide)]
    simpa [readsOf, Expr.reads] using ih
  | solved hs he ih => rw [readsOf_cons_other _ (by rw [hs]; decide), ih]; rfl
  | converted type he hw hd ih =>
    rw [readsOf_operator _ _ (by rw [hw]; decide),
      readsOf_cons_other _ (by rw [hd]; cases type <;> decide)]
    simpa [readsOf, Expr.reads] using ih
  | base _ ih | unsigned _ ih | first _ _ ih | compared _ ih | plain _ ih => exact ih

theorem DerivesArguments.reads_eq {ts : List Token} {es : List Expr} (h : DerivesArguments ts es) :
    (readsOf ts).map (Mention.map Token.text) = (es.flatMap Expr.reads).map .read := by
  induction h with
  | one h => rw [h.reads_eq, List.flatMap_singleton]
  | cons he ht hs ih =>
    rw [readsOf_operator _ _ (by rw [ht]; decide), List.map_append, he.reads_eq, ih,
      ← List.map_append, List.flatMap_cons]

theorem DerivesPrompt.reads_eq {ts : List Token} {prompt : Option Expr}
    (h : DerivesPrompt ts prompt) :
    (readsOf ts).map (Mention.map Token.text) =
      ((prompt.map Expr.reads).getD []).map .read := by
  cases h with
  | none => rfl
  | some h => exact h.reads_eq

mutual

/-- **What a derivation lists is what the statement mentions.** -/
theorem DerivesStmt.mentions_eq : ∀ {d : Bool} {ts : List Token} {s : Stmt}
    {ms : List (Mention Token)}, DerivesStmt d ts s ms →
      ms.map (Mention.map Token.text) = s.mentions
  | _, _, _, _, .assignment _ _ he _ => by
    rw [List.map_append, he.reads_eq]
    rfl
  | _, _, _, _, .input _ hp _ _ _ _ => by
    rw [List.map_append, hp.reads_eq]
    rfl
  | _, _, _, _, .print _ h _ => h.reads_eq
  | _, _, _, _, .plot _ h _ => h.reads_eq
  | _, _, _, _, .ifThen _ _ hc _ hb => by
    rw [List.map_append, hc.reads_eq, hb.mentions_eq]
    rfl
  | _, _, _, _, .ifThenElse _ _ hc _ hb _ ho => by
    rw [List.map_append, List.map_append, hc.reads_eq, hb.mentions_eq, ho.mentions_eq]
    rfl
  | _, _, _, _, .whileLoop _ _ hc _ hb => by
    rw [List.map_append, hc.reads_eq, hb.mentions_eq]
    rfl

theorem DerivesBlock.mentions_eq : ∀ {d : Bool} {ts : List Token} {ss : List Stmt}
    {ms : List (Mention Token)}, DerivesBlock d ts ss ms →
    ms.map (Mention.map Token.text) = mentionsOf ss
  | _, _, _, _, .single h => by
    rw [h.mentions_eq, mentionsOf, mentionsOf, List.append_nil]
  | _, _, _, _, .braces _ h _ => h.mentions_eq

theorem DerivesStmts.mentions_eq : ∀ {ts : List Token} {ss : List Stmt}
    {ms : List (Mention Token)}, DerivesStmts ts ss ms →
    ms.map (Mention.map Token.text) = mentionsOf ss
  | _, _, _, .one h => by
    rw [h.mentions_eq, mentionsOf, mentionsOf, List.append_nil]
  | _, _, _, .cons h hs => by
    rw [List.map_append, h.mentions_eq, hs.mentions_eq]
    rfl

end

/-! ## The order in which names are read -/

/-- What is read among some mentions. -/
def readIn (ms : List (Mention Token)) : List Token :=
  ms.filterMap fun
    | .read t => some t
    | .declare _ => none

theorem readIn_append (ms ns : List (Mention Token)) :
    readIn (ms ++ ns) = readIn ms ++ readIn ns :=
  List.filterMap_append

theorem readIn_readsOf (ts : List Token) : (readIn (readsOf ts)).Sublist ts := by
  have hreads : readIn (readsOf ts) = ts.filter fun t => t.kind = .identifier := by
    rw [readIn, readsOf, List.filterMap_map]
    exact List.filterMap_some
  rw [hreads]
  exact List.filter_sublist

section Order

variable {ts us : List Token} {ms : List (Mention Token)}

/-- What is read behind a word and in front of a semicolon. -/
theorem readIn_sublist_ended (w semi : Token) (h : (readIn ms).Sublist ts) :
    (readIn ms).Sublist (w :: (ts ++ [semi])) :=
  (h.trans (List.sublist_append_left ts [semi])).cons w

/-- What is read in a condition and in a block. -/
theorem readIn_sublist_guarded (w lp rp : Token) (h : (readIn ms).Sublist us) :
    (readIn (readsOf ts ++ ms)).Sublist (w :: lp :: (ts ++ rp :: us)) := by
  rw [readIn_append]
  exact (((readIn_readsOf ts).append (h.cons rp)).cons lp).cons w

/-- What is read in front of a target is read in front of what is declared. -/
theorem readIn_declare (t : Token) : readIn (ms ++ [.declare t]) = readIn ms := by
  rw [readIn_append]
  exact List.append_nil _

end Order

mutual

/-- **A derivation lists what is read in the order of the tokens.** -/
theorem DerivesStmt.readIn_sublist : ∀ {d : Bool} {ts : List Token} {s : Stmt}
    {ms : List (Mention Token)}, DerivesStmt d ts s ms → (readIn ms).Sublist ts
  | _, _, _, _, .assignment _ _ _ _ => by
    rw [readIn_declare]
    exact (((readIn_readsOf _).trans (List.sublist_append_left _ _)).cons _).cons _
  | _, _, _, _, .input _ _ _ _ _ _ => by
    rw [readIn_declare]
    exact ((readIn_readsOf _).trans (List.sublist_append_left _ _)).cons _
  | _, _, _, _, .print _ _ _ => readIn_sublist_ended _ _ (readIn_readsOf _)
  | _, _, _, _, .plot _ _ _ => readIn_sublist_ended _ _ (readIn_readsOf _)
  | _, _, _, _, .ifThen _ _ _ _ hb => readIn_sublist_guarded _ _ _ hb.readIn_sublist
  | _, _, _, _, .ifThenElse _ _ _ _ hb _ ho => by
    refine readIn_sublist_guarded _ _ _ ?_
    rw [readIn_append]
    exact hb.readIn_sublist.append (ho.readIn_sublist.cons _)
  | _, _, _, _, .whileLoop _ _ _ _ hb => readIn_sublist_guarded _ _ _ hb.readIn_sublist

theorem DerivesBlock.readIn_sublist : ∀ {d : Bool} {ts : List Token} {ss : List Stmt}
    {ms : List (Mention Token)}, DerivesBlock d ts ss ms → (readIn ms).Sublist ts
  | _, _, _, _, .single h => h.readIn_sublist
  | _, _, _, _, .braces _ h _ => readIn_sublist_ended _ _ h.readIn_sublist

theorem DerivesStmts.readIn_sublist : ∀ {ts : List Token} {ss : List Stmt}
    {ms : List (Mention Token)}, DerivesStmts ts ss ms → (readIn ms).Sublist ts
  | _, _, _, .one h => h.readIn_sublist
  | _, _, _, .cons h hs => by
    rw [readIn_append]
    exact h.readIn_sublist.append hs.readIn_sublist

end

/-! ## What a derivation starts with -/

/-- The tokens that an expression of a level can start with. -/
def Level.starts : Level → TokenKind → Bool
  | _, .number | _, .stringLiteral | _, .identifier | _, .leftParen => true
  | .primary, _ | .power, _ => false
  | _, .plus | _, .minus => true
  | .convertible, .solve | .expression, .solve | .value, .solve => true
  | _, _ => false

theorem Level.starts_of_part {level part : Level} {k : TokenKind} (hp : level.part? = some part)
    (h : part.starts k = true) : level.starts k = true := by
  cases level <;> cases hp <;> revert h <;> cases k <;> decide

theorem Derives.starts {level : Level} {ts : List Token} {e : Expr} (h : Derives level ts e) :
    ∃ t us, ts = t :: us ∧ level.starts t.kind = true := by
  induction h with
  | number ht | text ht | name ht => exact ⟨_, _, rfl, by rw [ht]; rfl⟩
  | evaluation hf | parentheses hf => exact ⟨_, _, rfl, by rw [hf]; rfl⟩
  | power _ _ _ ih =>
    obtain ⟨t, us, rfl, ht⟩ := ih
    exact ⟨t, _, rfl, by revert ht; cases t.kind <;> decide⟩
  | base _ ih | unsigned _ ih | plain _ ih | compared _ ih =>
    obtain ⟨t, us, rfl, ht⟩ := ih
    exact ⟨t, us, rfl, by revert ht; cases t.kind <;> decide⟩
  | plus ht | minus ht | solved ht | solvedIn _ ht => exact ⟨_, _, rfl, by rw [ht]; rfl⟩
  | first hp _ ih =>
    obtain ⟨t, us, rfl, ht⟩ := ih
    exact ⟨t, us, rfl, Level.starts_of_part hp ht⟩
  | joined _ _ _ _ ih =>
    obtain ⟨t, us, rfl, ht⟩ := ih
    exact ⟨t, _, rfl, ht⟩
  | converted _ _ _ _ ih =>
    obtain ⟨t, us, rfl, ht⟩ := ih
    exact ⟨t, _, rfl, by revert ht; cases t.kind <;> decide⟩

/-- The tokens that a statement can start with. -/
def startsStmt : TokenKind → Bool
  | .identifier | .inWord | .print | .plot | .ifWord | .whileWord => true
  | _ => false

theorem DerivesStmt.starts {d : Bool} {ts : List Token} {s : Stmt} {ms : List (Mention Token)}
    (h : DerivesStmt d ts s ms) : ∃ t us, ts = t :: us ∧ startsStmt t.kind = true := by
  cases h with
  | assignment hw | input hw | print hw | plot hw | ifThen hw | ifThenElse hw | whileLoop hw =>
    exact ⟨_, _, rfl, by rw [hw]; rfl⟩

theorem DerivesStmts.starts {ts : List Token} {ss : List Stmt} {ms : List (Mention Token)}
    (h : DerivesStmts ts ss ms) : ∃ t us, ts = t :: us ∧ startsStmt t.kind = true := by
  cases h with
  | one h => exact h.starts
  | cons h hs =>
    obtain ⟨t, us, rfl, ht⟩ := h.starts
    exact ⟨t, _, rfl, ht⟩

end Grammar
end MathScript
