import MathScript.Proofs.Grammar.Decision
import MathScript.Proofs.Program.Expressible
import MathScript.Proofs.Token.Spacing

/-!
# Writing programs down

Every program that source can express is written down as tokens that derive it, with
parentheses around each operand that is not a single operand by itself, and with braces
around each block.  Written like this a tree opens fewer nestings than it is deep, so a
program as deep as programs may be has room to be read.

* `writes_tokens`: **the tokens of a tree derive it, and open fewer nestings than it
  is deep**.
* `parse_source`: **a program is read from what it is written as**.
-/

namespace MathScript

/-! ## Single tokens -/

/-- How a rule spells what it matches, where there is but one way. -/
def Pattern.spelling : Pattern → List Char
  | .keyword word => word
  | .symbol chars => chars
  | _ => []

/-- The token of a kind that goes by one spelling. -/
def TokenKind.token (kind : TokenKind) : Token :=
  ⟨kind, String.ofList ((tokenRules.lookup kind).elim [] Pattern.spelling), 1⟩

def Token.ofName (name : String) : Token :=
  ⟨.identifier, name, 1⟩

def Token.ofNumber (text : String) : Token :=
  ⟨.number, text, 1⟩

/-- The contents between quotes. -/
def Token.ofText (contents : String) : Token :=
  ⟨.stringLiteral, String.ofList ('"' :: (contents.toList ++ ['"'])), 1⟩

/-- A token that is read back, on the first line. -/
def Token.Printed (t : Token) : Prop :=
  t.Alone ∧ t.line = 1

theorem Token.printed_token {kind : TokenKind}
    (h : kind ≠ .identifier ∧ kind ≠ .number ∧ kind ≠ .stringLiteral) : kind.token.Printed := by
  refine ⟨?_, rfl⟩
  revert h
  cases kind <;> unfold Token.Alone <;> decide

theorem Token.printed_ofName {name : String} (h : IsAsciiName name) (hr : ¬IsReserved name) :
    (Token.ofName name).Printed :=
  ⟨firstToken?_name h hr, rfl⟩

theorem Token.printed_ofNumber {text : String} (h : IsNumeral text) :
    (Token.ofNumber text).Printed :=
  ⟨firstToken?_numeral h, rfl⟩

theorem Token.printed_ofText {contents : String} (h : IsQuotable contents.toList) :
    (Token.ofText contents).Printed := by
  refine ⟨?_, rfl⟩
  have hlength : ('"' :: (contents.toList ++ ['"'])).length = contents.toList.length + 2 := by simp
  rw [Token.Alone, Token.ofText, String.toList_ofList, hlength]
  exact firstToken?_quoted h

theorem unquote_ofText (contents : String) :
    Grammar.unquote (Token.ofText contents).text = contents := by
  rw [Grammar.unquote, Token.ofText, String.toList_ofList, List.drop_one, List.tail_cons,
    List.dropLast_concat, String.ofList_toList]

/-- The token of an operator. -/
def ArithOp.kind : ArithOp → TokenKind
  | add => .plus
  | sub => .minus
  | mul => .times
  | div => .divide
  | pow => .caret

/-! ## Expressions -/

namespace Expr

/-- Whether an operator behind this operand is a sign. -/
def isSign (l : Expr) (op : ArithOp) : Bool :=
  l = .number "0" && (op = .add || op = .sub)

/-- Whether the expression is an operand without parentheses. -/
def isOperand : Expr → Bool
  | number _ | text _ | name _ | evaluation .. => true
  | binary l op _ => op = .pow || l.isSign op
  | comparison .. | concat .. | solve .. | cast .. => false

/-- Tokens between parentheses. -/
def parenthesised (ts : List Token) : List Token :=
  TokenKind.leftParen.token :: (ts ++ [TokenKind.rightParen.token])

/-- The tokens of the expression, where an operand is to stand. -/
def asOperand (e : Expr) (ts : List Token) : List Token :=
  if e.isOperand then ts else parenthesised ts

/-- The expression as tokens. -/
def tokens : Expr → List Token
  | number n => [.ofNumber n]
  | text s => [.ofText s]
  | name n => [.ofName n]
  | binary l op r =>
    if op = .pow then
      parenthesised l.tokens ++ TokenKind.caret.token :: r.asOperand r.tokens
    else if l.isSign op then op.kind.token :: r.asOperand r.tokens
    else l.asOperand l.tokens ++ op.kind.token :: r.asOperand r.tokens
  | comparison l op r => l.asOperand l.tokens ++ op.kind.token :: r.asOperand r.tokens
  | concat l r _ => l.asOperand l.tokens ++ TokenKind.plus.token :: r.asOperand r.tokens
  | evaluation f e => .ofName f :: parenthesised e.tokens
  | solve e domain =>
    TokenKind.solve.token ::
      (e.asOperand e.tokens ++ [TokenKind.inWord.token, domain.kind.token])
  | cast e type => e.asOperand e.tokens ++ [TokenKind.asWord.token, type.kind.token]

/-- The expression as tokens that can stand as an operand. -/
def operandTokens (e : Expr) : List Token :=
  e.asOperand e.tokens

end Expr

namespace Grammar

variable {k : Nat} {ts us : List Token} {e l r : Expr}

theorem DerivesIn.sum (h : DerivesIn k .signed ts e) : DerivesIn k .sum ts e :=
  .first rfl (.first rfl h)

theorem DerivesIn.convertible (h : DerivesIn k .sum ts e) : DerivesIn k .convertible ts e :=
  .compared (.first rfl h)

theorem DerivesIn.parenthesised (h : DerivesIn k .expression ts e) :
    DerivesIn (k + 1) .primary (Expr.parenthesised ts) e :=
  .parentheses rfl h rfl

/-- The tokens derive the expression as it stands, and with parentheses where it needs them
as an operand. -/
structure Writes (k : Nat) (ts : List Token) (e : Expr) : Prop where
  expression : DerivesIn k .expression ts e
  operand : DerivesIn k .signed (e.asOperand ts) e

theorem Writes.of_operand (he : e.isOperand = true) (h : DerivesIn k .signed ts e) :
    Writes k ts e where
  expression := h.sum.convertible.plain
  operand := by rwa [Expr.asOperand, if_pos he]

/-- **Parentheses take the room that the node above its operands leaves.** -/
theorem Writes.of_parentheses (he : e.isOperand = false) (h : DerivesIn k .expression ts e) :
    Writes (k + 1) ts e where
  expression := h.mono (Nat.le_succ k)
  operand := by
    rw [Expr.asOperand, if_neg (by simp [he])]
    exact h.parenthesised.base.unsigned

/-- An operation on numbers that is none behind 0. -/
theorem DerivesIn.operation {op : ArithOp} (hl : DerivesIn k .signed ts l)
    (hr : DerivesIn k .signed us r) (hop : op ≠ .pow)
    (hadd : op = .add → l.isString = false ∧ r.isString = false) :
    DerivesIn k .sum (ts ++ op.kind.token :: us) (.binary l op r) := by
  have hl₁ : DerivesIn k .product ts l := .first rfl hl
  have hr₁ : DerivesIn k .product us r := .first rfl hr
  cases op with
  | add => exact .joined rfl hl.sum (.add (hadd rfl).1 (hadd rfl).2) hr₁
  | sub => exact .joined rfl hl.sum .subtract hr₁
  | mul => exact .first rfl (.joined rfl hl₁ .multiply hr)
  | div => exact .first rfl (.joined rfl hl₁ .divide hr)
  | pow => exact absurd rfl hop

/-- **The tokens of a tree derive it, and open fewer nestings than it is deep.** -/
theorem writes_tokens (h : e.Plain) : ∀ {k}, e.depth ≤ k + 1 → Writes k e.tokens e := by
  -- Every other tree has a node above its operands, which leaves them one nesting less.
  have hbelow : ∀ {d k : Nat}, 0 < d → 1 + d ≤ k + 1 → ∃ j, k = j + 1 ∧ d ≤ j + 1 := by
    intro d k hpos hd
    exact ⟨k - 1, by omega, by omega⟩
  induction e with
  | number n =>
    intro k _
    have hn : DerivesIn k .primary [.ofNumber n] (.number n) := .number rfl
    exact .of_operand rfl hn.base.unsigned
  | text s =>
    intro k _
    have hs : DerivesIn k .primary [.ofText s] (.text (unquote (Token.ofText s).text)) := .text rfl
    rw [unquote_ofText] at hs
    exact .of_operand rfl hs.base.unsigned
  | name n =>
    intro k _
    have hn : DerivesIn k .primary [.ofName n] (.name n) := .name rfl
    exact .of_operand rfl hn.base.unsigned
  | binary l op r ihl ihr =>
    intro k hd
    obtain ⟨hlp, hrp, hadd⟩ := h
    rw [Expr.depth] at hd
    obtain ⟨j, rfl, hj⟩ := hbelow (l.depth_pos.trans_le (Nat.le_max_left _ _)) hd
    have hl := ihl hlp ((Nat.le_max_left _ _).trans hj)
    have hr := ihr hrp ((Nat.le_max_right _ _).trans hj)
    rw [Expr.tokens]
    split
    · next hop =>
      subst hop
      exact .of_operand rfl (DerivesIn.power hl.expression.parenthesised rfl hr.operand).unsigned
    · next hop =>
      split
      · next hsign =>
        have hoperand : (Expr.binary l op r).isOperand = true := by simp [Expr.isOperand, hsign]
        simp only [Expr.isSign, Bool.and_eq_true, Bool.or_eq_true, decide_eq_true_eq] at hsign
        obtain ⟨rfl, rfl | rfl⟩ := hsign
        · exact .of_operand hoperand (hr.operand.sign rfl)
        · exact .of_operand hoperand (hr.operand.sign rfl)
      · next hsign =>
        have hnumbers : op = .add → l.isString = false ∧ r.isString = false := by
          rintro rfl
          refine (hadd rfl).resolve_left ?_
          rintro rfl
          exact hsign rfl
        have hsum := DerivesIn.operation hl.operand hr.operand hop hnumbers
        exact .of_parentheses (by simp [Expr.isOperand, hop, hsign]) hsum.convertible.plain
  | comparison l op r ihl ihr =>
    intro k hd
    rw [Expr.depth] at hd
    obtain ⟨j, rfl, hj⟩ := hbelow (l.depth_pos.trans_le (Nat.le_max_left _ _)) hd
    have hl := ihl h.1 ((Nat.le_max_left _ _).trans hj)
    have hr := ihr h.2 ((Nat.le_max_right _ _).trans hj)
    have hsides : DerivesIn j .comparison (Expr.comparison l op r).tokens (.comparison l op r) :=
      .joined rfl (.first rfl hl.operand.sum) (.compare op) hr.operand.sum
    exact .of_parentheses rfl hsides.compared.plain
  | concat l r padded ihl ihr =>
    intro k hd
    obtain ⟨hlp, hrp, rfl, hstring⟩ := h
    rw [Expr.depth] at hd
    obtain ⟨j, rfl, hj⟩ := hbelow (l.depth_pos.trans_le (Nat.le_max_left _ _)) hd
    have hl := ihl hlp ((Nat.le_max_left _ _).trans hj)
    have hr := ihr hrp ((Nat.le_max_right _ _).trans hj)
    have hsum : DerivesIn j .sum (Expr.concat l r false).tokens (.concat l r false) :=
      .joined rfl hl.operand.sum (.append hstring) (.first rfl hr.operand)
    exact .of_parentheses rfl hsum.convertible.plain
  | evaluation f e ih =>
    intro k hd
    rw [Expr.depth] at hd
    obtain ⟨j, rfl, hj⟩ := hbelow e.depth_pos hd
    have hcall : DerivesIn (j + 1) .primary (Expr.evaluation f e).tokens (.evaluation f e) :=
      .evaluation rfl rfl (ih h.2 hj).expression rfl
    exact .of_operand rfl hcall.base.unsigned
  | solve e domain ih =>
    intro k hd
    rw [Expr.depth] at hd
    obtain ⟨j, rfl, hj⟩ := hbelow e.depth_pos hd
    have hsolve : DerivesIn j .convertible (Expr.solve e domain).tokens (.solve e domain) :=
      .solvedIn domain rfl (ih h hj).operand.sum (.inl rfl) rfl
    exact .of_parentheses rfl hsolve.plain
  | cast e type ih =>
    intro k hd
    rw [Expr.depth] at hd
    obtain ⟨j, rfl, hj⟩ := hbelow e.depth_pos hd
    have hcast : DerivesIn j .expression (Expr.cast e type).tokens (.cast e type) :=
      .converted type (ih h hj).operand.sum.convertible rfl rfl
    exact .of_parentheses rfl hcast

end Grammar

/-! ## Values and prompts -/

/-- Expressions between the commas of a value or a prompt, each written by `part`. -/
def Expr.joinedTokens (part : Expr → List Token) : Expr → List Token
  | .concat l r true => l.joinedTokens part ++ TokenKind.comma.token :: part r
  | e => part e

namespace Grammar

theorem derivesIn_joinedTokens {k : Nat} {level part : Level} {L : Expr → Prop}
    {write : Expr → List Token} (hp : level.part? = some part)
    (hjoin : ∀ {l r : Expr}, L l → Joins level .comma l r (.concat l r true))
    (hpart : ∀ {e : Expr}, e.Plain → e.depth ≤ k + 1 → DerivesIn k part (write e) e) {e : Expr}
    (h : e.Joined L) (hd : e.depth ≤ k + 1) : DerivesIn k level (e.joinedTokens write) e := by
  induction e with
  | concat l r padded ihl _ =>
    cases padded with
    | false => exact .first hp (hpart h hd)
    | true =>
      obtain ⟨hL, hl, hr⟩ := h
      rw [Expr.depth] at hd
      exact .joined hp (ihl hl (by omega)) (hjoin hL) (hpart hr (by omega))
  | _ => exact .first hp (hpart h hd)

theorem derivesIn_value {k : Nat} {e : Expr} (h : e.IsValue) (hd : e.depth ≤ k + 1) :
    DerivesIn k .value (e.joinedTokens Expr.tokens) e :=
  derivesIn_joinedTokens rfl .valueComma (fun he hd => (writes_tokens he hd).expression) h hd

theorem derivesIn_prompt {k : Nat} {e : Expr} (h : e.IsPrompt) (hd : e.depth ≤ k + 1) :
    DerivesIn k .prompt (e.joinedTokens Expr.operandTokens) e :=
  derivesIn_joinedTokens rfl (fun _ => .promptComma)
    (fun he hd => (writes_tokens he hd).operand.sum) h hd

end Grammar

/-! ## Statements -/

/-- The expressions as tokens, with commas between them. -/
def argumentTokens : List Expr → List Token
  | [] => []
  | [e] => e.tokens
  | e :: es => e.tokens ++ TokenKind.comma.token :: argumentTokens es

/-- The conversion of an input as tokens. -/
def castTokens : Option CastType → List Token
  | none => []
  | some type => [TokenKind.asWord.token, type.kind.token]

/-- Tokens between braces. -/
def braced (ts : List Token) : List Token :=
  TokenKind.leftBrace.token :: (ts ++ [TokenKind.rightBrace.token])

mutual

/-- The statement as tokens. -/
def Stmt.tokens : Stmt → List Token
  | .assignment target value =>
    .ofName target :: TokenKind.assign.token ::
      (value.joinedTokens Expr.tokens ++ [TokenKind.semicolon.token])
  | .input target prompt cast =>
    TokenKind.inWord.token :: (prompt.elim [] (·.joinedTokens Expr.operandTokens) ++
      TokenKind.greater.token :: .ofName target :: (castTokens cast ++ [TokenKind.semicolon.token]))
  | .print es => TokenKind.print.token :: (argumentTokens es ++ [TokenKind.semicolon.token])
  | .plot es => TokenKind.plot.token :: (argumentTokens es ++ [TokenKind.semicolon.token])
  | .ifThen c b =>
    TokenKind.ifWord.token :: TokenKind.leftParen.token ::
      (c.tokens ++ TokenKind.rightParen.token :: braced (Stmt.allTokens b))
  | .ifThenElse c b o =>
    TokenKind.ifWord.token :: TokenKind.leftParen.token ::
      (c.tokens ++ TokenKind.rightParen.token :: (braced (Stmt.allTokens b) ++
        TokenKind.elseWord.token :: braced (Stmt.allTokens o)))
  | .whileLoop c b =>
    TokenKind.whileWord.token :: TokenKind.leftParen.token ::
      (c.tokens ++ TokenKind.rightParen.token :: braced (Stmt.allTokens b))
termination_by structural s => s

/-- The statements as tokens. -/
def Stmt.allTokens : List Stmt → List Token
  | [] => []
  | s :: ss => s.tokens ++ Stmt.allTokens ss
termination_by structural ss => ss

end

namespace Grammar

theorem derivesIn_arguments {es : List Expr} {n : Nat} (hs : es ≠ [] ∧ ∀ e ∈ es, e.Plain)
    (hd : maxExprDepth es ≤ n) : DerivesArgumentsIn n n (argumentTokens es) es := by
  induction es with
  | nil => exact absurd rfl hs.1
  | cons e es ih =>
    rw [maxExprDepth] at hd
    have hfirst : e.depth ≤ n := (Nat.le_max_left _ _).trans hd
    obtain ⟨k, rfl⟩ := Nat.exists_eq_add_one.mpr (e.depth_pos.trans_le hfirst)
    obtain ⟨he, hes⟩ := List.forall_mem_cons.mp hs.2
    have hexpression := (writes_tokens he hfirst).expression
    cases es with
    | nil => exact .one hexpression le_rfl hfirst
    | cons f fs =>
      refine .cons hexpression le_rfl hfirst rfl ?_
      exact ih ⟨List.cons_ne_nil f fs, hes⟩ ((Nat.le_max_right _ _).trans hd)

theorem derivesCast_castTokens (cast : Option CastType) : DerivesCast (castTokens cast) cast := by
  cases cast with
  | none => exact .none
  | some type => exact .some type rfl rfl

mutual

/-- **The tokens of a statement derive it, and need less room than it is deep.** -/
theorem derivesIn_stmtTokens : ∀ {s : Stmt} {n : Nat}, s.Expressible →
    s.Shaped IsAsciiName IsNumeral → s.depth ≤ n + 1 → ∃ d ms, DerivesStmtIn n n d s.tokens s ms
  | .assignment target value, n, h, _, hd => by
    rw [Stmt.depth] at hd
    obtain ⟨k, rfl⟩ := Nat.exists_eq_add_one.mpr (value.depth_pos.trans_le (by omega : _ ≤ n))
    exact ⟨_, _, .assignment rfl rfl (derivesIn_value h.2 (by omega)) le_rfl (by omega) rfl⟩
  | .input target prompt cast, n, h, _, hd => by
    rw [Stmt.depth] at hd
    refine ⟨_, _, .input rfl ?_ rfl rfl (derivesCast_castTokens cast) rfl⟩
    cases prompt with
    | none => exact .none
    | some e =>
      have hd : 1 + e.depth ≤ n + 1 := hd
      exact .some (derivesIn_prompt (h.2 e rfl) (by omega)) (by omega)
  | .print es, n, h, hs, hd => by
    rw [Stmt.depth] at hd
    exact ⟨_, _, .print rfl (derivesIn_arguments ⟨hs.1, h⟩ (by omega)) rfl⟩
  | .plot es, n, h, hs, hd => by
    rw [Stmt.depth] at hd
    exact ⟨_, _, .plot rfl (derivesIn_arguments ⟨hs.1, h⟩ (by omega)) rfl⟩
  | .ifThen c b, n, h, hs, hd => by
    rw [Stmt.depth] at hd
    obtain ⟨k, rfl⟩ := Nat.exists_eq_add_one.mpr (c.depth_pos.trans_le (by omega : _ ≤ n))
    obtain ⟨ms, hb⟩ := derivesIn_allTokens h.2 hs.2 (by omega : maxStmtDepth b ≤ k + 1)
    have hc := (writes_tokens h.1 (by omega : c.depth ≤ k + 1)).expression
    exact ⟨_, _, .ifThen rfl rfl hc le_rfl (by omega) rfl (.braces rfl hb rfl)⟩
  | .ifThenElse c b o, n, h, hs, hd => by
    rw [Stmt.depth] at hd
    obtain ⟨k, rfl⟩ := Nat.exists_eq_add_one.mpr (c.depth_pos.trans_le (by omega : _ ≤ n))
    obtain ⟨ms, hb⟩ := derivesIn_allTokens h.2.1 hs.2.1 (by omega : maxStmtDepth b ≤ k + 1)
    obtain ⟨ns, ho⟩ := derivesIn_allTokens h.2.2 hs.2.2 (by omega : maxStmtDepth o ≤ k + 1)
    have hc := (writes_tokens h.1 (by omega : c.depth ≤ k + 1)).expression
    exact ⟨_, _, .ifThenElse rfl rfl hc le_rfl (by omega) rfl (.braces rfl hb rfl) rfl
      (.braces rfl ho rfl)⟩
  | .whileLoop c b, n, h, hs, hd => by
    rw [Stmt.depth] at hd
    obtain ⟨k, rfl⟩ := Nat.exists_eq_add_one.mpr (c.depth_pos.trans_le (by omega : _ ≤ n))
    obtain ⟨ms, hb⟩ := derivesIn_allTokens h.2 hs.2 (by omega : maxStmtDepth b ≤ k + 1)
    have hc := (writes_tokens h.1 (by omega : c.depth ≤ k + 1)).expression
    exact ⟨_, _, .whileLoop rfl rfl hc le_rfl (by omega) rfl (.braces rfl hb rfl)⟩

theorem derivesIn_allTokens : ∀ {ss : List Stmt} {n : Nat}, Stmt.AllExpressible ss →
    ss ≠ [] ∧ Stmt.AllShaped IsAsciiName IsNumeral ss → maxStmtDepth ss ≤ n + 1 →
    ∃ ms, DerivesStmtsIn n n (Stmt.allTokens ss) ss ms
  | [], _, _, hs, _ => absurd rfl hs.1
  | [s], n, h, hs, hd => by
    rw [maxStmtDepth] at hd
    obtain ⟨d, ms, hone⟩ := derivesIn_stmtTokens h.1 hs.2.1 (by omega : s.depth ≤ n + 1)
    rw [Stmt.allTokens, Stmt.allTokens, List.append_nil]
    exact ⟨ms, .one hone⟩
  | s :: t :: ss, n, h, hs, hd => by
    rw [maxStmtDepth] at hd
    obtain ⟨d, ms, hone⟩ := derivesIn_stmtTokens h.1 hs.2.1 (by omega : s.depth ≤ n + 1)
    have hrest : t :: ss ≠ [] ∧ Stmt.AllShaped IsAsciiName IsNumeral (t :: ss) :=
      ⟨List.cons_ne_nil t ss, hs.2.2⟩
    obtain ⟨ns, hmore⟩ := derivesIn_allTokens h.2 hrest (by omega : maxStmtDepth (t :: ss) ≤ n + 1)
    exact ⟨_, .cons hone hmore⟩

end

end Grammar

/-! ## The tokens are read back -/

/-- Each of the tokens is read back. -/
def AllPrinted (ts : List Token) : Prop :=
  ∀ t ∈ ts, t.Printed

@[simp] theorem allPrinted_nil : AllPrinted [] :=
  List.forall_mem_nil _

@[simp] theorem allPrinted_cons {t : Token} {ts : List Token} :
    AllPrinted (t :: ts) ↔ t.Printed ∧ AllPrinted ts :=
  List.forall_mem_cons

@[simp] theorem allPrinted_append {ts us : List Token} :
    AllPrinted (ts ++ us) ↔ AllPrinted ts ∧ AllPrinted us :=
  List.forall_mem_append

@[simp] theorem ArithOp.printed (op : ArithOp) : op.kind.token.Printed :=
  Token.printed_token (by cases op <;> decide)

@[simp] theorem CompareOp.printed (op : CompareOp) : op.kind.token.Printed :=
  Token.printed_token (by cases op <;> decide)

@[simp] theorem Domain.printed (domain : Domain) : domain.kind.token.Printed :=
  Token.printed_token (by cases domain <;> decide)

@[simp] theorem CastType.printed (type : CastType) : type.kind.token.Printed :=
  Token.printed_token (by cases type <;> decide)

@[simp] theorem allPrinted_parenthesised {ts : List Token} :
    AllPrinted (Expr.parenthesised ts) ↔ AllPrinted ts := by
  simp [Expr.parenthesised, Token.printed_token]

@[simp] theorem allPrinted_asOperand {e : Expr} {ts : List Token} :
    AllPrinted (e.asOperand ts) ↔ AllPrinted ts := by
  rw [Expr.asOperand]
  split
  · rfl
  · exact allPrinted_parenthesised

@[simp] theorem allPrinted_braced {ts : List Token} : AllPrinted (braced ts) ↔ AllPrinted ts := by
  simp [braced, Token.printed_token]

theorem Expr.allPrinted_tokens {e : Expr} (h : e.Plain) (hs : e.Shaped IsAsciiName IsNumeral) :
    AllPrinted e.tokens := by
  induction e with
  | number n => exact List.forall_mem_singleton.mpr (Token.printed_ofNumber hs)
  | text s => exact List.forall_mem_singleton.mpr (Token.printed_ofText h)
  | name n => exact List.forall_mem_singleton.mpr (Token.printed_ofName hs h)
  | binary l op r ihl ihr =>
    have hl := ihl h.1 hs.1
    have hr := ihr h.2.1 hs.2
    rw [tokens]
    split
    · simp [hl, hr, Token.printed_token]
    · split <;> simp [hl, hr]
  | comparison l op r ihl ihr => simp [tokens, ihl h.1 hs.1, ihr h.2 hs.2]
  | concat l r _ ihl ihr =>
    simp [tokens, ihl h.1 hs.1, ihr h.2.1 hs.2, Token.printed_token]
  | evaluation f e ih => simp [tokens, ih h.2 hs.2, Token.printed_ofName hs.1 h.1]
  | solve e domain ih => simp [tokens, ih h hs, Token.printed_token]
  | cast e type ih => simp [tokens, ih h hs, Token.printed_token]

theorem Expr.allPrinted_joinedTokens {L : Expr → Prop} {write : Expr → List Token}
    (hpart : ∀ {e : Expr}, e.Plain → e.Shaped IsAsciiName IsNumeral → AllPrinted (write e))
    {e : Expr} (h : e.Joined L) (hs : e.Shaped IsAsciiName IsNumeral) :
    AllPrinted (e.joinedTokens write) := by
  induction e with
  | concat l r padded ihl _ =>
    cases padded with
    | false => exact hpart h hs
    | true => simp [joinedTokens, ihl h.2.1 hs.1, hpart h.2.2 hs.2, Token.printed_token]
  | _ => exact hpart h hs

theorem allPrinted_argumentTokens {es : List Expr} (h : ∀ e ∈ es, e.Plain)
    (hs : ∀ e ∈ es, e.Shaped IsAsciiName IsNumeral) : AllPrinted (argumentTokens es) := by
  induction es with
  | nil => exact allPrinted_nil
  | cons e es ih =>
    obtain ⟨he, hes⟩ := List.forall_mem_cons.mp h
    obtain ⟨hse, hses⟩ := List.forall_mem_cons.mp hs
    have hfirst := Expr.allPrinted_tokens he hse
    cases es with
    | nil => exact hfirst
    | cons f fs => simp [argumentTokens, hfirst, ih hes hses, Token.printed_token]

theorem allPrinted_castTokens (cast : Option CastType) : AllPrinted (castTokens cast) := by
  cases cast <;> simp [castTokens, Token.printed_token]

mutual

theorem Stmt.allPrinted_tokens : ∀ {s : Stmt}, s.Expressible → s.Shaped IsAsciiName IsNumeral →
    AllPrinted s.tokens
  | .assignment target value, h, hs => by
    have hvalue := Expr.allPrinted_joinedTokens Expr.allPrinted_tokens h.2 hs.2
    simp [Stmt.tokens, hvalue, Token.printed_ofName hs.1 h.1, Token.printed_token]
  | .input target prompt cast, h, hs => by
    have hprompt : AllPrinted (prompt.elim [] (·.joinedTokens Expr.operandTokens)) := by
      cases prompt with
      | none => exact allPrinted_nil
      | some e =>
        refine Expr.allPrinted_joinedTokens (fun he hse => ?_) (h.2 e rfl) (hs.2 e rfl)
        exact allPrinted_asOperand.mpr (Expr.allPrinted_tokens he hse)
    simp [Stmt.tokens, hprompt, allPrinted_castTokens, Token.printed_ofName hs.1 h.1,
      Token.printed_token]
  | .print es, h, hs | .plot es, h, hs => by
    simp [Stmt.tokens, allPrinted_argumentTokens h hs.2, Token.printed_token]
  | .ifThen c b, h, hs | .whileLoop c b, h, hs => by
    simp [Stmt.tokens, Expr.allPrinted_tokens h.1 hs.1, Stmt.allPrinted_allTokens h.2 hs.2.2,
      Token.printed_token]
  | .ifThenElse c b o, h, hs => by
    simp [Stmt.tokens, Expr.allPrinted_tokens h.1 hs.1, Stmt.allPrinted_allTokens h.2.1 hs.2.1.2,
      Stmt.allPrinted_allTokens h.2.2 hs.2.2.2, Token.printed_token]

theorem Stmt.allPrinted_allTokens : ∀ {ss : List Stmt}, Stmt.AllExpressible ss →
    Stmt.AllShaped IsAsciiName IsNumeral ss → AllPrinted (Stmt.allTokens ss)
  | [], _, _ => allPrinted_nil
  | s :: ss, h, hs => by
    rw [Stmt.allTokens, allPrinted_append]
    exact ⟨Stmt.allPrinted_tokens h.1 hs.1, Stmt.allPrinted_allTokens h.2 hs.2⟩

end

/-! ## Programs -/

/-- The program as a text, with a space behind each token. -/
def Program.source (p : Program) : String :=
  String.ofList (spaced (Stmt.allTokens p.statements))

/-- **A program is read from what it is written as.** -/
theorem parse_source {p : Program} (h : p.Expressible) (hp : p.Admissible) :
    parse p.source = .ok ⟨p, p.declared⟩ := by
  obtain ⟨⟨hne, hs⟩, hdepth, names, hnames⟩ := hp
  have hlex : tokenize p.source = .ok (Stmt.allTokens p.statements) :=
    tokenize_spaced (Stmt.allPrinted_allTokens h hs)
  -- outside all blocks one level is taken already
  obtain ⟨ms, hd⟩ := Grammar.derivesIn_allTokens (n := maxDepth - 1) h ⟨hne, hs⟩ hdepth
  exact parse_of_room hlex hd (Nat.sub_le _ _) (by decide) hnames

end MathScript
