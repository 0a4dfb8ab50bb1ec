import MathScript.Proofs.Grammar.Derivation

/-!
# How deep nestings go

Derivations with a bound on how many nestings are open at one token.  Blocks,
parentheses and signs open one each; a `Toll` says what is charged for an exponent
and for a whole expression outside all parentheses.

* `DerivesStmts.opens`, `OpensStmts.derives`: **with a bound that is large enough this is
  the grammar**.
-/

namespace MathScript
namespace Grammar

/-- What is charged besides blocks, parentheses and signs. -/
structure Toll where
  /-- For an exponent. -/
  exponent : Nat
  /-- For a whole expression outside all parentheses. -/
  expression : Nat

/-- Nothing but blocks, parentheses and signs counts. -/
def Toll.free : Toll := ⟨0, 0⟩

/-- What a reading charges. -/
def Toll.reading : Toll := ⟨1, 1⟩

section Opens

variable (toll : Toll)

/-- The tokens derive the expression at the level with at most so many nestings open at
one token. -/
inductive Opens : Nat → Level → List Token → Expr → Prop
  | number {k : Nat} {t : Token} (ht : t.kind = .number) : Opens k .primary [t] (.number t.text)
  | text {k : Nat} {t : Token} (ht : t.kind = .stringLiteral) :
      Opens k .primary [t] (.text (unquote t.text))
  | name {k : Nat} {t : Token} (ht : t.kind = .identifier) : Opens k .primary [t] (.name t.text)
  | evaluation {k : Nat} {f lp rp : Token} {ts : List Token} {e : Expr}
      (hf : f.kind = .identifier) (hl : lp.kind = .leftParen)
      (he : Opens k .expression ts e) (hr : rp.kind = .rightParen) :
      Opens (k + 1) .primary (f :: lp :: (ts ++ [rp])) (.evaluation f.text e)
  | parentheses {k : Nat} {lp rp : Token} {ts : List Token} {e : Expr}
      (hl : lp.kind = .leftParen) (he : Opens k .expression ts e)
      (hr : rp.kind = .rightParen) : Opens (k + 1) .primary (lp :: (ts ++ [rp])) e
  | base {k : Nat} {ts : List Token} {e : Expr} (h : Opens k .primary ts e) : Opens k .power ts e
  | power {k : Nat} {t : Token} {ts us : List Token} {b e : Expr}
      (hb : Opens (k + toll.exponent) .primary ts b) (ht : t.kind = .caret)
      (he : Opens k .signed us e) :
      Opens (k + toll.exponent) .power (ts ++ t :: us) (.binary b .pow e)
  | unsigned {k : Nat} {ts : List Token} {e : Expr} (h : Opens k .power ts e) :
      Opens k .signed ts e
  | plus {k : Nat} {t : Token} {ts : List Token} {e : Expr} (ht : t.kind = .plus)
      (h : Opens k .signed ts e) : Opens (k + 1) .signed (t :: ts) (.binary (.number "0") .add e)
  | minus {k : Nat} {t : Token} {ts : List Token} {e : Expr} (ht : t.kind = .minus)
      (h : Opens k .signed ts e) : Opens (k + 1) .signed (t :: ts) (.binary (.number "0") .sub e)
  | first {k : Nat} {level part : Level} {ts : List Token} {e : Expr}
      (hp : level.part? = some part) (h : Opens k part ts e) : Opens k level ts e
  | joined {k : Nat} {level part : Level} {t : Token} {ts us : List Token} {l r e : Expr}
      (hp : level.part? = some part) (hl : Opens k level ts l)
      (hj : Joins level t.kind l r e) (hr : Opens k part us r) : Opens k level (ts ++ t :: us) e
  | compared {k : Nat} {ts : List Token} {e : Expr} (h : Opens k .comparison ts e) :
      Opens k .convertible ts e
  | solvedIn {k : Nat} {s w d : Token} {ts : List Token} {e : Expr}
      (domain : Domain) (hs : s.kind = .solve) (he : Opens k .sum ts e)
      (hw : w.kind = .inWord ∨ w.kind = .asWord) (hd : d.kind = domain.kind) :
      Opens k .convertible (s :: (ts ++ [w, d])) (.solve e domain)
  | solved {k : Nat} {s : Token} {ts : List Token} {e : Expr}
      (hs : s.kind = .solve) (he : Opens k .sum ts e) :
      Opens k .expression (s :: ts) (.solve e .standard)
  | plain {k : Nat} {ts : List Token} {e : Expr} (h : Opens k .convertible ts e) :
      Opens k .expression ts e
  | converted {k : Nat} {w d : Token} {ts : List Token} {e : Expr}
      (type : CastType) (he : Opens k .convertible ts e)
      (hw : w.kind = .asWord) (hd : d.kind = type.kind) :
      Opens k .expression (ts ++ [w, d]) (.cast e type)

/-- The same for expressions between commas, each of them whole. -/
inductive OpensArguments : Nat → List Token → List Expr → Prop
  | one {k n : Nat} {ts : List Token} {e : Expr} (he : Opens toll k .expression ts e)
      (hn : k + toll.expression ≤ n) : OpensArguments n ts [e]
  | cons {k n : Nat} {t : Token} {ts us : List Token} {e : Expr} {es : List Expr}
      (he : Opens toll k .expression ts e) (hn : k + toll.expression ≤ n) (ht : t.kind = .comma)
      (hs : OpensArguments n us es) : OpensArguments n (ts ++ t :: us) (e :: es)

/-- The same for a prompt, or there is none.  No part of it is a whole expression. -/
inductive OpensPrompt : Nat → List Token → Option Expr → Prop
  | none {n : Nat} : OpensPrompt n [] none
  | some {n : Nat} {ts : List Token} {e : Expr} (h : Opens toll n .prompt ts e) :
      OpensPrompt n ts (some e)

mutual

/-- The tokens derive the statement with at most so many nestings open at one token. -/
inductive OpensStmt : Nat → Bool → List Token → Stmt → List (Mention Token) → Prop
  | assignment {k n : Nat} {target eq semi : Token} {ts : List Token} {e : Expr}
      (hi : target.kind = .identifier) (ha : eq.kind = .assign) (he : Opens toll k .value ts e)
      (hn : k + toll.expression ≤ n) (hs : semi.kind = .semicolon) :
      OpensStmt n false (target :: eq :: (ts ++ [semi])) (.assignment target.text e)
        (readsOf ts ++ [.declare target])
  | input {n : Nat} {w gt target semi : Token} {ts us : List Token} {prompt : Option Expr}
      {cast : Option CastType} (hw : w.kind = .inWord) (hp : OpensPrompt toll n ts prompt)
      (hg : gt.kind = .greater) (hi : target.kind = .identifier)
      (hc : DerivesCast us cast) (hs : semi.kind = .semicolon) :
      OpensStmt n false (w :: (ts ++ gt :: target :: (us ++ [semi])))
        (.input target.text prompt cast) (readsOf ts ++ [.declare target])
  | print {n : Nat} {w semi : Token} {ts : List Token} {es : List Expr}
      (hw : w.kind = .print) (h : OpensArguments toll n ts es) (hs : semi.kind = .semicolon) :
      OpensStmt n false (w :: (ts ++ [semi])) (.print es) (readsOf ts)
  | plot {n : Nat} {w semi : Token} {ts : List Token} {es : List Expr}
      (hw : w.kind = .plot) (h : OpensArguments toll n ts es) (hs : semi.kind = .semicolon) :
      OpensStmt n false (w :: (ts ++ [semi])) (.plot es) (readsOf ts)
  | ifThen {k n : Nat} {w lp rp : Token} {ts us : List Token} {c : Expr} {b : List Stmt}
      {ms : List (Mention Token)} {d : Bool} (hw : w.kind = .ifWord) (hl : lp.kind = .leftParen)
      (hc : Opens toll k .expression ts c) (hn : k + toll.expression ≤ n)
      (hr : rp.kind = .rightParen) (hb : OpensBlock n d us b ms) :
      OpensStmt n true (w :: lp :: (ts ++ rp :: us)) (.ifThen c b) (readsOf ts ++ ms)
  | ifThenElse {k n : Nat} {w lp rp el : Token} {ts us vs : List Token} {c : Expr}
      {b o : List Stmt} {ms ns : List (Mention Token)} {d : Bool} (hw : w.kind = .ifWord)
      (hl : lp.kind = .leftParen) (hc : Opens toll k .expression ts c)
      (hn : k + toll.expression ≤ n) (hr : rp.kind = .rightParen)
      (hb : OpensBlock n false us b ms) (he : el.kind = .elseWord) (ho : OpensBlock n d vs o ns) :
      OpensStmt n d (w :: lp :: (ts ++ rp :: (us ++ el :: vs))) (.ifThenElse c b o)
        (readsOf ts ++ (ms ++ ns))
  | whileLoop {k n : Nat} {w lp rp : Token} {ts us : List Token} {c : Expr} {b : List Stmt}
      {ms : List (Mention Token)} {d : Bool} (hw : w.kind = .whileWord)
      (hl : lp.kind = .leftParen) (hc : Opens toll k .expression ts c)
      (hn : k + toll.expression ≤ n) (hr : rp.kind = .rightParen) (hb : OpensBlock n d us b ms) :
      OpensStmt n d (w :: lp :: (ts ++ rp :: us)) (.whileLoop c b) (readsOf ts ++ ms)

/-- The same for a block, which is one of the nestings itself. -/
inductive OpensBlock : Nat → Bool → List Token → List Stmt → List (Mention Token) → Prop
  | single {n : Nat} {ts : List Token} {s : Stmt} {ms : List (Mention Token)} {d : Bool}
      (h : OpensStmt n d ts s ms) : OpensBlock (n + 1) d ts [s] ms
  | braces {n : Nat} {lb rb : Token} {ts : List Token} {ss : List Stmt} {ms : List (Mention Token)}
      (hl : lb.kind = .leftBrace) (h : OpensStmts n ts ss ms)
      (hr : rb.kind = .rightBrace) : OpensBlock (n + 1) false (lb :: (ts ++ [rb])) ss ms

/-- The same for statements, one after the other. -/
inductive OpensStmts : Nat → List Token → List Stmt → List (Mention Token) → Prop
  | one {n : Nat} {ts : List Token} {s : Stmt} {ms : List (Mention Token)} {d : Bool}
      (h : OpensStmt n d ts s ms) : OpensStmts n ts [s] ms
  | cons {n : Nat} {ts us : List Token} {s : Stmt} {ss : List Stmt} {ms ns : List (Mention Token)}
      {d : Bool} (h : OpensStmt n d ts s ms) (hs : OpensStmts n us ss ns) :
      OpensStmts n (ts ++ us) (s :: ss) (ms ++ ns)

end

end Opens

variable {toll : Toll} {level : Level} {ts : List Token} {e : Expr} {es : List Expr}

/-! ## What is counted derives -/

theorem Opens.derives {k : Nat} (h : Opens toll k level ts e) : Derives level ts e := by
  induction h with
  | number ht => exact .number ht
  | text ht => exact .text ht
  | name ht => exact .name ht
  | evaluation hf hl _ hr ih => exact .evaluation hf hl ih hr
  | parentheses hl _ hr ih => exact .parentheses hl ih hr
  | base _ ih => exact .base ih
  | power _ ht _ ihb ihe => exact .power ihb ht ihe
  | unsigned _ ih => exact .unsigned ih
  | plus ht _ ih => exact .plus ht ih
  | minus ht _ ih => exact .minus ht ih
  | first hp _ ih => exact .first hp ih
  | joined hp _ hj _ ihl ihr => exact .joined hp ihl hj ihr
  | compared _ ih => exact .compared ih
  | solvedIn domain hs _ hw hd ih => exact .solvedIn domain hs ih hw hd
  | solved hs _ ih => exact .solved hs ih
  | plain _ ih => exact .plain ih
  | converted type _ hw hd ih => exact .converted type ih hw hd

theorem OpensArguments.derives {n : Nat} (h : OpensArguments toll n ts es) :
    DerivesArguments ts es := by
  induction h with
  | one he _ => exact .one he.derives
  | cons he _ ht _ ih => exact .cons he.derives ht ih

theorem OpensPrompt.derives {n : Nat} {prompt : Option Expr} (h : OpensPrompt toll n ts prompt) :
    DerivesPrompt ts prompt := by
  cases h with
  | none => exact .none
  | some h => exact .some h.derives

mutual

theorem OpensStmt.derives : ∀ {n : Nat} {d : Bool} {ts : List Token} {s : Stmt}
    {ms : List (Mention Token)}, OpensStmt toll n d ts s ms → DerivesStmt d ts s ms
  | _, _, _, _, _, .assignment hi ha he _ hs => .assignment hi ha he.derives hs
  | _, _, _, _, _, .input hw hp hg hi hc hs => .input hw hp.derives hg hi hc hs
  | _, _, _, _, _, .print hw h hs => .print hw h.derives hs
  | _, _, _, _, _, .plot hw h hs => .plot hw h.derives hs
  | _, _, _, _, _, .ifThen hw hl hc _ hr hb => .ifThen hw hl hc.derives hr hb.derives
  | _, _, _, _, _, .ifThenElse hw hl hc _ hr hb he ho =>
    .ifThenElse hw hl hc.derives hr hb.derives he ho.derives
  | _, _, _, _, _, .whileLoop hw hl hc _ hr hb => .whileLoop hw hl hc.derives hr hb.derives

theorem OpensBlock.derives : ∀ {n : Nat} {d : Bool} {ts : List Token} {ss : List Stmt}
    {ms : List (Mention Token)}, OpensBlock toll n d ts ss ms → DerivesBlock d ts ss ms
  | _, _, _, _, _, .single h => .single h.derives
  | _, _, _, _, _, .braces hl h hr => .braces hl h.derives hr

theorem OpensStmts.derives : ∀ {n : Nat} {ts : List Token} {ss : List Stmt}
    {ms : List (Mention Token)}, OpensStmts toll n ts ss ms → DerivesStmts ts ss ms
  | _, _, _, _, .one h => .one h.derives
  | _, _, _, _, .cons h hs => .cons h.derives hs.derives

end

/-! ## A larger bound -/

theorem Opens.mono {k k' : Nat} (h : Opens toll k level ts e) (hk : k ≤ k') :
    Opens toll k' level ts e := by
  induction h generalizing k' with
  | number ht => exact .number ht
  | text ht => exact .text ht
  | name ht => exact .name ht
  | evaluation hf hl _ hr ih =>
    obtain ⟨j, rfl⟩ := Nat.exists_eq_add_of_le' hk
    exact .evaluation hf hl (ih (Nat.le_add_left _ j)) hr
  | parentheses hl _ hr ih =>
    obtain ⟨j, rfl⟩ := Nat.exists_eq_add_of_le' hk
    exact .parentheses hl (ih (Nat.le_add_left _ j)) hr
  | base _ ih => exact .base (ih hk)
  | @power k _ _ _ _ _ _ ht _ ihb ihe =>
    obtain ⟨j, rfl⟩ := Nat.exists_eq_add_of_le hk
    rw [Nat.add_right_comm] at hk ⊢
    exact .power (ihb hk) ht (ihe (Nat.le_add_right _ _))
  | unsigned _ ih => exact .unsigned (ih hk)
  | plus ht _ ih =>
    obtain ⟨j, rfl⟩ := Nat.exists_eq_add_of_le' hk
    exact .plus ht (ih (Nat.le_add_left _ j))
  | minus ht _ ih =>
    obtain ⟨j, rfl⟩ := Nat.exists_eq_add_of_le' hk
    exact .minus ht (ih (Nat.le_add_left _ j))
  | first hp _ ih => exact .first hp (ih hk)
  | joined hp _ hj _ ihl ihr => exact .joined hp (ihl hk) hj (ihr hk)
  | compared _ ih => exact .compared (ih hk)
  | solvedIn domain hs _ hw hd ih => exact .solvedIn domain hs (ih hk) hw hd
  | solved hs _ ih => exact .solved hs (ih hk)
  | plain _ ih => exact .plain (ih hk)
  | converted type _ hw hd ih => exact .converted type (ih hk) hw hd

theorem OpensArguments.mono {n n' : Nat} (h : OpensArguments toll n ts es) (hn' : n ≤ n') :
    OpensArguments toll n' ts es := by
  induction h with
  | one he hn => exact .one he (hn.trans hn')
  | cons he hn ht _ ih => exact .cons he (hn.trans hn') ht (ih hn')

theorem OpensPrompt.mono {n n' : Nat} {prompt : Option Expr} (h : OpensPrompt toll n ts prompt)
    (hn : n ≤ n') : OpensPrompt toll n' ts prompt := by
  cases h with
  | none => exact .none
  | some h => exact .some (h.mono hn)

mutual

theorem OpensStmt.mono : ∀ {n n' : Nat} {d : Bool} {ts : List Token} {s : Stmt}
    {ms : List (Mention Token)}, OpensStmt toll n d ts s ms → n ≤ n' → OpensStmt toll n' d ts s ms
  | _, _, _, _, _, _, .assignment hi ha he hn hs, hk => .assignment hi ha he (hn.trans hk) hs
  | _, _, _, _, _, _, .input hw hp hg hi hc hs, hk => .input hw (hp.mono hk) hg hi hc hs
  | _, _, _, _, _, _, .print hw h hs, hk => .print hw (h.mono hk) hs
  | _, _, _, _, _, _, .plot hw h hs, hk => .plot hw (h.mono hk) hs
  | _, _, _, _, _, _, .ifThen hw hl hc hn hr hb, hk =>
    .ifThen hw hl hc (hn.trans hk) hr (hb.mono hk)
  | _, _, _, _, _, _, .ifThenElse hw hl hc hn hr hb he ho, hk =>
    .ifThenElse hw hl hc (hn.trans hk) hr (hb.mono hk) he (ho.mono hk)
  | _, _, _, _, _, _, .whileLoop hw hl hc hn hr hb, hk =>
    .whileLoop hw hl hc (hn.trans hk) hr (hb.mono hk)

theorem OpensBlock.mono : ∀ {n n' : Nat} {d : Bool} {ts : List Token} {ss : List Stmt}
    {ms : List (Mention Token)},
    OpensBlock toll n d ts ss ms → n ≤ n' → OpensBlock toll n' d ts ss ms
  | _, _, _, _, _, _, .single h, hk => by
    obtain ⟨j, rfl⟩ := Nat.exists_eq_add_of_le' hk
    exact .single (h.mono (Nat.le_add_left _ j))
  | _, _, _, _, _, _, .braces hl h hr, hk => by
    obtain ⟨j, rfl⟩ := Nat.exists_eq_add_of_le' hk
    exact .braces hl (h.mono (Nat.le_add_left _ j)) hr

theorem OpensStmts.mono : ∀ {n n' : Nat} {ts : List Token} {ss : List Stmt}
    {ms : List (Mention Token)}, OpensStmts toll n ts ss ms → n ≤ n' → OpensStmts toll n' ts ss ms
  | _, _, _, _, _, .one h, hk => .one (h.mono hk)
  | _, _, _, _, _, .cons h hs, hk => .cons (h.mono hk) (hs.mono hk)

end

/-! ## What derives is counted -/

/-- **Every derivation has a bound.** -/
theorem Derives.opens (toll : Toll) (h : Derives level ts e) : ∃ k, Opens toll k level ts e := by
  -- a rule over two expressions opens the nestings of both, one after the other
  have hleft : ∀ {i j : Nat}, i ≤ max i j := Nat.le_max_left _ _
  have hright : ∀ {i j : Nat}, j ≤ max i j := Nat.le_max_right _ _
  induction h with
  | number ht => exact ⟨0, .number ht⟩
  | text ht => exact ⟨0, .text ht⟩
  | name ht => exact ⟨0, .name ht⟩
  | evaluation hf hl _ hr ih => exact ih.imp' _ fun _ h => .evaluation hf hl h hr
  | parentheses hl _ hr ih => exact ih.imp' _ fun _ h => .parentheses hl h hr
  | base _ ih => exact ih.imp fun _ h => h.base
  | power _ ht _ ihb ihe =>
    obtain ⟨i, hb⟩ := ihb
    obtain ⟨j, he⟩ := ihe
    exact ⟨_, .power (hb.mono (hleft.trans (Nat.le_add_right _ _))) ht (he.mono hright)⟩
  | unsigned _ ih => exact ih.imp fun _ h => h.unsigned
  | plus ht _ ih => exact ih.imp' _ fun _ h => .plus ht h
  | minus ht _ ih => exact ih.imp' _ fun _ h => .minus ht h
  | first hp _ ih => exact ih.imp fun _ h => .first hp h
  | joined hp _ hj _ ihl ihr =>
    obtain ⟨i, hl⟩ := ihl
    obtain ⟨j, hr⟩ := ihr
    exact ⟨_, .joined hp (hl.mono hleft) hj (hr.mono hright)⟩
  | compared _ ih => exact ih.imp fun _ h => h.compared
  | solvedIn domain hs _ hw hd ih => exact ih.imp fun _ h => .solvedIn domain hs h hw hd
  | solved hs _ ih => exact ih.imp fun _ h => .solved hs h
  | plain _ ih => exact ih.imp fun _ h => h.plain
  | converted type _ hw hd ih => exact ih.imp fun _ h => .converted type h hw hd

theorem DerivesArguments.opens (toll : Toll) (h : DerivesArguments ts es) :
    ∃ n, OpensArguments toll n ts es := by
  induction h with
  | one he =>
    obtain ⟨k, he⟩ := he.opens toll
    exact ⟨_, .one he le_rfl⟩
  | cons he ht _ ih =>
    obtain ⟨k, he⟩ := he.opens toll
    obtain ⟨n, hs⟩ := ih
    exact ⟨_, .cons he (Nat.le_max_left _ n) ht (hs.mono (Nat.le_max_right _ _))⟩

theorem DerivesPrompt.opens (toll : Toll) {prompt : Option Expr} (h : DerivesPrompt ts prompt) :
    ∃ n, OpensPrompt toll n ts prompt := by
  cases h with
  | none => exact ⟨0, .none⟩
  | some h => exact (h.opens toll).imp fun _ h => .some h

mutual

theorem DerivesStmt.opens (toll : Toll) : ∀ {d : Bool} {ts : List Token} {s : Stmt}
    {ms : List (Mention Token)}, DerivesStmt d ts s ms → ∃ n, OpensStmt toll n d ts s ms
  | _, _, _, _, .assignment hi ha he hs =>
    (he.opens toll).imp' _ fun _ he => .assignment hi ha he le_rfl hs
  | _, _, _, _, .input hw hp hg hi hc hs =>
    (hp.opens toll).imp fun _ hp => .input hw hp hg hi hc hs
  | _, _, _, _, .print hw h hs => (h.opens toll).imp fun _ h => .print hw h hs
  | _, _, _, _, .plot hw h hs => (h.opens toll).imp fun _ h => .plot hw h hs
  | _, _, _, _, .ifThen hw hl hc hr hb => by
    obtain ⟨k, hc⟩ := hc.opens toll
    obtain ⟨n, hb⟩ := hb.opens toll
    exact ⟨_, .ifThen hw hl hc (Nat.le_max_left _ n) hr (hb.mono (Nat.le_max_right _ _))⟩
  | _, _, _, _, .ifThenElse hw hl hc hr hb he ho => by
    obtain ⟨k, hc⟩ := hc.opens toll
    obtain ⟨n, hb⟩ := hb.opens toll
    obtain ⟨n', ho⟩ := ho.opens toll
    exact ⟨max (k + toll.expression) (max n n'), .ifThenElse hw hl hc (by omega) hr
      (hb.mono (by omega)) he (ho.mono (by omega))⟩
  | _, _, _, _, .whileLoop hw hl hc hr hb => by
    obtain ⟨k, hc⟩ := hc.opens toll
    obtain ⟨n, hb⟩ := hb.opens toll
    exact ⟨_, .whileLoop hw hl hc (Nat.le_max_left _ n) hr (hb.mono (Nat.le_max_right _ _))⟩

theorem DerivesBlock.opens (toll : Toll) : ∀ {d : Bool} {ts : List Token} {ss : List Stmt}
    {ms : List (Mention Token)}, DerivesBlock d ts ss ms → ∃ n, OpensBlock toll n d ts ss ms
  | _, _, _, _, .single h => (h.opens toll).imp' _ fun _ h => .single h
  | _, _, _, _, .braces hl h hr => (h.opens toll).imp' _ fun _ h => .braces hl h hr

theorem DerivesStmts.opens (toll : Toll) : ∀ {ts : List Token} {ss : List Stmt}
    {ms : List (Mention Token)}, DerivesStmts ts ss ms → ∃ n, OpensStmts toll n ts ss ms
  | _, _, _, .one h => (h.opens toll).imp fun _ h => .one h
  | _, _, _, .cons h hs => by
    obtain ⟨n, h⟩ := h.opens toll
    obtain ⟨n', hs⟩ := hs.opens toll
    exact ⟨_, .cons (h.mono (Nat.le_max_left _ n')) (hs.mono (Nat.le_max_right _ _))⟩

end

end Grammar
end MathScript
