import MathScript.Proofs.Grammar.Typing
import MathScript.Proofs.Program.Occurrence

/-!
# Where strings are joined

Joints of strings are chosen by the operands, and parentheses move any operand anywhere.  So
what a joint is like is said of each node of each expression of a program, by its place.

* `HasSign`: among the tokens, a plus in front of an operand is a sign.
* `Derives.sign_of_add`: **an addition with a string in it is a sign**.
* `joint_of_parse`: **the joints in a program that is read**, by place and by role.
-/

namespace MathScript

/-- An operand can end with a token of the kind, so that an operator can follow. -/
def TokenKind.endsOperand : TokenKind → Bool
  | number | stringLiteral | identifier | rightParen => true
  | integer | rational | real | complex | string => true
  | _ => false

namespace Grammar

/-! ## Signs -/

/-- Among the tokens, a plus stands in front of an operand that derives the expression, and
behind a token that ends no operand: the plus is a sign. -/
def HasSign (tokens : List Token) (e : Expr) : Prop :=
  ∃ t plus operand, t :: plus :: operand <:+: tokens ∧ t.kind.endsOperand = false ∧
    plus.kind = .plus ∧ Derives .signed operand e

theorem HasSign.mono {ts us : List Token} {e : Expr} (h : HasSign ts e) (hts : ts <:+: us) :
    HasSign us e := by
  obtain ⟨t, plus, operand, hinfix, hsign⟩ := h
  exact ⟨t, plus, operand, hinfix.trans hts, hsign⟩

section Joins

variable {level : Level} {k : TokenKind} {l r e : Expr}

theorem Joins.parts_eq (h : Joins level k l r e) : e.parts = [l, r] := by
  cases h <;> rfl

theorem Joins.not_endsOperand (h : Joins level k l r e) : k.endsOperand = false := by
  cases h with
  | compare op => cases op <;> rfl
  | _ => rfl

/-- Beside a string, `+` does not add. -/
theorem Joins.not_string_of_add {a b : Expr} (h : Joins level k l r (.binary a .add b)) :
    a.isString = false ∧ b.isString = false := by
  cases h with
  | add hl hr => exact ⟨hl, hr⟩

end Joins

/-- The 0 of a sign has no operation in it, so what is inside is inside the operand. -/
theorem operand_of_sign {e l r part : Expr} {op : ArithOp}
    (hpart : part ∈ [.number "0", e]) (hin : part.HasNode (.binary l op r)) : part = e := by
  rcases List.mem_pair.mp hpart with rfl | rfl
  · obtain ⟨_, hnone, -⟩ := hin.of_ne nofun
    cases hnone
  · rfl

/-- **An addition with a string in it is a sign.** -/
theorem Derives.sign_of_add {level : Level} {ts : List Token} {e : Expr} (h : Derives level ts e)
    {l r : Expr} (hn : e.HasNode (.binary l .add r))
    (hs : l.isString = true ∨ r.isString = true) {t : Token} (ht : t.kind.endsOperand = false) :
    l = .number "0" ∧ HasSign (t :: ts) r := by
  -- the induction is on the derivation; `t` is the token in front of the one at hand
  induction h generalizing t with
  | number _ | text _ | name _ =>
    obtain ⟨_, hpart, -⟩ := hn.of_ne nofun
    cases hpart
  | @evaluation f lp rp ts e hf hl _ hr ih =>
    obtain ⟨_, hpart, hin⟩ := hn.of_ne nofun
    obtain rfl := List.mem_singleton.mp hpart
    have hfront : lp.kind.endsOperand = false := by rw [hl]; rfl
    exact (ih hin hfront).imp_right fun h => h.mono ⟨[t, f], [rp], by simp⟩
  | @parentheses lp rp ts e hl _ hr ih =>
    have hfront : lp.kind.endsOperand = false := by rw [hl]; rfl
    exact (ih hn hfront).imp_right fun h => h.mono ⟨[t], [rp], by simp⟩
  | @power caret ts us b e _ hcaret _ ihb ihe =>
    obtain ⟨_, hpart, hin⟩ := hn.of_ne nofun
    rcases List.mem_pair.mp hpart with rfl | rfl
    · exact (ihb hin ht).imp_right fun h => h.mono ⟨[], caret :: us, by simp⟩
    · have hfront : caret.kind.endsOperand = false := by rw [hcaret]; rfl
      exact (ihe hin hfront).imp_right fun h => h.mono ⟨t :: ts, [], by simp⟩
  | @plus plus ts e hplus he ih =>
    rcases hn.root_or_part with hroot | ⟨_, hpart, hin⟩
    · cases hroot
      exact ⟨rfl, t, plus, ts, List.infix_rfl, ht, hplus, he⟩
    · have hfront : plus.kind.endsOperand = false := by rw [hplus]; rfl
      obtain rfl := operand_of_sign hpart hin
      exact (ih hin hfront).imp_right fun h => h.mono ⟨[t], [], by simp⟩
  | @minus minus ts e hminus _ ih =>
    obtain ⟨_, hpart, hin⟩ := hn.of_ne nofun
    have hfront : minus.kind.endsOperand = false := by rw [hminus]; rfl
    obtain rfl := operand_of_sign hpart hin
    exact (ih hin hfront).imp_right fun h => h.mono ⟨[t], [], by simp⟩
  | @joined level part op ts us l' r' e _ _ hj _ ihl ihr =>
    rcases hn.root_or_part with rfl | ⟨_, hpart, hin⟩
    · obtain ⟨hl, hr⟩ := hj.not_string_of_add
      rw [hl, hr] at hs
      simp at hs
    · rw [hj.parts_eq] at hpart
      rcases List.mem_pair.mp hpart with rfl | rfl
      · exact (ihl hin ht).imp_right fun h => h.mono ⟨[], op :: us, by simp⟩
      · exact (ihr hin hj.not_endsOperand).imp_right fun h => h.mono ⟨t :: ts, [], by simp⟩
  | @solvedIn s w d ts e domain hsolve _ _ _ ih =>
    obtain ⟨_, hpart, hin⟩ := hn.of_ne nofun
    obtain rfl := List.mem_singleton.mp hpart
    have hfront : s.kind.endsOperand = false := by rw [hsolve]; rfl
    exact (ih hin hfront).imp_right fun h => h.mono ⟨[t], [w, d], by simp⟩
  | @solved s ts e hsolve _ ih =>
    obtain ⟨_, hpart, hin⟩ := hn.of_ne nofun
    obtain rfl := List.mem_singleton.mp hpart
    have hfront : s.kind.endsOperand = false := by rw [hsolve]; rfl
    exact (ih hin hfront).imp_right fun h => h.mono ⟨[t], [], by simp⟩
  | @converted w d ts e type _ _ _ ih =>
    obtain ⟨_, hpart, hin⟩ := hn.of_ne nofun
    obtain rfl := List.mem_singleton.mp hpart
    exact (ih hin ht).imp_right fun h => h.mono ⟨[], [w, d], by simp⟩
  | base _ ih | unsigned _ ih | first _ _ ih | compared _ ih | plain _ ih => exact ih hn ht

/-! ## The expressions of a program among its tokens -/

/-- Among the tokens, behind one that ends no operand, stand some that derive the
expression. -/
def Stands (tokens : List Token) (e : Expr) : Prop :=
  ∃ t ts level, t :: ts <:+: tokens ∧ t.kind.endsOperand = false ∧ Derives level ts e

theorem Stands.mono {ts us : List Token} {e : Expr} (h : Stands ts e) (hts : ts <:+: us) :
    Stands us e := by
  obtain ⟨t, vs, level, hinfix, hstands⟩ := h
  exact ⟨t, vs, level, hinfix.trans hts, hstands⟩

theorem DerivesArguments.stands {ts : List Token} {es : List Expr} (h : DerivesArguments ts es)
    {t : Token} (ht : t.kind.endsOperand = false) : ∀ e ∈ es, Stands (t :: ts) e := by
  induction h generalizing t with
  | one h =>
    intro e he
    obtain rfl := List.mem_singleton.mp he
    exact ⟨t, _, _, List.infix_rfl, ht, h⟩
  | @cons comma ts us e es h hcomma _ ih =>
    have hfront : comma.kind.endsOperand = false := by rw [hcomma]; rfl
    refine List.forall_mem_cons.mpr ⟨⟨t, ts, _, ⟨[], comma :: us, by simp⟩, ht, h⟩, ?_⟩
    intro e he
    exact (ih hfront e he).mono ⟨t :: ts, [], by simp⟩

variable {role : Role} {e : Expr}

mutual

/-- **Each expression of a statement stands among its tokens.** -/
theorem DerivesStmt.stands : ∀ {d : Bool} {ts : List Token} {s : Stmt}
    {ms : List (Mention Token)}, DerivesStmt d ts s ms → (role, e) ∈ s.expressions → Stands ts e
  | _, _, _, _, @DerivesStmt.assignment target eq semi ts _ _ ha h _, he => by
    cases List.mem_singleton.mp he
    exact ⟨eq, ts, _, ⟨[target], [semi], by simp⟩, by rw [ha]; rfl, h⟩
  | _, _, _, _, @DerivesStmt.input w gt target semi ts us _ _ hw hp _ _ _ _, he => by
    cases hp with
    | none => cases he
    | some h =>
      cases List.mem_singleton.mp he
      exact ⟨w, ts, _, ⟨[], gt :: target :: (us ++ [semi]), by simp⟩, by rw [hw]; rfl, h⟩
  | _, _, _, _, @DerivesStmt.print w semi ts _ hw h _, he => by
    obtain ⟨e, hmem, heq⟩ := List.mem_map.mp he
    cases heq
    exact (h.stands (by rw [hw]; rfl) e hmem).mono ⟨[], [semi], by simp⟩
  | _, _, _, _, @DerivesStmt.plot w semi ts _ hw h _, he => by
    obtain ⟨e, hmem, heq⟩ := List.mem_map.mp he
    cases heq
    exact (h.stands (by rw [hw]; rfl) e hmem).mono ⟨[], [semi], by simp⟩
  | _, _, _, _, @DerivesStmt.ifThen w lp rp ts us _ _ _ _ _ hl hc _ hb, he => by
    rcases List.mem_cons.mp he with heq | he
    · cases heq
      exact ⟨lp, ts, _, ⟨[w], rp :: us, by simp⟩, by rw [hl]; rfl, hc⟩
    · exact (hb.stands he).mono ⟨w :: lp :: (ts ++ [rp]), [], by simp⟩
  | _, _, _, _, @DerivesStmt.ifThenElse w lp rp el ts us vs _ _ _ _ _ _ _ hl hc _ hb _ ho,
      he => by
    rcases List.mem_cons.mp he with heq | he
    · cases heq
      exact ⟨lp, ts, _, ⟨[w], rp :: (us ++ el :: vs), by simp⟩, by rw [hl]; rfl, hc⟩
    · rcases List.mem_append.mp he with he | he
      · exact (hb.stands he).mono ⟨w :: lp :: (ts ++ [rp]), el :: vs, by simp⟩
      · exact (ho.stands he).mono ⟨w :: lp :: (ts ++ rp :: us ++ [el]), [], by simp⟩
  | _, _, _, _, @DerivesStmt.whileLoop w lp rp ts us _ _ _ _ _ hl hc _ hb, he => by
    rcases List.mem_cons.mp he with heq | he
    · cases heq
      exact ⟨lp, ts, _, ⟨[w], rp :: us, by simp⟩, by rw [hl]; rfl, hc⟩
    · exact (hb.stands he).mono ⟨w :: lp :: (ts ++ [rp]), [], by simp⟩

theorem DerivesBlock.stands : ∀ {d : Bool} {ts : List Token} {ss : List Stmt}
    {ms : List (Mention Token)}, DerivesBlock d ts ss ms → (role, e) ∈ Stmt.expressionsOf ss →
    Stands ts e
  | _, _, _, _, .single h, he => by
    rcases List.mem_append.mp he with he | he
    · exact h.stands he
    · cases he
  | _, _, _, _, @DerivesBlock.braces lb rb ts _ _ _ h _, he =>
    (h.stands he).mono ⟨[lb], [rb], by simp⟩

theorem DerivesStmts.stands : ∀ {ts : List Token} {ss : List Stmt}
    {ms : List (Mention Token)}, DerivesStmts ts ss ms → (role, e) ∈ Stmt.expressionsOf ss →
    Stands ts e
  | _, _, _, .one h, he => by
    rcases List.mem_append.mp he with he | he
    · exact h.stands he
    · cases he
  | _, _, _, @DerivesStmts.cons ts us _ _ _ _ _ h hs, he => by
    rcases List.mem_append.mp he with he | he
    · exact (h.stands he).mono ⟨[], us, by simp⟩
    · exact (hs.stands he).mono ⟨ts, [], by simp⟩

end

end Grammar

/-! ## Joints -/

/-- The joint at a node, which is reached by a way from the root of an expression with a
role. -/
structure Joint (tokens : List Token) (role : Role) (path : List Branch) (n : Expr) : Prop where
  /-- What is joined without a space has a string on one side. -/
  unpadded : ∀ l r, n = .concat l r false → l.isString = true ∨ r.isString = true
  /-- What is added with a string in it is a sign. -/
  added : ∀ l r, n = .binary l .add r → l.isString = true ∨ r.isString = true →
    l = .number "0" ∧ Grammar.HasSign tokens r
  /-- What is joined with a space is on the left spine of a value or a prompt; in a value it
  stands behind a string. -/
  padded : ∀ l r, n = .concat l r true → (role = .value ∨ role = .prompt) ∧
    (∀ b ∈ path, b = .left) ∧ (role = .value → l.isString = true)
  /-- Nothing to its right is joined with a space. -/
  right : ∀ l r, n = .concat l r true →
    ∀ path' l' r', r.node? path' ≠ some (.concat l' r' true)

/-- What suits its role is padded in its place only. -/
theorem Role.Suits.node {role : Role} {e n : Expr} {path : List Branch} (h : role.Suits e)
    (hn : e.node? path = some n) : n.Plain ∨ ∃ l r, n = .concat l r true ∧
      (role = .value ∨ role = .prompt) ∧ (∀ b ∈ path, b = .left) ∧
      (role = .value → l.isString = true) ∧ r.Plain := by
  cases role with
  | value =>
    refine (Expr.Joined.node h hn).imp_right ?_
    rintro ⟨l, r, rfl, hleft, hl, hr⟩
    exact ⟨l, r, rfl, .inl rfl, hleft, fun _ => hl, hr⟩
  | prompt =>
    refine (Expr.Joined.node h hn).imp_right ?_
    rintro ⟨l, r, rfl, hleft, -, hr⟩
    exact ⟨l, r, rfl, .inr rfl, hleft, nofun, hr⟩
  | argument | condition => exact .inl (Expr.Plain.node h hn)

/-- **The joints in a program that is read.**  At every node of every expression, whatever
parentheses moved there: what is joined without a space has a string on one side; an addition
with a string in it is a sign; and commas join along the left spine of values and prompts
alone, in a value behind strings, with no comma joining to their right. -/
theorem joint_of_parse {interrupt : Interrupt} {source : String} {p : Program}
    {names : NameTable} (h : parseUnder interrupt source = .ok ⟨p, names⟩) {role : Role}
    {e : Expr} (he : (role, e) ∈ p.expressions) {path : List Branch} {n : Expr}
    (hn : e.node? path = some n) : Joint (Tape.ofString source).tokens role path n := by
  obtain ⟨ms, hd, -⟩ := derives_of_parseUnder h
  have hfaithful := faithful_of_tokenize (tokenize_of_parseUnder h)
  have hexpressible : p.Expressible := Grammar.DerivesStmts.expressible hd hfaithful
  have hsuits := (hexpressible.fits he).node hn
  have hplain : ∀ l r padded, n = .concat l r padded → padded = false → n.Plain := by
    rintro l r padded rfl rfl
    rcases hsuits with hplain | ⟨_, _, heq, _⟩
    · exact hplain
    · cases heq
  constructor
  · intro l r heq
    have hjoint := hplain l r false heq rfl
    rw [heq] at hjoint
    exact hjoint.2.2.2
  · rintro l r rfl hs
    obtain ⟨t, ts, level, hinfix, ht, hderives⟩ := Grammar.DerivesStmts.stands hd he
    obtain ⟨hl, hsign⟩ := hderives.sign_of_add ⟨path, hn⟩ hs ht
    exact ⟨hl, hsign.mono hinfix⟩
  · rintro l r rfl
    rcases hsuits with hbad | ⟨_, _, heq, hrole, hleft, hl, -⟩
    · exact hbad.not_padded.elim
    · cases heq
      exact ⟨hrole, hleft, hl⟩
  · rintro l r rfl path' l' r' hright
    rcases hsuits with hbad | ⟨_, _, heq, -, -, -, hr⟩
    · exact hbad.not_padded
    · cases heq
      exact (hr.node hright).not_padded

/-- A comma behind a joint without a space, and a sign in front of a string. -/
theorem joint_of_parse_sign :
    let source := "t = 1 + \"a\", +\"b\";"
    let sign := Expr.binary (.number "0") .add (.text "b")
    let e := Expr.concat (.concat (.number "1") (.text "a") false) sign true
    parse source = .ok ⟨⟨[.assignment "t" e]⟩, ⟨["x", "t"]⟩⟩ ∧
      Joint (Tape.ofString source).tokens .value [] e ∧
      Grammar.HasSign (Tape.ofString source).tokens (.text "b") := by
  intro source sign e
  have h : parseUnder .never source = .ok ⟨⟨[.assignment "t" e]⟩, ⟨["x", "t"]⟩⟩ := by
    subst source sign e
    cbv
  have he : (Role.value, e) ∈ Program.expressions ⟨[.assignment "t" e]⟩ := List.mem_cons_self
  have hroot : e.node? [] = some e := rfl
  have hsign : e.node? [.right] = some sign := rfl
  have hjoint := joint_of_parse h he hroot
  obtain ⟨-, hadded⟩ := (joint_of_parse h he hsign).added _ _ rfl (.inr rfl)
  exact ⟨h, hjoint, hadded⟩

end MathScript
