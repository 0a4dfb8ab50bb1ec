import MathScript.Proofs.Grammar.Agreement
import MathScript.Proofs.Program.Expressible

/-!
# What the grammar builds

Which strings are joined, and how, is decided by the operands a rule finds; so it shows
in every tree that derives.

* `Derives.holds`: **strings are joined where the grammar joins them, and numbers added
  where it adds them**.
* `expressible_of_parse`: what is read from a source text is expressible.
-/

namespace MathScript

/-! ## Tokens -/

/-- A name that spells no keyword, a string literal with nothing in it that would end it. -/
structure Token.Faithful (t : Token) : Prop where
  name : t.kind = .identifier → ¬IsReserved t.text
  quoted : t.kind = .stringLiteral → IsQuoted t.text

theorem faithful_of_tokenize {source : String} {ts : List Token} (h : tokenize source = .ok ts) :
    ∀ t ∈ ts, t.Faithful := by
  obtain ⟨line, htape⟩ := tape_of_tokenize h
  intro t ht
  have hmem : t ∈ (Tape.ofString source).tokens := by rwa [htape]
  exact ⟨not_isReserved_of_mem h ht, isQuoted_of_mem hmem⟩

theorem IsQuoted.unquote {text : String} (h : IsQuoted text) :
    IsQuotable (Grammar.unquote text).toList := by
  obtain ⟨body, htext, hbody⟩ := h
  have hinside : (Grammar.unquote text).toList = body := by
    rw [Grammar.unquote, String.toList_ofList, htext, List.drop_one, List.tail_cons,
      List.dropLast_concat]
  rwa [hinside]

namespace Grammar

/-! ## Expressions -/

/-- What an expression of the level is like. -/
def Level.Holds : Level → Expr → Prop
  | .value => Expr.IsValue
  | .prompt => Expr.IsPrompt
  | _ => Expr.Plain

theorem Level.holds_of_plain {level : Level} {e : Expr} (h : e.Plain) : level.Holds e := by
  cases level with
  | value | prompt => exact h.joined _
  | _ => exact h

/-- Where operators group to the left, the operands are plain. -/
theorem Level.plain_of_part {level part : Level} {e : Expr} (hp : level.part? = some part)
    (h : part.Holds e) : e.Plain := by
  cases level <;> cases hp <;> exact h

theorem Joins.holds {level part : Level} {k : TokenKind} {l r e : Expr} (h : Joins level k l r e)
    (hp : level.part? = some part) (hl : level.Holds l) (hr : part.Holds r) : level.Holds e := by
  have hr := Level.plain_of_part hp hr
  cases h with
  | multiply | divide | subtract => exact ⟨hl, hr, nofun⟩
  | add hls hrs => exact ⟨hl, hr, fun _ => .inr ⟨hls, hrs⟩⟩
  | append hs => exact ⟨hl, hr, rfl, hs⟩
  | compare op => exact ⟨hl, hr⟩
  | valueComma hs => exact ⟨hs, hl, hr⟩
  | promptComma => exact ⟨trivial, hl, hr⟩

/-- **Strings are joined where the grammar joins them, and numbers added where it adds
them.** -/
theorem Derives.holds {level : Level} {ts : List Token} {e : Expr} (h : Derives level ts e)
    (hts : ∀ t ∈ ts, t.Faithful) : level.Holds e := by
  induction h with
  | number _ => trivial
  | text ht => exact ((hts _ (by simp)).quoted ht).unquote
  | name ht => exact (hts _ (by simp)).name ht
  | evaluation hf _ _ _ ih =>
    have hargument := ih fun t ht => hts t (by simp [ht])
    exact ⟨(hts _ (by simp)).name hf, hargument⟩
  | parentheses _ _ _ ih => exact ih fun t ht => hts t (by simp [ht])
  | power _ _ _ ihb ihe =>
    have hbase := ihb fun t ht => hts t (by simp [ht])
    have hexponent := ihe fun t ht => hts t (by simp [ht])
    exact ⟨hbase, hexponent, nofun⟩
  | plus _ _ ih => exact ⟨trivial, ih fun t ht => hts t (by simp [ht]), fun _ => .inl rfl⟩
  | minus _ _ ih => exact ⟨trivial, ih fun t ht => hts t (by simp [ht]), nofun⟩
  | first hp _ ih => exact Level.holds_of_plain (Level.plain_of_part hp (ih hts))
  | joined hp _ hj _ ihl ihr =>
    have hleft := ihl fun t ht => hts t (by simp [ht])
    have hright := ihr fun t ht => hts t (by simp [ht])
    exact hj.holds hp hleft hright
  | solvedIn _ _ _ _ _ ih | solved _ _ ih | converted _ _ _ _ ih =>
    exact ih fun t ht => hts t (by simp [ht])
  | base _ ih | unsigned _ ih | compared _ ih | plain _ ih => exact ih hts

theorem DerivesArguments.plain {ts : List Token} {es : List Expr} (h : DerivesArguments ts es)
    (hts : ∀ t ∈ ts, t.Faithful) : ∀ e ∈ es, e.Plain := by
  induction h with
  | one h =>
    intro e he
    rw [List.mem_singleton.mp he]
    exact h.holds hts
  | cons h _ _ ih =>
    refine List.forall_mem_cons.mpr ⟨h.holds fun t ht => hts t (by simp [ht]), ?_⟩
    exact ih fun t ht => hts t (by simp [ht])

/-! ## Statements -/

mutual

theorem DerivesStmt.expressible : ∀ {d : Bool} {ts : List Token} {s : Stmt}
    {ms : List (Mention Token)}, DerivesStmt d ts s ms → (∀ t ∈ ts, t.Faithful) → s.Expressible
  | _, _, _, _, .assignment hi _ he _, hts =>
    ⟨(hts _ (by simp)).name hi, he.holds fun t ht => hts t (by simp [ht])⟩
  | _, _, _, _, .input _ hp _ hi _ _, hts => by
    refine ⟨(hts _ (by simp)).name hi, fun e he => ?_⟩
    cases hp with
    | none => cases he
    | some h =>
      obtain rfl := Option.some.inj he
      exact h.holds fun t ht => hts t (by simp [ht])
  | _, _, _, _, .print _ h _, hts => h.plain fun t ht => hts t (by simp [ht])
  | _, _, _, _, .plot _ h _, hts => h.plain fun t ht => hts t (by simp [ht])
  | _, _, _, _, .ifThen _ _ hc _ hb, hts =>
    ⟨hc.holds fun t ht => hts t (by simp [ht]), hb.expressible fun t ht => hts t (by simp [ht])⟩
  | _, _, _, _, .ifThenElse _ _ hc _ hb _ ho, hts =>
    ⟨hc.holds fun t ht => hts t (by simp [ht]), hb.expressible fun t ht => hts t (by simp [ht]),
      ho.expressible fun t ht => hts t (by simp [ht])⟩
  | _, _, _, _, .whileLoop _ _ hc _ hb, hts =>
    ⟨hc.holds fun t ht => hts t (by simp [ht]), hb.expressible fun t ht => hts t (by simp [ht])⟩

theorem DerivesBlock.expressible : ∀ {d : Bool} {ts : List Token} {ss : List Stmt}
    {ms : List (Mention Token)}, DerivesBlock d ts ss ms → (∀ t ∈ ts, t.Faithful) →
    Stmt.AllExpressible ss
  | _, _, _, _, .single h, hts => ⟨h.expressible hts, trivial⟩
  | _, _, _, _, .braces _ h _, hts => h.expressible fun t ht => hts t (by simp [ht])

theorem DerivesStmts.expressible : ∀ {ts : List Token} {ss : List Stmt}
    {ms : List (Mention Token)}, DerivesStmts ts ss ms → (∀ t ∈ ts, t.Faithful) →
    Stmt.AllExpressible ss
  | _, _, _, .one h, hts => ⟨h.expressible hts, trivial⟩
  | _, _, _, .cons h hs, hts =>
    ⟨h.expressible fun t ht => hts t (by simp [ht]),
      hs.expressible fun t ht => hts t (by simp [ht])⟩

end

end Grammar

/-- **What is read from a source text is expressible.** -/
theorem expressible_of_parse {source : String} {p : Program} {names : NameTable}
    (h : parse source = .ok ⟨p, names⟩) : p.Expressible := by
  obtain ⟨ms, hd, -⟩ := derives_of_parseUnder h
  exact Grammar.DerivesStmts.expressible hd (faithful_of_tokenize (tokenize_of_parseUnder h))

end MathScript
