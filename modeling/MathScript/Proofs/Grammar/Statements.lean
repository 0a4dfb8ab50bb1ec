import MathScript.Proofs.Grammar.Completeness
import MathScript.Proofs.Program.Shape

/-!
# What a reading of statements cannot refuse

As with expressions, tokens that derive statements are read as them, unless a name among
them is not declared in time or there is no room.  A block takes the room of one nesting
and of one level.

* `OpensStmt.derivesIn`: **tokens that derive a statement are read as it**.
-/

namespace MathScript
namespace Grammar

section Statements

variable {k n h : Nat} {level : Level} {room : Prop} {ts us rest : List Token} {e : Expr}
  {es : List Expr} {s : Stmt} {ss os : List Stmt} {ms ns : List (Mention Token)} {d : Bool}

/-- In a statement as many nestings may open as there is room for. -/
theorem DerivesIn.completes (he : DerivesIn k level ts e) (hends : level.Ends rest)
    (hn : k + level.nestings ≤ n) (hh : e.depth ≤ h) :
    Completes room n h (reader maxDepth level) ts rest (readsOf ts) (· = ⟨e, e.depth⟩) := by
  intro c line ht hc hr
  have hfuel : room → k ≤ maxDepth := by
    intro hroom
    have hdepth := (hr hroom).depth
    omega
  exact (he.accepts room maxDepth rest hfuel hends).more_room hn hh c line ht hc hr

/-- The tokens derive the expressions between commas, and are read as them, room for `n`
nestings and for nodes of height `h` being enough. -/
structure DerivesArgumentsIn (n h : Nat) (ts : List Token) (es : List Expr) : Prop where
  opens : OpensArguments .reading n ts es
  accepts : ∀ (room : Prop) rest, kindOf rest ≠ some .comma → Level.expression.Ends rest →
    Completes room n h arguments ts rest (readsOf ts) (· = es)
  /-- Behind a comma they are read as further ones. -/
  more : ∀ (room : Prop) rest, kindOf rest ≠ some .comma → Level.expression.Ends rest →
    ∀ (t : Token) (ahead : List Token), t.kind = .comma → (t :: ts ++ rest).length ≤ ahead.length →
      Completes room n h (moreArguments ahead) (t :: ts) rest (readsOf ts) (· = es)

theorem completes_moreArguments_nil (ahead : List Token) (hc : kindOf rest ≠ some .comma) :
    Completes room n h (moreArguments ahead) [] rest [] (· = []) := by
  cases ahead with
  | nil => exact completes_pure rfl
  | cons u ahead => exact completes_isAt_of_ne hc (completes_pure rfl)

theorem DerivesArgumentsIn.one (he : DerivesIn k .expression ts e) (hn : k + 1 ≤ n)
    (hh : e.depth ≤ h) : DerivesArgumentsIn n h ts [e] where
  opens := .one he.opens hn
  accepts := by
    intro room rest hc hends
    refine (he.completes hends hn hh).bind_nil fun m hm => completes_get fun c _ => ?_
    refine (completes_moreArguments_nil _ hc).bind_nil fun es hes => completes_pure ?_
    rw [hm, hes]
  more := by
    intro room rest hc hends t ahead ht hlen
    cases ahead with
    | nil => cases hlen
    | cons u ahead =>
      refine completes_isAt (congrArg some ht) (completes_advance_bind ?_)
      refine Completes.bind_nil (he.completes hends hn hh) fun m hm => ?_
      refine (completes_moreArguments_nil _ hc).bind_nil fun es hes => completes_pure ?_
      rw [hm, hes]

theorem DerivesArgumentsIn.cons {t : Token} (he : DerivesIn k .expression ts e) (hn : k + 1 ≤ n)
    (hh : e.depth ≤ h) (ht : t.kind = .comma) (hs : DerivesArgumentsIn n h us es) :
    DerivesArgumentsIn n h (ts ++ t :: us) (e :: es) where
  opens := .cons he.opens hn ht hs.opens
  accepts := by
    intro room rest hc hends
    rw [readsOf_operator _ _ (by rw [ht]; decide)]
    have hends₁ : Level.expression.Ends (t :: us ++ rest) := Level.ends_cons _ ht (by decide)
    refine Completes.bind (he.completes hends₁ hn hh) fun m hm => completes_get fun c hct => ?_
    refine (hs.more room rest hc hends t _ ht (Nat.le_of_eq (by rw [hct]))).bind_nil fun es hes =>
      completes_pure ?_
    rw [hm, hes]
  more := by
    intro room rest hc hends t' ahead ht' hlen
    rw [readsOf_operator _ _ (by rw [ht]; decide)]
    cases ahead with
    | nil => cases hlen
    | cons u ahead =>
      have hlen : (t :: us ++ rest).length ≤ ahead.length := by
        simp only [List.cons_append, List.length_cons, List.length_append] at hlen ⊢
        omega
      refine completes_isAt (congrArg some ht') (completes_advance_bind ?_)
      have hends₁ : Level.expression.Ends (t :: us ++ rest) := Level.ends_cons _ ht (by decide)
      refine Completes.bind (he.completes hends₁ hn hh) fun m hm => ?_
      refine (hs.more room rest hc hends t ahead ht hlen).bind_nil fun es hes => completes_pure ?_
      rw [hm, hes]

theorem DerivesArgumentsIn.mono {n' : Nat} (hs : DerivesArgumentsIn n h ts es) (hn : n ≤ n') :
    DerivesArgumentsIn n' h ts es where
  opens := hs.opens.mono hn
  accepts := fun room rest hc hends => (hs.accepts room rest hc hends).more_room hn le_rfl
  more := fun room rest hc hends t ahead ht hlen =>
    (hs.more room rest hc hends t ahead ht hlen).more_room hn le_rfl

theorem completes_condition {lp rp : Token} (he : DerivesIn k .expression ts e) (hn : k + 1 ≤ n)
    (hh : e.depth ≤ h) (hl : lp.kind = .leftParen) (hr : rp.kind = .rightParen) :
    Completes room n h condition (lp :: (ts ++ [rp])) rest (readsOf ts) (· = e) := by
  refine completes_consume_bind hl ?_
  rw [← List.append_nil (readsOf ts)]
  have hends : Level.expression.Ends (rp :: rest) := Level.ends_cons _ hr (by decide)
  refine Completes.bind (he.completes hends hn hh) fun m hm => ?_
  refine completes_consume_bind hr (completes_pure ?_)
  rw [hm]

/-- The tokens derive a prompt, and are read as it with the room of `n` and `h`, or there
is none. -/
inductive DerivesPromptIn (n h : Nat) : List Token → Option Expr → Prop
  | none : DerivesPromptIn n h [] none
  | some {ts : List Token} {e : Expr} (he : DerivesIn n .prompt ts e) (hh : e.depth ≤ h) :
      DerivesPromptIn n h ts (some e)

theorem DerivesPromptIn.opens {prompt : Option Expr} (hp : DerivesPromptIn n h ts prompt) :
    OpensPrompt .reading n ts prompt := by
  cases hp with
  | none => exact .none
  | some he _ => exact .some he.opens

theorem DerivesPromptIn.completes {prompt : Option Expr} {gt : Token}
    (hp : DerivesPromptIn n h ts prompt) (hg : gt.kind = .greater) :
    Completes room n h optionalPrompt ts (gt :: rest) (readsOf ts) (· = prompt) := by
  cases hp with
  | none => exact completes_isAt (congrArg Option.some hg) (completes_pure rfl)
  | some he hh =>
    refine completes_isAt_of_ne ?_ ?_
    · obtain ⟨t, us, rfl, ht⟩ := he.derives.starts
      intro hk
      rw [show t.kind = .greater from Option.some.inj hk] at ht
      cases ht
    · have hends : Level.prompt.Ends (gt :: rest) := Level.ends_cons _ hg (by decide)
      refine Completes.bind_nil (he.completes hends le_rfl hh) fun m hm => completes_pure ?_
      rw [hm]

theorem completes_optionalCast {cast : Option CastType} (hd : DerivesCast ts cast)
    (hw : kindOf rest ≠ some .asWord) :
    Completes room n h optionalCast ts rest [] (· = cast) := by
  cases hd with
  | none => exact completes_isAt_of_ne hw (completes_pure rfl)
  | some type hw hd =>
    refine completes_isAt (congrArg some hw) (completes_advance_bind ?_)
    refine (completes_word (castType?_eq_some.mpr hd)).bind_nil fun a ha => completes_pure ?_
    rw [ha]

/-- The tokens derive the statement and are read as it, whatever the rest, unless it is an
`ELSE` behind a dangling statement; room for `n` nestings and `h` more levels is enough. -/
structure DerivesStmtIn (n h : Nat) (d : Bool) (ts : List Token) (s : Stmt)
    (ms : List (Mention Token)) : Prop where
  opens : OpensStmt .reading n d ts s ms
  accepts : ∀ (room : Prop) m rest, (room → n ≤ m) → (d = true → kindOf rest ≠ some .elseWord) →
    Completes room n h (statementOf .never (block .never m)) ts rest ms (· = s)

/-- The same for blocks. -/
structure DerivesBlockIn (n h : Nat) (d : Bool) (ts : List Token) (ss : List Stmt)
    (ms : List (Mention Token)) : Prop where
  opens : OpensBlock .reading n d ts ss ms
  accepts : ∀ (room : Prop) m rest, (room → n ≤ m) → (d = true → kindOf rest ≠ some .elseWord) →
    Completes room n h (block .never m) ts rest ms (· = ss)

theorem DerivesStmtIn.derives (hs : DerivesStmtIn n h d ts s ms) : DerivesStmt d ts s ms :=
  hs.opens.derives

theorem DerivesStmtIn.mono {n' : Nat} (hs : DerivesStmtIn n h d ts s ms) (hn : n ≤ n') :
    DerivesStmtIn n' h d ts s ms where
  opens := hs.opens.mono hn
  accepts := fun room m rest hm helse =>
    (hs.accepts room m rest (fun hroom => hn.trans (hm hroom)) helse).more_room hn le_rfl

theorem DerivesBlockIn.mono {n' : Nat} (hb : DerivesBlockIn n h d ts ss ms) (hn : n ≤ n') :
    DerivesBlockIn n' h d ts ss ms where
  opens := hb.opens.mono hn
  accepts := fun room m rest hm helse =>
    (hb.accepts room m rest (fun hroom => hn.trans (hm hroom)) helse).more_room hn le_rfl

/-- A loop over statements stops here. -/
def Stops (rest : List Token) (stop : Option TokenKind) : Prop :=
  kindOf rest = stop ∧ (stop = none ∨ stop = some .rightBrace)

theorem Stops.ne_of_starts {stop : Option TokenKind} (hstop : Stops rest stop) {t : Token}
    (ht : startsStmt t.kind = true) (us : List Token) : kindOf (t :: us) ≠ stop := by
  intro hk
  rcases hstop.2 with hs | hs
  · rw [hs] at hk
    cases hk
  · rw [hs] at hk
    rw [show t.kind = .rightBrace from Option.some.inj hk] at ht
    cases ht

/-- The same for one statement after the other, up to `stop`. -/
structure DerivesStmtsIn (n h : Nat) (ts : List Token) (ss : List Stmt)
    (ms : List (Mention Token)) : Prop where
  opens : OpensStmts .reading n ts ss ms
  accepts : ∀ (room : Prop) m rest stop, (room → n ≤ m) → Stops rest stop →
    Completes room n h (statements (statementOf .never (block .never m)) stop) ts rest ms (· = ss)
  /-- Behind another statement they are read as further ones. -/
  more : ∀ (room : Prop) m rest stop, (room → n ≤ m) → Stops rest stop →
    ∀ ahead, (ts ++ rest).length ≤ ahead.length →
      Completes room n h (moreStatements (statementOf .never (block .never m)) stop ahead) ts rest
        ms (· = ss)

theorem DerivesStmtsIn.derives (hs : DerivesStmtsIn n h ts ss ms) : DerivesStmts ts ss ms :=
  hs.opens.derives

theorem DerivesStmtsIn.mono {n' : Nat} (hs : DerivesStmtsIn n h ts ss ms) (hn : n ≤ n') :
    DerivesStmtsIn n' h ts ss ms where
  opens := hs.opens.mono hn
  accepts := fun room m rest stop hm hstop =>
    (hs.accepts room m rest stop (fun hroom => hn.trans (hm hroom)) hstop).more_room hn le_rfl
  more := fun room m rest stop hm hstop ahead hlen =>
    (hs.more room m rest stop (fun hroom => hn.trans (hm hroom)) hstop ahead hlen).more_room hn
      le_rfl

/-- What begins with no `IF` and no `WHILE` is read by `simple`. -/
theorem completes_statement_of_simple {semi t : Token} {k : TokenKind} (ht : t.kind = k)
    (hk : k ≠ .ifWord ∧ k ≠ .whileWord) (hs : semi.kind = .semicolon)
    (hread : ∀ rest, Completes room n h simple (t :: ts) (semi :: rest) ms (· = s)) (m : Nat) :
    Completes room n h (statementOf .never (block .never m)) (t :: (ts ++ [semi])) rest ms
      (· = s) := by
  refine completes_consult_bind (completes_peek (congrArg some ht) ?_)
  have hsimple : Completes room n h (simple >>= fun s => consume .semicolon >>= fun _ => pure s)
      (t :: ts ++ [semi]) rest (ms ++ []) (· = s) :=
    (hread rest).bind fun a ha => completes_consume_bind hs (completes_pure ha)
  rw [List.append_nil] at hsimple
  split
  · next hif => exact absurd (Option.some.inj hif) hk.1
  · next hwhile => exact absurd (Option.some.inj hwhile) hk.2
  · exact hsimple

/-! ### One statement after the other -/

namespace DerivesStmtIn

theorem assignment {target eq semi : Token} (hi : target.kind = .identifier)
    (ha : eq.kind = .assign) (he : DerivesIn k .value ts e) (hn : k + 1 ≤ n) (hh : e.depth ≤ h)
    (hs : semi.kind = .semicolon) :
    DerivesStmtIn n h false (target :: eq :: (ts ++ [semi])) (.assignment target.text e)
      (readsOf ts ++ [.declare target]) where
  opens := .assignment hi ha he.opens hn hs
  accepts := by
    intro room m rest _ _
    rw [← List.cons_append]
    refine completes_statement_of_simple hi (by decide) hs (fun rest => ?_) m
    refine completes_peek (congrArg some hi) (completes_advance_bind ?_)
    refine completes_consume_bind ha ?_
    have hends : Level.value.Ends (semi :: rest) := Level.ends_cons _ hs (by decide)
    refine Completes.bind_here (he.completes hends hn hh) fun m hm => ?_
    refine (completes_declare target).bind_nil fun _ _ => completes_pure ?_
    rw [hm]

theorem input {w gt target semi : Token} {prompt : Option Expr} {cast : Option CastType}
    (hw : w.kind = .inWord) (hp : DerivesPromptIn n h ts prompt) (hg : gt.kind = .greater)
    (hi : target.kind = .identifier) (hc : DerivesCast us cast) (hs : semi.kind = .semicolon) :
    DerivesStmtIn n h false (w :: (ts ++ gt :: target :: (us ++ [semi])))
      (.input target.text prompt cast) (readsOf ts ++ [.declare target]) where
  opens := .input hw hp.opens hg hi hc hs
  accepts := by
    intro room m rest _ _
    have htokens : ts ++ gt :: target :: (us ++ [semi]) = (ts ++ gt :: target :: us) ++ [semi] := by
      simp
    rw [htokens]
    refine completes_statement_of_simple hw (by decide) hs (fun rest => ?_) m
    refine completes_peek (congrArg some hw) ?_
    show Completes _ _ _ Grammar.input _ _ _ _
    rw [input_eq]
    refine completes_consume_bind hw ((hp.completes hg).bind fun q hq => ?_)
    refine completes_consume_bind hg (completes_consume_bind hi ?_)
    have hcast : kindOf (semi :: rest) ≠ some .asWord := by
      rw [show kindOf (semi :: rest) = some .semicolon from congrArg some hs]
      decide
    show Completes _ _ _ _ us _ ([] ++ [.declare target]) _
    refine (completes_optionalCast hc hcast).bind_here fun a ha => ?_
    refine (completes_declare target).bind_nil fun _ _ => completes_pure ?_
    rw [hq, ha]

/-- `PRINT` and `PLOT` are read alike. -/
theorem completes_listing {w semi : Token} {build : List Expr → Stmt}
    (ha : DerivesArgumentsIn n h ts es) (hs : semi.kind = .semicolon) :
    Completes room n h (advance >>= fun _ => arguments >>= fun es => pure (build es)) (w :: ts)
      (semi :: rest) (readsOf ts) (· = build es) := by
  refine completes_advance_bind ?_
  have hc : kindOf (semi :: rest) ≠ some .comma := by
    rw [show kindOf (semi :: rest) = some .semicolon from congrArg some hs]
    decide
  have hends : Level.expression.Ends (semi :: rest) := Level.ends_cons _ hs (by decide)
  refine (ha.accepts room _ hc hends).bind_nil fun a ha => completes_pure ?_
  rw [ha]

theorem print {w semi : Token} (hw : w.kind = .print) (ha : DerivesArgumentsIn n h ts es)
    (hs : semi.kind = .semicolon) :
    DerivesStmtIn n h false (w :: (ts ++ [semi])) (.print es) (readsOf ts) where
  opens := .print hw ha.opens hs
  accepts := fun _ m _ _ _ => completes_statement_of_simple hw (by decide) hs
    (fun _ => completes_peek (congrArg some hw) (completes_listing ha hs)) m

theorem plot {w semi : Token} (hw : w.kind = .plot) (ha : DerivesArgumentsIn n h ts es)
    (hs : semi.kind = .semicolon) :
    DerivesStmtIn n h false (w :: (ts ++ [semi])) (.plot es) (readsOf ts) where
  opens := .plot hw ha.opens hs
  accepts := fun _ m _ _ _ => completes_statement_of_simple hw (by decide) hs
    (fun _ => completes_peek (congrArg some hw) (completes_listing ha hs)) m

theorem ifThen {w lp rp : Token} (hw : w.kind = .ifWord) (hl : lp.kind = .leftParen)
    (hc : DerivesIn k .expression ts e) (hn : k + 1 ≤ n) (hh : e.depth ≤ h)
    (hr : rp.kind = .rightParen) (hb : DerivesBlockIn n h d us ss ms) :
    DerivesStmtIn n h true (w :: lp :: (ts ++ rp :: us)) (.ifThen e ss) (readsOf ts ++ ms) where
  opens := .ifThen hw hl hc.opens hn hr hb.opens
  accepts := by
    intro room m rest hm helse
    have htokens : lp :: (ts ++ rp :: us) = lp :: (ts ++ [rp]) ++ us := by simp
    rw [htokens]
    refine completes_consult_bind (completes_peek (congrArg some hw) (completes_advance_bind ?_))
    refine (completes_condition hc hn hh hl hr).bind fun a ha => ?_
    refine (hb.accepts room m rest hm fun _ => helse rfl).bind_nil fun b hb => ?_
    refine completes_isAt_of_ne (helse rfl) (completes_pure ?_)
    rw [ha, hb]

theorem ifThenElse {w lp rp el : Token} {vs : List Token} (hw : w.kind = .ifWord)
    (hl : lp.kind = .leftParen) (hc : DerivesIn k .expression ts e) (hn : k + 1 ≤ n)
    (hh : e.depth ≤ h) (hr : rp.kind = .rightParen) (hb : DerivesBlockIn n h false us ss ms)
    (he : el.kind = .elseWord) (ho : DerivesBlockIn n h d vs os ns) :
    DerivesStmtIn n h d (w :: lp :: (ts ++ rp :: (us ++ el :: vs))) (.ifThenElse e ss os)
      (readsOf ts ++ (ms ++ ns)) where
  opens := .ifThenElse hw hl hc.opens hn hr hb.opens he ho.opens
  accepts := by
    intro room m rest hm helse
    have htokens : lp :: (ts ++ rp :: (us ++ el :: vs)) =
        lp :: (ts ++ [rp]) ++ (us ++ el :: vs) := by simp
    rw [htokens]
    refine completes_consult_bind (completes_peek (congrArg some hw) (completes_advance_bind ?_))
    refine (completes_condition hc hn hh hl hr).bind fun a ha => ?_
    refine (hb.accepts room m _ hm fun h => by cases h).bind fun b hb => ?_
    refine completes_isAt (congrArg some he) (completes_advance_bind ?_)
    refine (ho.accepts room m rest hm helse).bind_nil fun o ho => completes_pure ?_
    rw [ha, hb, ho]

theorem whileLoop {w lp rp : Token} (hw : w.kind = .whileWord) (hl : lp.kind = .leftParen)
    (hc : DerivesIn k .expression ts e) (hn : k + 1 ≤ n) (hh : e.depth ≤ h)
    (hr : rp.kind = .rightParen) (hb : DerivesBlockIn n h d us ss ms) :
    DerivesStmtIn n h d (w :: lp :: (ts ++ rp :: us)) (.whileLoop e ss) (readsOf ts ++ ms) where
  opens := .whileLoop hw hl hc.opens hn hr hb.opens
  accepts := by
    intro room m rest hm helse
    have htokens : lp :: (ts ++ rp :: us) = lp :: (ts ++ [rp]) ++ us := by simp
    rw [htokens]
    refine completes_consult_bind (completes_peek (congrArg some hw) (completes_advance_bind ?_))
    refine (completes_condition hc hn hh hl hr).bind fun a ha => ?_
    refine (hb.accepts room m rest hm helse).bind_nil fun b hb => completes_pure ?_
    rw [ha, hb]

end DerivesStmtIn

/-! ### Blocks and sequences -/

/-- **A block takes the room of one nesting and of one level.** -/
theorem DerivesBlockIn.of_body (hd : OpensBlock .reading (n + 1) d ts ss ms)
    (hread : ∀ (room : Prop) m rest, (room → n ≤ m) →
      (d = true → kindOf rest ≠ some .elseWord) →
      Completes room n h (body (statementOf .never (block .never m))) ts rest ms (· = ss)) :
    DerivesBlockIn (n + 1) (h + 1) d ts ss ms where
  opens := hd
  accepts := by
    intro room m rest hm helse
    cases m with
    | zero => exact completes_refuseDepth fun hroom => Nat.not_succ_le_zero n (hm hroom)
    | succ m =>
      show Completes _ _ _ (blockOf _) _ _ _ _
      rw [blockOf_eq]
      have hm : room → n ≤ m := fun hroom => Nat.le_of_succ_le_succ (hm hroom)
      exact (hread room m rest hm helse).descended.nested

theorem DerivesBlockIn.single (hs : DerivesStmtIn n h d ts s ms) :
    DerivesBlockIn (n + 1) (h + 1) d ts [s] ms := by
  refine .of_body (.single hs.opens) fun room m rest hm helse => completes_isAt_of_ne ?_ ?_
  · obtain ⟨t, us, rfl, ht⟩ := hs.derives.starts
    intro hk
    rw [show t.kind = .leftBrace from Option.some.inj hk] at ht
    cases ht
  · refine (hs.accepts room m rest hm helse).bind_nil fun a ha => completes_pure ?_
    rw [ha]

theorem DerivesBlockIn.braces {lb rb : Token} (hl : lb.kind = .leftBrace)
    (hs : DerivesStmtsIn n h ts ss ms) (hr : rb.kind = .rightBrace) :
    DerivesBlockIn (n + 1) (h + 1) false (lb :: (ts ++ [rb])) ss ms := by
  refine .of_body (.braces hl hs.opens hr) fun room m rest hm _ => ?_
  refine completes_isAt (congrArg some hl) (completes_advance_bind ?_)
  rw [← List.append_nil ms]
  have hstop : Stops (rb :: rest) (some .rightBrace) := ⟨congrArg some hr, .inr rfl⟩
  refine (hs.accepts room m (rb :: rest) _ hm hstop).bind fun a ha => ?_
  exact completes_advance_bind (completes_pure ha)

/-- One statement, and whatever more of them. -/
theorem DerivesStmtsIn.of_first (hd : OpensStmts .reading n (ts ++ us) (s :: ss) (ms ++ ns))
    (hs : DerivesStmtIn n h d ts s ms)
    (helse : ∀ rest stop, Stops rest stop → d = true → kindOf (us ++ rest) ≠ some .elseWord)
    (hmore : ∀ (room : Prop) m rest stop, (room → n ≤ m) → Stops rest stop →
      ∀ ahead, (us ++ rest).length ≤ ahead.length →
        Completes room n h (moreStatements (statementOf .never (block .never m)) stop ahead) us
          rest ns (· = ss)) :
    DerivesStmtsIn n h (ts ++ us) (s :: ss) (ms ++ ns) where
  opens := hd
  accepts := by
    intro room m rest stop hm hstop
    have hread := hs.accepts room m (us ++ rest) hm (helse rest stop hstop)
    refine hread.bind fun a ha => completes_get fun c hc => ?_
    refine (hmore room m rest stop hm hstop c.tokens (Nat.le_of_eq (by rw [hc]))).bind_nil
      fun b hb => completes_pure ?_
    rw [ha, hb]
  more := by
    intro room m rest stop hm hstop ahead hlen
    have hread := hs.accepts room m (us ++ rest) hm (helse rest stop hstop)
    obtain ⟨t, vs, rfl, ht⟩ := hs.derives.starts
    cases ahead with
    | nil => cases hlen
    | cons u ahead =>
      have hlen : (us ++ rest).length ≤ ahead.length := by
        simp only [List.cons_append, List.length_cons, List.length_append] at hlen ⊢
        omega
      refine completes_peek rfl ?_
      rw [if_neg (show kindOf (t :: vs ++ us ++ rest) ≠ stop from hstop.ne_of_starts ht _)]
      refine hread.bind fun a ha => ?_
      refine (hmore room m rest stop hm hstop ahead hlen).bind_nil fun b hb => completes_pure ?_
      rw [ha, hb]

theorem completes_moreStatements_nil {statement : Step Stmt} {stop : Option TokenKind}
    (ahead : List Token) (hstop : Stops rest stop) :
    Completes room n h (moreStatements statement stop ahead) [] rest [] (· = []) := by
  cases ahead with
  | nil => exact completes_peek hstop.1 (by rw [if_pos rfl]; exact completes_pure rfl)
  | cons u ahead => exact completes_peek hstop.1 (by rw [if_pos rfl]; exact completes_pure rfl)

theorem DerivesStmtsIn.one (hs : DerivesStmtIn n h d ts s ms) : DerivesStmtsIn n h ts [s] ms := by
  rw [← List.append_nil ts, ← List.append_nil ms]
  refine .of_first ?_ hs (fun rest stop hstop _ => ?_) fun room m rest stop _ hstop ahead _ =>
    completes_moreStatements_nil ahead hstop
  · rw [List.append_nil, List.append_nil]
    exact .one hs.opens
  · rw [List.nil_append, hstop.1]
    rcases hstop.2 with hs | hs <;> rw [hs] <;> decide

theorem DerivesStmtsIn.cons (hs : DerivesStmtIn n h d ts s ms)
    (hss : DerivesStmtsIn n h us ss ns) :
    DerivesStmtsIn n h (ts ++ us) (s :: ss) (ms ++ ns) := by
  refine .of_first (.cons hs.opens hss.opens) hs (fun rest _ _ _ => ?_) hss.more
  obtain ⟨t, vs, rfl, ht⟩ := hss.derives.starts
  intro hk
  rw [show t.kind = .elseWord from Option.some.inj hk] at ht
  cases ht

/-- The tokens derive the statements one after the other, each with the room of `n` and
`h`. -/
inductive DerivesEachIn (n h : Nat) :
    List Token → List Stmt → List (Mention Token) → Prop
  | one {d : Bool} {ts : List Token} {s : Stmt} {ms : List (Mention Token)}
      (hs : DerivesStmtIn n h d ts s ms) : DerivesEachIn n h ts [s] ms
  | cons {d : Bool} {ts us : List Token} {s : Stmt} {ss : List Stmt}
      {ms ns : List (Mention Token)} (hs : DerivesStmtIn n h d ts s ms)
      (hss : DerivesEachIn n h us ss ns) : DerivesEachIn n h (ts ++ us) (s :: ss) (ms ++ ns)

theorem DerivesEachIn.derivesIn (hs : DerivesEachIn n h ts ss ms) :
    DerivesStmtsIn n h ts ss ms := by
  induction hs with
  | one hs => exact .one hs
  | cons hs _ ih => exact .cons hs ih

/-- **Statements behind statements.** -/
theorem DerivesEachIn.append (hs : DerivesEachIn n h ts ss ms) (ho : DerivesEachIn n h us os ns) :
    DerivesEachIn n h (ts ++ us) (ss ++ os) (ms ++ ns) := by
  induction hs with
  | one hs => exact .cons hs ho
  | cons hs _ ih =>
    rw [List.append_assoc, List.append_assoc]
    exact .cons hs ih

/-! ### What derives is read -/

theorem OpensArguments.derivesIn (hs : OpensArguments .reading n ts es) (hh : maxExprDepth es ≤ h) :
    DerivesArgumentsIn n h ts es := by
  induction hs with
  | one he hn =>
    rw [maxExprDepth] at hh
    exact .one he.derivesIn hn (by omega)
  | cons he hn ht _ ih =>
    rw [maxExprDepth] at hh
    exact .cons he.derivesIn hn (by omega) ht (ih (by omega))

theorem OpensPrompt.derivesIn {prompt : Option Expr} (hp : OpensPrompt .reading n ts prompt)
    (hh : (prompt.map Expr.depth).getD 0 ≤ h) : DerivesPromptIn n h ts prompt := by
  cases hp with
  | none => exact .none
  | some he => exact .some he.derivesIn hh

theorem DerivesStmts.depth_pos (hs : DerivesStmts ts ss ms) : 0 < maxStmtDepth ss := by
  cases hs with
  | one h | cons h _ =>
    rw [maxStmtDepth]
    exact (Stmt.depth_pos _).trans_le (Nat.le_max_left _ _)

mutual

/-- **Tokens that derive a statement are read as it**, with room for as many nestings as
they open. -/
theorem OpensStmt.derivesIn : ∀ {n h : Nat} {d : Bool} {ts : List Token} {s : Stmt}
    {ms : List (Mention Token)}, OpensStmt .reading n d ts s ms → s.depth ≤ h + 1 →
    DerivesStmtIn n h d ts s ms
  | _, _, _, _, _, _, .assignment hi ha he hn hs, hh => by
    rw [Stmt.depth] at hh
    exact .assignment hi ha he.derivesIn hn (by omega) hs
  | _, _, _, _, _, _, .input hw hp hg hi hc hs, hh => by
    rw [Stmt.depth] at hh
    exact .input hw (hp.derivesIn (by omega)) hg hi hc hs
  | _, _, _, _, _, _, .print hw ha hs, hh => by
    rw [Stmt.depth] at hh
    exact .print hw (ha.derivesIn (by omega)) hs
  | _, _, _, _, _, _, .plot hw ha hs, hh => by
    rw [Stmt.depth] at hh
    exact .plot hw (ha.derivesIn (by omega)) hs
  | _, _, _, _, _, _, .ifThen hw hl hc hn hr hb, hh => by
    rw [Stmt.depth] at hh
    exact .ifThen hw hl hc.derivesIn hn (by omega) hr (hb.derivesIn (by omega))
  | _, _, _, _, _, _, .ifThenElse hw hl hc hn hr hb he ho, hh => by
    rw [Stmt.depth] at hh
    exact .ifThenElse hw hl hc.derivesIn hn (by omega) hr (hb.derivesIn (by omega)) he
      (ho.derivesIn (by omega))
  | _, _, _, _, _, _, .whileLoop hw hl hc hn hr hb, hh => by
    rw [Stmt.depth] at hh
    exact .whileLoop hw hl hc.derivesIn hn (by omega) hr (hb.derivesIn (by omega))

theorem OpensBlock.derivesIn : ∀ {n h : Nat} {d : Bool} {ts : List Token} {ss : List Stmt}
    {ms : List (Mention Token)}, OpensBlock .reading n d ts ss ms → maxStmtDepth ss ≤ h →
    DerivesBlockIn n h d ts ss ms
  | _, _, _, _, _, _, .single hs, hh => by
    rw [maxStmtDepth, maxStmtDepth, Nat.max_zero] at hh
    obtain ⟨h, rfl⟩ := Nat.exists_eq_add_one.mpr ((Stmt.depth_pos _).trans_le hh)
    exact .single (hs.derivesIn hh)
  | _, _, _, _, _, _, .braces hl hs hr, hh => by
    obtain ⟨h, rfl⟩ := Nat.exists_eq_add_one.mpr (hs.derives.depth_pos.trans_le hh)
    exact .braces hl (hs.derivesIn hh) hr

theorem OpensStmts.derivesIn : ∀ {n h : Nat} {ts : List Token} {ss : List Stmt}
    {ms : List (Mention Token)}, OpensStmts .reading n ts ss ms → maxStmtDepth ss ≤ h + 1 →
    DerivesStmtsIn n h ts ss ms
  | _, _, _, _, _, .one hs, hh => by
    rw [maxStmtDepth, maxStmtDepth, Nat.max_zero] at hh
    exact .one (hs.derivesIn hh)
  | _, _, _, _, _, .cons hs hss, hh => by
    rw [maxStmtDepth] at hh
    exact .cons (hs.derivesIn (by omega)) (hss.derivesIn (by omega))

end

end Statements

end Grammar
end MathScript
