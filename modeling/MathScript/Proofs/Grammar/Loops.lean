import MathScript.Proofs.Grammar.Moves

/-!
# Loops that outlast the tokens

A loop of a reading is given the tokens there are when it starts, so that it comes to an
end.  Each of its rounds takes one of them.  So it never stops for want of them, and what it
does at a cursor depends on the cursor alone.

* `Orderly.advances`: no orderly step goes back.
* `GoesRound.outlasting_eq`: **a loop is one round with the same loop behind it**.
* `further_eq`, `furtherArguments_eq`, `furtherStatements_eq`: the loops of a reading.
-/

namespace MathScript
namespace Grammar

variable {α β : Type}

/-! ## Taking tokens -/

/-- Where the step succeeds, it has passed tokens or left them alone. -/
def Advances (step : Step α) : Prop :=
  ∀ c, Ensures step c fun _ c' => c'.tokens.length ≤ c.tokens.length

/-- Where the step succeeds, it has passed a token. -/
def Takes (step : Step α) : Prop :=
  ∀ c, Ensures step c fun _ c' => c'.tokens.length < c.tokens.length

section Taking

variable {asks : Prop} {plan : Plan α} {step : Step α} {next : α → Step β}

theorem takes_advance : Takes advance := by
  intro c
  unfold advance
  rw [Ensures, meets_bind, meets_get]
  split
  · trivial
  · trivial
  · next ht _ =>
    show _ < c.tokens.length
    rw [ht]
    exact Nat.lt_succ_self _

theorem takes_consume (kind : TokenKind) : Takes (consume kind) := by
  refine fun c => ensures_consume fun t rest ht _ => ?_
  rw [ht]
  exact Nat.lt_succ_self _

theorem Takes.advances (h : Takes step) : Advances step :=
  fun c => (h c).mono (fun _ _ => Nat.le_of_lt) fun _ _ => trivial

theorem Move.advances (h : Move asks plan step) : Advances step := by
  cases h with
  | pure | get | declare => exact fun _ => Nat.le_refl _
  | refuse | refuseDepth => exact fun _ => trivial
  | advance => exact takes_advance.advances
  | checkDeclared t =>
    intro c
    rw [Ensures, meets_checkDeclared]
    split
    · exact Nat.le_refl _
    · trivial
  | consult _ interrupt => exact fun c => ensures_consult (Nat.le_refl _)

theorem Advances.bind (h : Advances step) (hn : ∀ a, Gives step a → Advances (next a)) :
    Advances (step >>= next) := by
  intro c
  rw [Ensures, meets_bind]
  refine ((h c).and (ensures_gives step c)).mono ?_ fun _ _ => trivial
  rintro a c₁ ⟨h₁, ha⟩
  exact (hn a ha c₁).mono (fun _ _ h₂ => h₂.trans h₁) fun _ _ => trivial

/-- No orderly step goes back. -/
theorem Orderly.advances (h : Orderly asks plan step) : Advances step := by
  induction h with
  | move h => exact h.advances
  | place _ =>
    intro c
    rw [Ensures, meets_place]
    split
    · trivial
    · exact Nat.le_refl _
  | bind _ _ ih ihn => exact ih.bind ihn
  | nested _ ih =>
    intro c
    rw [Ensures, meets_nested]
    split
    · trivial
    · exact ih _
  | descended _ ih =>
    intro c
    unfold Grammar.descended
    rw [Ensures, meets_bind, meets_descend]
    split
    · trivial
    · rw [meets_bind]
      exact ih _

theorem Takes.bind (h : Takes step) (hn : ∀ a, Advances (next a)) : Takes (step >>= next) := by
  intro c
  rw [Ensures, meets_bind]
  refine (h c).mono ?_ fun _ _ => trivial
  intro a c₁ h₁
  exact (hn a c₁).mono (fun _ _ h₂ => Nat.lt_of_le_of_lt h₂ h₁) fun _ _ => trivial

theorem Advances.bind_takes (h : Advances step) (hn : ∀ a, Takes (next a)) :
    Takes (step >>= next) := by
  intro c
  rw [Ensures, meets_bind]
  refine (h c).mono ?_ fun _ _ => trivial
  intro a c₁ h₁
  exact (hn a c₁).mono (fun _ _ h₂ => Nat.lt_of_lt_of_le h₂ h₁) fun _ _ => trivial

/-- What comes behind a step that takes a token may differ where there are as many tokens as
before. -/
theorem Takes.run_congr (h : Takes step) {next' : α → Step β} {c : Cursor}
    (hn : ∀ a c', c'.tokens.length < c.tokens.length → next a c' = next' a c') :
    (step >>= next) c = (step >>= next') c :=
  run_bind_congr ((h c).mono (fun a c' => hn a c') fun _ _ => trivial)

end Taking

/-! ## Rounds -/

section Rounds

variable {γ : Type} {loop : List Token → γ → Step α} {round : (γ → Step α) → γ → Step α}

/-- The loop with the tokens there are. -/
def outlasting (loop : List Token → γ → Step α) (x : γ) : Step α := do
  loop (← get).tokens x

/-- The loop goes round and round: a round takes a token before the loop goes on, and at the
end of the tokens it does not go on. -/
structure GoesRound (loop : List Token → γ → Step α) (round : (γ → Step α) → γ → Step α) :
    Prop where
  cons : ∀ t ahead, loop (t :: ahead) = round (loop ahead)
  nil : ∀ x c next, c.tokens = [] → loop [] x c = round next x c
  takes : ∀ x c next next',
    (∀ y c', c'.tokens.length < c.tokens.length → next y c' = next' y c') →
      round next x c = round next' x c

/-- The loop is the same for all tokens that outlast it. -/
theorem GoesRound.run_congr (h : GoesRound loop round) {ahead ahead' : List Token} {x : γ}
    {c : Cursor} (hlen : c.tokens.length ≤ ahead.length)
    (hlen' : c.tokens.length ≤ ahead'.length) : loop ahead x c = loop ahead' x c := by
  induction ahead generalizing ahead' x c with
  | nil =>
    have hc : c.tokens = [] := List.length_eq_zero_iff.mp (Nat.le_zero.mp hlen)
    cases ahead' with
    | nil => rfl
    | cons t' ahead' => rw [h.cons, h.nil x c _ hc]
  | cons t ahead ih =>
    cases ahead' with
    | nil =>
      have hc : c.tokens = [] := List.length_eq_zero_iff.mp (Nat.le_zero.mp hlen')
      rw [h.cons, h.nil x c _ hc]
    | cons t' ahead' =>
      rw [h.cons, h.cons]
      refine h.takes x c _ _ fun y c' hc' => ih ?_ ?_
      · exact Nat.le_of_lt_succ (hc'.trans_le hlen)
      · exact Nat.le_of_lt_succ (hc'.trans_le hlen')

/-- **Such a loop is one round with the same loop behind it.** -/
theorem GoesRound.outlasting_eq (h : GoesRound loop round) (x : γ) :
    outlasting loop x = round (outlasting loop) x := by
  funext c
  show loop c.tokens x c = _
  cases hc : c.tokens with
  | nil => exact h.nil x c _ hc
  | cons t ahead =>
    rw [h.cons]
    refine h.takes x c _ _ fun y c' hc' => ?_
    rw [hc] at hc'
    exact h.run_congr (Nat.le_of_lt_succ hc') (Nat.le_refl _)

end Rounds

theorem Cursor.kind?_of_nil {c : Cursor} (h : c.tokens = []) : c.kind? = none := by
  rw [Cursor.kind?, h]
  rfl

/-! ## The loops of a reading -/

section Operators

variable {part : Step Node} {operator? : Expr → TokenKind → Option (Expr → Expr → Expr)}

/-- An operator, an operand, and the node over both. -/
def joinedTo (part : Step Node) (left : Node) (build : Expr → Expr → Expr) : Step Node := do
  let _ ← advance
  let right ← part
  placeOverBoth left right build

theorem takes_joinedTo (h : Advances part) (left : Node) (build : Expr → Expr → Expr) :
    Takes (joinedTo part left build) := by
  refine takes_advance.bind fun _ c => ?_
  rw [Ensures, meets_bind]
  refine (h c).mono (fun right c₁ h₁ => ?_) fun _ _ => trivial
  rw [placeOverBoth, meets_place]
  split
  · trivial
  · exact h₁

/-- What stands behind the first operand. -/
def further (part : Step Node)
    (operator? : Expr → TokenKind → Option (Expr → Expr → Expr)) : Node → Step Node :=
  outlasting (foldLeft part operator?)

theorem leftAssociative_eq : leftAssociative part operator? = part >>= further part operator? :=
  rfl

theorem foldLeft_goesRound (h : Advances part) :
    GoesRound (foldLeft part operator?) fun next left => peek >>= fun kind =>
      match kind.bind (operator? left.expr) with
      | none => pure left
      | some build => joinedTo part left build >>= next where
  cons t ahead := by
    funext left
    unfold joinedTo
    simp only [bind_assoc]
    rfl
  nil left c next hc := by
    rw [eq_comm, run_eq_iff, meets_bind, meets_peek, Cursor.kind?_of_nil hc]
    rfl
  takes left c next next' hnext := by
    refine run_bind_congr (meets_peek.mpr ?_)
    cases c.kind?.bind (operator? left.expr) with
    | none => rfl
    | some build => exact (takes_joinedTo h left build).run_congr hnext

theorem further_eq (h : Advances part) (left : Node) :
    further part operator? left = peek >>= fun kind =>
      match kind.bind (operator? left.expr) with
      | none => pure left
      | some build => joinedTo part left build >>= further part operator? :=
  (foldLeft_goesRound h).outlasting_eq left

end Operators

theorem advances_expression : Advances expression :=
  (orderly_expression : Orderly False _ expression).advances

/-- What stands behind the first argument. -/
def furtherArguments : Step (List Expr) :=
  outlasting (fun ahead (_ : Unit) => moreArguments ahead) ()

theorem moreArguments_goesRound :
    GoesRound (fun ahead (_ : Unit) => moreArguments ahead) fun next _ => isAt .comma >>= fun b =>
      if b then (advance >>= fun _ => expression) >>= fun e =>
        next () >>= fun es => pure (e.expr :: es)
      else pure [] where
  cons t ahead := by
    simp only [bind_assoc]
    rfl
  nil _ c next hc := by
    rw [eq_comm, run_eq_iff, meets_bind, meets_isAt, Cursor.kind?_of_nil hc]
    rfl
  takes _ c next next' hnext := by
    refine run_bind_congr (meets_isAt.mpr ?_)
    split
    · exact (takes_advance.bind fun _ => advances_expression).run_congr fun e c' hc' =>
        run_bind_left (hnext () c' hc')
    · rfl

theorem furtherArguments_eq :
    furtherArguments = isAt .comma >>= fun b =>
      if b then (advance >>= fun _ => expression) >>= fun e =>
        furtherArguments >>= fun es => pure (e.expr :: es)
      else pure [] :=
  moreArguments_goesRound.outlasting_eq ()

theorem arguments_eq :
    arguments = expression >>= fun e => furtherArguments >>= fun es => pure (e.expr :: es) :=
  rfl

section Statements

variable {statement : Step Stmt} {stop : Option TokenKind}

/-- What stands behind the first statement. -/
def furtherStatements (statement : Step Stmt) (stop : Option TokenKind) : Step (List Stmt) :=
  outlasting (fun ahead (_ : Unit) => moreStatements statement stop ahead) ()

/-- Behind the last token the loop tries one more statement, which has nothing to take. -/
theorem moreStatements_goesRound (h : Takes statement) :
    GoesRound (fun ahead (_ : Unit) => moreStatements statement stop ahead) fun next _ =>
      peek >>= fun kind =>
        if kind = stop then pure []
        else statement >>= fun s => next () >>= fun ss => pure (s :: ss) where
  cons t ahead := rfl
  nil _ c next hc := by
    refine run_bind_congr (meets_peek.mpr ?_)
    split
    · rfl
    · refine h.run_congr fun s c' hc' => ?_
      rw [hc] at hc'
      exact absurd hc' (Nat.not_lt_zero _)
  takes _ c next next' hnext := by
    refine run_bind_congr (meets_peek.mpr ?_)
    split
    · rfl
    · exact h.run_congr fun s c' hc' => run_bind_left (hnext () c' hc')

theorem furtherStatements_eq (h : Takes statement) :
    furtherStatements statement stop = peek >>= fun kind =>
      if kind = stop then pure []
      else statement >>= fun s => furtherStatements statement stop >>= fun ss =>
        pure (s :: ss) :=
  (moreStatements_goesRound h).outlasting_eq ()

theorem statements_eq :
    statements statement stop = statement >>= fun s =>
      furtherStatements statement stop >>= fun ss => pure (s :: ss) :=
  rfl

/-- Every statement takes a token. -/
theorem takes_statementOf (interrupt : Interrupt) {block : Step (List Stmt)}
    (hb : Advances block) : Takes (statementOf interrupt block) := by
  have hconsult : Advances (consult interrupt) :=
    (Orderly.move (.consult trivial interrupt)).advances
  have hcondition : Advances condition := (orderly_condition : Orderly True _ condition).advances
  have hpure : ∀ s : Stmt, Advances (pure s) := fun s c => Nat.le_refl _
  refine hconsult.bind_takes fun _ => Advances.bind_takes (fun c => Nat.le_refl _) fun kind => ?_
  split
  · refine takes_advance.bind fun _ => hcondition.bind fun _ _ => hb.bind fun _ _ =>
      Advances.bind (fun c => Nat.le_refl _) fun b _ => ?_
    split
    · exact takes_advance.advances.bind fun _ _ => hb.bind fun _ _ => hpure _
    · exact hpure _
  · exact takes_advance.bind fun _ => hcondition.bind fun _ _ => hb.bind fun _ _ => hpure _
  · have hsimple : Advances simple := (orderly_simple : Orderly True _ simple).advances
    exact hsimple.bind_takes fun s => (takes_consume _).bind fun _ => hpure s

end Statements

end Grammar
end MathScript
