import MathScript.Proofs.Grammar.Plan
import MathScript.Proofs.Grammar.Soundness

/-!
# The moves of a reading

Every rule of the grammar is put together from a few moves, one behind the other.  The
two counters of the cursor are raised and lowered in pairs only: around what stands in a
nesting, and around what stands on the next level.  A node is placed at the height its
expression has.  Whatever is put together like this goes by a plan that is put together
likewise (`Orderly`), and leaves the counters as it finds them.

* `Orderly.run_eq`: **a plan does what the step does that goes by it**.
* `Orderly.keeps`: **an orderly step keeps the counters where it succeeds**.
* `Orderly.halts`: one that runs out of tokens has come to the end of the text.
* `orderly_program` and the like: the rules of the grammar are orderly, and up to simple
  statements they ask the interrupt nothing.
-/

namespace MathScript
namespace Grammar

variable {α β : Type}

/-- Runs a step on the next level. -/
def descended (step : Step α) : Step α := do
  descend
  let a ← step
  ascend
  return a

/-- Somewhere the step gives `a` back. -/
def Gives (step : Step α) (a : α) : Prop :=
  ∃ c c', step c = .ok (a, c')

/-- A move that has nothing to do with the counters, as it is planned and as it is done; it may
ask the interrupt if `asks`. -/
inductive Move (asks : Prop) : {α : Type} → Plan α → Step α → Prop
  | pure {α : Type} (a : α) : Move asks (pure a) (pure a)
  | get : Move asks Plan.get get
  | refuse {α : Type} : Move asks (Plan.refuse : Plan α) refuse
  | refuseDepth {α : Type} : Move asks (Plan.refuseDepth : Plan α) refuseDepth
  | advance : Move asks Plan.advance advance
  | declare (name : String) : Move asks (Plan.declare name) (declare name)
  | checkDeclared (t : Token) : Move asks (Plan.checkDeclared t) (checkDeclared t)
  | consult (h : asks) (interrupt : Interrupt) :
      Move asks (Plan.consult interrupt) (consult interrupt)

/-- The step goes by the plan, which is put together from moves of a reading, and places every
node at the height its expression has. -/
inductive Orderly (asks : Prop) : {α : Type} → Plan α → Step α → Prop
  | move {α : Type} {plan : Plan α} {step : Step α} (h : Move asks plan step) :
      Orderly asks plan step
  | place {e : Expr} {height : Nat} (h : e.depth = height + 1) :
      Orderly asks (Plan.place e height) (place e height)
  | bind {α β : Type} {plan : Plan α} {step : Step α} {more : α → Plan β} {next : α → Step β}
      (h : Orderly asks plan step) (hn : ∀ a, Gives step a → Orderly asks (more a) (next a)) :
      Orderly asks (plan >>= more) (step >>= next)
  | nested {α : Type} {plan : Plan α} {step : Step α} (h : Orderly asks plan step) :
      Orderly asks (Plan.nested plan) (nested step)
  | descended {α : Type} {plan : Plan α} {step : Step α} (h : Orderly asks plan step) :
      Orderly asks (Plan.descended plan) (descended step)

/-! ## What a step gives back -/

section Gives

variable {step : Step α} {a : α}

theorem ensures_gives (step : Step α) (c : Cursor) : Ensures step c fun a _ => Gives step a := by
  unfold Ensures Meets
  split
  · next h => exact ⟨_, _, h⟩
  · trivial

/-- What holds of all results of a step holds of what it gives back. -/
theorem Gives.satisfies (h : Gives step a) (post : α → Prop)
    (hpost : ∀ c, Ensures step c fun a _ => post a) : post a := by
  obtain ⟨c, _, hrun⟩ := h
  exact (hpost c).of_eq_ok hrun

theorem Gives.of_nested (h : Gives (nested step) a) : Gives step a := by
  refine h.satisfies (Gives step) fun c => ?_
  rw [Ensures, meets_nested]
  split
  · trivial
  · exact ensures_gives step _

theorem Gives.of_place {e : Expr} {height : Nat} {n : Node} (h : Gives (place e height) n) :
    n = ⟨e, height + 1⟩ := by
  refine h.satisfies (· = ⟨e, height + 1⟩) fun c => ?_
  rw [Ensures, meets_place]
  split
  · trivial
  · rfl

/-- What is read soundly is as high as it is deep. -/
theorem Sound.height {level : Level} {step : Step Node} (hs : Sound level step) {n : Node}
    (h : Gives step n) : n.height = n.expr.depth := by
  refine h.satisfies (fun n => n.height = n.expr.depth) fun c =>
    (hs c).mono ?_ fun _ _ => trivial
  rintro n _ ⟨_, _, _, _, _, hf⟩
  exact hf.height

end Gives

/-! ## What a plan does -/

section Plans

variable {asks : Prop} {plan : Plan α} {step : Step α} {c : Cursor}

theorem Move.run_eq (h : Move asks plan step) (c : Cursor) : plan.run c = step c := by
  cases h with
  | pure | get | refuse | refuseDepth | declare => rfl
  | advance =>
    obtain ⟨tokens, ending, _⟩ := c
    rcases tokens with _ | ⟨t, _ | ⟨u, rest⟩⟩ <;> cases ending <;> rfl
  | checkDeclared t =>
    show Plan.run (if c.names.contains t.text then _ else _) _ =
      (if c.names.contains t.text then _ else _ : Step Unit) _
    split <;> rfl
  | consult _ interrupt =>
    symm
    rw [run_eq_iff, Grammar.consult, meets_bind, meets_get, meets_bind, meets_set]
    simp only [Plan.consult, Plan.run_bind, Plan.get, Plan.perform, Plan.run, Action.apply]
    cases interrupt.check c.checks <;> rfl

theorem run_openNesting_eq (c : Cursor) : Plan.openNesting.run c = openNesting c := by
  show Plan.run (if c.depth + 1 > maxDepth then _ else _) _ =
    (if c.depth + 1 > maxDepth then _ else _ : Step Unit) _
  split <;> rfl

theorem run_descend_eq (c : Cursor) : Plan.descend.run c = descend c := by
  show Plan.run (if c.level + 1 > maxDepth then _ else _) _ =
    (if c.level + 1 > maxDepth then _ else _ : Step Unit) _
  split <;> rfl

theorem run_place_eq (e : Expr) (height : Nat) (c : Cursor) :
    (Plan.place e height).run c = place e height c := by
  show Plan.run (if c.level + (height + 1) > maxDepth then _ else _) _ =
    (if c.level + (height + 1) > maxDepth then _ else _ : Step Node) _
  split <;> rfl

theorem run_bind_eq {more : α → Plan β} {next : α → Step β} (h : plan.run c = step c)
    (hn : ∀ a c', step c = .ok (a, c') → (more a).run c' = next a c') :
    (plan >>= more).run c = (step >>= next) c := by
  rw [Plan.run_bind, h]
  show _ = step c >>= fun r => next r.1 r.2
  cases hrun : step c with
  | error e => rfl
  | ok r => exact hn r.1 r.2 hrun

/-- **A plan does what the step does that goes by it.** -/
theorem Orderly.run_eq (h : Orderly asks plan step) (c : Cursor) : plan.run c = step c := by
  induction h generalizing c with
  | move h => exact h.run_eq c
  | place _ => exact run_place_eq _ _ c
  | bind _ _ ih ihn => exact run_bind_eq (ih c) fun a c' hrun => ihn a ⟨c, c', hrun⟩ c'
  | nested _ ih =>
    exact run_bind_eq (run_openNesting_eq c) fun _ c₁ _ => run_bind_eq (ih c₁) fun _ _ _ => rfl
  | descended _ ih =>
    exact run_bind_eq (run_descend_eq c) fun _ c₁ _ => run_bind_eq (ih c₁) fun _ _ _ => rfl

end Plans

/-! ## The counters -/

/-- Where the step succeeds, the counters are what they were. -/
def Keeps (step : Step α) : Prop :=
  ∀ c, Ensures step c fun _ c' => c'.depth = c.depth ∧ c'.level = c.level

theorem keeps_advance : Keeps advance := by
  intro c
  unfold advance
  rw [Ensures, meets_bind, meets_get]
  split
  · trivial
  · trivial
  · exact ⟨rfl, rfl⟩

theorem keeps_consult (interrupt : Interrupt) : Keeps (consult interrupt) := by
  intro c
  unfold consult
  simp only [Ensures, meets_bind, meets_get, meets_set]
  split
  · trivial
  · exact ⟨rfl, rfl⟩

theorem Move.keeps {asks : Prop} {plan : Plan α} {step : Step α} (h : Move asks plan step) :
    Keeps step := by
  cases h with
  | pure | get | declare => exact fun _ => ⟨rfl, rfl⟩
  | refuse | refuseDepth => exact fun _ => trivial
  | advance => exact keeps_advance
  | checkDeclared t =>
    intro c
    rw [Ensures, meets_checkDeclared]
    split
    · exact ⟨rfl, rfl⟩
    · trivial
  | consult _ interrupt => exact keeps_consult interrupt

theorem Keeps.bind {step : Step α} {next : α → Step β} (h : Keeps step)
    (hn : ∀ a, Gives step a → Keeps (next a)) : Keeps (step >>= next) := by
  intro c
  rw [Ensures, meets_bind]
  refine ((h c).and (ensures_gives step c)).mono ?_ fun _ _ => trivial
  rintro a c₁ ⟨⟨hdepth, hlevel⟩, ha⟩
  refine (hn a ha c₁).mono ?_ fun _ _ => trivial
  rintro b c₂ ⟨hdepth', hlevel'⟩
  exact ⟨hdepth'.trans hdepth, hlevel'.trans hlevel⟩

/-- What opens a nesting closes it again. -/
theorem Keeps.nested {step : Step α} (h : Keeps step) : Keeps (nested step) := by
  intro c
  rw [Ensures, meets_nested]
  split
  · trivial
  · refine (h _).mono ?_ fun _ _ => trivial
    rintro a c₁ ⟨hdepth, hlevel⟩
    exact ⟨congrArg (· - 1) hdepth, hlevel⟩

/-- What goes down a level comes up again. -/
theorem Keeps.descended {step : Step α} (h : Keeps step) : Keeps (descended step) := by
  intro c
  unfold Grammar.descended
  rw [Ensures, meets_bind, meets_descend]
  split
  · trivial
  · rw [meets_bind]
    refine (h _).mono ?_ fun _ _ => trivial
    rintro a c₁ ⟨hdepth, hlevel⟩
    rw [meets_bind, meets_ascend]
    exact ⟨hdepth, congrArg (· - 1) hlevel⟩

/-- **An orderly step keeps the counters where it succeeds.** -/
theorem Orderly.keeps {asks : Prop} {plan : Plan α} {step : Step α}
    (h : Orderly asks plan step) : Keeps step := by
  induction h with
  | move h => exact h.keeps
  | place _ =>
    intro c
    rw [Ensures, meets_place]
    split
    · trivial
    · exact ⟨rfl, rfl⟩
  | bind _ _ ih ihn => exact ih.bind ihn
  | nested _ ih => exact ih.nested
  | descended _ ih => exact ih.descended

/-! ## The end of a text -/

/-- Where no token is ahead, the text has been read to its end. -/
def Cursor.Closed (c : Cursor) : Prop :=
  c.tokens = [] → ∃ line, c.ending = .complete line

/-- A step that runs out of tokens has come to the end of the text. -/
def Halts (step : Step α) : Prop :=
  ∀ c, c.Closed → Meets step c (fun _ c' => c'.Closed ∧ c'.ending = c.ending)
    fun e => e = .unexpectedEnd → ∃ line, c.ending = .complete line

section Endings

variable {asks : Prop} {plan : Plan α} {step : Step α}

theorem halts_advance : Halts advance := by
  rintro ⟨tokens, ending, names, checks, depth, level⟩ hc
  cases tokens with
  | nil => exact fun _ => hc rfl
  | cons t rest =>
    cases rest with
    | nil =>
      cases ending with
      | complete line => exact ⟨fun _ => ⟨line, rfl⟩, rfl⟩
      | unrecognised e => exact nofun
    | cons u rest => exact ⟨nofun, rfl⟩

theorem Move.halts (h : Move asks plan step) : Halts step := by
  cases h with
  | pure | get | declare => exact fun c hc => ⟨hc, rfl⟩
  | refuse =>
    intro c hc
    rw [meets_refuse, Cursor.unexpected]
    split
    · exact nofun
    · next ht => exact fun _ => hc ht
  | refuseDepth => exact fun c hc => nofun
  | advance => exact halts_advance
  | checkDeclared t =>
    intro c hc
    rw [meets_checkDeclared]
    split
    · exact ⟨hc, rfl⟩
    · exact nofun
  | consult _ interrupt =>
    intro c hc
    rw [Grammar.consult, meets_bind, meets_get, meets_bind, meets_set]
    split
    · exact nofun
    · exact ⟨hc, rfl⟩

theorem Orderly.halts (h : Orderly asks plan step) : Halts step := by
  induction h with
  | move h => exact h.halts
  | place _ =>
    intro c hc
    rw [meets_place]
    split
    · exact nofun
    · exact ⟨hc, rfl⟩
  | bind _ _ ih ihn =>
    intro c hc
    rw [meets_bind]
    refine ((ih c hc).and (ensures_gives _ c)).mono ?_ fun _ he => he.1
    rintro a c₁ ⟨⟨hc₁, hending⟩, ha⟩
    rw [← hending]
    exact ihn a ha c₁ hc₁
  | nested _ ih =>
    intro c hc
    rw [meets_nested]
    split
    · exact nofun
    · exact ih _ hc
  | descended _ ih =>
    intro c hc
    unfold Grammar.descended
    rw [meets_bind, meets_descend]
    split
    · exact nofun
    · rw [meets_bind]
      exact ih _ hc

/-- A reading starts like this. -/
theorem Cursor.closed_of_ofTape {tape : Tape} {c : Cursor} (h : Cursor.ofTape tape = .ok c) :
    c.Closed := by
  intro hc
  rw [Cursor.eq_of_ofTape h] at hc ⊢
  obtain ⟨tokens, ending⟩ := tape
  obtain rfl : tokens = [] := hc
  cases ending with
  | complete line => exact ⟨line, rfl⟩
  | unrecognised e => cases h

end Endings

/-! ## The rules of the grammar -/

section Rules

variable {asks : Prop}

/-- What comes next may be orderly whatever the step gives back. -/
theorem Orderly.andThen {plan : Plan α} {step : Step α} {more : α → Plan β} {next : α → Step β}
    (h : Orderly asks plan step) (hn : ∀ a, Orderly asks (more a) (next a)) :
    Orderly asks (plan >>= more) (step >>= next) :=
  .bind h fun a _ => hn a

theorem Orderly.pure (a : α) : Orderly asks (pure a) (pure a) :=
  .move (.pure a)

theorem Orderly.get : Orderly asks Plan.get get :=
  .move .get

theorem Orderly.refuse : Orderly asks (Plan.refuse : Plan α) refuse :=
  .move .refuse

theorem Orderly.refuseDepth : Orderly asks (Plan.refuseDepth : Plan α) refuseDepth :=
  .move .refuseDepth

theorem Orderly.advance : Orderly asks Plan.advance advance :=
  .move .advance

theorem Orderly.declare (name : String) : Orderly asks (Plan.declare name) (declare name) :=
  .move (.declare name)

theorem orderly_peek : Orderly asks Plan.peek peek :=
  .andThen .get fun _ => .pure _

theorem orderly_isAt (kind : TokenKind) : Orderly asks (Plan.isAt kind) (isAt kind) :=
  .andThen orderly_peek fun _ => .pure _

theorem orderly_consume (kind : TokenKind) : Orderly asks (Plan.consume kind) (consume kind) := by
  refine .andThen (orderly_isAt kind) fun b => ?_
  split
  · exact .advance
  · exact .refuse

theorem orderly_word (meaning? : TokenKind → Option α) :
    Orderly asks (Plan.word meaning?) (word meaning?) := by
  refine .andThen orderly_peek fun kind => ?_
  cases kind.bind meaning? with
  | some a => exact .andThen .advance fun _ => .pure a
  | none => exact .refuse

theorem orderly_placeLeaf {e : Expr} (he : e.depth = 1) :
    Orderly asks (Plan.placeLeaf e) (placeLeaf e) :=
  .place he

theorem orderly_placeOver {n : Node} {build : Expr → Expr}
    (hb : ∀ e, (build e).depth = 1 + e.depth) (hn : n.height = n.expr.depth) :
    Orderly asks (Plan.placeOver n build) (placeOver n build) := by
  refine .place ?_
  rw [hb, hn, Nat.add_comm]

theorem orderly_placeOverBoth {l r : Node} {build : Expr → Expr → Expr}
    (hb : (build l.expr r.expr).depth = 1 + max l.expr.depth r.expr.depth)
    (hl : l.height = l.expr.depth) (hr : r.height = r.expr.depth) :
    Orderly asks (Plan.placeOverBoth l r build) (placeOverBoth l r build) := by
  refine .place ?_
  rw [hb, hl, hr, Nat.add_comm]

/-! ### Expressions -/

section Operators

variable (level : Level) {part : Level} {plan : Plan Node} {step : Step Node}

theorem orderly_foldLeft (hs : Sound part step) (h : Orderly asks plan step)
    (ahead : List Token) :
    ∀ left, left.height = left.expr.depth →
      Orderly asks (Plan.foldLeft plan level.operator? ahead left)
        (foldLeft step level.operator? ahead left) := by
  induction ahead with
  | nil => exact fun left _ => .pure left
  | cons _ ahead ih =>
    intro left hl
    refine .andThen orderly_peek fun kind => ?_
    cases hb : kind.bind (level.operator? left.expr) with
    | none => exact .pure left
    | some build =>
      obtain ⟨kind, _, hb⟩ := Option.bind_eq_some_iff.mp hb
      refine .andThen .advance fun _ => .bind h fun right hr => ?_
      have hdepth : (build left.expr right.expr).depth =
          1 + max left.expr.depth right.expr.depth :=
        (joins_iff.mpr ⟨build, hb, rfl⟩).depth_eq
      refine .bind (orderly_placeOverBoth hdepth hl (hs.height hr)) fun joined hj => ih joined ?_
      rw [hj.of_place, hl, hs.height hr, hdepth, Nat.add_comm]

theorem orderly_leftAssociative (hs : Sound part step) (h : Orderly asks plan step) :
    Orderly asks (Plan.leftAssociative plan level.operator?)
      (leftAssociative step level.operator?) :=
  .bind h fun first hf => .andThen .get fun c =>
    orderly_foldLeft level hs h c.tokens first (hs.height hf)

end Operators

section Operands

variable {operand : Step Node} {plan plan' : Plan Node}

theorem orderly_primary {inner : Step Node} (hs : Sound .expression inner)
    (hi : Orderly asks plan inner) : Orderly asks (Plan.primary plan) (primary inner) := by
  refine .andThen orderly_peek fun kind => ?_
  rcases kind with _ | kind
  · exact .refuse
  cases kind with
  | number | stringLiteral => exact .andThen .advance fun _ => orderly_placeLeaf rfl
  | identifier =>
    refine .andThen .advance fun name => .andThen (.move (.checkDeclared name)) fun _ =>
      .andThen (orderly_isAt _) fun b => ?_
    split
    · exact .andThen .advance fun _ => .bind hi fun _ hn => .andThen (orderly_consume _) fun _ =>
        orderly_placeOver (fun _ => rfl) (hs.height hn)
    · exact orderly_placeLeaf rfl
  | leftParen =>
    exact .andThen .advance fun _ => .andThen hi fun e => .andThen (orderly_consume _) fun _ =>
      .pure e
  | _ => exact .refuse

theorem orderly_power {inner exponent : Step Node} (hsi : Sound .expression inner)
    (hse : Sound .signed exponent) (hi : Orderly asks plan inner)
    (he : Orderly asks plan' exponent) :
    Orderly asks (Plan.power plan plan') (power inner exponent) := by
  refine .bind (orderly_primary hsi hi) fun base hb => .andThen (orderly_isAt _) fun b => ?_
  split
  · exact .andThen .advance fun _ => .bind he.nested fun _ hn =>
      orderly_placeOverBoth rfl ((sound_primary hsi).height hb) (hse.height hn.of_nested)
  · exact .pure base

theorem orderly_unary {inner signed : Step Node} (hsi : Sound .expression inner)
    (hss : Sound .signed signed) (hi : Orderly asks plan inner)
    (hs : Orderly asks plan' signed) :
    Orderly asks (Plan.unary plan plan') (unary inner signed) := by
  refine .andThen orderly_peek fun kind => ?_
  cases kind.bind sign? with
  | some op =>
    refine .andThen .advance fun _ => .bind hs.nested fun e hn =>
      .bind (orderly_placeLeaf rfl) fun zero hz => ?_
    obtain rfl := hz.of_place
    exact orderly_placeOverBoth rfl rfl (hss.height hn.of_nested)
  | none => exact orderly_power hsi hss hi hs

theorem orderly_sum (hs : Sound .signed operand) (h : Orderly asks plan operand) :
    Orderly asks (Plan.sum plan) (sum operand) := by
  have hproduct : Sound .product (leftAssociative operand productOperator?) :=
    sound_leftAssociative hs rfl
  exact orderly_leftAssociative .sum hproduct (orderly_leftAssociative .product hs h)

theorem orderly_solve (hs : Sound .signed operand) (h : Orderly asks plan operand) :
    Orderly asks (Plan.solve plan) (solve operand) := by
  refine .andThen (orderly_consume _) fun _ => .bind (orderly_sum hs h) fun equation he =>
    .andThen (orderly_isAt _) fun a => .andThen (orderly_isAt _) fun b => ?_
  have hheight := (sound_sum hs).height he
  split
  · exact .andThen .advance fun _ => .andThen (orderly_word _) fun domain =>
      orderly_placeOver (fun _ => rfl) hheight
  · exact .andThen (.pure _) fun _ => orderly_placeOver (fun _ => rfl) hheight

theorem orderly_convertible (hs : Sound .signed operand) (h : Orderly asks plan operand) :
    Orderly asks (Plan.convertible plan) (convertible operand) := by
  refine .andThen (orderly_isAt _) fun b => ?_
  split
  · exact orderly_solve hs h
  · exact orderly_leftAssociative .comparison (sound_sum hs) (orderly_sum hs h)

theorem height_of_gives_convertible (hs : Sound .signed operand) {n : Node}
    (h : Gives (convertible operand) n) : n.height = n.expr.depth := by
  refine h.satisfies (fun n => n.height = n.expr.depth) fun c =>
    (ensures_convertible hs c).mono ?_ fun _ _ => trivial
  rintro n _ ⟨_, _, _, _, hf, _⟩
  exact hf.height

theorem orderly_expressionOf (hs : Sound .signed operand) (h : Orderly asks plan operand) :
    Orderly asks (Plan.expressionOf plan) (expressionOf operand) := by
  rw [expressionOf_eq]
  refine .nested (.bind (orderly_convertible hs h) fun e he =>
    .andThen (orderly_isAt _) fun b => ?_)
  split
  · exact .andThen .advance fun _ => .andThen (orderly_word _) fun _ =>
      orderly_placeOver (fun _ => rfl) (height_of_gives_convertible hs he)
  · exact .pure e

end Operands

theorem orderly_operand (n : Nat) : Orderly asks (Plan.operand n) (operand n) := by
  induction n with
  | zero =>
    exact orderly_unary (sound_refuseDepth _) (sound_refuseDepth _) .refuseDepth .refuseDepth
  | succ n ih =>
    have hs := sound_operand n
    exact orderly_unary (sound_expressionOf hs) hs (orderly_expressionOf hs ih) ih

theorem orderly_expression : Orderly asks Plan.expression expression :=
  orderly_expressionOf (sound_operand maxDepth) (orderly_operand maxDepth)

theorem orderly_value : Orderly asks Plan.value value :=
  orderly_leftAssociative .value sound_expression orderly_expression

theorem orderly_prompt : Orderly asks Plan.prompt prompt :=
  have hs := sound_operand maxDepth
  orderly_leftAssociative .prompt (sound_sum hs) (orderly_sum hs (orderly_operand maxDepth))

/-! ### Simple statements -/

theorem orderly_moreArguments (ahead : List Token) :
    Orderly asks (Plan.moreArguments ahead) (moreArguments ahead) := by
  induction ahead with
  | nil => exact .pure _
  | cons _ ahead ih =>
    refine .andThen (orderly_isAt _) fun b => ?_
    split
    · exact .andThen .advance fun _ => .andThen orderly_expression fun _ => .andThen ih fun _ =>
        .pure _
    · exact .pure _

theorem orderly_arguments : Orderly asks Plan.arguments arguments :=
  .andThen orderly_expression fun _ => .andThen .get fun c =>
    .andThen (orderly_moreArguments c.tokens) fun _ => .pure _

theorem orderly_condition : Orderly asks Plan.condition condition :=
  .andThen (orderly_consume _) fun _ => .andThen orderly_expression fun _ =>
    .andThen (orderly_consume _) fun _ => .pure _

theorem orderly_optionalPrompt : Orderly asks Plan.optionalPrompt optionalPrompt := by
  refine .andThen (orderly_isAt _) fun b => ?_
  split
  · exact .pure _
  · exact .andThen orderly_prompt fun _ => .pure _

theorem orderly_optionalCast : Orderly asks Plan.optionalCast optionalCast := by
  refine .andThen (orderly_isAt _) fun b => ?_
  split
  · exact .andThen .advance fun _ => .andThen (orderly_word _) fun _ => .pure _
  · exact .pure _

theorem orderly_input : Orderly asks Plan.input input := by
  rw [input_eq]
  exact .andThen (orderly_consume _) fun _ => .andThen orderly_optionalPrompt fun _ =>
    .andThen (orderly_consume _) fun _ => .andThen (orderly_consume _) fun _ =>
    .andThen orderly_optionalCast fun _ => .andThen (.declare _) fun _ => .pure _

theorem orderly_simple : Orderly asks Plan.simple simple := by
  refine .andThen orderly_peek fun kind => ?_
  rcases kind with _ | kind
  · exact .refuse
  cases kind with
  | identifier =>
    exact .andThen .advance fun _ => .andThen (orderly_consume _) fun _ =>
      .andThen orderly_value fun _ => .andThen (.declare _) fun _ => .pure _
  | print | plot => exact .andThen .advance fun _ => .andThen orderly_arguments fun _ => .pure _
  | inWord => exact orderly_input
  | _ => exact .refuse

end Rules

/-! ### Statements -/

section Statements

variable {statement : Step Stmt} {plan : Plan Stmt}

theorem orderly_moreStatements (h : Orderly True plan statement) (stop : Option TokenKind)
    (ahead : List Token) :
    Orderly True (Plan.moreStatements plan stop ahead) (moreStatements statement stop ahead) := by
  induction ahead with
  | nil =>
    refine .andThen orderly_peek fun kind => ?_
    split
    · exact .pure _
    · exact .andThen h fun _ => .pure _
  | cons _ ahead ih =>
    refine .andThen orderly_peek fun kind => ?_
    split
    · exact .pure _
    · exact .andThen h fun _ => .andThen ih fun _ => .pure _

theorem orderly_statements (h : Orderly True plan statement) (stop : Option TokenKind) :
    Orderly True (Plan.statements plan stop) (statements statement stop) :=
  .andThen h fun _ => .andThen .get fun c =>
    .andThen (orderly_moreStatements h stop c.tokens) fun _ => .pure _

theorem orderly_statementOf (interrupt : Interrupt) {inside : Plan (List Stmt)}
    {block : Step (List Stmt)} (h : Orderly True inside block) :
    Orderly True (Plan.statementOf interrupt inside) (statementOf interrupt block) := by
  have hsimple : Orderly True (Plan.simple >>= fun s => Plan.consume .semicolon >>= fun _ => pure s)
      (simple >>= fun s => consume .semicolon >>= fun _ => pure s) :=
    .andThen orderly_simple fun _ => .andThen (orderly_consume _) fun _ => .pure _
  refine .andThen (.move (.consult trivial interrupt)) fun _ => .andThen orderly_peek fun kind => ?_
  rcases kind with _ | kind
  · exact hsimple
  cases kind with
  | ifWord =>
    refine .andThen .advance fun _ => .andThen orderly_condition fun _ => .andThen h fun _ =>
      .andThen (orderly_isAt _) fun b => ?_
    split
    · exact .andThen .advance fun _ => .andThen h fun _ => .pure _
    · exact .pure _
  | whileWord =>
    exact .andThen .advance fun _ => .andThen orderly_condition fun _ => .andThen h fun _ => .pure _
  | _ => exact hsimple

theorem orderly_body (h : Orderly True plan statement) :
    Orderly True (Plan.body plan) (body statement) := by
  refine .andThen (orderly_isAt _) fun b => ?_
  split
  · exact .andThen .advance fun _ => .andThen (orderly_statements h _) fun _ =>
      .andThen .advance fun _ => .pure _
  · exact .andThen h fun _ => .pure _

theorem orderly_blockOf (h : Orderly True plan statement) :
    Orderly True (Plan.blockOf plan) (blockOf statement) := by
  rw [blockOf_eq]
  exact .nested (.descended (orderly_body h))

theorem orderly_block (interrupt : Interrupt) (n : Nat) :
    Orderly True (Plan.block interrupt n) (block interrupt n) := by
  induction n with
  | zero => exact .refuseDepth
  | succ n ih => exact orderly_blockOf (orderly_statementOf interrupt ih)

theorem orderly_program (interrupt : Interrupt) :
    Orderly True (Plan.program interrupt) (program interrupt) :=
  have hstatement := orderly_statementOf interrupt (orderly_block interrupt maxDepth)
  .andThen (orderly_statements hstatement none) fun _ => .pure _

end Statements

end Grammar
end MathScript
