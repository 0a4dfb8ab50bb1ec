import MathScript.Grammar.Statement
import MathScript.Proofs.Grammar.Derivation

/-!
# Runs of a reading

How a step of a reading ends, said by what holds if it gives a result and what
holds of its error.  There is one equation for each move of the cursor, and one
for going on behind a step, so that a rule of the grammar is followed move by
move without ever opening the state.
-/

namespace MathScript
namespace Grammar

/-- Started at `c`, the step gives a result with `post`, or an error with `fails`. -/
def Meets {α : Type} (step : Step α) (c : Cursor) (post : α → Cursor → Prop)
    (fails : ParseError → Prop) : Prop :=
  match step c with
  | .ok (a, c') => post a c'
  | .error e => fails e

variable {α β : Type} {c : Cursor} {fails : ParseError → Prop}

theorem Meets.mono {step : Step α} {post post' : α → Cursor → Prop} {fails' : ParseError → Prop}
    (h : Meets step c post fails) (hpost : ∀ a c', post a c' → post' a c')
    (hfails : ∀ e, fails e → fails' e) : Meets step c post' fails' := by
  unfold Meets at h ⊢
  cases hs : step c with
  | ok r =>
    rw [hs] at h
    exact hpost _ _ h
  | error e =>
    rw [hs] at h
    exact hfails _ h

theorem Meets.and {step : Step α} {post post' : α → Cursor → Prop} {fails' : ParseError → Prop}
    (h : Meets step c post fails) (h' : Meets step c post' fails') :
    Meets step c (fun a c' => post a c' ∧ post' a c') fun e => fails e ∧ fails' e := by
  unfold Meets at h h' ⊢
  cases hs : step c <;> rw [hs] at h h' <;> exact ⟨h, h'⟩

theorem Meets.of_eq_ok {step : Step α} {post : α → Cursor → Prop} {a : α} {c' : Cursor}
    (h : Meets step c post fails) (hrun : step c = .ok (a, c')) : post a c' := by
  unfold Meets at h
  rwa [hrun] at h

theorem Meets.of_eq_error {step : Step α} {post : α → Cursor → Prop} {e : ParseError}
    (h : Meets step c post fails) (hrun : step c = .error e) : fails e := by
  unfold Meets at h
  rwa [hrun] at h

/-- A step that fails has no result to say anything about. -/
theorem Meets.of_fails {step : Step α} {post : α → Cursor → Prop}
    (h : Meets step c (fun _ _ => False) fails) : Meets step c post fails :=
  h.mono (fun _ _ hnot => hnot.elim) fun _ he => he

/-! ## Moves -/

@[simp] theorem meets_pure {a : α} {post : α → Cursor → Prop} :
    Meets (pure a) c post fails ↔ post a c :=
  Iff.rfl

/-- **What comes behind a step starts where the step ends.** -/
@[simp] theorem meets_bind {step : Step α} {next : α → Step β} {post : β → Cursor → Prop} :
    Meets (step >>= next) c post fails ↔
      Meets step c (fun a c' => Meets (next a) c' post fails) fails := by
  unfold Meets
  show (match (step c >>= fun r => next r.1 r.2) with | .ok (b, c') => _ | .error e => _) ↔ _
  cases step c <;> rfl

/-- What comes behind a step that fails is not reached. -/
theorem Meets.bind_fails {step : Step α} {next : α → Step β} {post : β → Cursor → Prop}
    (h : Meets step c (fun _ _ => False) fails) : Meets (step >>= next) c post fails := by
  rw [meets_bind]
  exact h.of_fails

@[simp] theorem meets_get {post : Cursor → Cursor → Prop} :
    Meets get c post fails ↔ post c c :=
  Iff.rfl

@[simp] theorem meets_set {c' : Cursor} {post : PUnit → Cursor → Prop} :
    Meets (set c') c post fails ↔ post ⟨⟩ c' :=
  Iff.rfl

@[simp] theorem meets_modify {f : Cursor → Cursor} {post : PUnit → Cursor → Prop} :
    Meets (modify f) c post fails ↔ post ⟨⟩ (f c) :=
  Iff.rfl

@[simp] theorem meets_ite {p : Prop} [Decidable p] {step step' : Step α}
    {post : α → Cursor → Prop} :
    Meets (if p then step else step') c post fails ↔
      if p then Meets step c post fails else Meets step' c post fails := by
  split <;> rfl

@[simp] theorem meets_peek {post : Option TokenKind → Cursor → Prop} :
    Meets peek c post fails ↔ post c.kind? c :=
  Iff.rfl

@[simp] theorem meets_isAt {kind : TokenKind} {post : Bool → Cursor → Prop} :
    Meets (isAt kind) c post fails ↔ post (decide (c.kind? = some kind)) c :=
  Iff.rfl

@[simp] theorem meets_refuse {post : α → Cursor → Prop} :
    Meets refuse c post fails ↔ fails c.unexpected :=
  Iff.rfl

@[simp] theorem meets_refuseDepth {post : α → Cursor → Prop} :
    Meets refuseDepth c post fails ↔ fails (.nestingTooDeep c.line) :=
  Iff.rfl

@[simp] theorem meets_declare {name : String} {post : Unit → Cursor → Prop} :
    Meets (declare name) c post fails ↔ post () { c with names := c.names.declare name } :=
  Iff.rfl

@[simp] theorem meets_ascend {post : Unit → Cursor → Prop} :
    Meets ascend c post fails ↔ post () { c with level := c.level - 1 } :=
  Iff.rfl

@[simp] theorem meets_checkDeclared {t : Token} {post : Unit → Cursor → Prop} :
    Meets (checkDeclared t) c post fails ↔
      if c.names.contains t.text then post () c else fails (.undefinedName t.text t.line) := by
  unfold checkDeclared
  simp only [meets_bind, meets_get]
  split <;> rfl

@[simp] theorem meets_descend {post : Unit → Cursor → Prop} :
    Meets descend c post fails ↔
      if c.level + 1 > maxDepth then fails (.nestingTooDeep c.line)
      else post () { c with level := c.level + 1 } := by
  unfold descend
  simp only [meets_bind, meets_modify, meets_get, meets_ite]
  split <;> rfl

@[simp] theorem meets_openNesting {post : Unit → Cursor → Prop} :
    Meets openNesting c post fails ↔
      if c.depth + 1 > maxDepth then fails (.nestingTooDeep c.line)
      else post () { c with depth := c.depth + 1 } := by
  unfold openNesting
  simp only [meets_bind, meets_modify, meets_get, meets_ite]
  split <;> rfl

@[simp] theorem meets_nested {step : Step α} {post : α → Cursor → Prop} :
    Meets (nested step) c post fails ↔
      if c.depth + 1 > maxDepth then fails (.nestingTooDeep c.line)
      else Meets step { c with depth := c.depth + 1 }
        (fun a c' => post a { c' with depth := c'.depth - 1 }) fails := by
  unfold nested closeNesting
  simp only [meets_bind, meets_openNesting, meets_modify, meets_pure]

@[simp] theorem meets_place {e : Expr} {h : Nat} {post : Node → Cursor → Prop} :
    Meets (place e h) c post fails ↔
      if c.level + (h + 1) > maxDepth then fails (.nestingTooDeep c.line)
      else post ⟨e, h + 1⟩ c := by
  unfold place
  simp only [meets_bind, meets_get, meets_ite]
  split <;> rfl

/-- Where the text consists of tokens throughout, consuming one always succeeds. -/
theorem meets_advance {t : Token} {rest : List Token} {line : Nat} {post : Token → Cursor → Prop}
    (ht : c.tokens = t :: rest) (hc : c.ending = .complete line) :
    Meets advance c post fails ↔ post t { c with tokens := rest } := by
  unfold advance
  rw [meets_bind, meets_get]
  cases rest with
  | nil => rw [ht, hc]; rfl
  | cons u rest => rw [ht, hc]; rfl

theorem meets_consume {t : Token} {rest : List Token} {kind : TokenKind} {line : Nat}
    {post : Token → Cursor → Prop} (ht : c.tokens = t :: rest) (hc : c.ending = .complete line)
    (hk : t.kind = kind) : Meets (consume kind) c post fails ↔ post t { c with tokens := rest } := by
  have hat : c.kind? = some kind := by
    rw [Cursor.kind?, ht]
    exact congrArg some hk
  unfold consume
  rw [meets_bind, meets_isAt, decide_eq_true hat]
  exact meets_advance ht hc

/-- A reading starts in front of all tokens, outside all blocks, with a fresh
table. -/
theorem Cursor.eq_of_ofTape {tape : Tape} (h : Cursor.ofTape tape = .ok c) :
    c = ⟨tape.tokens, tape.ending, NameTable.fresh, 0, 0, 1⟩ := by
  unfold Cursor.ofTape at h
  split at h
  · cases h
  · exact (Except.ok.inj h).symm

/-! ## The way between two cursors -/

/-- The cursors are as far apart as the tokens, and what is mentioned between
them is in order. -/
structure Passes (c : Cursor) (ts : List Token) (ms : List (Mention Token)) (c' : Cursor) :
    Prop where
  tokens : c.tokens = ts ++ c'.tokens
  declared : c.names.firstUndeclared Token.text ms = none
  names : c'.names = c.names.after Token.text ms
  ending : c'.ending = c.ending
  depth : c'.depth = c.depth
  level : c'.level = c.level

namespace Passes

variable {c c' c'' : Cursor} {ts us : List Token} {ms ns : List (Mention Token)}

/-- Past nothing, with nothing mentioned. -/
theorem refl (c : Cursor) : Passes c [] [] c :=
  ⟨rfl, rfl, rfl, rfl, rfl, rfl⟩

theorem trans (h : Passes c ts ms c') (h' : Passes c' us ns c'') :
    Passes c (ts ++ us) (ms ++ ns) c'' := by
  constructor
  · rw [h.tokens, h'.tokens, List.append_assoc]
  · rw [NameTable.firstUndeclared_append, h.declared, ← h.names, h'.declared]
    rfl
  · rw [h'.names, h.names, NameTable.after_append]
  · rw [h'.ending, h.ending]
  · rw [h'.depth, h.depth]
  · rw [h'.level, h.level]

theorem token {t : Token} {rest : List Token} (h : c.tokens = t :: rest) :
    Passes c [t] [] { c with tokens := rest } :=
  ⟨h, rfl, rfl, rfl, rfl, rfl⟩

theorem reads {rest : List Token} (h : c.tokens = ts ++ rest) (hm : missing? c.names ts = none) :
    Passes c ts (readsOf ts) { c with tokens := rest } :=
  ⟨h, hm, (NameTable.after_reads _ _ _).symm, rfl, rfl, rfl⟩

theorem declare (t : Token) :
    Passes c [] [.declare t] { c with names := c.names.declare t.text } :=
  ⟨rfl, rfl, rfl, rfl, rfl, rfl⟩

end Passes

/-! ## Results alone -/

/-- Started at `c`, the step fails or gives a result with `post`. -/
abbrev Ensures (step : Step α) (c : Cursor) (post : α → Cursor → Prop) : Prop :=
  Meets step c post fun _ => True

theorem Cursor.kind?_eq_some {kind : TokenKind} :
    c.kind? = some kind ↔ ∃ t rest, c.tokens = t :: rest ∧ t.kind = kind := by
  unfold Cursor.kind?
  cases c.tokens <;> simp

theorem ensures_advance {kind : TokenKind} {post : Token → Cursor → Prop}
    (hk : c.kind? = some kind)
    (h : ∀ t rest, c.tokens = t :: rest → t.kind = kind → post t { c with tokens := rest }) :
    Ensures advance c post := by
  obtain ⟨t, rest, ht, hk⟩ := Cursor.kind?_eq_some.mp hk
  unfold advance
  rw [Ensures, meets_bind, meets_get, ht]
  split
  · trivial
  · trivial
  · next hts _ =>
    cases hts
    exact h t rest ht hk

theorem ensures_consume {kind : TokenKind} {post : Token → Cursor → Prop}
    (h : ∀ t rest, c.tokens = t :: rest → t.kind = kind → post t { c with tokens := rest }) :
    Ensures (consume kind) c post := by
  unfold consume
  simp only [Ensures, meets_bind, meets_isAt, meets_ite, decide_eq_true_eq, meets_refuse]
  split
  · next hk => exact ensures_advance hk h
  · trivial

theorem ensures_word {meaning? : TokenKind → Option α} {post : α → Cursor → Prop}
    (h : ∀ t rest a, c.tokens = t :: rest → meaning? t.kind = some a →
      post a { c with tokens := rest }) :
    Ensures (word meaning?) c post := by
  unfold word
  rw [Ensures, meets_bind, meets_peek]
  split
  · next a ha =>
    obtain ⟨kind, hk, ha⟩ := Option.bind_eq_some_iff.mp ha
    rw [meets_bind]
    exact ensures_advance hk fun t rest ht htk => h t rest a ht (htk ▸ ha)
  · trivial

/-! ## Runs as results -/

section Results

variable {step : Step α} {next : α → Step β} {c' : Cursor} {a : α} {e : ParseError}

/-- A run is what it meets. -/
theorem run_eq_iff {r : Except ParseError (α × Cursor)} :
    step c = r ↔ Meets step c (fun a c' => .ok (a, c') = r) fun e => .error e = r := by
  unfold Meets
  cases step c <;> rfl

theorem run_bind_of_ok (h : step c = .ok (a, c')) : (step >>= next) c = next a c' := by
  show (step c >>= fun r => next r.1 r.2) = next a c'
  rw [h]
  rfl

theorem run_bind_of_error (h : step c = .error e) : (step >>= next) c = .error e := by
  show (step c >>= fun r => next r.1 r.2) = .error e
  rw [h]
  rfl

theorem run_bind_left {step' : Step α} (h : step c = step' c) :
    (step >>= next) c = (step' >>= next) c := by
  show (step c >>= fun r => next r.1 r.2) = step' c >>= fun r => next r.1 r.2
  rw [h]

/-- What comes behind a step may differ where the step does not end. -/
theorem run_bind_congr {next' : α → Step β}
    (h : Ensures step c fun a c' => next a c' = next' a c') :
    (step >>= next) c = (step >>= next') c := by
  cases hs : step c with
  | error e => rw [run_bind_of_error hs, run_bind_of_error hs]
  | ok r => rw [run_bind_of_ok hs, run_bind_of_ok hs, h.of_eq_ok hs]

end Results

/-! ## The levels of a reading -/

theorem ite_bind {b : Bool} {step step' : Step α} {next : α → Step β} :
    (if b then step else step') >>= next = if b then step >>= next else step' >>= next := by
  cases b <;> rfl

/-- An expression up to its conversion. -/
def convertible (operand : Step Node) : Step Node := do
  if ← isAt .solve then solve operand
  else leftAssociative (sum operand) comparisonOperator?

theorem expressionOf_eq (operand : Step Node) :
    expressionOf operand = nested (do
      let e ← convertible operand
      if ← isAt .asWord then
        let _ ← advance
        let type ← word castType?
        placeOver e (.cast · type)
      else return e) := by
  unfold expressionOf convertible
  simp only [bind_assoc, ite_bind]

/-- The operators that join the operands of a level. -/
def Level.operator? : Level → Expr → TokenKind → Option (Expr → Expr → Expr)
  | .product => productOperator?
  | .sum => sumOperator?
  | .comparison => comparisonOperator?
  | .value => valueOperator?
  | .prompt => promptOperator?
  | _ => fun _ _ => none

theorem compareOp?_eq_some {k : TokenKind} {op : CompareOp} :
    compareOp? k = some op ↔ k = op.kind := by
  cases op <;> cases k <;> decide

theorem domain?_eq_some {k : TokenKind} {d : Domain} : domain? k = some d ↔ k = d.kind := by
  cases d <;> cases k <;> decide

theorem castType?_eq_some {k : TokenKind} {t : CastType} :
    castType? k = some t ↔ k = t.kind := by
  cases t <;> cases k <;> decide

/-- **A reading joins operands just as the grammar does.** -/
theorem joins_iff {level : Level} {k : TokenKind} {l r e : Expr} :
    Joins level k l r e ↔ ∃ build, level.operator? l k = some build ∧ build l r = e := by
  constructor
  · intro h
    cases h with
    | multiply | divide | subtract | promptComma => exact ⟨_, rfl, rfl⟩
    | add hl hr => exact ⟨_, rfl, by simp [addition, hl, hr]⟩
    | append h => exact ⟨_, rfl, by simp [addition, h]⟩
    | compare op =>
      refine ⟨fun l r => .comparison l op r, ?_, rfl⟩
      rw [Level.operator?, comparisonOperator?, compareOp?_eq_some.mpr rfl]
      rfl
    | valueComma h => exact ⟨_, by rw [Level.operator?, valueOperator?, if_pos h]; rfl, rfl⟩
  · rintro ⟨build, hb, rfl⟩
    cases level with
    | product =>
      cases k <;> cases hb
      · exact .multiply
      · exact .divide
    | sum =>
      cases k <;> cases hb
      · unfold addition
        split
        · next h => exact .append (by simpa using h)
        · next h =>
          simp only [Bool.or_eq_true, not_or, Bool.not_eq_true] at h
          exact .add h.1 h.2
      · exact .subtract
    | comparison =>
      obtain ⟨op, hop, rfl⟩ := Option.map_eq_some_iff.mp hb
      rw [compareOp?_eq_some.mp hop]
      exact .compare op
    | value =>
      rw [Level.operator?, valueOperator?] at hb
      split at hb
      · next h => cases k <;> cases hb; exact .valueComma h
      · cases hb
    | prompt => cases k <;> cases hb; exact .promptComma
    | _ => cases hb

/-! ## The parts of a statement -/

/-- The prompt of an input, unless the input goes on without one. -/
def optionalPrompt : Step (Option Expr) := do
  if ← isAt .greater then return none
  else return some (← prompt).expr

/-- The conversion of an input, if there is one. -/
def optionalCast : Step (Option CastType) := do
  if ← isAt .asWord then
    let _ ← advance
    return some (← word castType?)
  else return none

theorem input_eq :
    input = do
      let _ ← consume .inWord
      let prompt ← optionalPrompt
      let _ ← consume .greater
      let target ← consume .identifier
      let cast ← optionalCast
      declare target.text
      return .input target.text prompt cast := by
  unfold input optionalPrompt optionalCast
  simp only [bind_assoc, ite_bind, pure_bind]

/-- What stands in a block. -/
def body (statement : Step Stmt) : Step (List Stmt) := do
  if ← isAt .leftBrace then
    let _ ← advance
    let ss ← statements statement (some .rightBrace)
    let _ ← advance
    return ss
  else return [← statement]

theorem blockOf_eq (statement : Step Stmt) :
    blockOf statement = nested (do
      descend
      let ss ← body statement
      ascend
      return ss) := by
  unfold blockOf body
  simp only [bind_assoc, ite_bind, pure_bind]

end Grammar
end MathScript
