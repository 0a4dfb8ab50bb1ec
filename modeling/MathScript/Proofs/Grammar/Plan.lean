import MathScript.Grammar.Statement

/-!
# Readings, action by action

A step says what becomes of a cursor, and nothing of what happens on the way.  Here the rules of
the grammar are written once more as plans, which are made of single actions, and the run of a
plan leaves a log: each action with the cursor that it is done at, up to the end of the run or to
the point where it fails.  A rule and its plan share their name and, but for parts that have
names of their own, their text.

* `Plan.run`: what a plan does, as a step.
* `Plan.log`: the actions of a run, each with the cursor that it is done at.
* `Plan.exists_trail`: **the log leaves nothing out that becomes of the cursor**.
* `Plan.program`: the plan for the reading of a program.
-/

namespace MathScript
namespace Grammar

variable {α β : Type}

/-- What a reading does: it moves its cursor, or it builds a node there. -/
inductive Action where
  | take
  | declare (name : String)
  | ask
  | openNesting
  | closeNesting
  | descend
  | ascend
  | build (node : Node)
deriving DecidableEq, Repr

/-- The cursor behind an action. -/
def Action.apply (c : Cursor) : Action → Cursor
  | take => { c with tokens := c.tokens.tail }
  | declare name => { c with names := c.names.declare name }
  | ask => { c with checks := c.checks + 1 }
  | openNesting => { c with depth := c.depth + 1 }
  | closeNesting => { c with depth := c.depth - 1 }
  | descend => { c with level := c.level + 1 }
  | ascend => { c with level := c.level - 1 }
  | build _ => c

/-- How a part of a reading goes about: it looks at the cursor, acts, and fails or comes to a
result. -/
inductive Plan (α : Type) : Type
  | done (a : α)
  | fail (e : ParseError)
  | look (next : Cursor → Plan α)
  | act (action : Action) (next : Plan α)

namespace Plan

/-- One plan behind the other. -/
def bind : Plan α → (α → Plan β) → Plan β
  | done a, next => next a
  | fail e, _ => fail e
  | look plan, next => look fun c => (plan c).bind next
  | act action plan, next => act action (plan.bind next)

instance : Monad Plan where
  pure := done
  bind := bind

/-- What a plan does. -/
def run : Plan α → Cursor → Except ParseError (α × Cursor)
  | done a, c => .ok (a, c)
  | fail e, _ => .error e
  | look next, c => (next c).run c
  | act action next, c => next.run (action.apply c)

/-- What is done in the run of a plan, and where. -/
def log : Plan α → Cursor → List (Cursor × Action)
  | done _, _ | fail _, _ => []
  | look next, c => (next c).log c
  | act action next, c => (c, action) :: next.log (action.apply c)

theorem run_bind (plan : Plan α) (next : α → Plan β) (c : Cursor) :
    (plan >>= next).run c = match plan.run c with
      | .ok (a, c') => (next a).run c'
      | .error e => .error e := by
  induction plan generalizing c with
  | done | fail => rfl
  | look plan ih => exact ih c c
  | act action plan ih => exact ih _

theorem log_bind (plan : Plan α) (next : α → Plan β) (c : Cursor) :
    (plan >>= next).log c = plan.log c ++ match plan.run c with
      | .ok (a, c') => (next a).log c'
      | .error _ => [] := by
  induction plan generalizing c with
  | done | fail => rfl
  | look plan ih => exact ih c c
  | act action plan ih => exact congrArg ((c, action) :: ·) (ih _)

end Plan

/-- The actions are done one behind the other, each where the last one has led to. -/
def Trail : Cursor → List (Cursor × Action) → Cursor → Prop
  | c, [], c' => c' = c
  | c, (d, action) :: more, c' => d = c ∧ Trail (action.apply c) more c'

namespace Plan

/-- **The log of a run is a trail**, and a run that succeeds ends where it leads to. -/
theorem exists_trail (plan : Plan α) (c : Cursor) :
    ∃ d, Trail c (plan.log c) d ∧ ∀ a c', plan.run c = .ok (a, c') → c' = d := by
  induction plan generalizing c with
  | done a =>
    refine ⟨c, rfl, fun b c' h => ?_⟩
    cases h
    rfl
  | fail e => exact ⟨c, rfl, nofun⟩
  | look next ih => exact ih c c
  | act action next ih =>
    obtain ⟨d, htrail, hend⟩ := ih (action.apply c)
    exact ⟨d, ⟨rfl, htrail⟩, hend⟩

/-! ## Moves -/

def get : Plan Cursor :=
  look done

def perform (action : Action) : Plan Unit :=
  act action (done ())

def peek : Plan (Option TokenKind) := do
  return (← get).kind?

def isAt (kind : TokenKind) : Plan Bool := do
  return (← peek) = some kind

def refuse : Plan α := do
  fail (← get).unexpected

def refuseDepth : Plan α := do
  fail (.nestingTooDeep (← get).line)

def advance : Plan Token := do
  let c ← get
  match c.tokens, c.ending with
  | [], _ => fail .unexpectedEnd
  | [_], .unrecognised e => fail (.lexical e)
  | t :: _, _ =>
    perform .take
    return t

def consume (kind : TokenKind) : Plan Token := do
  if ← isAt kind then advance else refuse

def consult (interrupt : Interrupt) : Plan Unit := do
  let c ← get
  perform .ask
  match interrupt.check c.checks with
  | some reason => fail (.interrupted reason)
  | none => return

def openNesting : Plan Unit := do
  perform .openNesting
  if (← get).depth > maxDepth then refuseDepth

def closeNesting : Plan Unit :=
  perform .closeNesting

def nested (plan : Plan α) : Plan α := do
  openNesting
  let a ← plan
  closeNesting
  return a

def descend : Plan Unit := do
  perform .descend
  if (← get).level > maxDepth then refuseDepth

def ascend : Plan Unit :=
  perform .ascend

def declare (name : String) : Plan Unit :=
  perform (.declare name)

def checkDeclared (t : Token) : Plan Unit := do
  unless (← get).names.contains t.text do
    fail (.undefinedName t.text t.line)

def place (expr : Expr) (childHeight : Nat) : Plan Node := do
  if (← get).level + (childHeight + 1) > maxDepth then refuseDepth
  perform (.build ⟨expr, childHeight + 1⟩)
  return ⟨expr, childHeight + 1⟩

def placeLeaf (expr : Expr) : Plan Node :=
  place expr 0

def placeOver (inner : Node) (build : Expr → Expr) : Plan Node :=
  place (build inner.expr) inner.height

def placeOverBoth (left right : Node) (build : Expr → Expr → Expr) : Plan Node :=
  place (build left.expr right.expr) (max left.height right.height)

/-! ### What moves log -/

section Logs

variable (c : Cursor)

/-- A token is taken, or the move fails and does nothing. -/
theorem log_advance : advance.log c = [] ∨ advance.log c = [(c, .take)] := by
  obtain ⟨tokens, ending, _⟩ := c
  rcases tokens with _ | ⟨t, _ | ⟨u, rest⟩⟩
  · exact .inl rfl
  · cases ending with
    | complete line => exact .inr rfl
    | unrecognised e => exact .inl rfl
  · exact .inr rfl

theorem log_consult (interrupt : Interrupt) : (consult interrupt).log c = [(c, .ask)] := by
  simp only [consult, log_bind, get, perform, log, run, Action.apply]
  cases interrupt.check c.checks <;> rfl

theorem log_openNesting : openNesting.log c = [(c, .openNesting)] := by
  show _ :: log (if c.depth + 1 > maxDepth then _ else _) _ = _
  split <;> rfl

theorem log_descend : descend.log c = [(c, .descend)] := by
  show _ :: log (if c.level + 1 > maxDepth then _ else _) _ = _
  split <;> rfl

theorem log_checkDeclared (t : Token) : (checkDeclared t).log c = [] := by
  show log (if c.names.contains t.text then _ else _) _ = _
  split <;> rfl

/-- A node that does not fit in is not built. -/
theorem log_place (e : Expr) (height : Nat) : (place e height).log c =
    if c.level + (height + 1) > maxDepth then [] else [(c, .build ⟨e, height + 1⟩)] := by
  show log (if c.level + (height + 1) > maxDepth then _ else _) _ = _
  split <;> rfl

end Logs

/-! ## Expressions -/

def foldLeft (part : Plan Node)
    (operator? : Expr → TokenKind → Option (Expr → Expr → Expr)) :
    (ahead : List Token) → Node → Plan Node
  | [], left => return left
  | _ :: ahead, left => do
    match (← peek).bind (operator? left.expr) with
    | none => return left
    | some build =>
      let _ ← advance
      let right ← part
      foldLeft part operator? ahead (← placeOverBoth left right build)

def leftAssociative (part : Plan Node)
    (operator? : Expr → TokenKind → Option (Expr → Expr → Expr)) : Plan Node := do
  let first ← part
  foldLeft part operator? (← get).tokens first

def word (meaning? : TokenKind → Option α) : Plan α := do
  match (← peek).bind meaning? with
  | some a =>
    let _ ← advance
    return a
  | none => refuse

def primary (inner : Plan Node) : Plan Node := do
  match ← peek with
  | some .number => placeLeaf (.number (← advance).text)
  | some .stringLiteral => placeLeaf (.text (unquote (← advance).text))
  | some .identifier =>
    let name ← advance
    checkDeclared name
    if ← isAt .leftParen then
      let _ ← advance
      let argument ← inner
      let _ ← consume .rightParen
      placeOver argument (.evaluation name.text)
    else placeLeaf (.name name.text)
  | some .leftParen =>
    let _ ← advance
    let e ← inner
    let _ ← consume .rightParen
    return e
  | _ => refuse

def power (inner exponent : Plan Node) : Plan Node := do
  let base ← primary inner
  if ← isAt .caret then
    let _ ← advance
    let e ← nested exponent
    placeOverBoth base e (.binary · .pow ·)
  else return base

def unary (inner signed : Plan Node) : Plan Node := do
  match (← peek).bind sign? with
  | some op =>
    let _ ← advance
    let e ← nested signed
    placeOverBoth (← placeLeaf (.number "0")) e (.binary · op ·)
  | none => power inner signed

def sum (operand : Plan Node) : Plan Node :=
  leftAssociative (leftAssociative operand productOperator?) sumOperator?

def solve (operand : Plan Node) : Plan Node := do
  let _ ← consume .solve
  let equation ← sum operand
  let domain ← do
    if (← isAt .inWord) || (← isAt .asWord) then
      let _ ← advance
      word domain?
    else pure Domain.standard
  placeOver equation (.solve · domain)

def convertible (operand : Plan Node) : Plan Node := do
  if ← isAt .solve then solve operand
  else leftAssociative (sum operand) comparisonOperator?

def expressionOf (operand : Plan Node) : Plan Node := nested do
  let e ← convertible operand
  if ← isAt .asWord then
    let _ ← advance
    let type ← word castType?
    placeOver e (.cast · type)
  else return e

def operand : (n : Nat) → Plan Node
  | 0 => unary refuseDepth refuseDepth
  | n + 1 => unary (expressionOf (operand n)) (operand n)

def expression : Plan Node :=
  expressionOf (operand maxDepth)

def value : Plan Node :=
  leftAssociative expression valueOperator?

def prompt : Plan Node :=
  leftAssociative (sum (operand maxDepth)) promptOperator?

/-! ## Statements -/

def moreArguments : (ahead : List Token) → Plan (List Expr)
  | [] => return []
  | _ :: ahead => do
    if ← isAt .comma then
      let _ ← advance
      let e ← expression
      return e.expr :: (← moreArguments ahead)
    else return []

def arguments : Plan (List Expr) := do
  let first ← expression
  return first.expr :: (← moreArguments (← get).tokens)

def condition : Plan Expr := do
  let _ ← consume .leftParen
  let e ← expression
  let _ ← consume .rightParen
  return e.expr

def optionalPrompt : Plan (Option Expr) := do
  if ← isAt .greater then return none else return some (← prompt).expr

def optionalCast : Plan (Option CastType) := do
  if ← isAt .asWord then
    let _ ← advance
    return some (← word castType?)
  else return none

def input : Plan Stmt := do
  let _ ← consume .inWord
  let prompt ← optionalPrompt
  let _ ← consume .greater
  let target ← consume .identifier
  let cast ← optionalCast
  declare target.text
  return .input target.text prompt cast

def simple : Plan Stmt := do
  match ← peek with
  | some .identifier =>
    let target ← advance
    let _ ← consume .assign
    let e ← value
    declare target.text
    return .assignment target.text e.expr
  | some .print =>
    let _ ← advance
    return .print (← arguments)
  | some .plot =>
    let _ ← advance
    return .plot (← arguments)
  | some .inWord => input
  | _ => refuse

def moreStatements (statement : Plan Stmt) (stop : Option TokenKind) :
    (ahead : List Token) → Plan (List Stmt)
  | [] => do
    if (← peek) = stop then return []
    else return [← statement]
  | _ :: ahead => do
    if (← peek) = stop then return []
    else
      let s ← statement
      return s :: (← moreStatements statement stop ahead)

def statements (statement : Plan Stmt) (stop : Option TokenKind) : Plan (List Stmt) := do
  let first ← statement
  return first :: (← moreStatements statement stop (← get).tokens)

def statementOf (interrupt : Interrupt) (block : Plan (List Stmt)) : Plan Stmt := do
  consult interrupt
  match ← peek with
  | some .ifWord =>
    let _ ← advance
    let c ← condition
    let body ← block
    if ← isAt .elseWord then
      let _ ← advance
      return .ifThenElse c body (← block)
    else return .ifThen c body
  | some .whileWord =>
    let _ ← advance
    let c ← condition
    return .whileLoop c (← block)
  | _ =>
    let s ← simple
    let _ ← consume .semicolon
    return s

/-- Runs a plan on the next level. -/
def descended (plan : Plan α) : Plan α := do
  descend
  let a ← plan
  ascend
  return a

def body (statement : Plan Stmt) : Plan (List Stmt) := do
  if ← isAt .leftBrace then
    let _ ← advance
    let ss ← statements statement (some .rightBrace)
    let _ ← advance
    return ss
  else return [← statement]

def blockOf (statement : Plan Stmt) : Plan (List Stmt) :=
  nested (descended (body statement))

def block (interrupt : Interrupt) : (n : Nat) → Plan (List Stmt)
  | 0 => refuseDepth
  | n + 1 => blockOf (statementOf interrupt (block interrupt n))

def statement (interrupt : Interrupt) : Plan Stmt :=
  statementOf interrupt (block interrupt maxDepth)

def program (interrupt : Interrupt) : Plan Program := do
  return ⟨← statements (statement interrupt) none⟩

end Plan
end Grammar
end MathScript
