import MathScript.Grammar.Cursor

/-!
# Reading expressions

Loosest first, the levels of an expression are: a conversion by `AS`; `SOLVE` or
comparisons; sums; products; signs; powers; and what stands alone or in
parentheses.  Everything groups to the left except `^`.

Each level is written over the level inside parentheses as a parameter.  The
levels close upon themselves in `operand`, by recursion on how many more
nestings may open; `maxDepth` of them always suffice, since the cursor's own
counter stops a reading there.
-/

namespace MathScript.Grammar

/-- The contents of a string literal. -/
def unquote (literal : String) : String :=
  String.ofList (literal.toList.drop 1).dropLast

/-- Reads on after `left`: while the lookahead is an operator that may follow
what has been read, one more operand is read and joined to it.  Each round takes
a token, so `ahead`, the tokens there are when the loop starts, outlasts it. -/
def foldLeft (part : Step Node)
    (operator? : Expr → TokenKind → Option (Expr → Expr → Expr)) :
    (ahead : List Token) → Node → Step Node
  | [], left => return left
  | _ :: ahead, left => do
    match (← peek).bind (operator? left.expr) with
    | none => return left
    | some build =>
      let _ ← advance
      let right ← part
      foldLeft part operator? ahead (← placeOverBoth left right build)

/-- One operand, or several joined by operators from the left. -/
def leftAssociative (part : Step Node)
    (operator? : Expr → TokenKind → Option (Expr → Expr → Expr)) : Step Node := do
  let first ← part
  foldLeft part operator? (← get).tokens first

/-- `+` joins strings and adds numbers. -/
def addition (left right : Expr) : Expr :=
  if left.isString || right.isString then .concat left right false else .binary left .add right

/-- The operators between the terms of a sum. -/
def sumOperator? (_ : Expr) : TokenKind → Option (Expr → Expr → Expr)
  | .plus => some addition
  | .minus => some (.binary · .sub ·)
  | _ => none

/-- The operators between the factors of a product. -/
def productOperator? (_ : Expr) : TokenKind → Option (Expr → Expr → Expr)
  | .times => some (.binary · .mul ·)
  | .divide => some (.binary · .div ·)
  | _ => none

/-- The comparison a token stands for. -/
def compareOp? : TokenKind → Option CompareOp
  | .equalTo => some .equal
  | .notEqual => some .notEqual
  | .less => some .less
  | .lessOrEqual => some .lessOrEqual
  | .greater => some .greater
  | .greaterOrEqual => some .greaterOrEqual
  | _ => none

/-- The operators between the sides of a comparison. -/
def comparisonOperator? (_ : Expr) (kind : TokenKind) : Option (Expr → Expr → Expr) :=
  (compareOp? kind).map fun op l r => .comparison l op r

/-- A comma between the parts of a prompt. -/
def promptOperator? (_ : Expr) : TokenKind → Option (Expr → Expr → Expr)
  | .comma => some (.concat · · true)
  | _ => none

/-- A comma between the parts of an assigned value: only after a string. -/
def valueOperator? (left : Expr) (kind : TokenKind) : Option (Expr → Expr → Expr) :=
  if left.isString then promptOperator? left kind else none

/-- The operator of a sign. -/
def sign? : TokenKind → Option ArithOp
  | .plus => some .add
  | .minus => some .sub
  | _ => none

/-- The domain a token stands for. -/
def domain? : TokenKind → Option Domain
  | .integer => some .integers
  | .rational => some .rationals
  | .real => some .reals
  | .complex => some .complexes
  | _ => none

/-- The type a token stands for. -/
def castType? : TokenKind → Option CastType
  | .integer => some .integer
  | .real => some .real
  | .string => some .string
  | _ => none

/-- Consumes a token that stands for something, and fails at any other. -/
def word {α : Type} (meaning? : TokenKind → Option α) : Step α := do
  match (← peek).bind meaning? with
  | some a =>
    let _ ← advance
    return a
  | none => refuse

/-- A number, a string, a name, a name at an argument, or parentheses; `inner`
reads what stands inside parentheses. -/
def primary (inner : Step Node) : Step Node := do
  match ← peek with
  | some .number => placeLeaf (.number (← advance).text)
  | some .stringLiteral => placeLeaf (.text (unquote (← advance).text))
  | some .identifier =>
    let name ← advance
    checkDeclared name
    if ← isAt .leftParen then
      let _ ← advance
      let argument ← inner
      let _ ← consume .rightParen
      placeOver argument (.evaluation name.text)
    else placeLeaf (.name name.text)
  | some .leftParen =>
    let _ ← advance
    let e ← inner
    let _ ← consume .rightParen
    return e
  | _ => refuse

/-- A primary, or a power; `exponent` reads what stands behind `^`. -/
def power (inner exponent : Step Node) : Step Node := do
  let base ← primary inner
  if ← isAt .caret then
    let _ ← advance
    let e ← nested exponent
    placeOverBoth base e (.binary · .pow ·)
  else return base

/-- A power, or a sign in front of an operand.  A sign is read as the operator
between 0 and the operand; `signed` reads what stands behind it. -/
def unary (inner signed : Step Node) : Step Node := do
  match (← peek).bind sign? with
  | some op =>
    let _ ← advance
    let e ← nested signed
    placeOverBoth (← placeLeaf (.number "0")) e (.binary · op ·)
  | none => power inner signed

/-- A sum of products of operands. -/
def sum (operand : Step Node) : Step Node :=
  leftAssociative (leftAssociative operand productOperator?) sumOperator?

/-- `SOLVE`, and the domain behind `IN` or `AS` if there is one. -/
def solve (operand : Step Node) : Step Node := do
  let _ ← consume .solve
  let equation ← sum operand
  let domain ← do
    if (← isAt .inWord) || (← isAt .asWord) then
      let _ ← advance
      word domain?
    else pure Domain.standard
  placeOver equation (.solve · domain)

/-- A whole expression, conversion included. -/
def expressionOf (operand : Step Node) : Step Node := nested do
  let e ←
    if ← isAt .solve then solve operand
    else leftAssociative (sum operand) comparisonOperator?
  if ← isAt .asWord then
    let _ ← advance
    let type ← word castType?
    placeOver e (.cast · type)
  else return e

/-- An operand inside which at most `n` more nestings may open. -/
def operand : (n : Nat) → Step Node
  | 0 => unary refuseDepth refuseDepth
  | n + 1 => unary (expressionOf (operand n)) (operand n)

/-- An expression. -/
def expression : Step Node :=
  expressionOf (operand maxDepth)

/-- The value of an assignment: behind a string, a comma joins one more
expression with a space. -/
def value : Step Node :=
  leftAssociative expression valueOperator?

/-- The prompt of an input: sums, joined with spaces by commas. -/
def prompt : Step Node :=
  leftAssociative (sum (operand maxDepth)) promptOperator?

end MathScript.Grammar
