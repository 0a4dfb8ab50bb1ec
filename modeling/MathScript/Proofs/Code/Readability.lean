import MathScript.Proofs.Code.Literal
import MathScript.Proofs.Code.Text

/-!
# Unique readability of generated code

The text of a program under the names of its slots determines the program.  An
expression is followed by a closing parenthesis, a comma, a colon or the end of
its line, which ends the runs of digits that it may end with; everything else is
closed by parentheses and quotes of its own.

* `Expr.write_inj`: **the text of an expression determines it**, also with a rest
  behind it.
* `linesOf_inj`: the lines of a block determine it, with lines of less
  indentation behind them.
-/

namespace MathScript

/-- What may stand behind an expression. -/
def Closes (rest : List Char) : Prop :=
  ∀ c ∈ rest.head?, c = ')' ∨ c = ',' ∨ c = ':'

theorem closes_nil : Closes [] := by
  intro c hc
  cases hc

theorem closes_cons {c : Char} (h : c = ')' ∨ c = ',' ∨ c = ':') (rest : List Char) :
    Closes (c :: rest) := by
  intro d hd
  cases hd
  exact h

theorem closes_paren (rest : List Char) : Closes (')' :: rest) :=
  closes_cons (Or.inl rfl) rest

/-- What closes an expression is neither a digit nor any other character of a leaf. -/
theorem Closes.head_eq_false {p : Char → Bool} {rest : List Char} (h : Closes rest)
    (hp : p ')' = false ∧ p ',' = false ∧ p ':' = false) : ∀ c ∈ rest.head?, p c = false := by
  intro c hc
  rcases h c hc with rfl | rfl | rfl
  exacts [hp.1, hp.2.1, hp.2.2]

/-- What stands in front of the first `c` is determined. -/
theorem until_inj {c : Char} {as bs r s : List Char} (h : as ++ c :: r = bs ++ c :: s)
    (has : c ∉ as) (hbs : c ∉ bs) : as = bs ∧ r = s := by
  have hne : ∀ {cs : List Char}, c ∉ cs → ∀ d ∈ cs, (d != c) = true := by
    intro cs hcs d hd
    rw [bne_iff_ne]
    rintro rfl
    exact hcs hd
  obtain ⟨hab, hrest⟩ := run_inj h (hne has) (hne hbs) (by simp) (by simp)
  exact ⟨hab, (List.cons.inj hrest).2⟩

/-! ## How an expression starts -/

/-- What the text of an expression starts with. -/
inductive Expr.Head where
  | digit | quote | slot | group | evaluation | solve
  | conversion (type : CastType)

def Expr.head : Expr → Expr.Head
  | .number _ => .digit
  | .text _ => .quote
  | .name _ => .slot
  | .binary .. | .comparison .. => .group
  | .concat .. => .conversion .string
  | .evaluation .. => .evaluation
  | .solve .. => .solve
  | .cast _ type => .conversion type

/-- What a text that starts with an underscore behind it is. -/
def Expr.Head.readUnderscore : List Char → Expr.Head
  | 's' :: '.' :: 's' :: 'y' :: _ => .evaluation
  | 's' :: _ => .solve
  | _ => .slot

/-- The head of the expression that a text starts with. -/
def Expr.Head.read : List Char → Expr.Head
  | '"' :: _ => .quote
  | '(' :: _ => .group
  | 's' :: _ => .conversion .string
  | 'i' :: _ => .conversion .integer
  | 'f' :: _ => .conversion .real
  | '_' :: cs => readUnderscore cs
  | _ => .digit

theorem IsNumeral.toList {w : String} (h : IsNumeral w) : ∃ c cs, w.toList = c :: cs ∧
    c.isDigit = true ∧ ∀ d ∈ c :: cs, (d.isDigit || d == '.') = true := by
  obtain ⟨whole, hw, he⟩ := h
  obtain ⟨c, cs, rfl⟩ := List.exists_cons_of_ne_nil hw.1
  have hwhole : ∀ d ∈ c :: cs, (d.isDigit || d == '.') = true := fun d hd => by
    rw [hw.2 d hd, Bool.true_or]
  rcases he with he | ⟨fraction, hf, he⟩
  · exact ⟨c, cs, he, hw.2 c List.mem_cons_self, hwhole⟩
  · refine ⟨c, cs ++ '.' :: fraction, he, hw.2 c List.mem_cons_self, fun d hd => ?_⟩
    rw [← List.cons_append] at hd
    rcases List.mem_append.mp hd with hd | hd
    · exact hwhole d hd
    · rcases List.mem_cons.mp hd with rfl | hd
      · rfl
      · rw [hf.2 d hd, Bool.true_or]

theorem ne_of_isDigit {c d : Char} (h : c.isDigit = true) (hd : d.isDigit = false) : c ≠ d := by
  rintro rfl
  rw [h] at hd
  cases hd

theorem Expr.Head.read_digit {c : Char} (h : c.isDigit = true) (cs : List Char) :
    Expr.Head.read (c :: cs) = .digit := by
  rw [Expr.Head.read] <;>
    · intro _ he
      exact ne_of_isDigit h rfl (List.cons.inj he).1

theorem Expr.Head.readUnderscore_digit {c : Char} (h : c.isDigit = true) (cs : List Char) :
    Expr.Head.readUnderscore (c :: cs) = .slot := by
  rw [Expr.Head.readUnderscore] <;>
    · intro _ he
      exact ne_of_isDigit h rfl (List.cons.inj he).1

/-- **The text of an expression tells its head.** -/
theorem Expr.read_write {e : Expr} (h : e.Shaped IsSlot IsNumeral) (rest : List Char) :
    Expr.Head.read (e.write rest) = e.head := by
  cases e with
  | number w =>
    obtain ⟨c, cs, hw, hc, _⟩ := IsNumeral.toList h
    rw [write, hw]
    exact Expr.Head.read_digit hc _
  | text s => rfl
  | name n =>
    obtain ⟨c, cs, hn, hcs⟩ := IsSlot.toList h
    rw [write, hn]
    exact Expr.Head.readUnderscore_digit (hcs c List.mem_cons_self) _
  | binary _ _ _ | comparison _ _ _ | concat _ _ _ => rfl
  | evaluation n e =>
    rw [write, sympifyOpen, Code.library]
    rfl
  | solve e domain =>
    rw [write, solvesetOpen, Code.library]
    rfl
  | cast e type => cases type <;> rfl

/-! ## Expressions -/

theorem operator_inj {op op' : ArithOp} {r s : List Char}
    (h : (Code.operator op).toList ++ '(' :: r = (Code.operator op').toList ++ '(' :: s) :
    op = op' ∧ r = s := by
  have hparen : ∀ op : ArithOp, '(' ∉ (Code.operator op).toList := by
    intro op
    cases op <;> decide
  obtain ⟨hop, hrest⟩ := until_inj h (hparen op) (hparen op')
  refine ⟨?_, hrest⟩
  revert hop
  cases op <;> cases op' <;> decide

theorem symbol_inj {op op' : CompareOp} {r s : List Char}
    (h : op.symbol.toList ++ '(' :: r = op'.symbol.toList ++ '(' :: s) : op = op' ∧ r = s := by
  have hparen : ∀ op : CompareOp, '(' ∉ op.symbol.toList := by
    intro op
    cases op <;> decide
  obtain ⟨hop, hrest⟩ := until_inj h (hparen op) (hparen op')
  refine ⟨?_, hrest⟩
  revert hop
  cases op <;> cases op' <;> decide

/-- No arithmetic operator is written like a comparison. -/
theorem operator_ne_symbol {op : ArithOp} {op' : CompareOp} {r s : List Char} :
    (Code.operator op).toList ++ '(' :: r ≠ op'.symbol.toList ++ '(' :: s := by
  intro h
  have hop : (Code.operator op).toList = op'.symbol.toList :=
    (until_inj h (by cases op <;> decide) (by cases op' <;> decide)).1
  revert hop
  cases op <;> cases op' <;> decide

theorem function_inj {type : CastType} {r s : List Char}
    (h : type.function ++ '(' :: r = type.function ++ '(' :: s) : r = s :=
  (List.cons.inj (List.append_cancel_left h)).2

theorem joiner_inj {padded padded' : Bool} {r s : List Char}
    (h : (Code.joiner padded).toList ++ (CastType.string.function ++ r) =
      (Code.joiner padded').toList ++ (CastType.string.function ++ s)) :
    padded = padded' ∧ r = s := by
  obtain ⟨hjoiner, hrest⟩ := until_inj h (by cases padded <;> decide) (by cases padded' <;> decide)
  refine ⟨?_, List.append_cancel_left hrest⟩
  revert hjoiner
  cases padded <;> cases padded' <;> decide

/-- A joiner does not close an expression. -/
theorem joiner_ne {padded : Bool} {r s : List Char} (hs : Closes s) :
    (Code.joiner padded).toList ++ r ≠ s := by
  rintro rfl
  have hplus := hs '+' (by cases padded <;> rfl)
  revert hplus
  decide

theorem constant_inj {domain domain' : Domain} {r s : List Char}
    (h : domain.constant.toList ++ ')' :: r = domain'.constant.toList ++ ')' :: s) :
    domain = domain' ∧ r = s := by
  obtain ⟨hdomain, hrest⟩ := until_inj h (by cases domain <;> decide) (by cases domain' <;> decide)
  refine ⟨?_, hrest⟩
  revert hdomain
  cases domain <;> cases domain' <;> decide

/-- A digit or an underscore. -/
def isSlotChar (c : Char) : Bool :=
  c.isDigit || c == '_'

theorem IsSlot.forall_mem {n : String} (h : IsSlot n) : ∀ c ∈ n.toList, isSlotChar c = true := by
  intro c hc
  obtain ⟨d, ds, hlist, hds⟩ := h.toList
  rw [hlist] at hc
  rcases List.mem_cons.mp hc with rfl | hc
  · rfl
  · rw [isSlotChar, hds c hc, Bool.true_or]

theorem slot_inj {n n' : String} {r s : List Char} (h : n.toList ++ r = n'.toList ++ s)
    (hn : IsSlot n) (hn' : IsSlot n') (hr : ∀ c ∈ r.head?, isSlotChar c = false)
    (hs : ∀ c ∈ s.head?, isSlotChar c = false) : n = n' ∧ r = s := by
  obtain ⟨he, hrest⟩ := run_inj h hn.forall_mem hn'.forall_mem hr hs
  exact ⟨String.toList_injective he, hrest⟩

theorem slot_inj_of_closes {n n' : String} {r s : List Char} (h : n.toList ++ r = n'.toList ++ s)
    (hn : IsSlot n) (hn' : IsSlot n') (hr : Closes r) (hs : Closes s) : n = n' ∧ r = s :=
  slot_inj h hn hn' (hr.head_eq_false (by decide)) (hs.head_eq_false (by decide))

theorem closes_subsOpen (rest : List Char) : Closes (subsOpen.toList ++ rest) :=
  closes_paren _

theorem closes_subsClose (rest : List Char) : Closes (subsClose.toList ++ rest) :=
  closes_paren _

theorem closes_domainOpen (rest : List Char) : Closes (domainOpen.toList ++ rest) :=
  closes_cons (Or.inr (Or.inl rfl)) _

theorem Expr.head_eq_of_write_eq {e₁ e₂ : Expr} {r s : List Char} (h : e₁.write r = e₂.write s)
    (h₁ : e₁.Shaped IsSlot IsNumeral) (h₂ : e₂.Shaped IsSlot IsNumeral) : e₁.head = e₂.head := by
  rw [← read_write h₁ r, h, read_write h₂ s]

/-- **The text of an expression determines it.** -/
theorem Expr.write_inj {e₁ e₂ : Expr} {r s : List Char} (h : e₁.write r = e₂.write s)
    (h₁ : e₁.Shaped IsSlot IsNumeral) (h₂ : e₂.Shaped IsSlot IsNumeral) (hr : Closes r)
    (hs : Closes s) : e₁ = e₂ ∧ r = s := by
  -- The heads leave the diagonal and two overlaps: an operator against a comparison,
  -- and a join against a conversion to a string.
  induction e₁ generalizing e₂ r s with
  | number w =>
    have hhead := head_eq_of_write_eq h h₁ h₂
    cases e₂ with
    | number w' =>
      obtain ⟨_, _, hw, _, hcs⟩ := IsNumeral.toList h₁
      obtain ⟨_, _, hw', _, hcs'⟩ := IsNumeral.toList h₂
      obtain ⟨he, hrest⟩ := run_inj h (hw ▸ hcs) (hw' ▸ hcs') (hr.head_eq_false (by decide))
        (hs.head_eq_false (by decide))
      rw [String.toList_injective he]
      exact ⟨rfl, hrest⟩
    | _ => cases hhead
  | text c =>
    have hhead := head_eq_of_write_eq h h₁ h₂
    cases e₂ with
    | text c' =>
      obtain ⟨he, hrest⟩ := Code.stringChars_inj h
      rw [String.toList_injective he]
      exact ⟨rfl, hrest⟩
    | _ => cases hhead
  | name n =>
    have hhead := head_eq_of_write_eq h h₁ h₂
    cases e₂ with
    | name n' =>
      obtain ⟨rfl, hrest⟩ := slot_inj_of_closes h h₁ h₂ hr hs
      exact ⟨rfl, hrest⟩
    | _ => cases hhead
  | binary l op r ihl ihr =>
    have hhead := head_eq_of_write_eq h h₁ h₂
    cases e₂ with
    | binary l' op' r' =>
      obtain ⟨rfl, hl⟩ := ihl (List.cons.inj h).2 h₁.1 h₂.1 (closes_paren _) (closes_paren _)
      obtain ⟨rfl, hop⟩ := operator_inj (List.cons.inj hl).2
      obtain ⟨rfl, hrest⟩ := ihr hop h₁.2 h₂.2 (closes_paren _) (closes_paren _)
      exact ⟨rfl, (List.cons.inj hrest).2⟩
    | comparison l' op' r' =>
      obtain ⟨rfl, hl⟩ := ihl (List.cons.inj h).2 h₁.1 h₂.1 (closes_paren _) (closes_paren _)
      exact absurd (List.cons.inj hl).2 operator_ne_symbol
    | _ => cases hhead
  | comparison l op r ihl ihr =>
    have hhead := head_eq_of_write_eq h h₁ h₂
    cases e₂ with
    | comparison l' op' r' =>
      obtain ⟨rfl, hl⟩ := ihl (List.cons.inj h).2 h₁.1 h₂.1 (closes_paren _) (closes_paren _)
      obtain ⟨rfl, hop⟩ := symbol_inj (List.cons.inj hl).2
      obtain ⟨rfl, hrest⟩ := ihr hop h₁.2 h₂.2 (closes_paren _) (closes_paren _)
      exact ⟨rfl, (List.cons.inj hrest).2⟩
    | binary l' op' r' =>
      obtain ⟨rfl, hl⟩ := ihl (List.cons.inj h).2 h₁.1 h₂.1 (closes_paren _) (closes_paren _)
      exact absurd (List.cons.inj hl).2.symm operator_ne_symbol
    | _ => cases hhead
  | concat l r padded ihl ihr =>
    have hhead := head_eq_of_write_eq h h₁ h₂
    cases e₂ with
    | concat l' r' padded' =>
      obtain ⟨rfl, hl⟩ := ihl (function_inj h) h₁.1 h₂.1 (closes_paren _) (closes_paren _)
      obtain ⟨rfl, hjoiner⟩ := joiner_inj (List.cons.inj hl).2
      obtain ⟨rfl, hrest⟩ := ihr (List.cons.inj hjoiner).2 h₁.2 h₂.2 (closes_paren _)
        (closes_paren _)
      exact ⟨rfl, (List.cons.inj hrest).2⟩
    | cast e type =>
      cases hhead
      obtain ⟨rfl, hl⟩ := ihl (function_inj h) h₁.1 h₂ (closes_paren _) (closes_paren _)
      exact absurd (List.cons.inj hl).2 (joiner_ne hs)
    | _ => cases hhead
  | evaluation n e ih =>
    have hhead := head_eq_of_write_eq h h₁ h₂
    cases e₂ with
    | evaluation n' e' =>
      rw [write, write] at h
      obtain ⟨rfl, hn⟩ := slot_inj_of_closes (List.append_cancel_left h) h₁.1 h₂.1
        (closes_subsOpen _) (closes_subsOpen _)
      obtain ⟨rfl, hrest⟩ := ih (List.append_cancel_left hn) h₁.2 h₂.2 (closes_subsClose _)
        (closes_subsClose _)
      exact ⟨rfl, List.append_cancel_left hrest⟩
    | _ => cases hhead
  | solve e domain ih =>
    have hhead := head_eq_of_write_eq h h₁ h₂
    cases e₂ with
    | solve e' domain' =>
      rw [write, write] at h
      obtain ⟨rfl, he⟩ := ih (List.append_cancel_left h) h₁ h₂ (closes_domainOpen _)
        (closes_domainOpen _)
      obtain ⟨rfl, hrest⟩ := constant_inj (List.append_cancel_left he)
      exact ⟨rfl, hrest⟩
    | _ => cases hhead
  | cast e type ih =>
    have hhead := head_eq_of_write_eq h h₁ h₂
    cases e₂ with
    | cast e' type' =>
      cases hhead
      obtain ⟨rfl, hrest⟩ := ih (function_inj h) h₁ h₂ (closes_paren _) (closes_paren _)
      exact ⟨rfl, (List.cons.inj hrest).2⟩
    | concat l' r' padded =>
      cases hhead
      obtain ⟨rfl, hl⟩ := ih (function_inj h) h₁ h₂.1 (closes_paren _) (closes_paren _)
      exact absurd (List.cons.inj hl).2.symm (joiner_ne hr)
    | _ => cases hhead

/-! ## Arguments and inputs -/

theorem closes_writeFurther (es : List Expr) (rest : List Char) :
    Closes (writeFurther es (')' :: rest)) := by
  cases es with
  | nil => exact closes_paren _
  | cons e es => exact closes_cons (Or.inr (Or.inl rfl)) _

theorem writeFurther_inj {es₁ es₂ : List Expr} {r s : List Char}
    (h : writeFurther es₁ (')' :: r) = writeFurther es₂ (')' :: s))
    (h₁ : ∀ e ∈ es₁, e.Shaped IsSlot IsNumeral) (h₂ : ∀ e ∈ es₂, e.Shaped IsSlot IsNumeral) :
    es₁ = es₂ := by
  induction es₁ generalizing es₂ with
  | nil =>
    cases es₂ with
    | nil => rfl
    | cons e es => cases h
  | cons e es ih =>
    cases es₂ with
    | nil => cases h
    | cons e' es' =>
      obtain ⟨he, hes⟩ := List.forall_mem_cons.mp h₁
      obtain ⟨he', hes'⟩ := List.forall_mem_cons.mp h₂
      obtain ⟨rfl, hrest⟩ := Expr.write_inj (List.cons.inj h).2 he he' (closes_writeFurther _ _)
        (closes_writeFurther _ _)
      rw [ih hrest hes hes']

/-- **The text of some arguments determines them.** -/
theorem writeArguments_inj {es₁ es₂ : List Expr} {r s : List Char}
    (h : writeArguments es₁ (')' :: r) = writeArguments es₂ (')' :: s))
    (h₁ : es₁ ≠ [] ∧ ∀ e ∈ es₁, e.Shaped IsSlot IsNumeral)
    (h₂ : es₂ ≠ [] ∧ ∀ e ∈ es₂, e.Shaped IsSlot IsNumeral) : es₁ = es₂ := by
  obtain ⟨e, es, rfl⟩ := List.exists_cons_of_ne_nil h₁.1
  obtain ⟨e', es', rfl⟩ := List.exists_cons_of_ne_nil h₂.1
  obtain ⟨he, hes⟩ := List.forall_mem_cons.mp h₁.2
  obtain ⟨he', hes'⟩ := List.forall_mem_cons.mp h₂.2
  obtain ⟨rfl, hrest⟩ := Expr.write_inj h he he' (closes_writeFurther _ _)
    (closes_writeFurther _ _)
  rw [writeFurther_inj hrest hes hes']

/-- No expression starts like a call of the reading function. -/
theorem Expr.write_ne_reader {e : Expr} (he : e.Shaped IsSlot IsNumeral) {r s : List Char} :
    e.write r ≠ '_' :: 'i' :: s := by
  intro h
  have hhead := read_write he r
  rw [h] at hhead
  cases e with
  | name n =>
    obtain ⟨c, cs, hn, hcs⟩ := IsSlot.toList he
    rw [write, hn] at h
    exact ne_of_isDigit (hcs c List.mem_cons_self) rfl (List.cons.inj (List.cons.inj h).2).1
  | _ => cases hhead

/-- No expression starts with what closes one. -/
theorem Expr.write_ne_paren {e : Expr} (he : e.Shaped IsSlot IsNumeral) {r s : List Char} :
    e.write r ≠ ')' :: s := by
  intro h
  have hhead := read_write he r
  rw [h] at hhead
  cases e with
  | number w =>
    obtain ⟨c, cs, hw, hc, _⟩ := IsNumeral.toList he
    rw [write, hw] at h
    exact ne_of_isDigit hc rfl (List.cons.inj h).1
  | _ => cases hhead

theorem writeRead_inj {p₁ p₂ : Option Expr} {r s : List Char}
    (h : writeRead p₁ r = writeRead p₂ s) (h₁ : ∀ e ∈ p₁, e.Shaped IsSlot IsNumeral)
    (h₂ : ∀ e ∈ p₂, e.Shaped IsSlot IsNumeral) : p₁ = p₂ := by
  have hprompt := List.append_cancel_left h
  cases p₁ with
  | none =>
    cases p₂ with
    | none => rfl
    | some e => exact absurd hprompt.symm (Expr.write_ne_paren (h₂ e rfl))
  | some e =>
    cases p₂ with
    | none => exact absurd hprompt (Expr.write_ne_paren (h₁ e rfl))
    | some e' =>
      rw [(Expr.write_inj hprompt (h₁ e rfl) (h₂ e' rfl) (closes_paren _) (closes_paren _)).1]

/-- **The text of an input determines its prompt and its type.** -/
theorem writeInput_inj {p₁ p₂ : Option Expr} {c₁ c₂ : Option CastType}
    (h : writeInput p₁ c₁ = writeInput p₂ c₂) (h₁ : ∀ e ∈ p₁, e.Shaped IsSlot IsNumeral)
    (h₂ : ∀ e ∈ p₂, e.Shaped IsSlot IsNumeral) : p₁ = p₂ ∧ c₁ = c₂ := by
  cases c₁ with
  | none =>
    cases c₂ with
    | none => exact ⟨writeRead_inj h h₁ h₂, rfl⟩
    | some type => cases type <;> cases h
  | some type =>
    cases c₂ with
    | none => cases type <;> cases h
    | some type' =>
      obtain ⟨htype, hread⟩ := until_inj h (by cases type <;> decide) (by cases type' <;> decide)
      obtain rfl : type = type' := by
        revert htype
        cases type <;> cases type' <;> decide
      exact ⟨writeRead_inj hread h₁ h₂, rfl⟩

/-- An input is not written like an assignment. -/
theorem Expr.write_ne_input {e : Expr} (he : e.Shaped IsSlot IsNumeral) {p : Option Expr}
    {c : Option CastType} : e.write [] ≠ writeInput p c := by
  intro h
  cases c with
  | none => exact write_ne_reader he h
  | some type =>
    have hhead := read_write he []
    have htype : Expr.Head.read (writeInput p (some type)) = .conversion type := by
      cases type <;> rfl
    rw [h, htype] at hhead
    cases e with
    | concat l r padded =>
      cases hhead
      exact write_ne_reader he.1 (function_inj h)
    | cast e type' =>
      cases hhead
      exact write_ne_reader (e := e) he (function_inj h)
    | _ => cases hhead

/-! ## Statements -/

theorem target_inj {n n' : String} {r s : List Char}
    (h : n.toList ++ '=' :: r = n'.toList ++ '=' :: s) (hn : IsSlot n) (hn' : IsSlot n') :
    n = n' ∧ r = s := by
  have hequal : ∀ {rest : List Char}, ∀ c ∈ ('=' :: rest).head?, isSlotChar c = false := by
    intro rest c hc
    cases hc
    rfl
  obtain ⟨he, hrest⟩ := slot_inj h hn hn' hequal hequal
  exact ⟨he, (List.cons.inj hrest).2⟩

/-- What a line starts with. -/
inductive Line.Head where
  | target | print | plot | branch | otherwise | loop

/-- The head of the line with a text. -/
def Line.Head.read : List Char → Line.Head
  | '_' :: 'p' :: _ => .print
  | '_' :: 's' :: _ => .plot
  | 'i' :: _ => .branch
  | 'e' :: _ => .otherwise
  | 'w' :: _ => .loop
  | _ => .target

/-- The head of a statement's first line. -/
def Stmt.head : Stmt → Line.Head
  | .assignment .. | .input .. => .target
  | .print _ => .print
  | .plot _ => .plot
  | .ifThen .. | .ifThenElse .. => .branch
  | .whileLoop .. => .loop

theorem Line.Head.read_slot {n : String} (hn : IsSlot n) (cs : List Char) :
    Line.Head.read (n.toList ++ cs) = .target := by
  obtain ⟨c, ds, hlist, hds⟩ := hn.toList
  have hc := hds c List.mem_cons_self
  rw [hlist, List.cons_append, List.cons_append, Line.Head.read]
  · intro _ he
    exact ne_of_isDigit hc rfl (List.cons.inj (List.cons.inj he).2).1
  · intro _ he
    exact ne_of_isDigit hc rfl (List.cons.inj (List.cons.inj he).2).1
  · intro _ he
    cases he
  · intro _ he
    cases he
  · intro _ he
    cases he

/-- **The first line of a statement tells its head.** -/
theorem Stmt.lines_eq_cons {s : Stmt} (hs : s.Shaped IsSlot IsNumeral) (d : Nat) :
    ∃ text more, s.lines d = ⟨d, text⟩ :: more ∧ Line.Head.read text = s.head := by
  cases s with
  | assignment n e => exact ⟨_, _, rfl, Line.Head.read_slot hs.1 _⟩
  | input n p c => exact ⟨_, _, rfl, Line.Head.read_slot hs.1 _⟩
  | print es => exact ⟨_, _, rfl, rfl⟩
  | plot es => exact ⟨_, _, rfl, rfl⟩
  | ifThen c b => exact ⟨_, _, rfl, rfl⟩
  | ifThenElse c b o => exact ⟨_, _, rfl, rfl⟩
  | whileLoop c b => exact ⟨_, _, rfl, rfl⟩

theorem Stmt.head_eq_of_lines_eq {d : Nat} {s₁ s₂ : Stmt} {R₁ R₂ : List Line}
    (h : s₁.lines d ++ R₁ = s₂.lines d ++ R₂) (h₁ : s₁.Shaped IsSlot IsNumeral)
    (h₂ : s₂.Shaped IsSlot IsNumeral) : s₁.head = s₂.head := by
  obtain ⟨text₁, more₁, hlines₁, hhead₁⟩ := lines_eq_cons h₁ d
  obtain ⟨text₂, more₂, hlines₂, hhead₂⟩ := lines_eq_cons h₂ d
  rw [hlines₁, hlines₂] at h
  rw [← hhead₁, ← hhead₂, (Line.mk.inj (List.cons.inj h).1).2]

/-! ## Blocks -/

/-- The line between the two blocks of a statement. -/
def elseText : List Char := ['e', 'l', 's', 'e', ':']

theorem Stmt.head_ne_otherwise (s : Stmt) : s.head ≠ Line.Head.read elseText := by
  cases s <;> exact nofun

/-- What may stand behind a block inside `d` blocks. -/
def Ends (d : Nat) (lines : List Line) : Prop :=
  ∀ l ∈ lines.head?, l.depth < d

/-- What may stand behind a statement inside `d` blocks. -/
def Follows (d : Nat) (lines : List Line) : Prop :=
  ∀ l ∈ lines.head?, l.depth ≤ d ∧ (l.depth = d → l.text ≠ elseText)

theorem Ends.follows {d : Nat} {lines : List Line} (h : Ends d lines) : Follows d lines := by
  intro l hl
  have hlt := h l hl
  refine ⟨by omega, ?_⟩
  intro he
  omega

theorem Follows.ends {d : Nat} {lines : List Line} (h : Follows d lines) :
    Ends (d + 1) lines := by
  intro l hl
  have hle := (h l hl).1
  omega

theorem ends_cons {d : Nat} (text : List Char) (lines : List Line) :
    Ends (d + 1) (⟨d, text⟩ :: lines) := by
  intro l hl
  cases hl
  exact Nat.lt_succ_self d

/-- The other block does not follow a whole statement. -/
theorem Follows.ne_else {d : Nat} {lines more : List Line} (h : Follows d lines) :
    lines ≠ ⟨d, elseText⟩ :: more := by
  rintro rfl
  exact (h _ rfl).2 rfl rfl

/-- Further statements may follow a statement. -/
theorem follows_linesOf {d : Nat} {ss : List Stmt} (hss : Stmt.AllShaped IsSlot IsNumeral ss)
    {R : List Line} (hR : Ends d R) : Follows d (linesOf d ss ++ R) := by
  cases ss with
  | nil => exact hR.follows
  | cons s ss =>
    obtain ⟨text, more, hlines, hhead⟩ := Stmt.lines_eq_cons hss.1 d
    rw [linesOf, hlines]
    intro l hl
    cases hl
    refine ⟨Nat.le_refl d, fun _ (he : text = elseText) => ?_⟩
    rw [he] at hhead
    exact s.head_ne_otherwise hhead.symm

/-- A statement does not end the block it is in. -/
theorem Ends.ne_lines {d : Nat} {s : Stmt} (hs : s.Shaped IsSlot IsNumeral) {R R' : List Line}
    (hR : Ends d R) : R ≠ s.lines d ++ R' := by
  rintro rfl
  obtain ⟨text, more, hlines, _⟩ := Stmt.lines_eq_cons hs d
  rw [hlines] at hR
  exact Nat.lt_irrefl d (hR _ rfl)

theorem Stmt.lines_ifThen (d : Nat) (c : Expr) (b : List Stmt) (R : List Line) :
    (Stmt.ifThen c b).lines d ++ R =
      ⟨d, ['i', 'f', ' '] ++ c.write [':']⟩ :: (linesOf (d + 1) b ++ R) :=
  rfl

theorem Stmt.lines_ifThenElse (d : Nat) (c : Expr) (b o : List Stmt) (R : List Line) :
    (Stmt.ifThenElse c b o).lines d ++ R = ⟨d, ['i', 'f', ' '] ++ c.write [':']⟩ ::
      (linesOf (d + 1) b ++ ⟨d, elseText⟩ :: (linesOf (d + 1) o ++ R)) := by
  rw [lines, List.cons_append, List.append_assoc]
  rfl

/-- The condition in front of a block is determined. -/
theorem condition_inj {d : Nat} {word : List Char} {c₁ c₂ : Expr}
    (h : Line.mk d (word ++ c₁.write [':']) = ⟨d, word ++ c₂.write [':']⟩)
    (h₁ : c₁.Shaped IsSlot IsNumeral) (h₂ : c₂.Shaped IsSlot IsNumeral) : c₁ = c₂ := by
  have hcolon : Closes [':'] := closes_cons (Or.inr (Or.inr rfl)) []
  exact (Expr.write_inj (List.append_cancel_left (Line.mk.inj h).2) h₁ h₂ hcolon hcolon).1

mutual

/-- **The lines of a statement determine it.** -/
theorem Stmt.lines_inj : ∀ {d : Nat} {s₁ s₂ : Stmt} {R₁ R₂ : List Line},
    s₁.lines d ++ R₁ = s₂.lines d ++ R₂ → s₁.Shaped IsSlot IsNumeral →
    s₂.Shaped IsSlot IsNumeral → Follows d R₁ → Follows d R₂ → s₁ = s₂ ∧ R₁ = R₂
  | d, .assignment n e, s₂, R₁, R₂, h, h₁, h₂, _, _ => by
    have hhead := Stmt.head_eq_of_lines_eq h h₁ h₂
    cases s₂ with
    | assignment n' e' =>
      obtain ⟨hline, hR⟩ := List.cons.inj h
      obtain ⟨rfl, hvalue⟩ := target_inj (Line.mk.inj hline).2 h₁.1 h₂.1
      obtain ⟨rfl, -⟩ := Expr.write_inj hvalue h₁.2 h₂.2 closes_nil closes_nil
      exact ⟨rfl, hR⟩
    | input n' p c =>
      obtain ⟨hline, hR⟩ := List.cons.inj h
      obtain ⟨rfl, hvalue⟩ := target_inj (Line.mk.inj hline).2 h₁.1 h₂.1
      exact absurd hvalue (Expr.write_ne_input h₁.2)
    | _ => cases hhead
  | d, .input n p c, s₂, R₁, R₂, h, h₁, h₂, _, _ => by
    have hhead := Stmt.head_eq_of_lines_eq h h₁ h₂
    cases s₂ with
    | input n' p' c' =>
      obtain ⟨hline, hR⟩ := List.cons.inj h
      obtain ⟨rfl, hvalue⟩ := target_inj (Line.mk.inj hline).2 h₁.1 h₂.1
      obtain ⟨rfl, rfl⟩ := writeInput_inj hvalue h₁.2 h₂.2
      exact ⟨rfl, hR⟩
    | assignment n' e' =>
      obtain ⟨hline, hR⟩ := List.cons.inj h
      obtain ⟨rfl, hvalue⟩ := target_inj (Line.mk.inj hline).2 h₁.1 h₂.1
      exact absurd hvalue.symm (Expr.write_ne_input h₂.2)
    | _ => cases hhead
  | d, .print es, s₂, R₁, R₂, h, h₁, h₂, _, _ => by
    have hhead := Stmt.head_eq_of_lines_eq h h₁ h₂
    cases s₂ with
    | print es' =>
      obtain ⟨hline, hR⟩ := List.cons.inj h
      have harguments := List.append_cancel_left (Line.mk.inj hline).2
      rw [writeArguments_inj harguments h₁ h₂]
      exact ⟨rfl, hR⟩
    | _ => cases hhead
  | d, .plot es, s₂, R₁, R₂, h, h₁, h₂, _, _ => by
    have hhead := Stmt.head_eq_of_lines_eq h h₁ h₂
    cases s₂ with
    | plot es' =>
      obtain ⟨hline, hR⟩ := List.cons.inj h
      have harguments := List.append_cancel_left (Line.mk.inj hline).2
      rw [writeArguments_inj harguments h₁ h₂]
      exact ⟨rfl, hR⟩
    | _ => cases hhead
  | d, .ifThen c b, s₂, R₁, R₂, h, h₁, h₂, hR₁, hR₂ => by
    have hhead := Stmt.head_eq_of_lines_eq h h₁ h₂
    cases s₂ with
    | ifThen c' b' =>
      obtain ⟨hline, hblock⟩ := List.cons.inj h
      obtain rfl := condition_inj hline h₁.1 h₂.1
      obtain ⟨rfl, hR⟩ := linesOf_inj hblock h₁.2.2 h₂.2.2 hR₁.ends hR₂.ends
      exact ⟨rfl, hR⟩
    | ifThenElse c' b' o' =>
      -- Behind the block of the first statement would have to come the `else` of the other.
      rw [Stmt.lines_ifThen, Stmt.lines_ifThenElse] at h
      obtain ⟨hline, hblock⟩ := List.cons.inj h
      obtain ⟨rfl, hR⟩ := linesOf_inj hblock h₁.2.2 h₂.2.1.2 hR₁.ends (ends_cons _ _)
      exact absurd hR hR₁.ne_else
    | _ => cases hhead
  | d, .ifThenElse c b o, s₂, R₁, R₂, h, h₁, h₂, hR₁, hR₂ => by
    have hhead := Stmt.head_eq_of_lines_eq h h₁ h₂
    cases s₂ with
    | ifThenElse c' b' o' =>
      rw [Stmt.lines_ifThenElse, Stmt.lines_ifThenElse] at h
      obtain ⟨hline, hblock⟩ := List.cons.inj h
      obtain rfl := condition_inj hline h₁.1 h₂.1
      obtain ⟨rfl, hother⟩ := linesOf_inj hblock h₁.2.1.2 h₂.2.1.2 (ends_cons _ _) (ends_cons _ _)
      obtain ⟨rfl, hR⟩ := linesOf_inj (List.cons.inj hother).2 h₁.2.2.2 h₂.2.2.2 hR₁.ends hR₂.ends
      exact ⟨rfl, hR⟩
    | ifThen c' b' =>
      rw [Stmt.lines_ifThenElse, Stmt.lines_ifThen] at h
      obtain ⟨hline, hblock⟩ := List.cons.inj h
      obtain ⟨rfl, hR⟩ := linesOf_inj hblock h₁.2.1.2 h₂.2.2 (ends_cons _ _) hR₂.ends
      exact absurd hR.symm hR₂.ne_else
    | _ => cases hhead
  | d, .whileLoop c b, s₂, R₁, R₂, h, h₁, h₂, hR₁, hR₂ => by
    have hhead := Stmt.head_eq_of_lines_eq h h₁ h₂
    cases s₂ with
    | whileLoop c' b' =>
      obtain ⟨hline, hblock⟩ := List.cons.inj h
      obtain rfl := condition_inj hline h₁.1 h₂.1
      obtain ⟨rfl, hR⟩ := linesOf_inj hblock h₁.2.2 h₂.2.2 hR₁.ends hR₂.ends
      exact ⟨rfl, hR⟩
    | _ => cases hhead
termination_by structural _ s₁ => s₁

/-- **The lines of a block determine it.** -/
theorem linesOf_inj : ∀ {d : Nat} {ss₁ ss₂ : List Stmt} {R₁ R₂ : List Line},
    linesOf d ss₁ ++ R₁ = linesOf d ss₂ ++ R₂ → Stmt.AllShaped IsSlot IsNumeral ss₁ →
    Stmt.AllShaped IsSlot IsNumeral ss₂ → Ends d R₁ → Ends d R₂ → ss₁ = ss₂ ∧ R₁ = R₂
  | _, [], [], _, _, h, _, _, _, _ => ⟨rfl, h⟩
  | _, [], s :: ss, _, _, h, _, h₂, hR₁, _ => by
    rw [linesOf, linesOf, List.append_assoc] at h
    exact absurd h (hR₁.ne_lines h₂.1)
  | _, s :: ss, [], _, _, h, h₁, _, _, hR₂ => by
    rw [linesOf, linesOf, List.append_assoc] at h
    exact absurd h.symm (hR₂.ne_lines h₁.1)
  | _, s :: ss, s' :: ss', _, _, h, h₁, h₂, hR₁, hR₂ => by
    rw [linesOf, linesOf, List.append_assoc, List.append_assoc] at h
    obtain ⟨rfl, hrest⟩ := Stmt.lines_inj h h₁.1 h₂.1 (follows_linesOf h₁.2 hR₁)
      (follows_linesOf h₂.2 hR₂)
    obtain ⟨rfl, hR⟩ := linesOf_inj hrest h₁.2 h₂.2 hR₁ hR₂
    exact ⟨rfl, hR⟩
termination_by structural _ ss₁ => ss₁

end

end MathScript
