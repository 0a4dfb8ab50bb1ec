import MathScript.Proofs.Grammar.Nesting

/-!
# Outside all parentheses

Whatever parentheses hold, the loosest operator of an expression stands outside of them all.
So the tokens there tell which levels an expression can be of: one that is a sum at some
reading of its tokens is a sum at any other.

* `Derives.balanced`: parentheses in an expression are closed again.
* `Derives.arithmetic`: outside all parentheses a sum has operands and operators only.
* `Opens.sum_of_value`: **a value without anything else there is a sum**, with the nestings
  that it opens.
-/

namespace MathScript

/-- The kind can stand outside all parentheses of a sum. -/
def TokenKind.isArithmetic : TokenKind → Bool
  | number | stringLiteral | identifier | plus | minus | times | divide | caret => true
  | _ => false

namespace Grammar

/-! ## Parentheses -/

/-- The kinds of the tokens outside all parentheses, where `n` of them are open in front. -/
def outside : (n : Nat) → List Token → List TokenKind
  | _, [] => []
  | n, t :: ts =>
    if t.kind = .leftParen then outside (n + 1) ts
    else if t.kind = .rightParen then outside (n - 1) ts
    else if n = 0 then t.kind :: outside 0 ts
    else outside n ts

section Token

variable {t : Token} (n : Nat) (ts : List Token)

theorem outside_open (h : t.kind = .leftParen) : outside n (t :: ts) = outside (n + 1) ts := by
  rw [outside, if_pos h]

theorem outside_close (h : t.kind = .rightParen) :
    outside (n + 1) (t :: ts) = outside n ts := by
  have hopen : t.kind ≠ .leftParen := by
    rw [h]
    decide
  rw [outside, if_neg hopen, if_pos h, Nat.add_sub_cancel]

/-- The token is no parenthesis. -/
def IsPlain (t : Token) : Prop :=
  t.kind ≠ .leftParen ∧ t.kind ≠ .rightParen

theorem outside_shown (h : IsPlain t) : outside 0 (t :: ts) = t.kind :: outside 0 ts := by
  rw [outside, if_neg h.1, if_neg h.2, if_pos rfl]

theorem outside_hidden (h : IsPlain t) : outside (n + 1) (t :: ts) = outside (n + 1) ts := by
  rw [outside, if_neg h.1, if_neg h.2, if_neg (Nat.succ_ne_zero n)]

end Token

/-- The parentheses among the tokens are closed again. -/
structure Balanced (ts : List Token) : Prop where
  /-- Inside parentheses nothing of the tokens shows. -/
  hidden : ∀ n rest, outside (n + 1) (ts ++ rest) = outside (n + 1) rest
  /-- What follows is no further inside. -/
  shown : ∀ rest, outside 0 (ts ++ rest) = outside 0 ts ++ outside 0 rest

namespace Balanced

variable {t : Token} {ts us : List Token}

theorem nil : Balanced [] :=
  ⟨fun _ _ => rfl, fun _ => rfl⟩

theorem cons (ht : IsPlain t) (h : Balanced ts) : Balanced (t :: ts) := by
  constructor
  · intro n rest
    rw [List.cons_append, outside_hidden n _ ht, h.hidden]
  · intro rest
    rw [List.cons_append, outside_shown _ ht, outside_shown _ ht, h.shown, List.cons_append]

theorem append (hts : Balanced ts) (hus : Balanced us) : Balanced (ts ++ us) := by
  constructor
  · intro n rest
    rw [List.append_assoc, hts.hidden, hus.hidden]
  · intro rest
    rw [List.append_assoc, hts.shown, hus.shown, hts.shown, List.append_assoc]

/-- In parentheses nothing shows. -/
theorem outside_parentheses {lp rp : Token} (hl : lp.kind = .leftParen) (h : Balanced ts)
    (hr : rp.kind = .rightParen) (n : Nat) (rest : List Token) :
    outside n (lp :: (ts ++ rp :: rest)) = outside n rest := by
  rw [outside_open n _ hl, h.hidden, outside_close n _ hr]

theorem parentheses {lp rp : Token} (hl : lp.kind = .leftParen) (h : Balanced ts)
    (hr : rp.kind = .rightParen) : Balanced (lp :: (ts ++ [rp])) := by
  constructor
  · intro n rest
    rw [List.cons_append, List.append_assoc]
    exact h.outside_parentheses hl hr (n + 1) rest
  · intro rest
    have hnone : outside 0 (lp :: (ts ++ [rp])) = [] := h.outside_parentheses hl hr 0 []
    rw [hnone, List.cons_append, List.append_assoc]
    exact h.outside_parentheses hl hr 0 rest

/-- Outside of all parentheses are the tokens in front of a token, it itself, and those behind
it. -/
theorem mem_outside_iff (h : Balanced ts) (ht : IsPlain t) {k : TokenKind} :
    k ∈ outside 0 (ts ++ t :: us) ↔ k ∈ outside 0 ts ∨ k = t.kind ∨ k ∈ outside 0 us := by
  rw [h.shown, outside_shown _ ht, List.mem_append, List.mem_cons]

end Balanced

/-! ## Expressions -/

variable {level : Level} {ts : List Token} {e : Expr}

theorem isPlain_of_kind {t : Token} {k : TokenKind} (ht : t.kind = k)
    (hk : k ≠ .leftParen ∧ k ≠ .rightParen) : IsPlain t := by
  rw [IsPlain, ht]
  exact hk

theorem Joins.isPlain {t : Token} {l r : Expr} (h : Joins level t.kind l r e) : IsPlain t := by
  have hkind : ∀ {k : TokenKind}, Joins level k l r e → k ≠ .leftParen ∧ k ≠ .rightParen := by
    intro k h
    cases h with
    | compare op => cases op <;> decide
    | _ => decide
  exact hkind h

theorem isPlain_domain {d : Token} {domain : Domain} (hd : d.kind = domain.kind) : IsPlain d :=
  isPlain_of_kind hd (by cases domain <;> decide)

theorem isPlain_type {d : Token} {type : CastType} (hd : d.kind = type.kind) : IsPlain d :=
  isPlain_of_kind hd (by cases type <;> decide)

/-- **Parentheses in an expression are closed again.** -/
theorem Derives.balanced (h : Derives level ts e) : Balanced ts := by
  induction h with
  | number ht | text ht | name ht => exact .cons (isPlain_of_kind ht (by decide)) .nil
  | evaluation hf hl _ hr ih =>
    exact .cons (isPlain_of_kind hf (by decide)) (ih.parentheses hl hr)
  | parentheses hl _ hr ih => exact ih.parentheses hl hr
  | power _ ht _ ihb ihe => exact ihb.append (.cons (isPlain_of_kind ht (by decide)) ihe)
  | plus ht _ ih | minus ht _ ih | solved ht _ ih =>
    exact .cons (isPlain_of_kind ht (by decide)) ih
  | joined _ _ hj _ ihl ihr => exact ihl.append (.cons hj.isPlain ihr)
  | solvedIn domain hs _ hw hd ih =>
    have hword : ∀ {w : Token}, w.kind = .inWord ∨ w.kind = .asWord → IsPlain w := by
      rintro w (hw | hw)
      · exact isPlain_of_kind hw (by decide)
      · exact isPlain_of_kind hw (by decide)
    have hbehind := Balanced.cons (hword hw) (.cons (isPlain_domain hd) .nil)
    exact .cons (isPlain_of_kind hs (by decide)) (ih.append hbehind)
  | converted type _ hw hd ih =>
    exact ih.append (.cons (isPlain_of_kind hw (by decide)) (.cons (isPlain_type hd) .nil))
  | base _ ih | unsigned _ ih | first _ _ ih | compared _ ih | plain _ ih => exact ih

/-- Outside all parentheses there are operands and operators of a sum only. -/
def Arithmetic (ts : List Token) : Prop :=
  ∀ k ∈ outside 0 ts, k.isArithmetic = true

/-- The levels of sums and what they are made of. -/
def Level.isArithmetic : Level → Bool
  | primary | power | signed | product | sum => true
  | _ => false

theorem Level.isArithmetic_of_part {part : Level} (hp : level.part? = some part)
    (h : level.isArithmetic = true) : part.isArithmetic = true := by
  cases level <;> cases hp <;> first | rfl | cases h

theorem Joins.isArithmetic {k : TokenKind} {l r : Expr} (h : Joins level k l r e)
    (hl : level.isArithmetic = true) : k.isArithmetic = true := by
  cases h with
  | multiply | divide | add | append | subtract => rfl
  | _ => cases hl

theorem arithmetic_cons {t : Token} (ht : IsPlain t) (hk : t.kind.isArithmetic = true)
    (h : Arithmetic ts) : Arithmetic (t :: ts) := by
  intro k hmem
  rw [outside_shown _ ht] at hmem
  rcases List.mem_cons.mp hmem with rfl | hmem
  · exact hk
  · exact h k hmem

theorem arithmetic_operator {t : Token} {us : List Token} (hts : Balanced ts)
    (ht : IsPlain t) (hk : t.kind.isArithmetic = true) (h : Arithmetic ts) (hus : Arithmetic us) :
    Arithmetic (ts ++ t :: us) := by
  intro k hmem
  rcases (hts.mem_outside_iff ht).mp hmem with hmem | rfl | hmem
  · exact h k hmem
  · exact hk
  · exact hus k hmem

theorem arithmetic_parentheses {lp rp : Token} (hl : lp.kind = .leftParen) (h : Balanced ts)
    (hr : rp.kind = .rightParen) : Arithmetic (lp :: (ts ++ [rp])) := by
  intro k hmem
  rw [h.outside_parentheses hl hr 0 []] at hmem
  cases hmem

/-- **Outside all parentheses a sum has operands and operators only.** -/
theorem Derives.arithmetic (h : Derives level ts e) (hl : level.isArithmetic = true) :
    Arithmetic ts := by
  have hnil : Arithmetic [] := by
    intro k hk
    cases hk
  induction h with
  | number ht | text ht | name ht =>
    exact arithmetic_cons (isPlain_of_kind ht (by decide)) (by rw [ht]; rfl) hnil
  | evaluation hf hopen he hr =>
    exact arithmetic_cons (isPlain_of_kind hf (by decide)) (by rw [hf]; rfl)
      (arithmetic_parentheses hopen he.balanced hr)
  | parentheses hopen he hr => exact arithmetic_parentheses hopen he.balanced hr
  | power hb ht _ ihb ihe =>
    exact arithmetic_operator hb.balanced (isPlain_of_kind ht (by decide)) (by rw [ht]; rfl)
      (ihb rfl) (ihe rfl)
  | plus ht _ ih | minus ht _ ih =>
    exact arithmetic_cons (isPlain_of_kind ht (by decide)) (by rw [ht]; rfl) (ih rfl)
  | first hp _ ih => exact ih (Level.isArithmetic_of_part hp hl)
  | joined hp hleft hj _ ihl ihr =>
    exact arithmetic_operator hleft.balanced hj.isPlain (hj.isArithmetic hl) (ihl hl)
      (ihr (Level.isArithmetic_of_part hp hl))
  | base _ ih | unsigned _ ih => exact ih rfl
  | compared | solvedIn | solved | plain | converted => cases hl

/-! ## Values that are sums -/

section Opens

variable {toll : Toll} {n : Nat}

/-- What stands outside all parentheses shows. -/
theorem Arithmetic.shown {t : Token} {us : List Token} (h : Arithmetic (ts ++ t :: us))
    (hts : Balanced ts) (ht : IsPlain t) : t.kind.isArithmetic = true :=
  h t.kind ((hts.mem_outside_iff ht).mpr (.inr (.inl rfl)))

/-- Comparisons and commas are not arithmetic. -/
theorem Joins.level_isArithmetic {k : TokenKind} {l r : Expr} (h : Joins level k l r e)
    (hk : k.isArithmetic = true) : level.isArithmetic = true := by
  cases h with
  | multiply | divide | add | append | subtract => rfl
  | compare op => cases op <;> cases hk
  | valueComma | promptComma => cases hk

theorem Opens.sum_of_comparison (h : Opens toll n .comparison ts e) (hts : Arithmetic ts) :
    Opens toll n .sum ts e := by
  cases h with
  | first hp h =>
    cases hp
    exact h
  | joined hp hl hj hr =>
    cases hj.level_isArithmetic (hts.shown hl.derives.balanced hj.isPlain)

theorem Opens.sum_of_convertible (h : Opens toll n .convertible ts e) (hts : Arithmetic ts) :
    Opens toll n .sum ts e := by
  cases h with
  | compared h => exact h.sum_of_comparison hts
  | solvedIn domain hs he hw hd =>
    have hsolve := hts.shown .nil (isPlain_of_kind hs (by decide))
    rw [hs] at hsolve
    cases hsolve
  | first hp => cases hp
  | joined hp => cases hp

theorem Opens.sum_of_expression (h : Opens toll n .expression ts e) (hts : Arithmetic ts) :
    Opens toll n .sum ts e := by
  cases h with
  | plain h => exact h.sum_of_convertible hts
  | solved hs he =>
    have hsolve := hts.shown .nil (isPlain_of_kind hs (by decide))
    rw [hs] at hsolve
    cases hsolve
  | converted type he hw hd =>
    have hword := hts.shown he.derives.balanced (isPlain_of_kind hw (by decide))
    rw [hw] at hword
    cases hword
  | first hp => cases hp
  | joined hp => cases hp

/-- **A value with nothing but a sum outside all parentheses is a sum**, with the nestings
that it opens. -/
theorem Opens.sum_of_value (h : Opens toll n .value ts e) (hts : Arithmetic ts) :
    Opens toll n .sum ts e := by
  cases h with
  | first hp h =>
    cases hp
    exact h.sum_of_expression hts
  | joined hp hl hj hr =>
    cases hj.level_isArithmetic (hts.shown hl.derives.balanced hj.isPlain)

end Opens

end Grammar
end MathScript
