import MathScript.Proofs.Grammar.Nesting
import MathScript.Proofs.Grammar.Run

/-!
# What a reading cannot refuse

Tokens that derive a tree are read as that tree, unless a name among them is not
declared in time or the nesting is too deep; nothing else stops a reading, and
it cannot come to another tree.  Where there is room for as many nestings as the
tokens open, and for nodes as high as the tree, nesting does not stop it either.

What ends a reading of an expression is what follows it, so completeness is
stated for tokens with a rest behind them that the level does not go on with.
Operators that group to the left are followed from behind: `ReachesIn` says where
the loop stands once it has passed the tokens of its left operand.

`DerivesIn` ties this to a bound on the nestings, at the toll of a reading.

* `Opens.derivesIn`: **tokens that derive an expression are read as it**.
-/

namespace MathScript
namespace Grammar

/-- There is room for `n` more nestings and for nodes of height `h`. -/
structure Cursor.Room (c : Cursor) (n h : Nat) : Prop where
  depth : c.depth + n ≤ maxDepth
  level : c.level + h ≤ maxDepth

/-- The first name not declared in time, or, where there is no `room`, nesting that is
too deep. -/
def Excuses (room : Prop) (names : NameTable) (ms : List (Mention Token)) (e : ParseError) : Prop :=
  (¬room ∧ ∃ line, e = .nestingTooDeep line) ∨
    ∃ t, names.firstUndeclared Token.text ms = some t ∧ e = .undefinedName t.text t.line

/-- In front of the tokens and the rest, the step passes the tokens and gives a
good result, or has an excuse.  If there is to be `room`, then for `n` nestings and
for nodes of height `h`. -/
def Completes {α : Type} (room : Prop) (n h : Nat) (step : Step α) (ts rest : List Token)
    (ms : List (Mention Token)) (good : α → Prop) : Prop :=
  ∀ c line, c.tokens = ts ++ rest → c.ending = .complete line → (room → c.Room n h) →
    Meets step c (fun a c' => good a ∧ Passes c ts ms c') (Excuses room c.names ms)

section Rules

variable {α β : Type} {room : Prop} {n h : Nat} {step : Step α} {next : α → Step β}
  {ts us rest : List Token} {ms ns : List (Mention Token)} {good : α → Prop} {good' : β → Prop}

theorem Excuses.append_left {names : NameTable} {e : ParseError} (he : Excuses room names ms e) :
    Excuses room names (ms ++ ns) e := by
  rcases he with he | ⟨t, ht, he⟩
  · exact .inl he
  · refine .inr ⟨t, ?_, he⟩
    rw [NameTable.firstUndeclared_append, ht]
    rfl

theorem Excuses.append_right {c c' : Cursor} {e : ParseError} (hp : Passes c ts ms c')
    (he : Excuses room c'.names ns e) : Excuses room c.names (ms ++ ns) e := by
  rcases he with he | ⟨t, ht, he⟩
  · exact .inl he
  · refine .inr ⟨t, ?_, he⟩
    rw [NameTable.firstUndeclared_append, hp.declared, ← hp.names, ht]
    rfl

/-- The room at the end is the room at the start. -/
theorem Passes.keeps_room {c c' : Cursor} (hp : Passes c ts ms c') (hr : c.Room n h) :
    c'.Room n h :=
  ⟨hp.depth ▸ hr.depth, hp.level ▸ hr.level⟩

theorem Completes.more_room {n' h' : Nat} (hs : Completes room n h step ts rest ms good)
    (hn : n ≤ n') (hh : h ≤ h') : Completes room n' h' step ts rest ms good := by
  intro c line ht hc hr
  refine hs c line ht hc fun hroom => ?_
  have hdepth := (hr hroom).depth
  have hlevel := (hr hroom).level
  exact ⟨by omega, by omega⟩

/-- **One behind the other.** -/
theorem Completes.bind (hs : Completes room n h step ts (us ++ rest) ms good)
    (hn : ∀ a, good a → Completes room n h (next a) us rest ns good') :
    Completes room n h (step >>= next) (ts ++ us) rest (ms ++ ns) good' := by
  intro c line ht hc hr
  rw [List.append_assoc] at ht
  rw [meets_bind]
  refine (hs c line ht hc hr).mono ?_ fun _ he => he.append_left
  rintro a c₁ ⟨ha, hp⟩
  have ht₁ : c₁.tokens = us ++ rest := List.append_cancel_left (hp.tokens.symm.trans ht)
  have hr₁ : room → c₁.Room n h := fun hroom => hp.keeps_room (hr hroom)
  refine (hn a ha c₁ line ht₁ (hp.ending.trans hc) hr₁).mono ?_ fun _ he => he.append_right hp
  rintro b c₂ ⟨hb, hq⟩
  exact ⟨hb, hp.trans hq⟩

/-- Going on without passing another token. -/
theorem Completes.bind_here (hs : Completes room n h step ts rest ms good)
    (hn : ∀ a, good a → Completes room n h (next a) [] rest ns good') :
    Completes room n h (step >>= next) ts rest (ms ++ ns) good' := by
  have hbind : Completes room n h (step >>= next) (ts ++ []) rest (ms ++ ns) good' := hs.bind hn
  rwa [List.append_nil] at hbind

theorem Completes.bind_nil (hs : Completes room n h step ts rest ms good)
    (hn : ∀ a, good a → Completes room n h (next a) [] rest [] good') :
    Completes room n h (step >>= next) ts rest ms good' := by
  have hbind : Completes room n h (step >>= next) ts rest (ms ++ []) good' := hs.bind_here hn
  rwa [List.append_nil] at hbind

theorem Completes.mono {good' : α → Prop} (hs : Completes room n h step ts rest ms good)
    (hg : ∀ a, good a → good' a) : Completes room n h step ts rest ms good' :=
  fun c line ht hc hr => (hs c line ht hc hr).mono (fun a _ ha => ⟨hg a ha.1, ha.2⟩) fun _ he => he

theorem completes_pure {a : α} (ha : good a) : Completes room n h (pure a) [] rest [] good :=
  fun c _ _ _ _ => ⟨ha, .refl c⟩

theorem completes_refuseDepth (hr : ¬room) :
    Completes room n h (refuseDepth : Step α) ts rest ms good :=
  fun _ _ _ _ _ => .inl ⟨hr, _, rfl⟩

theorem completes_advance {t : Token} : Completes room n h advance [t] rest [] (· = t) := by
  intro c line ht hc _
  rw [meets_advance ht hc]
  exact ⟨rfl, .token ht⟩

/-- The kind of the first token. -/
def kindOf (ts : List Token) : Option TokenKind :=
  ts.head?.map Token.kind

theorem completes_peek {kind? : Option TokenKind} {next : Option TokenKind → Step β}
    (hk : kindOf (ts ++ rest) = kind?) (hn : Completes room n h (next kind?) ts rest ms good') :
    Completes room n h (peek >>= next) ts rest ms good' := by
  subst hk
  intro c line ht hc hr
  rw [meets_bind, meets_peek, Cursor.kind?, ht]
  exact hn c line ht hc hr

theorem completes_isAt {kind : TokenKind} {next : Bool → Step β}
    (hk : kindOf (ts ++ rest) = some kind) (hn : Completes room n h (next true) ts rest ms good') :
    Completes room n h (isAt kind >>= next) ts rest ms good' := by
  intro c line ht hc hr
  rw [meets_bind, meets_isAt, Cursor.kind?, ht]
  exact decide_eq_true hk ▸ hn c line ht hc hr

theorem completes_isAt_of_ne {kind : TokenKind} {next : Bool → Step β}
    (hk : kindOf (ts ++ rest) ≠ some kind)
    (hn : Completes room n h (next false) ts rest ms good') :
    Completes room n h (isAt kind >>= next) ts rest ms good' := by
  intro c line ht hc hr
  rw [meets_bind, meets_isAt, Cursor.kind?, ht]
  exact decide_eq_false hk ▸ hn c line ht hc hr

/-- What is looked at is the tokens ahead. -/
theorem completes_get {next : Cursor → Step β}
    (hn : ∀ c, c.tokens = ts ++ rest → Completes room n h (next c) ts rest ms good') :
    Completes room n h (get >>= next) ts rest ms good' := by
  intro c line ht hc hr
  rw [meets_bind, meets_get]
  exact hn c ht c line ht hc hr

/-- Consuming a token and going on. -/
theorem completes_advance_bind {t : Token} {next : Token → Step β}
    (hn : Completes room n h (next t) ts rest ms good') :
    Completes room n h (advance >>= next) (t :: ts) rest ms good' := by
  show Completes room n h _ ([t] ++ ts) rest ([] ++ ms) good'
  exact completes_advance.bind fun u hu => by rwa [hu]

theorem completes_consume_bind {t : Token} {kind : TokenKind} {next : Token → Step β}
    (hk : t.kind = kind) (hn : Completes room n h (next t) ts rest ms good') :
    Completes room n h (consume kind >>= next) (t :: ts) rest ms good' := by
  unfold consume
  rw [bind_assoc]
  exact completes_isAt (congrArg some hk) (completes_advance_bind hn)

theorem completes_word {meaning? : TokenKind → Option α} {t : Token} {a : α}
    (ha : meaning? t.kind = some a) : Completes room n h (word meaning?) [t] rest [] (· = a) := by
  unfold word
  refine completes_peek rfl ?_
  have hk : (kindOf ([t] ++ rest)).bind meaning? = some a := ha
  rw [hk]
  exact completes_advance_bind (completes_pure rfl)

theorem completes_checkDeclared (t : Token) :
    Completes room n h (checkDeclared t) [] rest [.read t] fun _ => True := by
  intro c line _ _ _
  rw [meets_checkDeclared]
  split
  · next hd =>
    have hnone : c.names.firstUndeclared Token.text [.read t] = none := by
      rw [NameTable.firstUndeclared, if_pos hd]
      rfl
    exact ⟨trivial, rfl, hnone, rfl, rfl, rfl, rfl⟩
  · next hd => exact .inr ⟨t, by rw [NameTable.firstUndeclared, if_neg hd], rfl⟩

theorem completes_declare (t : Token) :
    Completes room n h (declare t.text) [] rest [.declare t] fun _ => True :=
  fun _ _ _ _ _ => ⟨trivial, .declare t⟩

/-- A node is built where there is room for its height. -/
theorem completes_place {e : Expr} {childHeight : Nat} (hh : childHeight + 1 ≤ h) :
    Completes room n h (place e childHeight) [] rest [] (· = ⟨e, childHeight + 1⟩) := by
  intro c line _ _ hr
  rw [meets_place]
  split
  · next hdeep =>
    refine .inl ⟨fun hroom => ?_, _, rfl⟩
    have hlevel := (hr hroom).level
    omega
  · exact ⟨rfl, .refl c⟩

/-- **Each nesting takes the room of one.** -/
theorem Completes.nested (hs : Completes room n h step ts rest ms good) :
    Completes room (n + 1) h (nested step) ts rest ms good := by
  intro c line ht hc hr
  rw [meets_nested]
  split
  · next hdeep =>
    refine .inl ⟨fun hroom => ?_, _, rfl⟩
    have hdepth := (hr hroom).depth
    omega
  · have hr₁ : room → Cursor.Room { c with depth := c.depth + 1 } n h := by
      intro hroom
      have hdepth := (hr hroom).depth
      exact ⟨by show c.depth + 1 + n ≤ maxDepth; omega, (hr hroom).level⟩
    refine (hs { c with depth := c.depth + 1 } line ht hc hr₁).mono ?_ fun _ he => he
    rintro a c₁ ⟨ha, hp⟩
    have hd : c₁.depth = c.depth + 1 := hp.depth
    refine ⟨ha, hp.tokens, hp.declared, hp.names, hp.ending, ?_, hp.level⟩
    show c₁.depth - 1 = c.depth
    omega

/-- Going down to the statements of a block and coming back takes the room of one
level. -/
theorem Completes.descended (hs : Completes room n h step ts rest ms good) :
    Completes room n (h + 1) (descend >>= fun _ => step >>= fun a => ascend >>= fun _ => pure a) ts
      rest ms good := by
  intro c line ht hc hr
  rw [meets_bind, meets_descend]
  split
  · next hdeep =>
    refine .inl ⟨fun hroom => ?_, _, rfl⟩
    have hlevel := (hr hroom).level
    omega
  · have hr₁ : room → Cursor.Room { c with level := c.level + 1 } n h := by
      intro hroom
      have hlevel := (hr hroom).level
      exact ⟨(hr hroom).depth, by show c.level + 1 + h ≤ maxDepth; omega⟩
    rw [meets_bind]
    refine (hs { c with level := c.level + 1 } line ht hc hr₁).mono ?_ fun _ he => he
    rintro a c₁ ⟨ha, hp⟩
    have hl : c₁.level = c.level + 1 := hp.level
    refine ⟨ha, hp.tokens, hp.declared, hp.names, hp.ending, hp.depth, ?_⟩
    show c₁.level - 1 = c.level
    omega

theorem completes_consult_bind {next : Unit → Step β}
    (hn : Completes room n h (next ()) ts rest ms good') :
    Completes room n h (consult .never >>= next) ts rest ms good' := by
  show Completes room n h _ ([] ++ ts) rest ([] ++ ms) good'
  have hconsult : Completes room n h (consult .never) [] (ts ++ rest) [] fun _ => True :=
    fun _ _ _ _ _ => ⟨trivial, rfl, rfl, rfl, rfl, rfl, rfl⟩
  exact hconsult.bind fun _ _ => hn

end Rules

/-! ## Where an expression ends -/

/-- How tightly a token holds on to what stands in front of it. -/
def grip : TokenKind → Nat
  | .leftParen => 7
  | .caret => 6
  | .times | .divide => 5
  | .plus | .minus => 4
  | .equalTo | .notEqual | .less | .lessOrEqual | .greater | .greaterOrEqual => 3
  | .asWord | .inWord => 2
  | .comma => 1
  | _ => 0

/-- What a level does not go on with holds on less tightly. -/
def Level.limit : Level → Nat
  | .primary => 7
  | .power | .signed => 6
  | .product => 5
  | .sum | .prompt => 4
  | .comparison | .convertible => 3
  | .expression => 2
  | .value => 1

/-- An expression of the level ends in front of these tokens. -/
def Level.Ends (level : Level) (rest : List Token) : Prop :=
  ∀ k, kindOf rest = some k → grip k < level.limit ∧ (level = .prompt → k ≠ .comma)

theorem Level.Ends.mono {level level' : Level} {rest : List Token} (h : level.Ends rest)
    (hl : level.limit ≤ level'.limit) (hp : level' ≠ .prompt) : level'.Ends rest :=
  fun k hk => ⟨Nat.lt_of_lt_of_le (h k hk).1 hl, fun h => absurd h hp⟩

theorem Level.Ends.part {level part : Level} {rest : List Token} (h : level.Ends rest)
    (hp : level.part? = some part) : part.Ends rest := by
  cases level <;> cases hp <;> exact h.mono (by decide) (by decide)

theorem Joins.ends {level part : Level} {l r e : Expr} {t : Token} (ts : List Token)
    (h : Joins level t.kind l r e) (hp : level.part? = some part) : part.Ends (t :: ts) := by
  intro k hk
  obtain rfl : t.kind = k := Option.some.inj hk
  generalize t.kind = k at h
  cases h with
  | compare op => cases hp; cases op <;> exact ⟨by decide, by simp⟩
  | _ => cases hp; exact ⟨by decide, by simp⟩

theorem Joins.not_ends {level : Level} {k : TokenKind} {l r e : Expr} (h : Joins level k l r e)
    (hg : grip k < level.limit) : level = .prompt ∧ k = .comma := by
  cases h with
  | promptComma => exact ⟨rfl, rfl⟩
  | compare op => cases op <;> exact absurd hg (by decide)
  | _ => exact absurd hg (by decide)

theorem Level.Ends.operator?_eq_none {level : Level} {rest : List Token} (h : level.Ends rest)
    (e : Expr) : (kindOf rest).bind (level.operator? e) = none := by
  cases hk : kindOf rest with
  | none => rfl
  | some k =>
    obtain ⟨hg, hc⟩ := h k hk
    show level.operator? e k = none
    cases hop : level.operator? e k with
    | none => rfl
    | some build =>
      have hj : Joins level k e e (build e e) := joins_iff.mpr ⟨build, hop, rfl⟩
      obtain ⟨hl, hk⟩ := hj.not_ends hg
      exact absurd hk (hc hl)

/-! ## Reading an expression -/

/-- What reads behind a parenthesis, where `n` more nestings may open. -/
def inner : (n : Nat) → Step Node
  | 0 => refuseDepth
  | n + 1 => expressionOf (operand n)

/-- What reads behind a sign, where `n` more nestings may open. -/
def signed : (n : Nat) → Step Node
  | 0 => refuseDepth
  | n + 1 => operand n

theorem operand_eq (n : Nat) : operand n = unary (inner n) (signed n) := by
  cases n <;> rfl

/-- What reads an expression of the level, where `n` more nestings may open. -/
def reader (n : Nat) : Level → Step Node
  | .primary => primary (inner n)
  | .power => power (inner n) (signed n)
  | .signed => operand n
  | .product => leftAssociative (operand n) productOperator?
  | .sum => sum (operand n)
  | .comparison => leftAssociative (sum (operand n)) comparisonOperator?
  | .convertible => convertible (operand n)
  | .expression => expressionOf (operand n)
  | .value => leftAssociative (expressionOf (operand n)) valueOperator?
  | .prompt => leftAssociative (sum (operand n)) promptOperator?

theorem reader_of_part {level part : Level} (hp : level.part? = some part) (n : Nat) :
    reader n level = leftAssociative (reader n part) level.operator? := by
  cases level <;> cases hp <;> rfl

/-- A whole expression nests once more than what stands in it. -/
def Level.nestings : Level → Nat
  | .expression | .value => 1
  | _ => 0

theorem Level.nestings_of_part {level part : Level} (hp : level.part? = some part) :
    level.nestings = part.nestings := by
  cases level <;> cases hp <;> rfl

/-- The tokens are read as the expression, whatever the rest, if the level ends there;
room is needed for `k` nestings inside it. -/
def AcceptsIn (k : Nat) (level : Level) (ts : List Token) (e : Expr) : Prop :=
  ∀ (room : Prop) m rest, (room → k ≤ m) → level.Ends rest →
    Completes room (k + level.nestings) e.depth (reader m level) ts rest (readsOf ts)
      (· = ⟨e, e.depth⟩)

/-- A loop over the operators of the level that passes the tokens goes on with the
expression on its left. -/
def ReachesIn (k : Nat) (level part : Level) (ts : List Token) (e : Expr) : Prop :=
  ∀ (room : Prop) m n us rest h, (room → k ≤ m) → k + part.nestings ≤ n →
    part.Ends (us ++ rest) → e.depth ≤ h → ∀ (ns : List (Mention Token)) (good : Node → Prop),
      (∀ ahead, (us ++ rest).length ≤ ahead.length →
        Completes room n h (foldLeft (reader m part) level.operator? ahead ⟨e, e.depth⟩) us rest ns
          good) →
      Completes room n h (leftAssociative (reader m part) level.operator?) (ts ++ us) rest
        (readsOf ts ++ ns) good

section Expressions

variable {k : Nat} {level part : Level} {ts us : List Token} {e l r : Expr}

theorem ReachesIn.first (hf : AcceptsIn k part ts e) : ReachesIn k level part ts e := by
  intro room m n us rest h hm hn hends hh ns good hloop
  unfold leftAssociative
  refine ((hf room m (us ++ rest) hm hends).more_room hn hh).bind fun left hl => ?_
  subst hl
  exact completes_get fun c hc => hloop c.tokens (Nat.le_of_eq (by rw [hc]))

theorem ReachesIn.joined {t : Token} (hp : level.part? = some part)
    (hl : ReachesIn k level part ts l) (hj : Joins level t.kind l r e)
    (hr : AcceptsIn k part us r) : ReachesIn k level part (ts ++ t :: us) e := by
  intro room m n vs rest h hm hn hends hh ns good hloop
  have hdepth := hj.depth_eq
  have htokens : ts ++ t :: us ++ vs = ts ++ t :: (us ++ vs) := by simp
  have hmentions : readsOf (ts ++ t :: us) ++ ns = readsOf ts ++ (readsOf us ++ ns) := by
    rw [readsOf_operator _ _ hj.ne_identifier, List.append_assoc]
  rw [htokens, hmentions]
  refine hl room m n (t :: (us ++ vs)) rest h hm hn (hj.ends _ hp) (by omega) _ good
    fun ahead hlen => ?_
  obtain ⟨build, hbuild, rfl⟩ := joins_iff.mp hj
  cases ahead with
  | nil => cases hlen
  | cons u ahead =>
    rw [foldLeft]
    refine completes_peek rfl ?_
    have hk : (kindOf (t :: (us ++ vs) ++ rest)).bind (level.operator? l) = some build := hbuild
    rw [hk]
    refine completes_advance_bind ?_
    have hright := (hr room m (vs ++ rest) hm hends).more_room hn (show r.depth ≤ h by omega)
    have hheight : max l.depth r.depth + 1 ≤ h := by omega
    refine hright.bind fun right hright => ?_
    subst hright
    show Completes _ _ _ _ ([] ++ vs) rest ([] ++ ns) good
    refine (completes_place hheight).bind fun node hnode => ?_
    have hnode : node = ⟨build l r, (build l r).depth⟩ := by rw [hnode, hdepth, Nat.add_comm]
    rw [hnode]
    refine hloop ahead ?_
    simp only [List.cons_append, List.length_cons, List.length_append] at hlen ⊢
    omega

theorem ReachesIn.accepts (hp : level.part? = some part) (hl : ReachesIn k level part ts e) :
    AcceptsIn k level ts e := by
  intro room m rest hm hends
  rw [reader_of_part hp, Level.nestings_of_part hp]
  have hread := hl room m (k + part.nestings) [] rest e.depth hm le_rfl (hends.part hp) le_rfl []
    (· = ⟨e, e.depth⟩) fun ahead _ => ?_
  · rwa [List.append_nil, List.append_nil] at hread
  cases ahead with
  | nil => exact completes_pure rfl
  | cons u ahead =>
    rw [foldLeft]
    refine completes_peek rfl ?_
    rw [List.nil_append, hends.operator?_eq_none]
    exact completes_pure rfl

theorem Level.ends_cons {level : Level} {t : Token} {k : TokenKind} (ts : List Token)
    (ht : t.kind = k) (h : grip k < level.limit ∧ (level = .prompt → k ≠ .comma)) :
    level.Ends (t :: ts) := by
  intro k' hk'
  obtain rfl : t.kind = k' := Option.some.inj hk'
  exact ht ▸ h

theorem Level.Ends.kindOf_ne {level : Level} {rest : List Token} (h : level.Ends rest)
    {k : TokenKind} (hk : ¬grip k < level.limit) : kindOf rest ≠ some k :=
  fun hr => hk (h k hr).1

/-- The tokens derive the expression at the level, open at most `k` nestings inside it,
and are read as it. -/
structure DerivesIn (k : Nat) (level : Level) (ts : List Token) (e : Expr) : Prop where
  opens : Opens .reading k level ts e
  accepts : AcceptsIn k level ts e
  /-- Where operators group to the left, more of them may follow. -/
  reaches : ∀ part, level.part? = some part → ReachesIn k level part ts e

/-! ### One rule after the other -/

namespace DerivesIn

theorem derives (h : DerivesIn k level ts e) : Derives level ts e :=
  h.opens.derives

theorem mono {k' : Nat} (h : DerivesIn k level ts e) (hk : k ≤ k') : DerivesIn k' level ts e where
  opens := h.opens.mono hk
  accepts := fun room m rest hm hends =>
    (h.accepts room m rest (fun hroom => hk.trans (hm hroom)) hends).more_room
      (Nat.add_le_add_right hk _) le_rfl
  reaches := fun part hp room m n us rest height hm hn =>
    h.reaches part hp room m n us rest height (fun hroom => hk.trans (hm hroom))
      ((Nat.add_le_add_right hk _).trans hn)

/-- At a level without operators that group to the left. -/
theorem of_accepts (hp : level.part? = none) (hd : Opens .reading k level ts e)
    (ha : AcceptsIn k level ts e) : DerivesIn k level ts e where
  opens := hd
  accepts := ha
  reaches := fun part hq => by
    rw [hp] at hq
    cases hq

/-- At a level with operators that group to the left. -/
theorem of_reaches (hp : level.part? = some part) (hd : Opens .reading k level ts e)
    (hr : ReachesIn k level part ts e) : DerivesIn k level ts e where
  opens := hd
  accepts := hr.accepts hp
  reaches := fun part' hq => by
    obtain rfl : part = part' := Option.some.inj (hp.symm.trans hq)
    exact hr

theorem number {t : Token} (ht : t.kind = .number) :
    DerivesIn k .primary [t] (.number t.text) := by
  refine of_accepts rfl (.number ht) fun room m rest _ _ => ?_
  rw [readsOf_cons_other _ (by rw [ht]; decide)]
  exact completes_peek (congrArg some ht) (completes_advance_bind (completes_place le_rfl))

theorem text {t : Token} (ht : t.kind = .stringLiteral) :
    DerivesIn k .primary [t] (.text (unquote t.text)) := by
  refine of_accepts rfl (.text ht) fun room m rest _ _ => ?_
  rw [readsOf_cons_other _ (by rw [ht]; decide)]
  exact completes_peek (congrArg some ht) (completes_advance_bind (completes_place le_rfl))

theorem name {t : Token} (ht : t.kind = .identifier) :
    DerivesIn k .primary [t] (.name t.text) := by
  refine of_accepts rfl (.name ht) fun room m rest _ hends => ?_
  rw [readsOf_cons_identifier _ ht]
  refine completes_peek (congrArg some ht) (completes_advance_bind ?_)
  refine (completes_checkDeclared t).bind fun _ _ => ?_
  exact completes_isAt_of_ne (hends.kindOf_ne (by decide)) (completes_place le_rfl)

/-- What stands in parentheses is read one nesting further in. -/
theorem completes_inner (h : DerivesIn k .expression ts e) {room : Prop} {m : Nat}
    {rest : List Token} (hm : room → k + 1 ≤ m) (hends : Level.expression.Ends rest) :
    Completes room (k + 1) e.depth (inner m) ts rest (readsOf ts) (· = ⟨e, e.depth⟩) := by
  cases m with
  | zero => exact completes_refuseDepth fun hroom => Nat.not_succ_le_zero k (hm hroom)
  | succ m => exact h.accepts room m rest (fun hroom => Nat.le_of_succ_le_succ (hm hroom)) hends

/-- What stands behind a sign or a `^` is read one nesting further in. -/
theorem completes_signed (h : DerivesIn k .signed ts e) {room : Prop} {m : Nat}
    {rest : List Token} (hm : room → k + 1 ≤ m) (hends : Level.signed.Ends rest) :
    Completes room (k + 1) e.depth (nested (signed m)) ts rest (readsOf ts)
      (· = ⟨e, e.depth⟩) := by
  refine Completes.nested ?_
  cases m with
  | zero => exact completes_refuseDepth fun hroom => Nat.not_succ_le_zero k (hm hroom)
  | succ m => exact h.accepts room m rest (fun hroom => Nat.le_of_succ_le_succ (hm hroom)) hends

theorem evaluation {f lp rp : Token} (hf : f.kind = .identifier) (hl : lp.kind = .leftParen)
    (h : DerivesIn k .expression ts e) (hr : rp.kind = .rightParen) :
    DerivesIn (k + 1) .primary (f :: lp :: (ts ++ [rp])) (.evaluation f.text e) := by
  refine of_accepts rfl (.evaluation hf hl h.opens hr) fun room m rest hm _ => ?_
  rw [readsOf_cons_identifier _ hf, readsOf_cons_other _ (by rw [hl]; decide),
    readsOf_operator _ _ (by rw [hr]; decide)]
  refine completes_peek (congrArg some hf) (completes_advance_bind ?_)
  show Completes _ _ _ _ ([] ++ lp :: (ts ++ [rp])) rest ([.read f] ++ (readsOf ts ++ [])) _
  refine (completes_checkDeclared f).bind fun _ _ => ?_
  refine completes_isAt (congrArg some hl) (completes_advance_bind ?_)
  have hargument := h.completes_inner hm (Level.ends_cons rest hr (by decide))
  refine (hargument.more_room le_rfl (Nat.le_add_left _ 1)).bind fun n hn => ?_
  subst hn
  refine completes_consume_bind hr ((completes_place ?_).mono fun n hn => ?_)
  · exact Nat.le_of_eq (Nat.add_comm e.depth 1)
  · rw [hn, Expr.depth, Nat.add_comm]

theorem parentheses {lp rp : Token} (hl : lp.kind = .leftParen)
    (h : DerivesIn k .expression ts e) (hr : rp.kind = .rightParen) :
    DerivesIn (k + 1) .primary (lp :: (ts ++ [rp])) e := by
  refine of_accepts rfl (.parentheses hl h.opens hr) fun room m rest hm _ => ?_
  rw [readsOf_cons_other _ (by rw [hl]; decide), readsOf_operator _ _ (by rw [hr]; decide)]
  refine completes_peek (congrArg some hl) (completes_advance_bind ?_)
  refine (h.completes_inner hm (Level.ends_cons rest hr (by decide))).bind fun n hn => ?_
  exact completes_consume_bind hr (completes_pure hn)

theorem base (h : DerivesIn k .primary ts e) : DerivesIn k .power ts e := by
  refine of_accepts rfl (.base h.opens) fun room m rest hm hends => ?_
  have hbase := h.accepts room m rest hm (hends.mono (by decide) (by decide))
  refine hbase.bind_nil fun n hn => ?_
  exact completes_isAt_of_ne (hends.kindOf_ne (by decide)) (completes_pure hn)

theorem power {t : Token} {b : Expr} (hb : DerivesIn (k + 1) .primary ts b) (ht : t.kind = .caret)
    (he : DerivesIn k .signed us e) :
    DerivesIn (k + 1) .power (ts ++ t :: us) (.binary b .pow e) := by
  refine of_accepts rfl (.power hb.opens ht he.opens) fun room m rest hm hends => ?_
  rw [readsOf_operator _ _ (by rw [ht]; decide)]
  have hdepth : (Expr.binary b .pow e).depth = 1 + max b.depth e.depth := rfl
  have hheight : max b.depth e.depth + 1 ≤ (Expr.binary b .pow e).depth := by omega
  have hcaret : Level.primary.Ends (t :: us ++ rest) := Level.ends_cons _ ht (by decide)
  have hbase := (hb.accepts room m (t :: us ++ rest) hm hcaret).more_room
    le_rfl (show b.depth ≤ (Expr.binary b .pow e).depth by omega)
  have hexponent := (he.completes_signed hm (hends.mono (by decide) (by decide))).more_room
    le_rfl (show e.depth ≤ (Expr.binary b .pow e).depth by omega)
  refine hbase.bind fun base hbase => ?_
  subst hbase
  refine completes_isAt (congrArg some ht) (completes_advance_bind ?_)
  refine hexponent.bind_nil fun exponent hexponent => ?_
  subst hexponent
  refine (completes_place hheight).mono fun n hn => ?_
  rw [hn, hdepth, Nat.add_comm]

theorem unsigned (h : DerivesIn k .power ts e) : DerivesIn k .signed ts e := by
  refine of_accepts rfl (.unsigned h.opens) fun room m rest hm hends => ?_
  show Completes _ _ _ (operand m) _ _ _ _
  obtain ⟨t, us, rfl, hs⟩ := h.derives.starts
  rw [operand_eq]
  refine completes_peek rfl ?_
  have hsign : (kindOf (t :: us ++ rest)).bind sign? = none := by
    show sign? t.kind = none
    revert hs
    cases t.kind <;> decide
  rw [hsign]
  exact h.accepts room m rest hm (hends.mono (by decide) (by decide))

theorem sign {t : Token} {op : ArithOp} (ht : sign? t.kind = some op)
    (h : DerivesIn k .signed ts e) :
    DerivesIn (k + 1) .signed (t :: ts) (.binary (.number "0") op e) := by
  have hd : Opens .reading (k + 1) .signed (t :: ts) (.binary (.number "0") op e) := by
    cases hk : t.kind <;> rw [hk] at ht <;> cases ht
    · exact .plus hk h.opens
    · exact .minus hk h.opens
  have hne : t.kind ≠ .identifier := by
    intro hk
    rw [hk] at ht
    cases ht
  refine of_accepts rfl hd fun room m rest hm hends => ?_
  show Completes _ _ _ (operand m) _ _ _ _
  rw [operand_eq, readsOf_cons_other _ hne]
  refine completes_peek rfl ?_
  have hsign : (kindOf (t :: ts ++ rest)).bind sign? = some op := ht
  rw [hsign]
  refine completes_advance_bind ?_
  have hdepth : (Expr.binary (.number "0") op e).depth = 1 + max 1 e.depth := rfl
  have hzero : 0 + 1 ≤ (Expr.binary (.number "0") op e).depth := by omega
  have hheight : max (0 + 1) e.depth + 1 ≤ (Expr.binary (.number "0") op e).depth := by omega
  have hoperand := (h.completes_signed hm hends).more_room le_rfl
    (show e.depth ≤ (Expr.binary (.number "0") op e).depth by omega)
  refine hoperand.bind_nil fun n hn => ?_
  subst hn
  refine (completes_place hzero).bind_nil fun zero hzero => ?_
  subst hzero
  refine (completes_place hheight).mono fun n hn => ?_
  rw [hn, hdepth, Nat.add_comm 1 (max 1 e.depth)]

theorem first (hp : level.part? = some part) (h : DerivesIn k part ts e) :
    DerivesIn k level ts e :=
  of_reaches hp (.first hp h.opens) (.first h.accepts)

theorem joined {t : Token} (hp : level.part? = some part) (hl : DerivesIn k level ts l)
    (hj : Joins level t.kind l r e) (hr : DerivesIn k part us r) :
    DerivesIn k level (ts ++ t :: us) e :=
  of_reaches hp (.joined hp hl.opens hj hr.opens) (.joined hp (hl.reaches _ hp) hj hr.accepts)

theorem compared (h : DerivesIn k .comparison ts e) : DerivesIn k .convertible ts e := by
  refine of_accepts rfl (.compared h.opens) fun room m rest hm hends => ?_
  obtain ⟨t, us, rfl, hs⟩ := h.derives.starts
  refine completes_isAt_of_ne ?_ (h.accepts room m rest hm (hends.mono (by decide) (by decide)))
  intro hk
  rw [show t.kind = .solve from Option.some.inj hk] at hs
  cases hs

theorem solvedIn {s w d : Token} (domain : Domain) (hs : s.kind = .solve)
    (h : DerivesIn k .sum ts e) (hw : w.kind = .inWord ∨ w.kind = .asWord)
    (hd : d.kind = domain.kind) :
    DerivesIn k .convertible (s :: (ts ++ [w, d])) (.solve e domain) := by
  refine of_accepts rfl (.solvedIn domain hs h.opens hw hd) fun room m rest hm _ => ?_
  have hwk : w.kind ≠ .identifier := by
    rcases hw with hw | hw <;> rw [hw] <;> decide
  rw [readsOf_cons_other _ (by rw [hs]; decide), readsOf_operator _ _ hwk,
    readsOf_cons_other _ (by rw [hd]; cases domain <;> decide)]
  refine completes_isAt (congrArg some hs) (completes_consume_bind hs ?_)
  have hends : Level.sum.Ends (w :: d :: rest) := by
    rcases hw with hw | hw <;> exact Level.ends_cons _ hw (by decide)
  have hequation := (h.accepts room m (w :: d :: rest) hm hends).more_room le_rfl
    (Nat.le_add_left e.depth 1)
  refine hequation.bind fun n hn => ?_
  subst hn
  have htail : Completes room k (1 + e.depth)
      (advance >>= fun _ => word domain? >>= fun a => placeOver ⟨e, e.depth⟩ (.solve · a))
      [w, d] rest [] (· = ⟨.solve e domain, (Expr.solve e domain).depth⟩) := by
    refine completes_advance_bind ?_
    refine (completes_word (domain?_eq_some.mpr hd)).bind_nil fun a ha => ?_
    refine (completes_place (Nat.le_of_eq (Nat.add_comm e.depth 1))).mono fun n hn => ?_
    rw [hn, ha, Expr.depth, Nat.add_comm]
  rcases hw with hw | hw
  · refine completes_isAt (congrArg some hw) (completes_isAt_of_ne ?_ htail)
    rw [show kindOf ([w, d] ++ rest) = some .inWord from congrArg some hw]
    decide
  · refine completes_isAt_of_ne ?_ (completes_isAt (congrArg some hw) htail)
    rw [show kindOf ([w, d] ++ rest) = some .asWord from congrArg some hw]
    decide

theorem solved {s : Token} (hs : s.kind = .solve) (h : DerivesIn k .sum ts e) :
    DerivesIn k .expression (s :: ts) (.solve e .standard) := by
  refine of_accepts rfl (.solved hs h.opens) fun room m rest hm hends => ?_
  show Completes _ _ _ (expressionOf (operand m)) _ _ _ _
  rw [expressionOf_eq, readsOf_cons_other _ (by rw [hs]; decide)]
  refine Completes.nested (Completes.bind_nil ?_ fun n hn =>
    completes_isAt_of_ne (hends.kindOf_ne (by decide)) (completes_pure hn))
  refine completes_isAt (congrArg some hs) (completes_consume_bind hs ?_)
  have hequation := (h.accepts room m rest hm (hends.mono (by decide) (by decide))).more_room le_rfl
    (Nat.le_add_left e.depth 1)
  refine hequation.bind_nil fun n hn => ?_
  subst hn
  refine completes_isAt_of_ne (hends.kindOf_ne (by decide)) ?_
  refine completes_isAt_of_ne (hends.kindOf_ne (by decide)) ?_
  refine (completes_place (Nat.le_of_eq (Nat.add_comm e.depth 1))).mono fun n hn => ?_
  rw [hn, Expr.depth, Nat.add_comm]

theorem plain (h : DerivesIn k .convertible ts e) : DerivesIn k .expression ts e := by
  refine of_accepts rfl (.plain h.opens) fun room m rest hm hends => ?_
  show Completes _ _ _ (expressionOf (operand m)) _ _ _ _
  rw [expressionOf_eq]
  have hinner := h.accepts room m rest hm (hends.mono (by decide) (by decide))
  refine Completes.nested (hinner.bind_nil fun n hn => ?_)
  exact completes_isAt_of_ne (hends.kindOf_ne (by decide)) (completes_pure hn)

theorem converted {w d : Token} (type : CastType) (h : DerivesIn k .convertible ts e)
    (hw : w.kind = .asWord) (hd : d.kind = type.kind) :
    DerivesIn k .expression (ts ++ [w, d]) (.cast e type) := by
  refine of_accepts rfl (.converted type h.opens hw hd) fun room m rest hm _ => ?_
  show Completes _ _ _ (expressionOf (operand m)) _ _ _ _
  rw [expressionOf_eq, readsOf_operator _ _ (by rw [hw]; decide),
    readsOf_cons_other _ (by rw [hd]; cases type <;> decide)]
  have hinner := (h.accepts room m (w :: d :: rest) hm (Level.ends_cons _ hw (by decide))).more_room
    le_rfl (Nat.le_add_left e.depth 1)
  refine Completes.nested (hinner.bind fun n hn => ?_)
  subst hn
  refine completes_isAt (congrArg some hw) (completes_advance_bind ?_)
  refine (completes_word (castType?_eq_some.mpr hd)).bind_nil fun a ha => ?_
  refine (completes_place (Nat.le_of_eq (Nat.add_comm e.depth 1))).mono fun n hn => ?_
  rw [hn, ha, Expr.depth, Nat.add_comm]

end DerivesIn

/-- **Tokens that derive an expression are read as it**, with room for as many nestings as
they open. -/
theorem Opens.derivesIn (h : Opens .reading k level ts e) : DerivesIn k level ts e := by
  induction h with
  | number ht => exact .number ht
  | text ht => exact .text ht
  | name ht => exact .name ht
  | evaluation hf hl _ hr ih => exact .evaluation hf hl ih hr
  | parentheses hl _ hr ih => exact .parentheses hl ih hr
  | base _ ih => exact .base ih
  | power _ ht _ ihb ihe => exact .power ihb ht ihe
  | unsigned _ ih => exact .unsigned ih
  | plus ht _ ih => exact .sign (by rw [ht]; rfl) ih
  | minus ht _ ih => exact .sign (by rw [ht]; rfl) ih
  | first hp _ ih => exact .first hp ih
  | joined hp _ hj _ ihl ihr => exact .joined hp ihl hj ihr
  | compared _ ih => exact .compared ih
  | solvedIn domain hs _ hw hd ih => exact .solvedIn domain hs ih hw hd
  | solved hs _ ih => exact .solved hs ih
  | plain _ ih => exact .plain ih
  | converted type _ hw hd ih => exact .converted type ih hw hd

end Expressions

end Grammar
end MathScript
