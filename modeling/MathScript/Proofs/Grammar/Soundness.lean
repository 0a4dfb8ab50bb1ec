import MathScript.Proofs.Grammar.Statements

/-!
# What a reading accepts

Whatever a reading gives back derives from the tokens it has passed, and fits:
every name is declared where it is read, no node lies deeper than `maxDepth`, and
no more nestings are opened than there is room for.  A rule is sound when the rules
it is written over are, so each level is followed once and the recursion on nestings
closes over all of them.

* `sound_expression`, `sound_statement`: **a result comes with a derivation**.
* `derives_of_parseUnder`: the same for a source text.
-/

namespace MathScript
namespace Grammar

/-! ## Expressions -/

/-- The node read from the tokens fits at the cursor. -/
structure Fits (c : Cursor) (ts : List Token) (n : Node) : Prop where
  declared : missing? c.names ts = none
  height : n.height = n.expr.depth
  within : c.level + n.height ≤ maxDepth

/-- The tokens derive the expression at the level, with all the nestings that may still
open at the cursor. -/
def DerivesAt (c : Cursor) (level : Level) (ts : List Token) (e : Expr) : Prop :=
  ∃ k, k + level.nestings = maxDepth - c.depth ∧ DerivesIn k level ts e

/-- **Whatever the step gives back derives at the level from the tokens passed,
and fits.** -/
def Sound (level : Level) (step : Step Node) : Prop :=
  ∀ c, Ensures step c fun n c' => ∃ ts rest, c.tokens = ts ++ rest ∧
    c' = { c with tokens := rest } ∧ DerivesAt c level ts n.expr ∧ Fits c ts n

theorem sound_refuseDepth (level : Level) : Sound level refuseDepth := by
  intro c
  rw [Ensures, meets_refuseDepth]
  trivial

/-- One nesting further in, one nesting fewer may open. -/
theorem ensures_nested {level : Level} {step : Step Node} (h : Sound level step) (c : Cursor) :
    Ensures (nested step) c fun n c' => ∃ ts rest, c.tokens = ts ++ rest ∧
      c' = { c with tokens := rest } ∧
      (∃ k, k + level.nestings + 1 = maxDepth - c.depth ∧ DerivesIn k level ts n.expr) ∧
      Fits c ts n := by
  rw [Ensures, meets_nested]
  split
  · trivial
  · next hdepth =>
    refine (h _).mono ?_ fun _ _ => trivial
    rintro n _ ⟨ts, rest, hts, rfl, ⟨k, hk, hd⟩, hf⟩
    have hk : k + level.nestings = maxDepth - (c.depth + 1) := hk
    exact ⟨ts, rest, hts, rfl, ⟨k, by omega, hd⟩, hf.declared, hf.height, hf.within⟩

/-- A leaf fits wherever it is placed. -/
theorem ensures_placeLeaf {c : Cursor} {e : Expr} {post : Node → Cursor → Prop}
    (he : e.depth = 1)
    (h : ∀ n : Node, n.expr = e → n.height = e.depth → c.level + n.height ≤ maxDepth → post n c) :
    Ensures (placeLeaf e) c post := by
  rw [placeLeaf, Ensures, meets_place]
  split
  · trivial
  · exact h ⟨e, 1⟩ rfl he.symm (by show c.level + 1 ≤ _; omega)

theorem ensures_placeOver {c : Cursor} {n : Node} {build : Expr → Expr}
    {post : Node → Cursor → Prop} (hb : ∀ e, (build e).depth = 1 + e.depth)
    (hn : n.height = n.expr.depth)
    (h : ∀ m : Node, m.expr = build n.expr → m.height = m.expr.depth →
      c.level + m.height ≤ maxDepth → post m c) :
    Ensures (placeOver n build) c post := by
  rw [placeOver, Ensures, meets_place]
  split
  · trivial
  · exact h ⟨build n.expr, n.height + 1⟩ rfl
      (by show n.height + 1 = (build n.expr).depth; rw [hb, hn]; omega)
      (by show c.level + (n.height + 1) ≤ _; omega)

theorem ensures_placeOverBoth {c : Cursor} {l r : Node} {build : Expr → Expr → Expr}
    {post : Node → Cursor → Prop}
    (hb : (build l.expr r.expr).depth = 1 + max l.expr.depth r.expr.depth)
    (hl : l.height = l.expr.depth) (hr : r.height = r.expr.depth)
    (h : ∀ m : Node, m.expr = build l.expr r.expr → m.height = m.expr.depth →
      c.level + m.height ≤ maxDepth → post m c) :
    Ensures (placeOverBoth l r build) c post := by
  rw [placeOverBoth, Ensures, meets_place]
  split
  · trivial
  · exact h ⟨build l.expr r.expr, max l.height r.height + 1⟩ rfl
      (by show max l.height r.height + 1 = (build l.expr r.expr).depth; rw [hb, hl, hr]; omega)
      (by show c.level + (max l.height r.height + 1) ≤ _; omega)

theorem sound_primary {inner : Step Node} (hi : Sound .expression inner) :
    Sound .primary (primary inner) := by
  intro c
  unfold primary
  rw [Ensures, meets_bind, meets_peek]
  split
  · next hk =>
    rw [meets_bind]
    refine ensures_advance hk fun t rest ht htk => ensures_placeLeaf rfl fun n hn hh hw => ?_
    refine ⟨[t], rest, ht, rfl, ⟨_, rfl, hn ▸ .number htk⟩, ?_, hn ▸ hh, hw⟩
    rw [missing?_cons_other _ _ (by rw [htk]; decide)]
    rfl
  · next hk =>
    rw [meets_bind]
    refine ensures_advance hk fun t rest ht htk => ensures_placeLeaf rfl fun n hn hh hw => ?_
    refine ⟨[t], rest, ht, rfl, ⟨_, rfl, hn ▸ .text htk⟩, ?_, hn ▸ hh, hw⟩
    rw [missing?_cons_other _ _ (by rw [htk]; decide)]
    rfl
  · next hk =>
    rw [meets_bind]
    refine ensures_advance hk fun t rest ht htk => ?_
    rw [meets_bind, meets_checkDeclared]
    split
    · next hd =>
      rw [meets_bind, meets_isAt, meets_ite]
      split
      · next hl =>
        rw [meets_bind]
        refine ensures_advance (of_decide_eq_true hl) fun lp rest₁ hlp hlpk => ?_
        rw [meets_bind]
        refine (hi _).mono ?_ fun _ _ => trivial
        rintro n _ ⟨ts, rest₂, hts, rfl, ⟨k, hk, he⟩, hf⟩
        rw [meets_bind]
        refine ensures_consume fun rp rest₃ hrp hrpk => ?_
        refine ensures_placeOver (fun _ => rfl) hf.height fun m hm hh hw => ?_
        have hlp : rest = lp :: rest₁ := hlp
        have hts : rest₁ = ts ++ rest₂ := hts
        have hrp : rest₂ = rp :: rest₃ := hrp
        refine ⟨t :: lp :: (ts ++ [rp]), rest₃, ?_, rfl, ?_, ?_, hh, hw⟩
        · simp [ht, hlp, hts, hrp]
        · rw [hm]
          exact ⟨k + 1, hk, .evaluation htk hlpk he hrpk⟩
        · rw [missing?_cons_identifier _ _ htk, if_pos hd,
            missing?_cons_other _ _ (by rw [hlpk]; decide),
            missing?_append_other _ _ (by rw [hrpk]; decide)]
          exact hf.declared
      · refine ensures_placeLeaf rfl fun n hn hh hw => ?_
        refine ⟨[t], rest, ht, rfl, ⟨_, rfl, hn ▸ .name htk⟩, ?_, hn ▸ hh, hw⟩
        rw [missing?_cons_identifier _ _ htk, if_pos hd]
        rfl
    · trivial
  · next hk =>
    rw [meets_bind]
    refine ensures_advance hk fun lp rest ht hlpk => ?_
    rw [meets_bind]
    refine (hi _).mono ?_ fun _ _ => trivial
    rintro n _ ⟨ts, rest₁, hts, rfl, ⟨k, hk, he⟩, hf⟩
    rw [meets_bind]
    refine ensures_consume fun rp rest₂ hrp hrpk => ?_
    have hts : rest = ts ++ rest₁ := hts
    have hrp : rest₁ = rp :: rest₂ := hrp
    refine ⟨lp :: (ts ++ [rp]), rest₂, ?_, rfl, ⟨k + 1, hk, .parentheses hlpk he hrpk⟩, ?_,
      hf.height, hf.within⟩
    · simp [ht, hts, hrp]
    · rw [missing?_cons_other _ _ (by rw [hlpk]; decide),
        missing?_append_other _ _ (by rw [hrpk]; decide)]
      exact hf.declared
  · trivial

theorem sound_power {inner exponent : Step Node} (hi : Sound .expression inner)
    (hs : Sound .signed exponent) : Sound .power (power inner exponent) := by
  intro c
  unfold power
  rw [Ensures, meets_bind]
  refine (sound_primary hi c).mono ?_ fun _ _ => trivial
  rintro b _ ⟨ts, rest, hts, rfl, ⟨k, hroom, hb⟩, hf⟩
  rw [meets_bind, meets_isAt, meets_ite]
  split
  · next hk =>
    rw [meets_bind]
    refine ensures_advance (of_decide_eq_true hk) fun t rest₁ ht htk => ?_
    rw [meets_bind]
    refine (ensures_nested hs _).mono ?_ fun _ _ => trivial
    rintro e _ ⟨us, rest₂, hus, rfl, ⟨j, hj, he⟩, hg⟩
    obtain rfl : k = j + 1 := hroom.trans hj.symm
    refine ensures_placeOverBoth rfl hf.height hg.height fun m hm hh hw => ?_
    have ht : rest = t :: rest₁ := ht
    have hus : rest₁ = us ++ rest₂ := hus
    refine ⟨ts ++ t :: us, rest₂, ?_, rfl, ?_, ?_, hh, hw⟩
    · simp [hts, ht, hus]
    · rw [hm]
      exact ⟨j + 1, hroom, .power hb htk he⟩
    · rw [missing?_append, hf.declared, missing?_cons_other _ _ (by rw [htk]; decide)]
      exact hg.declared
  · exact ⟨ts, rest, hts, rfl, ⟨k, hroom, .base hb⟩, hf⟩

theorem sound_unary {inner signed : Step Node} (hi : Sound .expression inner)
    (hs : Sound .signed signed) : Sound .signed (unary inner signed) := by
  intro c
  unfold unary
  rw [Ensures, meets_bind, meets_peek]
  split
  · next op hop =>
    obtain ⟨kind, hk, hop⟩ := Option.bind_eq_some_iff.mp hop
    rw [meets_bind]
    refine ensures_advance hk fun t rest ht htk => ?_
    rw [meets_bind]
    refine (ensures_nested hs _).mono ?_ fun _ _ => trivial
    rintro e _ ⟨ts, rest₁, hts, rfl, ⟨k, hk, he⟩, hf⟩
    rw [meets_bind]
    refine ensures_placeLeaf rfl fun z hz hzh _ => ?_
    refine ensures_placeOverBoth rfl (hz ▸ hzh) hf.height fun m hm hh hw => ?_
    have hts : rest = ts ++ rest₁ := hts
    refine ⟨t :: ts, rest₁, ?_, rfl, ?_, ?_, hh, hw⟩
    · simp [ht, hts]
    · rw [hm, hz]
      exact ⟨k + 1, hk, .sign (htk ▸ hop) he⟩
    · have htk' : t.kind ≠ .identifier := by
        rintro h
        rw [htk] at h
        subst h
        cases hop
      rw [missing?_cons_other _ _ htk']
      exact hf.declared
  · refine (sound_power hi hs c).mono ?_ fun _ _ => trivial
    rintro n _ ⟨ts, rest, hts, rfl, ⟨k, hk, hd⟩, hf⟩
    exact ⟨ts, rest, hts, rfl, ⟨k, hk, .unsigned hd⟩, hf⟩

/-! ### Operators from the left -/

/-- The loop goes on from what has been read before it. -/
theorem ensures_foldLeft {level part : Level} {step : Step Node} (hp : level.part? = some part)
    (hs : Sound part step) {c : Cursor} {ts : List Token} {left : Node} (ahead : List Token)
    (hd : DerivesAt c level ts left.expr) (hf : Fits c ts left) (rest : List Token) :
    Ensures (foldLeft step level.operator? ahead left) { c with tokens := rest } fun n c' =>
      ∃ us rest', rest = us ++ rest' ∧ c' = { c with tokens := rest' } ∧
        DerivesAt c level (ts ++ us) n.expr ∧ Fits c (ts ++ us) n := by
  -- What is read so far, `ts`, grows by an operator and an operand in each round.
  induction ahead generalizing ts left rest with
  | nil => exact ⟨[], rest, rfl, rfl, by simpa using hd, by simpa using hf⟩
  | cons _ ahead ih =>
    rw [foldLeft, Ensures, meets_bind, meets_peek]
    split
    · exact ⟨[], rest, rfl, rfl, by simpa using hd, by simpa using hf⟩
    · next build hb =>
      obtain ⟨kind, hk, hb⟩ := Option.bind_eq_some_iff.mp hb
      rw [meets_bind]
      refine ensures_advance hk fun t rest₁ ht htk => ?_
      rw [meets_bind]
      refine (hs _).mono ?_ fun _ _ => trivial
      rintro r _ ⟨us, rest₂, hus, rfl, ⟨j, hjk, hr⟩, hg⟩
      obtain ⟨k, hk, hl⟩ := hd
      obtain rfl : k = j := by
        rw [Level.nestings_of_part hp] at hk
        exact Nat.add_right_cancel (hk.trans hjk.symm)
      have hj : Joins level t.kind left.expr r.expr (build left.expr r.expr) :=
        joins_iff.mpr ⟨build, htk ▸ hb, rfl⟩
      rw [meets_bind]
      refine ensures_placeOverBoth hj.depth_eq hf.height hg.height fun m hm hh hw => ?_
      have ht : rest = t :: rest₁ := ht
      have hus : rest₁ = us ++ rest₂ := hus
      have hmd : DerivesAt c level (ts ++ t :: us) m.expr := ⟨k, hk, hm ▸ .joined hp hl hj hr⟩
      have hmf : Fits c (ts ++ t :: us) m := by
        refine ⟨?_, hh, hw⟩
        rw [missing?_append, hf.declared, missing?_cons_other _ _ hj.ne_identifier]
        exact hg.declared
      refine (ih hmd hmf rest₂).mono ?_ fun _ _ => trivial
      rintro n _ ⟨vs, rest₃, hvs, rfl, hn, hnf⟩
      refine ⟨t :: us ++ vs, rest₃, ?_, rfl, ?_, ?_⟩
      · simp [ht, hus, hvs]
      · simpa using hn
      · simpa using hnf

theorem sound_leftAssociative {level part : Level} {step : Step Node}
    (hs : Sound part step) (hp : level.part? = some part) :
    Sound level (leftAssociative step level.operator?) := by
  intro c
  unfold leftAssociative
  rw [Ensures, meets_bind]
  refine (hs c).mono ?_ fun _ _ => trivial
  rintro l _ ⟨ts, rest, hts, rfl, ⟨k, hk, hd⟩, hf⟩
  rw [meets_bind, meets_get]
  have hfirst : DerivesAt c level ts l.expr :=
    ⟨k, (Level.nestings_of_part hp).symm ▸ hk, .first hp hd⟩
  refine (ensures_foldLeft hp hs rest hfirst hf rest).mono ?_ fun _ _ => trivial
  rintro n _ ⟨us, rest₁, hus, rfl, hn, hnf⟩
  exact ⟨ts ++ us, rest₁, by simp [hts, hus], rfl, hn, hnf⟩

theorem sound_sum {operand : Step Node} (h : Sound .signed operand) :
    Sound .sum (sum operand) := by
  have hproduct : Sound .product (leftAssociative operand productOperator?) :=
    sound_leftAssociative h rfl
  exact sound_leftAssociative hproduct rfl

/-! ### Whole expressions -/

/-- A `SOLVE` without a domain ends where no `AS` follows. -/
theorem ensures_solve {operand : Step Node} (h : Sound .signed operand) (c : Cursor) :
    Ensures (solve operand) c fun n c' => ∃ ts rest, c.tokens = ts ++ rest ∧
      c' = { c with tokens := rest } ∧ Fits c ts n ∧
      (DerivesIn (maxDepth - c.depth) .convertible ts n.expr ∨
        DerivesIn (maxDepth - c.depth) .expression ts n.expr ∧ c'.kind? ≠ some .asWord) := by
  unfold solve
  rw [Ensures, meets_bind]
  refine ensures_consume fun s rest hs hsk => ?_
  rw [meets_bind]
  refine (sound_sum h _).mono ?_ fun _ _ => trivial
  rintro e _ ⟨ts, rest₁, hts, rfl, ⟨_, rfl, he⟩, hf⟩
  have hts : rest = ts ++ rest₁ := hts
  have hsts : missing? c.names (s :: ts) = none := by
    rw [missing?_cons_other _ _ (by rw [hsk]; decide)]
    exact hf.declared
  simp only [meets_bind, meets_isAt, meets_ite]
  split
  · next hk =>
    have hw : ∀ w rest₂, rest₁ = w :: rest₂ → w.kind = .inWord ∨ w.kind = .asWord := by
      rintro w rest₂ rfl
      simpa [Cursor.kind?] using hk
    obtain ⟨kind, hkind⟩ : ∃ kind, Cursor.kind? { c with tokens := rest₁ } = some kind := by
      simp only [Bool.or_eq_true, decide_eq_true_eq] at hk
      rcases hk with hk | hk <;> exact ⟨_, hk⟩
    refine ensures_advance hkind fun w rest₂ hwt _ => ?_
    refine ensures_word fun d rest₃ domain hdt hd => ?_
    have hdk : d.kind = domain.kind := domain?_eq_some.mp hd
    have hwt : rest₁ = w :: rest₂ := hwt
    have hdt : rest₂ = d :: rest₃ := hdt
    have hwk : w.kind ≠ .identifier := by
      rcases hw w rest₂ hwt with hw | hw <;> rw [hw] <;> decide
    refine ensures_placeOver (fun _ => rfl) hf.height fun m hm hh hmw => ?_
    refine ⟨s :: (ts ++ [w, d]), rest₃, ?_, rfl, ⟨?_, hh, hmw⟩, .inl ?_⟩
    · simp [hs, hts, hwt, hdt]
    · rw [← List.cons_append, missing?_append, hsts, missing?_cons_other _ _ hwk,
        missing?_cons_other _ _ (by rw [hdk]; cases domain <;> decide)]
      rfl
    · rw [hm]
      exact .solvedIn domain hsk he (hw w rest₂ hwt) hdk
  · next hk =>
    rw [meets_pure]
    refine ensures_placeOver (fun _ => rfl) hf.height fun m hm hh hmw => ?_
    refine ⟨s :: ts, rest₁, by simp [hs, hts], rfl, ⟨hsts, hh, hmw⟩, .inr ⟨?_, ?_⟩⟩
    · rw [hm]
      exact .solved hsk he
    · simp only [Bool.or_eq_true, decide_eq_true_eq, not_or] at hk
      exact hk.2

theorem ensures_convertible {operand : Step Node} (h : Sound .signed operand) (c : Cursor) :
    Ensures (convertible operand) c fun n c' => ∃ ts rest, c.tokens = ts ++ rest ∧
      c' = { c with tokens := rest } ∧ Fits c ts n ∧
      (DerivesIn (maxDepth - c.depth) .convertible ts n.expr ∨
        DerivesIn (maxDepth - c.depth) .expression ts n.expr ∧ c'.kind? ≠ some .asWord) := by
  unfold convertible
  rw [Ensures, meets_bind, meets_isAt, meets_ite]
  split
  · exact ensures_solve h c
  · have hcomparison : Sound .comparison (leftAssociative (sum operand) comparisonOperator?) :=
      sound_leftAssociative (sound_sum h) rfl
    refine (hcomparison c).mono ?_ fun _ _ => trivial
    rintro n _ ⟨ts, rest, hts, rfl, ⟨_, rfl, hd⟩, hf⟩
    exact ⟨ts, rest, hts, rfl, hf, .inl (.compared hd)⟩

/-- An expression with its conversion, if there is one. -/
theorem ensures_converted {operand : Step Node} (h : Sound .signed operand) (c : Cursor) :
    Ensures (do
      let e ← convertible operand
      if ← isAt .asWord then
        let _ ← advance
        let type ← word castType?
        placeOver e (.cast · type)
      else return e) c fun n c' => ∃ ts rest, c.tokens = ts ++ rest ∧
      c' = { c with tokens := rest } ∧ DerivesIn (maxDepth - c.depth) .expression ts n.expr ∧
      Fits c ts n := by
  rw [Ensures, meets_bind]
  refine (ensures_convertible h c).mono ?_ fun _ _ => trivial
  rintro n _ ⟨ts, rest, hts, rfl, hf, hd⟩
  rw [meets_bind, meets_isAt, meets_ite]
  split
  · next hk =>
    rcases hd with hd | ⟨_, hne⟩
    · rw [meets_bind]
      refine ensures_advance (of_decide_eq_true hk) fun w rest₁ hw hwk => ?_
      rw [meets_bind]
      refine ensures_word fun d rest₂ type hdt htype => ?_
      have hdk : d.kind = type.kind := castType?_eq_some.mp htype
      have hw : rest = w :: rest₁ := hw
      have hdt : rest₁ = d :: rest₂ := hdt
      refine ensures_placeOver (fun _ => rfl) hf.height fun m hm hh hmw => ?_
      refine ⟨ts ++ [w, d], rest₂, ?_, rfl, ?_, ?_, hh, hmw⟩
      · simp [hts, hw, hdt]
      · rw [hm]
        exact .converted type hd hwk hdk
      · rw [missing?_append, hf.declared, missing?_cons_other _ _ (by rw [hwk]; decide),
          missing?_cons_other _ _ (by rw [hdk]; cases type <;> decide)]
        rfl
    · exact absurd (of_decide_eq_true hk) hne
  · refine ⟨ts, rest, hts, rfl, ?_, hf⟩
    rcases hd with hd | ⟨hd, _⟩
    · exact .plain hd
    · exact hd

theorem sound_expressionOf {operand : Step Node} (h : Sound .signed operand) :
    Sound .expression (expressionOf operand) := by
  intro c
  rw [expressionOf_eq, Ensures, meets_nested]
  split
  · trivial
  · next hdepth =>
    refine (ensures_converted h _).mono ?_ fun _ _ => trivial
    rintro n _ ⟨ts, rest, hts, rfl, hd, hf⟩
    have hroom : maxDepth - (c.depth + 1) + 1 = maxDepth - c.depth := by omega
    exact ⟨ts, rest, hts, rfl, ⟨_, hroom, hd⟩, hf.declared, hf.height, hf.within⟩

theorem sound_operand (n : Nat) : Sound .signed (operand n) := by
  induction n with
  | zero => exact sound_unary (sound_refuseDepth _) (sound_refuseDepth _)
  | succ n ih => exact sound_unary (sound_expressionOf ih) ih

theorem sound_expression : Sound .expression expression :=
  sound_expressionOf (sound_operand maxDepth)

theorem sound_value : Sound .value value :=
  sound_leftAssociative sound_expression rfl

theorem sound_prompt : Sound .prompt prompt :=
  sound_leftAssociative (sound_sum (sound_operand maxDepth)) rfl

/-! ### All levels -/

theorem sound_inner (n : Nat) : Sound .expression (inner n) := by
  cases n with
  | zero => exact sound_refuseDepth _
  | succ n => exact sound_expressionOf (sound_operand n)

theorem sound_signed (n : Nat) : Sound .signed (signed n) := by
  cases n with
  | zero => exact sound_refuseDepth _
  | succ n => exact sound_operand n

/-- Every reader is sound, but for the one that stops in front of a conversion: what it
gives back may be a whole expression already. -/
theorem sound_reader (n : Nat) {level : Level} (h : level ≠ .convertible) :
    Sound level (reader n level) := by
  have hoperand := sound_operand n
  cases level with
  | primary => exact sound_primary (sound_inner n)
  | power => exact sound_power (sound_inner n) (sound_signed n)
  | signed => exact hoperand
  | product => exact sound_leftAssociative hoperand rfl
  | sum => exact sound_sum hoperand
  | comparison => exact sound_leftAssociative (sound_sum hoperand) rfl
  | convertible => exact absurd rfl h
  | expression => exact sound_expressionOf hoperand
  | value => exact sound_leftAssociative (sound_expressionOf hoperand) rfl
  | prompt => exact sound_leftAssociative (sound_sum hoperand) rfl

/-! ## Statements -/

/-- **Whatever the step gives back derives from the tokens passed, with the room there
is, and no node of it lies too deep.**  Behind a dangling statement there is no `ELSE`. -/
def SoundStmt (step : Step Stmt) : Prop :=
  ∀ c, c.level ≤ maxDepth → Ensures step c fun s c' => ∃ d ts ms, Passes c ts ms c' ∧
    DerivesStmtIn (maxDepth - c.depth) (maxDepth - c.level) d ts s ms ∧
    c.level + s.depth ≤ maxDepth + 1 ∧ (d = true → c'.kind? ≠ some .elseWord)

/-- The same for blocks. -/
def SoundBlock (step : Step (List Stmt)) : Prop :=
  ∀ c, Ensures step c fun ss c' => ∃ d ts ms, Passes c ts ms c' ∧
    DerivesBlockIn (maxDepth - c.depth) (maxDepth - c.level) d ts ss ms ∧
    c.level + maxStmtDepth ss ≤ maxDepth ∧ (d = true → c'.kind? ≠ some .elseWord)

theorem ensures_moreArguments (ahead : List Token) (c : Cursor) :
    Ensures (moreArguments ahead) c fun es c' => es = [] ∧ c' = c ∨
      ∃ t us rest, c.tokens = t :: us ++ rest ∧ c' = { c with tokens := rest } ∧
        t.kind = .comma ∧ DerivesArgumentsIn (maxDepth - c.depth) (maxDepth - c.level) us es ∧
        missing? c.names us = none ∧ c.level + maxExprDepth es ≤ maxDepth := by
  induction ahead generalizing c with
  | nil => exact .inl ⟨rfl, rfl⟩
  | cons _ ahead ih =>
    rw [moreArguments, Ensures, meets_bind, meets_isAt, meets_ite]
    split
    · next hk =>
      rw [meets_bind]
      refine ensures_advance (of_decide_eq_true hk) fun t rest ht htk => ?_
      rw [meets_bind]
      refine (sound_expression _).mono ?_ fun _ _ => trivial
      rintro e _ ⟨us, rest₁, hus, rfl, ⟨k, hroom, he⟩, hf⟩
      have hus : rest = us ++ rest₁ := hus
      have hfits : c.level + e.expr.depth ≤ maxDepth := hf.height ▸ hf.within
      have hheight : e.expr.depth ≤ maxDepth - c.level := Nat.le_sub_of_add_le' hfits
      rw [meets_bind]
      refine (ih _).mono ?_ fun _ _ => trivial
      rintro es _ (⟨rfl, rfl⟩ | ⟨u, vs, rest₂, hvs, rfl, hu, hes, hm, hw⟩)
      · refine .inr ⟨t, us, rest₁, by simp [ht, hus], rfl, htk, .one he hroom.le hheight,
          hf.declared, ?_⟩
        show c.level + max e.expr.depth 0 ≤ maxDepth
        omega
      · have hvs : rest₁ = u :: vs ++ rest₂ := hvs
        refine .inr ⟨t, us ++ u :: vs, rest₂, by simp [ht, hus, hvs], rfl, htk,
          .cons he hroom.le hheight hu hes, ?_, ?_⟩
        · rw [missing?_append, hf.declared, missing?_cons_other _ _ (by rw [hu]; decide)]
          exact hm
        · have hw : c.level + maxExprDepth es ≤ maxDepth := hw
          show c.level + max e.expr.depth (maxExprDepth es) ≤ maxDepth
          omega
    · exact .inl ⟨rfl, rfl⟩

theorem ensures_arguments (c : Cursor) :
    Ensures arguments c fun es c' => ∃ ts, Passes c ts (readsOf ts) c' ∧
      DerivesArgumentsIn (maxDepth - c.depth) (maxDepth - c.level) ts es ∧
      c.level + maxExprDepth es ≤ maxDepth := by
  unfold arguments
  rw [Ensures, meets_bind]
  refine (sound_expression c).mono ?_ fun _ _ => trivial
  rintro e _ ⟨ts, rest, hts, rfl, ⟨k, hroom, he⟩, hf⟩
  have hfits : c.level + e.expr.depth ≤ maxDepth := hf.height ▸ hf.within
  have hheight : e.expr.depth ≤ maxDepth - c.level := Nat.le_sub_of_add_le' hfits
  rw [meets_bind, meets_get, meets_bind]
  refine (ensures_moreArguments rest _).mono ?_ fun _ _ => trivial
  rintro es _ (⟨rfl, rfl⟩ | ⟨u, vs, rest₁, hvs, rfl, hu, hes, hm, hw⟩)
  · refine ⟨ts, .reads hts hf.declared, .one he hroom.le hheight, ?_⟩
    show c.level + max e.expr.depth 0 ≤ maxDepth
    omega
  · have hvs : rest = u :: vs ++ rest₁ := hvs
    refine ⟨ts ++ u :: vs, .reads (by simp [hts, hvs]) ?_, .cons he hroom.le hheight hu hes, ?_⟩
    · rw [missing?_append, hf.declared, missing?_cons_other _ _ (by rw [hu]; decide)]
      exact hm
    · have hw : c.level + maxExprDepth es ≤ maxDepth := hw
      show c.level + max e.expr.depth (maxExprDepth es) ≤ maxDepth
      omega

theorem ensures_condition (c : Cursor) :
    Ensures condition c fun e c' => ∃ lp rp ts, lp.kind = .leftParen ∧ rp.kind = .rightParen ∧
      Passes c (lp :: (ts ++ [rp])) (readsOf ts) c' ∧ DerivesAt c .expression ts e ∧
      c.level + e.depth ≤ maxDepth := by
  unfold condition
  rw [Ensures, meets_bind]
  refine ensures_consume fun lp rest hlp hlpk => ?_
  rw [meets_bind]
  refine (sound_expression _).mono ?_ fun _ _ => trivial
  rintro e _ ⟨ts, rest₁, hts, rfl, he, hf⟩
  rw [meets_bind]
  refine ensures_consume fun rp rest₂ hrp hrpk => ?_
  refine ⟨lp, rp, ts, hlpk, hrpk, ?_, he, hf.height ▸ hf.within⟩
  simpa using (Passes.token hlp).trans ((Passes.reads hts hf.declared).trans (.token hrp))

/-- What `simple` reads is a statement once a semicolon follows. -/
def SoundSimple (step : Step Stmt) : Prop :=
  ∀ c, c.level ≤ maxDepth → Ensures step c fun s c' => ∃ ts ms, Passes c ts ms c' ∧
    c.level + s.depth ≤ maxDepth + 1 ∧
    ∀ semi : Token, semi.kind = .semicolon →
      DerivesStmtIn (maxDepth - c.depth) (maxDepth - c.level) false (ts ++ [semi]) s ms

theorem ensures_optionalPrompt (c : Cursor) (hc : c.level ≤ maxDepth) :
    Ensures optionalPrompt c fun prompt c' => ∃ ts, Passes c ts (readsOf ts) c' ∧
      DerivesPromptIn (maxDepth - c.depth) (maxDepth - c.level) ts prompt ∧
      c.level + (prompt.map Expr.depth).getD 0 ≤ maxDepth := by
  unfold optionalPrompt
  rw [Ensures, meets_bind, meets_isAt, meets_ite]
  split
  · exact ⟨[], .reads rfl rfl, .none, hc⟩
  · rw [meets_bind]
    refine (sound_prompt c).mono ?_ fun _ _ => trivial
    rintro e _ ⟨ts, rest, hts, rfl, ⟨_, rfl, he⟩, hf⟩
    have hw : c.level + e.expr.depth ≤ maxDepth := hf.height ▸ hf.within
    exact ⟨ts, .reads hts hf.declared, .some he (Nat.le_sub_of_add_le' hw), hw⟩

theorem ensures_optionalCast (c : Cursor) :
    Ensures optionalCast c fun cast c' => ∃ ts, Passes c ts [] c' ∧ DerivesCast ts cast := by
  unfold optionalCast
  rw [Ensures, meets_bind, meets_isAt, meets_ite]
  split
  · next hk =>
    rw [meets_bind]
    refine ensures_advance (of_decide_eq_true hk) fun w rest hw hwk => ?_
    rw [meets_bind]
    refine ensures_word fun d rest₁ type hd htype => ?_
    exact ⟨[w, d], (Passes.token hw).trans (.token hd), .some type hwk (castType?_eq_some.mp htype)⟩
  · exact ⟨[], .refl c, .none⟩

theorem sound_input : SoundSimple input := by
  intro c hc
  rw [input_eq, Ensures, meets_bind]
  refine ensures_consume fun w rest hw hwk => ?_
  rw [meets_bind]
  refine (ensures_optionalPrompt { c with tokens := rest } hc).mono ?_ fun _ _ => trivial
  rintro prompt c₁ ⟨ts, hp, hprompt, hdepth⟩
  rw [meets_bind]
  refine ensures_consume fun gt rest₁ hg hgk => ?_
  rw [meets_bind]
  refine ensures_consume fun target rest₂ ht htk => ?_
  rw [meets_bind]
  refine (ensures_optionalCast _).mono ?_ fun _ _ => trivial
  rintro cast c₂ ⟨us, hq, hcast⟩
  rw [meets_bind, meets_declare]
  refine ⟨w :: (ts ++ gt :: target :: us), readsOf ts ++ [.declare target], ?_, ?_, ?_⟩
  · simpa using (Passes.token hw).trans (hp.trans ((Passes.token hg).trans
      ((Passes.token ht).trans (hq.trans (.declare target)))))
  · have hdepth : c.level + (prompt.map Expr.depth).getD 0 ≤ maxDepth := hdepth
    rw [Stmt.depth]
    omega
  · intro semi hs
    simpa using DerivesStmtIn.input hwk hprompt hgk htk hcast hs

/-- `PRINT` and `PLOT` are read alike. -/
theorem ensures_listing {kind : TokenKind} {build : List Expr → Stmt} {c : Cursor}
    (hk : c.kind? = some kind) (hdepth : ∀ es, (build es).depth = 1 + maxExprDepth es)
    (hderives : ∀ {n h w semi ts es}, w.kind = kind → DerivesArgumentsIn n h ts es →
      semi.kind = .semicolon →
        DerivesStmtIn n h false (w :: (ts ++ [semi])) (build es) (readsOf ts)) :
    Ensures (do let _ ← advance; return build (← arguments)) c fun s c' => ∃ ts ms,
      Passes c ts ms c' ∧ c.level + s.depth ≤ maxDepth + 1 ∧
      ∀ semi : Token, semi.kind = .semicolon →
        DerivesStmtIn (maxDepth - c.depth) (maxDepth - c.level) false (ts ++ [semi]) s ms := by
  rw [Ensures, meets_bind]
  refine ensures_advance hk fun w rest hw hwk => ?_
  rw [meets_bind]
  refine (ensures_arguments _).mono ?_ fun _ _ => trivial
  rintro es c₁ ⟨ts, hp, hes, hfits⟩
  refine ⟨w :: ts, readsOf ts, (Passes.token hw).trans hp, ?_, fun semi hs => hderives hwk hes hs⟩
  have hfits : c.level + maxExprDepth es ≤ maxDepth := hfits
  rw [hdepth]
  omega

theorem sound_simple : SoundSimple simple := by
  intro c hc
  unfold simple
  rw [Ensures, meets_bind, meets_peek]
  split
  · next hk =>
    rw [meets_bind]
    refine ensures_advance hk fun target rest ht htk => ?_
    rw [meets_bind]
    refine ensures_consume fun eq rest₁ heq heqk => ?_
    rw [meets_bind]
    refine (sound_value _).mono ?_ fun _ _ => trivial
    rintro e _ ⟨ts, rest₂, hts, rfl, ⟨k, hroom, he⟩, hf⟩
    have hfits : c.level + e.expr.depth ≤ maxDepth := hf.height ▸ hf.within
    rw [meets_bind, meets_declare]
    refine ⟨target :: eq :: ts, readsOf ts ++ [.declare target], ?_, ?_, ?_⟩
    · simpa using (Passes.token ht).trans ((Passes.token heq).trans
        ((Passes.reads hts hf.declared).trans (.declare target)))
    · rw [Stmt.depth]
      omega
    · exact fun semi hs => .assignment htk heqk he hroom.le (Nat.le_sub_of_add_le' hfits) hs
  · next hk => exact ensures_listing hk (fun _ => rfl) fun hw hes hs => .print hw hes hs
  · next hk => exact ensures_listing hk (fun _ => rfl) fun hw hes hs => .plot hw hes hs
  · exact sound_input c hc
  · trivial

theorem ensures_consult {interrupt : Interrupt} {c : Cursor} {post : Unit → Cursor → Prop}
    (h : post () { c with checks := c.checks + 1 }) : Ensures (consult interrupt) c post := by
  unfold consult
  simp only [Ensures, meets_bind, meets_get, meets_set]
  split
  · trivial
  · exact h

theorem sound_statementOf (interrupt : Interrupt) {block : Step (List Stmt)}
    (hb : SoundBlock block) : SoundStmt (statementOf interrupt block) := by
  intro c hc
  unfold statementOf
  rw [Ensures, meets_bind]
  refine ensures_consult ?_
  have hconsult : Passes c [] [] { c with checks := c.checks + 1 } :=
    ⟨rfl, rfl, rfl, rfl, rfl, rfl⟩
  rw [meets_bind, meets_peek]
  split
  · next hk =>
    rw [meets_bind]
    refine ensures_advance hk fun w rest hw hwk => ?_
    rw [meets_bind]
    refine (ensures_condition _).mono ?_ fun _ _ => trivial
    rintro e c₁ ⟨lp, rp, ts, hl, hr, hp, ⟨k, hroom, he⟩, hdepth⟩
    rw [meets_bind]
    refine (hb _).mono ?_ fun _ _ => trivial
    rintro ss c₂ ⟨d, us, ms, hq, hss, hssdepth, hd⟩
    rw [hp.depth, hp.level] at hss
    have hthen := hconsult.trans ((Passes.token hw).trans (hp.trans hq))
    have hdepth : c.level + e.depth ≤ maxDepth := hdepth
    have hheight : e.depth ≤ maxDepth - c.level := Nat.le_sub_of_add_le' hdepth
    have hssdepth : c.level + maxStmtDepth ss ≤ maxDepth := hp.level ▸ hssdepth
    rw [meets_bind, meets_isAt, meets_ite]
    split
    · next hek =>
      rw [meets_bind]
      refine ensures_advance (of_decide_eq_true hek) fun el rest₁ hel helk => ?_
      rw [meets_bind]
      refine (hb _).mono ?_ fun _ _ => trivial
      rintro os c₃ ⟨d', vs, ns, hq', hos, hosdepth, hd'⟩
      have hos : DerivesBlockIn (maxDepth - c.depth) (maxDepth - c.level) d' vs os ns :=
        hthen.depth ▸ hthen.level ▸ hos
      have hosdepth : c.level + maxStmtDepth os ≤ maxDepth := hthen.level ▸ hosdepth
      have hclosed : d = false := by
        cases d with
        | false => rfl
        | true => exact absurd (of_decide_eq_true hek) (hd rfl)
      subst hclosed
      refine ⟨d', w :: lp :: (ts ++ rp :: (us ++ el :: vs)), readsOf ts ++ (ms ++ ns), ?_,
        .ifThenElse hwk hl he hroom.le hheight hr hss helk hos, ?_, hd'⟩
      · simpa using hthen.trans ((Passes.token hel).trans hq')
      · rw [Stmt.depth]
        omega
    · next hek =>
      refine ⟨true, w :: lp :: (ts ++ rp :: us), readsOf ts ++ ms, by simpa using hthen,
        .ifThen hwk hl he hroom.le hheight hr hss, ?_, fun _ => by simpa using hek⟩
      rw [Stmt.depth]
      omega
  · next hk =>
    rw [meets_bind]
    refine ensures_advance hk fun w rest hw hwk => ?_
    rw [meets_bind]
    refine (ensures_condition _).mono ?_ fun _ _ => trivial
    rintro e c₁ ⟨lp, rp, ts, hl, hr, hp, ⟨k, hroom, he⟩, hdepth⟩
    rw [meets_bind]
    refine (hb _).mono ?_ fun _ _ => trivial
    rintro ss c₂ ⟨d, us, ms, hq, hss, hssdepth, hd⟩
    rw [hp.depth, hp.level] at hss
    have hdepth : c.level + e.depth ≤ maxDepth := hdepth
    have hheight : e.depth ≤ maxDepth - c.level := Nat.le_sub_of_add_le' hdepth
    have hssdepth : c.level + maxStmtDepth ss ≤ maxDepth := hp.level ▸ hssdepth
    refine ⟨d, w :: lp :: (ts ++ rp :: us), readsOf ts ++ ms, ?_,
      .whileLoop hwk hl he hroom.le hheight hr hss, ?_, hd⟩
    · simpa using hconsult.trans ((Passes.token hw).trans (hp.trans hq))
    · rw [Stmt.depth]
      omega
  · rw [meets_bind]
    refine (sound_simple { c with checks := c.checks + 1 } hc).mono ?_ fun _ _ => trivial
    rintro s c₁ ⟨ts, ms, hp, hdepth, hs⟩
    rw [meets_bind]
    refine ensures_consume fun semi rest hsemi hsemik => ?_
    refine ⟨false, ts ++ [semi], ms, ?_, hs semi hsemik, hdepth, fun h => by cases h⟩
    simpa using hconsult.trans (hp.trans (.token hsemi))

/-! ## Blocks and programs -/

/-- As long as the loop is started on no more tokens than it outlasts, it stops
at `stop` only. -/
theorem ensures_moreStatements {statement : Step Stmt} (hs : SoundStmt statement)
    (stop : Option TokenKind) (ahead : List Token) (c : Cursor) (hc : c.level ≤ maxDepth)
    (hlen : c.tokens.length ≤ ahead.length) :
    Ensures (moreStatements statement stop ahead) c fun ss c' => c'.kind? = stop ∧
      (ss = [] ∧ c' = c ∨ ∃ ts ms, Passes c ts ms c' ∧
        DerivesEachIn (maxDepth - c.depth) (maxDepth - c.level) ts ss ms ∧
        c.level + maxStmtDepth ss ≤ maxDepth + 1) := by
  induction ahead generalizing c with
  | nil =>
    rw [moreStatements, Ensures, meets_bind, meets_peek, meets_ite]
    split
    · next hk => exact ⟨hk, .inl ⟨rfl, rfl⟩⟩
    · rw [meets_bind]
      refine (hs c hc).mono ?_ fun _ _ => trivial
      rintro s c₁ ⟨d, ts, ms, hp, hd, _⟩
      obtain ⟨t, us, rfl, _⟩ := hd.derives.starts
      rw [hp.tokens] at hlen
      cases hlen
  | cons _ ahead ih =>
    rw [moreStatements, Ensures, meets_bind, meets_peek, meets_ite]
    split
    · next hk => exact ⟨hk, .inl ⟨rfl, rfl⟩⟩
    · rw [meets_bind]
      refine (hs c hc).mono ?_ fun _ _ => trivial
      rintro s c₁ ⟨d, ts, ms, hp, hd, hdepth, _⟩
      have hlen₁ : c₁.tokens.length ≤ ahead.length := by
        obtain ⟨t, us, rfl, _⟩ := hd.derives.starts
        have htokens := congrArg List.length hp.tokens
        simp only [List.cons_append, List.length_cons, List.length_append] at htokens hlen
        omega
      rw [meets_bind]
      refine (ih c₁ (hp.level ▸ hc) hlen₁).mono ?_ fun _ _ => trivial
      rintro ss c₂ ⟨hk, ⟨rfl, rfl⟩ | ⟨us, ns, hq, hds, hsdepth⟩⟩
      · refine ⟨hk, .inr ⟨ts, ms, hp, .one hd, ?_⟩⟩
        show c.level + max s.depth 0 ≤ maxDepth + 1
        omega
      · rw [hp.depth, hp.level] at hds
        refine ⟨hk, .inr ⟨ts ++ us, ms ++ ns, hp.trans hq, .cons hd hds, ?_⟩⟩
        have hsdepth : c.level + maxStmtDepth ss ≤ maxDepth + 1 := hp.level ▸ hsdepth
        show c.level + max s.depth (maxStmtDepth ss) ≤ maxDepth + 1
        omega

theorem ensures_statements {statement : Step Stmt} (hs : SoundStmt statement)
    (stop : Option TokenKind) (c : Cursor) (hc : c.level ≤ maxDepth) :
    Ensures (statements statement stop) c fun ss c' => c'.kind? = stop ∧
      ∃ ts ms, Passes c ts ms c' ∧
        DerivesEachIn (maxDepth - c.depth) (maxDepth - c.level) ts ss ms ∧
        c.level + maxStmtDepth ss ≤ maxDepth + 1 := by
  unfold statements
  rw [Ensures, meets_bind]
  refine (hs c hc).mono ?_ fun _ _ => trivial
  rintro s c₁ ⟨d, ts, ms, hp, hd, hdepth, _⟩
  rw [meets_bind, meets_get, meets_bind]
  refine (ensures_moreStatements hs stop c₁.tokens c₁ (hp.level ▸ hc) (Nat.le_refl _)).mono ?_
    fun _ _ => trivial
  rintro ss c₂ ⟨hk, ⟨rfl, rfl⟩ | ⟨us, ns, hq, hds, hsdepth⟩⟩
  · refine ⟨hk, ts, ms, hp, .one hd, ?_⟩
    show c.level + max s.depth 0 ≤ maxDepth + 1
    omega
  · rw [hp.depth, hp.level] at hds
    refine ⟨hk, ts ++ us, ms ++ ns, hp.trans hq, .cons hd hds, ?_⟩
    have hsdepth : c.level + maxStmtDepth ss ≤ maxDepth + 1 := hp.level ▸ hsdepth
    show c.level + max s.depth (maxStmtDepth ss) ≤ maxDepth + 1
    omega

theorem ensures_body {statement : Step Stmt} (hs : SoundStmt statement) (c : Cursor)
    (hc : c.level ≤ maxDepth) :
    Ensures (body statement) c fun ss c' => ∃ d ts ms, Passes c ts ms c' ∧
      DerivesBlockIn (maxDepth - c.depth + 1) (maxDepth - c.level + 1) d ts ss ms ∧
      c.level + maxStmtDepth ss ≤ maxDepth + 1 ∧ (d = true → c'.kind? ≠ some .elseWord) := by
  unfold body
  rw [Ensures, meets_bind, meets_isAt, meets_ite]
  split
  · next hk =>
    rw [meets_bind]
    refine ensures_advance (of_decide_eq_true hk) fun lb rest hl hlk => ?_
    rw [meets_bind]
    refine (ensures_statements hs _ { c with tokens := rest } hc).mono ?_ fun _ _ => trivial
    rintro ss c₁ ⟨hrk, ts, ms, hp, hss, hdepth⟩
    rw [meets_bind]
    refine ensures_advance hrk fun rb rest₁ hr hrk => ?_
    refine ⟨false, lb :: (ts ++ [rb]), ms, ?_, .braces hlk hss.derivesIn hrk, hdepth,
      fun h => by cases h⟩
    simpa using (Passes.token hl).trans (hp.trans (.token hr))
  · rw [meets_bind]
    refine (hs c hc).mono ?_ fun _ _ => trivial
    rintro s c₁ ⟨d, ts, ms, hp, hd, hdepth, helse⟩
    refine ⟨d, ts, ms, hp, .single hd, ?_, helse⟩
    show c.level + max s.depth 0 ≤ maxDepth + 1
    omega

theorem sound_blockOf {statement : Step Stmt} (hs : SoundStmt statement) :
    SoundBlock (blockOf statement) := by
  intro c
  rw [blockOf_eq, Ensures, meets_nested]
  split
  · trivial
  · next hdeep =>
    rw [meets_bind, meets_descend]
    split
    · trivial
    · next hlevel =>
      rw [meets_bind]
      refine (ensures_body hs _ (Nat.le_of_not_lt hlevel)).mono ?_ fun _ _ => trivial
      rintro ss c₁ ⟨d, ts, ms, hp, hss, hdepth, helse⟩
      rw [meets_bind, meets_ascend]
      have hl : c₁.level = c.level + 1 := hp.level
      have hd : c₁.depth = c.depth + 1 := hp.depth
      -- the block has taken one nesting and one level of the room at its start
      have hblock : DerivesBlockIn (maxDepth - c.depth) (maxDepth - c.level) d ts ss ms := by
        have hlevel : c.level + 1 ≤ maxDepth := Nat.le_of_not_lt hlevel
        have hn : maxDepth - c.depth = maxDepth - (c.depth + 1) + 1 := by omega
        have hh : maxDepth - c.level = maxDepth - (c.level + 1) + 1 := by omega
        rw [hn, hh]
        exact hss
      refine ⟨d, ts, ms, ⟨hp.tokens, hp.declared, hp.names, hp.ending, ?_, ?_⟩, hblock, ?_, helse⟩
      · show c₁.depth - 1 = c.depth
        omega
      · show c₁.level - 1 = c.level
        omega
      · have hdepth : c.level + 1 + maxStmtDepth ss ≤ maxDepth + 1 := hdepth
        omega

theorem sound_block (interrupt : Interrupt) (n : Nat) : SoundBlock (block interrupt n) := by
  induction n with
  | zero => exact fun _ => trivial
  | succ n ih => exact sound_blockOf (sound_statementOf interrupt ih)

theorem sound_statement (interrupt : Interrupt) : SoundStmt (statement interrupt) :=
  sound_statementOf interrupt (sound_block interrupt maxDepth)

theorem ensures_program (interrupt : Interrupt) (c : Cursor) (hc : c.level ≤ maxDepth) :
    Ensures (program interrupt) c fun p c' => ∃ ts ms, c'.tokens = [] ∧ Passes c ts ms c' ∧
      DerivesEachIn (maxDepth - c.depth) (maxDepth - c.level) ts p.statements ms ∧
      c.level + p.depth ≤ maxDepth + 1 := by
  unfold program
  rw [Ensures, meets_bind]
  refine (ensures_statements (sound_statement interrupt) none c hc).mono ?_ fun _ _ => trivial
  rintro ss c₁ ⟨hk, ts, ms, hp, hss, hdepth⟩
  refine ⟨ts, ms, ?_, hp, hss, hdepth⟩
  unfold Cursor.kind? at hk
  cases hc₁ : c₁.tokens with
  | nil => rfl
  | cons t rest => rw [hc₁] at hk; cases hk

end Grammar

open Grammar

/-- **What a source text is read as derives from its tokens**, declares every name
before it reads it, and is no deeper than `maxDepth`. -/
theorem derives_of_parseUnder {interrupt : Interrupt} {source : String} {p : Program}
    {t : NameTable} (h : parseUnder interrupt source = .ok ⟨p, t⟩) :
    ∃ ms, DerivesProgram (Tape.ofString source).tokens p ms ∧
      NameTable.fresh.firstUndeclared Token.text ms = none ∧
      t = NameTable.fresh.after Token.text ms ∧ p.depth ≤ maxDepth := by
  unfold parseUnder Grammar.read at h
  cases hc : Cursor.ofTape (Tape.ofString source) with
  | error e => rw [hc] at h; cases h
  | ok c =>
    rw [hc] at h
    have hstart := Cursor.eq_of_ofTape hc
    have hlevel : c.level = 1 := by rw [hstart]
    have hrun := ensures_program interrupt c (by rw [hlevel]; decide)
    have h : (program interrupt c >>= fun r => Except.ok (ε := ParseError)
        (⟨r.1, r.2.names⟩ : Parsed)) = .ok ⟨p, t⟩ := h
    cases hr : program interrupt c with
    | error e => rw [hr] at h; cases h
    | ok r =>
      rw [hr] at h
      obtain ⟨q, c₁⟩ := r
      cases h
      obtain ⟨ts, ms, hend, hp, hd, hdepth⟩ := hrun.of_eq_ok hr
      have hts : (Tape.ofString source).tokens = ts := by
        have htokens := hp.tokens
        rw [hend, List.append_nil, hstart] at htokens
        exact htokens
      have hnames : c.names = NameTable.fresh := by rw [hstart]
      have hdepth : c.level + q.depth ≤ maxDepth + 1 := hdepth
      refine ⟨ms, hts ▸ hd.derivesIn.derives, hnames ▸ hp.declared, hnames ▸ hp.names, ?_⟩
      show q.depth ≤ maxDepth
      omega

end MathScript
