import MathScript.Proofs.Grammar.Moves

/-!
# The bounds of a reading

Three numbers keep the tree shallow: how many nestings are open, the level of the
statement that is read, and the height of each node.  Action by action, a reading keeps the
first two within their bounds and lowers neither where it is zero, and it builds no node but
at its own height and within `maxDepth`.

* `Cursor.Admits`: what the bounds ask of one action.
* `Orderly.admitted`: **every action of an orderly plan is admitted**.
* `fits_of_reader`: what is read at a level is as high as it is deep, and fits.
* `bounds_are_kept`: the same for all readings, and what comes of it for programs.
-/

namespace MathScript
namespace Grammar

variable {α β : Type}

/-- The counters are where a reading may bring them.  One nesting and one level too many
are counted before they are refused. -/
structure Cursor.InBounds (c : Cursor) : Prop where
  depth : c.depth ≤ maxDepth + 1
  level_pos : 0 < c.level
  level : c.level ≤ maxDepth + 1

/-- No counter is lowered that is zero, and a node is as high as its expression is deep and
fits in where it is built. -/
def Action.Allowed (c : Cursor) : Action → Prop
  | closeNesting => 0 < c.depth
  | ascend => 0 < c.level
  | build node => node.height = node.expr.depth ∧ c.level + node.height ≤ maxDepth
  | take | declare _ | ask | openNesting | descend => True

/-- The action may be done at the cursor: it keeps to the bounds and is allowed. -/
structure Cursor.Admits (c : Cursor) (action : Action) : Prop where
  here : c.InBounds
  behind : (action.apply c).InBounds
  allowed : action.Allowed c

/-- Every action of the run is admitted where it is done. -/
def Plan.Admitted (plan : Plan α) (c : Cursor) : Prop :=
  ∀ entry ∈ plan.log c, entry.1.Admits entry.2

/-! ## Action by action -/

section Actions

variable {plan : Plan α} {step : Step α} {c : Cursor}

theorem Plan.Admitted.nil (h : plan.log c = []) : plan.Admitted c := by
  rw [Admitted, h]
  exact List.forall_mem_nil _

theorem Plan.Admitted.one {action : Action} (h : plan.log c = [(c, action)])
    (ha : c.Admits action) : plan.Admitted c := by
  rw [Admitted, h, List.forall_mem_singleton]
  exact ha

theorem Plan.Admitted.bind {more : α → Plan β} (h : plan.Admitted c)
    (hn : ∀ a c', plan.run c = .ok (a, c') → (more a).Admitted c') :
    (plan >>= more).Admitted c := by
  rw [Admitted, log_bind, List.forall_mem_append]
  refine ⟨h, ?_⟩
  cases hrun : plan.run c with
  | error e => exact List.forall_mem_nil _
  | ok r => exact hn r.1 r.2 hrun

theorem Move.admitted (h : Move True plan step) (hc : c.InBounds) : plan.Admitted c := by
  cases h with
  | pure | get | refuse | refuseDepth => exact .nil rfl
  | declare name => exact .one rfl ⟨hc, ⟨hc.depth, hc.level_pos, hc.level⟩, trivial⟩
  | advance =>
    rcases Plan.log_advance c with hlog | hlog
    · exact .nil hlog
    · exact .one hlog ⟨hc, ⟨hc.depth, hc.level_pos, hc.level⟩, trivial⟩
  | checkDeclared t => exact .nil (Plan.log_checkDeclared c t)
  | consult _ interrupt =>
    exact .one (Plan.log_consult c interrupt) ⟨hc, ⟨hc.depth, hc.level_pos, hc.level⟩, trivial⟩

theorem admitted_place {e : Expr} {height : Nat} (hc : c.InBounds) (he : e.depth = height + 1) :
    (Plan.place e height).Admitted c := by
  have hlog := Plan.log_place c e height
  split at hlog
  · exact .nil hlog
  · next hlow => exact .one hlog ⟨hc, hc, he.symm, Nat.le_of_not_lt hlow⟩

/-- The cursor is between moves: neither counter has been raised beyond what is allowed. -/
structure Cursor.Settled (c : Cursor) : Prop where
  depth : c.depth ≤ maxDepth
  level_pos : 0 < c.level
  level : c.level ≤ maxDepth

theorem Cursor.Settled.inBounds (hc : c.Settled) : c.InBounds :=
  ⟨Nat.le_succ_of_le hc.depth, hc.level_pos, Nat.le_succ_of_le hc.level⟩

theorem Keeps.settled (h : Keeps step) {c' : Cursor} {a : α} (hc : c.Settled)
    (hrun : step c = .ok (a, c')) : c'.Settled := by
  obtain ⟨hdepth, hlevel⟩ := (h c).of_eq_ok hrun
  exact ⟨hdepth ▸ hc.depth, hlevel ▸ hc.level_pos, hlevel ▸ hc.level⟩

theorem admitted_openNesting (hc : c.Settled) : Plan.openNesting.Admitted c := by
  have hopen : Cursor.InBounds { c with depth := c.depth + 1 } :=
    ⟨Nat.succ_le_succ hc.depth, hc.level_pos, Nat.le_succ_of_le hc.level⟩
  exact .one (Plan.log_openNesting c) ⟨hc.inBounds, hopen, trivial⟩

theorem admitted_descend (hc : c.Settled) : Plan.descend.Admitted c := by
  have hdown : Cursor.InBounds { c with level := c.level + 1 } :=
    ⟨Nat.le_succ_of_le hc.depth, Nat.succ_pos _, Nat.succ_le_succ hc.level⟩
  exact .one (Plan.log_descend c) ⟨hc.inBounds, hdown, trivial⟩

theorem ensures_openNesting (c : Cursor) : Ensures openNesting c fun _ c' =>
    c.depth + 1 ≤ maxDepth ∧ c' = { c with depth := c.depth + 1 } := by
  rw [Ensures, meets_openNesting]
  split
  · trivial
  · next hlow => exact ⟨Nat.le_of_not_lt hlow, rfl⟩

theorem ensures_descend (c : Cursor) : Ensures descend c fun _ c' =>
    c.level + 1 ≤ maxDepth ∧ c' = { c with level := c.level + 1 } := by
  rw [Ensures, meets_descend]
  split
  · trivial
  · next hlow => exact ⟨Nat.le_of_not_lt hlow, rfl⟩

/-- A nesting is closed where the step inside it leaves off, one nesting further in. -/
theorem admitted_nested (hk : Keeps step) (hrun : ∀ c, plan.run c = step c)
    (h : ∀ c, c.Settled → plan.Admitted c) (hc : c.Settled) : (Plan.nested plan).Admitted c := by
  refine .bind (admitted_openNesting hc) fun _ c₁ h₁ => ?_
  rw [run_openNesting_eq] at h₁
  obtain ⟨hlow, rfl⟩ := (ensures_openNesting c).of_eq_ok h₁
  have hc₁ : Cursor.Settled { c with depth := c.depth + 1 } := ⟨hlow, hc.level_pos, hc.level⟩
  refine .bind (h _ hc₁) fun a c₂ h₂ => ?_
  -- what stands inside keeps the counters, so what is closed is what has been opened
  rw [hrun] at h₂
  have hc₂ : c₂.Settled := hk.settled hc₁ h₂
  have hdepth : c₂.depth = c.depth + 1 := ((hk _).of_eq_ok h₂).1
  have hclose : c₂.Admits .closeNesting := ⟨hc₂.inBounds,
    ⟨(Nat.sub_le _ _).trans hc₂.inBounds.depth, hc₂.level_pos, hc₂.inBounds.level⟩,
    Nat.lt_of_lt_of_eq (Nat.succ_pos _) hdepth.symm⟩
  exact .one rfl hclose

/-- The same for levels. -/
theorem admitted_descended (hk : Keeps step) (hrun : ∀ c, plan.run c = step c)
    (h : ∀ c, c.Settled → plan.Admitted c) (hc : c.Settled) :
    (Plan.descended plan).Admitted c := by
  refine .bind (admitted_descend hc) fun _ c₁ h₁ => ?_
  rw [run_descend_eq] at h₁
  obtain ⟨hlow, rfl⟩ := (ensures_descend c).of_eq_ok h₁
  have hc₁ : Cursor.Settled { c with level := c.level + 1 } := ⟨hc.depth, Nat.succ_pos _, hlow⟩
  refine .bind (h _ hc₁) fun a c₂ h₂ => ?_
  rw [hrun] at h₂
  have hc₂ : c₂.Settled := hk.settled hc₁ h₂
  have hlevel : c₂.level = c.level + 1 := ((hk _).of_eq_ok h₂).2
  have hpos : 0 < c₂.level - 1 := by
    rw [hlevel]
    exact hc.level_pos
  have hup : c₂.Admits .ascend := ⟨hc₂.inBounds,
    ⟨hc₂.inBounds.depth, hpos, (Nat.sub_le _ _).trans hc₂.inBounds.level⟩, hc₂.level_pos⟩
  exact .one rfl hup

end Actions

/-- **Every action of an orderly plan is admitted.** -/
theorem Orderly.admitted {plan : Plan α} {step : Step α} (h : Orderly True plan step) :
    ∀ c, c.Settled → plan.Admitted c := by
  induction h with
  | move h => exact fun c hc => h.admitted hc.inBounds
  | place he => exact fun c hc => admitted_place hc.inBounds he
  | bind h _ ih ihn =>
    refine fun c hc => .bind (ih c hc) fun a c' hrun => ?_
    rw [h.run_eq] at hrun
    exact ihn a ⟨c, c', hrun⟩ c' (h.keeps.settled hc hrun)
  | nested h ih => exact fun c hc => admitted_nested h.keeps h.run_eq ih hc
  | descended h ih => exact fun c hc => admitted_descended h.keeps h.run_eq ih hc

/-- A reading starts settled. -/
theorem Cursor.settled_of_ofTape {tape : Tape} {c : Cursor} (h : Cursor.ofTape tape = .ok c) :
    c.Settled := by
  rw [Cursor.eq_of_ofTape h]
  have hlevel : 1 ≤ maxDepth := by decide
  exact ⟨Nat.zero_le _, Nat.one_pos, hlevel⟩

/-! ## Readers -/

/-- **What is read at a level is as high as it is deep, and fits.** -/
theorem fits_of_reader (n : Nat) (level : Level) (c : Cursor) :
    Ensures (reader n level) c fun node _ => ∃ ts, Fits c ts node := by
  by_cases hl : level = .convertible
  · subst hl
    refine (ensures_convertible (sound_operand n) c).mono ?_ fun _ _ => trivial
    rintro node _ ⟨ts, _, _, _, hf, _⟩
    exact ⟨ts, hf⟩
  · refine (sound_reader n hl c).mono ?_ fun _ _ => trivial
    rintro node _ ⟨ts, _, _, _, _, hf⟩
    exact ⟨ts, hf⟩

end Grammar

open Grammar

/-- **The bounds of a reading are kept.**  Whatever is read at a level is as high as it is
deep and fits there.  The reading of a program goes by its plan, whose log leaves nothing out
that becomes of the cursor.  Every single action on the way, up to the end or to the error, is
admitted: the counters stay within their bounds, no counter is lowered that is zero, and every
node that is built is as high as its expression is deep and fits in.  Statements, blocks,
expressions and operands leave the counters as they find them; and no program that is read is
deeper than `maxDepth`. -/
theorem bounds_are_kept (interrupt : Interrupt) :
    (∀ n level c node c', reader n level c = .ok (node, c') →
      node.height = node.expr.depth ∧ c.level + node.height ≤ maxDepth) ∧
    (∀ c, (Plan.program interrupt).run c = program interrupt c ∧
      ∃ d, Trail c ((Plan.program interrupt).log c) d ∧
        ∀ p c', program interrupt c = .ok (p, c') → c' = d) ∧
    (∀ tape c, Cursor.ofTape tape = .ok c →
      ∀ entry ∈ (Plan.program interrupt).log c, entry.1.Admits entry.2) ∧
    (∀ n, Keeps (statementOf interrupt (block interrupt n)) ∧ Keeps (block interrupt n) ∧
      Keeps (expressionOf (operand n)) ∧ Keeps (operand n)) ∧
    ∀ source parsed, parseUnder interrupt source = .ok parsed →
      parsed.program.depth ≤ maxDepth := by
  have hprogram := orderly_program interrupt
  refine ⟨?_, ?_, ?_, ?_, ?_⟩
  · intro n level c node c' hrun
    obtain ⟨_, hf⟩ := (fits_of_reader n level c).of_eq_ok hrun
    exact ⟨hf.height, hf.within⟩
  · intro c
    have htrail := (Plan.program interrupt).exists_trail c
    rw [hprogram.run_eq] at htrail
    exact ⟨hprogram.run_eq c, htrail⟩
  · exact fun tape c hc => hprogram.admitted c (Cursor.settled_of_ofTape hc)
  · intro n
    have hblock := orderly_block interrupt n
    have hoperand : Orderly True (Plan.operand n) (operand n) := orderly_operand n
    exact ⟨(orderly_statementOf interrupt hblock).keeps, hblock.keeps,
      (orderly_expressionOf (sound_operand n) hoperand).keeps, hoperand.keeps⟩
  · rintro source ⟨p, names⟩ h
    obtain ⟨_, _, _, _, hdepth⟩ := derives_of_parseUnder h
    exact hdepth

/-- A sum read by itself, and a block with a sign, parentheses and a power in it. -/
theorem bounds_are_kept_power :
    let sum : Cursor :=
      ⟨(Tape.ofString "x * 2 + 1").tokens, .complete 1, NameTable.fresh, 0, 0, 1⟩
    let node : Node := ⟨.binary (.binary (.name "x") .mul (.number "2")) .add (.number "1"), 3⟩
    let source := "IF (x) PRINT -x, (x + 1) ^ 2;"
    let start : Cursor := ⟨(Tape.ofString source).tokens, .complete 1, NameTable.fresh, 0, 0, 1⟩
    let log := (Plan.program .never).log start
    let p : Program := ⟨[.ifThen (.name "x") [.print [.binary (.number "0") .sub (.name "x"),
      .binary (.binary (.name "x") .add (.number "1")) .pow (.number "2")]]]⟩
    reader 0 .sum sum = .ok (node, { sum with tokens := [] }) ∧ node.height = node.expr.depth ∧
      Cursor.ofTape (Tape.ofString source) = .ok start ∧
      (∃ entry ∈ log, entry.1.depth = 3 ∧ entry.1.level = 2 ∧
        entry.2 = .build ⟨.name "x", 1⟩) ∧
      (∀ entry ∈ log, entry.1.Admits entry.2) ∧ Keeps (statementOf .never (block .never 1)) ∧
      parseUnder .never source = .ok ⟨p, NameTable.fresh⟩ ∧ p.depth ≤ maxDepth := by
  intro sum node source start log p
  obtain ⟨hsum, hstart, hp⟩ : reader 0 .sum sum = .ok (node, { sum with tokens := [] }) ∧
      Cursor.ofTape (Tape.ofString source) = .ok start ∧
      parseUnder .never source = .ok ⟨p, NameTable.fresh⟩ := ⟨by cbv, by unfold start; cbv, by cbv⟩
  have hbuilt : log.any (fun entry => entry.1.depth = 3 ∧ entry.1.level = 2 ∧
      entry.2 = .build ⟨.name "x", 1⟩) = true := by cbv
  obtain ⟨entry, hentry, he⟩ := List.any_eq_true.mp hbuilt
  obtain ⟨hheight, -, hlog, hkeeps, hdepth⟩ := bounds_are_kept .never
  exact ⟨hsum, (hheight 0 .sum sum node _ hsum).1, hstart, ⟨entry, hentry, of_decide_eq_true he⟩,
    hlog _ _ hstart, (hkeeps 1).1, hp, hdepth source _ hp⟩

end MathScript
