import MathScript.Program.Equality
import MathScript.Proofs.Record.Codec

/-!
# Programs as texts

A program is written as the compact or the indented form of its record.

* `Expr.record_injective`, `Stmt.record_injective`: a tree is determined by its
  record.
* `Expr.nesting_record`, `Stmt.nesting_record_le`: the containers in a record
  nest no deeper than three times the depth of the tree, so a tree of depth
  `maxDepth` stays below what the reader of JSON takes.
* `ofText_of_admissible`, `ofText_of_not_shaped`: a text that JSON reads as the
  record of a program is read as that program if it is admissible, and is refused
  as malformed if it has not the shape of records.
* `record_codec_exact`: **the texts that are read are those of the admissible
  programs**, and no two programs share a text.
-/

namespace MathScript

open Record

/-! ## Records are in normal form -/

section Keys

variable {k l m : String} {v w u : Json}

theorem sorted_one : [(k, v)].Pairwise (fun f g => f.1 < g.1) :=
  List.pairwise_singleton _ _

theorem sorted_two (h : k < l) : [(k, v), (l, w)].Pairwise (fun f g => f.1 < g.1) :=
  List.pairwise_cons.mpr ⟨List.forall_mem_singleton.mpr h, sorted_one⟩

theorem sorted_three (hkl : k < l) (hlm : l < m) :
    [(k, v), (l, w), (m, u)].Pairwise (fun f g => f.1 < g.1) :=
  List.pairwise_cons.mpr ⟨List.forall_mem_cons.mpr
    ⟨hkl, List.forall_mem_singleton.mpr (String.lt_trans hkl hlm)⟩, sorted_two hlm⟩

end Keys

theorem node_normal {tag : Tag} {params : List (String × Json)}
    (hs : params.Pairwise (fun f g => f.1 < g.1)) (hp : Json.NormalFields params) :
    (node tag params).Normal :=
  ⟨sorted_two (by decide), ⟨hs, hp⟩, trivial, trivial⟩

theorem Expr.record_normal (e : Expr) : e.record.Normal := by
  induction e with
  | number _ | text _ | name _ => exact node_normal sorted_one ⟨trivial, trivial⟩
  | binary l op r hl hr | comparison l op r hl hr | concat l r padded hl hr =>
    exact node_normal (sorted_three (by decide) (by decide)) ⟨hl, trivial, hr, trivial⟩
  | evaluation f e he | cast e t he =>
    exact node_normal (sorted_two (by decide)) ⟨he, trivial, trivial⟩
  | solve e d he => exact node_normal (sorted_two (by decide)) ⟨trivial, he, trivial⟩

theorem normalItems_exprs (es : List Expr) : Json.NormalItems (es.map Expr.record) := by
  induction es with
  | nil => trivial
  | cons e es ih => exact ⟨e.record_normal, ih⟩

theorem optional_normal {α : Type} {record : α → Json} (h : ∀ a, (record a).Normal)
    (o : Option α) : (optional record o).Normal := by
  cases o with
  | none => trivial
  | some a => exact h a

mutual

theorem Stmt.record_normal : ∀ s : Stmt, s.record.Normal
  | .assignment _ e => node_normal (sorted_two (by decide)) ⟨e.record_normal, trivial, trivial⟩
  | .input _ p c => by
    have hc : (optional (fun t : CastType => .string t.keyword) c).Normal :=
      optional_normal (fun _ => by trivial) c
    exact node_normal (sorted_three (by decide) (by decide))
      ⟨hc, trivial, optional_normal Expr.record_normal p, trivial⟩
  | .print es => node_normal sorted_one ⟨normalItems_exprs es, trivial⟩
  | .plot es => node_normal sorted_one ⟨normalItems_exprs es, trivial⟩
  | .ifThen c b => node_normal (sorted_three (by decide) (by decide))
      ⟨c.record_normal, trivial, normalItems_stmts b, trivial⟩
  | .ifThenElse c b o => node_normal (sorted_three (by decide) (by decide))
      ⟨c.record_normal, normalItems_stmts o, normalItems_stmts b, trivial⟩
  | .whileLoop c b => node_normal (sorted_two (by decide))
      ⟨normalItems_stmts b, c.record_normal, trivial⟩
termination_by structural s => s

theorem normalItems_stmts : ∀ ss : List Stmt, Json.NormalItems (Record.stmts ss)
  | [] => trivial
  | s :: ss => ⟨s.record_normal, normalItems_stmts ss⟩
termination_by structural ss => ss

end

theorem Program.record_normal (p : Program) : p.record.Normal :=
  node_normal sorted_one ⟨normalItems_stmts p.statements, trivial⟩

/-! ## Nesting -/

theorem nesting_node (tag : Tag) (params : List (String × Json)) :
    (node tag params).nesting = 2 + Json.fieldsNesting params := by
  simp only [node, Json.nesting, Json.fieldsNesting, Json.fieldNesting]
  omega

/-- **An expression's record nests two containers to a level.** -/
theorem Expr.nesting_record (e : Expr) : e.record.nesting = 2 * e.depth := by
  induction e with
  | number w => rfl
  | text s => rfl
  | name n => rfl
  | binary l op r hl hr | comparison l op r hl hr | concat l r padded hl hr =>
    simp only [Expr.record, nesting_node, Json.fieldsNesting, Json.fieldNesting, Json.nesting,
      Expr.depth, hl, hr]
    omega
  | evaluation f e he | solve e d he | cast e t he =>
    simp only [Expr.record, nesting_node, Json.fieldsNesting, Json.fieldNesting, Json.nesting,
      Expr.depth, he]
    omega

theorem itemsNesting_exprs (es : List Expr) :
    Json.itemsNesting (es.map Expr.record) = 2 * maxExprDepth es := by
  induction es with
  | nil => rfl
  | cons e es ih =>
    rw [List.map_cons, Json.itemsNesting, maxExprDepth, ih, e.nesting_record]
    omega

/-- **A statement's record nests two containers**, and one more around each list. -/
theorem Stmt.nesting_record (s : Stmt) : s.record.nesting = match s with
    | .assignment _ e => 2 + 2 * e.depth
    | .input _ p _ => 2 + 2 * (p.map Expr.depth).getD 0
    | .print es | .plot es => 3 + 2 * maxExprDepth es
    | .ifThen c b | .whileLoop c b =>
      2 + max (2 * c.depth) (1 + Json.itemsNesting (Record.stmts b))
    | .ifThenElse c b o => 2 + max (2 * c.depth)
        (1 + max (Json.itemsNesting (Record.stmts b)) (Json.itemsNesting (Record.stmts o))) := by
  cases s with
  | input n p c =>
    have hp : (optional Expr.record p).nesting = 2 * (p.map Expr.depth).getD 0 := by
      cases p with
      | none => rfl
      | some e => exact e.nesting_record
    have hc : (optional (fun t : CastType => .string t.keyword) c).nesting = 0 := by
      cases c <;> rfl
    simp only [Stmt.record, nesting_node, Json.fieldsNesting, Json.fieldNesting, Json.nesting, hp,
      hc]
    omega
  | assignment | print | plot | ifThen | ifThenElse | whileLoop =>
    simp only [Stmt.record, nesting_node, Json.fieldsNesting, Json.fieldNesting, Json.nesting,
      Record.exprs, itemsNesting_exprs, Expr.nesting_record]
    omega

mutual

/-- **A statement's record nests at most three containers to a level**, and at
least one. -/
theorem Stmt.nesting_record_le : ∀ s : Stmt,
    s.depth ≤ s.record.nesting ∧ s.record.nesting ≤ 3 * s.depth
  | .assignment _ _ | .input _ _ _ | .print _ | .plot _ => by
    simp only [Stmt.nesting_record, Stmt.depth]
    omega
  | .ifThen _ b | .whileLoop _ b => by
    have hb := itemsNesting_stmts_le b
    simp only [Stmt.nesting_record, Stmt.depth]
    omega
  | .ifThenElse _ b o => by
    have hb := itemsNesting_stmts_le b
    have ho := itemsNesting_stmts_le o
    simp only [Stmt.nesting_record, Stmt.depth]
    omega
termination_by structural s => s

theorem itemsNesting_stmts_le : ∀ ss : List Stmt,
    maxStmtDepth ss ≤ Json.itemsNesting (Record.stmts ss) ∧
      Json.itemsNesting (Record.stmts ss) ≤ 3 * maxStmtDepth ss
  | [] => ⟨Nat.le_refl 0, Nat.le_refl 0⟩
  | s :: ss => by
    have hs := s.nesting_record_le
    have hss := itemsNesting_stmts_le ss
    rw [Record.stmts, Json.itemsNesting, maxStmtDepth]
    omega
termination_by structural ss => ss

end

/-- A program's record nests three containers around its statements. -/
theorem Program.nesting_record (p : Program) :
    p.record.nesting = 3 + Json.itemsNesting (Record.stmts p.statements) := by
  simp only [Program.record, nesting_node, Json.fieldsNesting, Json.fieldNesting, Json.nesting]
  omega

theorem Program.nesting_record_le (p : Program) :
    p.depth ≤ p.record.nesting ∧ p.record.nesting ≤ 3 * p.depth + 3 := by
  have h := itemsNesting_stmts_le p.statements
  rw [p.nesting_record, Program.depth]
  omega

/-! ## Records determine trees -/

theorem ArithOp.symbol_injective {a b : ArithOp} (h : a.symbol = b.symbol) : a = b := by
  cases a <;> cases b <;> first | rfl | exact absurd h (by decide)

theorem CompareOp.symbol_injective {a b : CompareOp} (h : a.symbol = b.symbol) : a = b := by
  cases a <;> cases b <;> first | rfl | exact absurd h (by decide)

theorem Domain.keyword_injective {a b : Domain} (h : a.keyword = b.keyword) : a = b := by
  cases a <;> cases b <;> first | rfl | exact absurd h (by decide)

theorem CastType.keyword_injective {a b : CastType} (h : a.keyword = b.keyword) : a = b := by
  cases a <;> cases b <;> first | rfl | exact absurd h (by decide)

theorem Tag.word_injective {s t : Tag} (h : s.word = t.word) : s = t := by
  have hs : Tag.ofWord? s.word = some s := by cases s <;> rfl
  have ht : Tag.ofWord? t.word = some t := by cases t <;> rfl
  rw [h, ht] at hs
  exact (Option.some.inj hs).symm

theorem node_injective {s t : Tag} {params params' : List (String × Json)}
    (h : node s params = node t params') : s = t ∧ params = params' := by
  simp only [node, Json.object.injEq, List.cons.injEq, Prod.mk.injEq, Json.string.injEq, true_and,
    and_true] at h
  exact ⟨Tag.word_injective h.2, h.1⟩

/-- **An expression is determined by its record.** -/
theorem Expr.record_injective {e e' : Expr} (h : e.record = e'.record) : e = e' := by
  induction e generalizing e' with
  | number w =>
    cases e' with
    | number w' => simpa using (node_injective h).2
    | _ => exact absurd (node_injective h).1 (by decide)
  | text s =>
    cases e' with
    | text s' => simpa using (node_injective h).2
    | _ => exact absurd (node_injective h).1 (by decide)
  | name n =>
    cases e' with
    | name n' => simpa using (node_injective h).2
    | _ => exact absurd (node_injective h).1 (by decide)
  | binary l op r hl hr =>
    cases e' with
    | binary l' op' r' =>
      have hp := (node_injective h).2
      simp only [List.cons.injEq, Prod.mk.injEq, Json.string.injEq, true_and, and_true] at hp
      rw [hl hp.1, ArithOp.symbol_injective hp.2.1, hr hp.2.2]
    | _ => exact absurd (node_injective h).1 (by decide)
  | comparison l op r hl hr =>
    cases e' with
    | comparison l' op' r' =>
      have hp := (node_injective h).2
      simp only [List.cons.injEq, Prod.mk.injEq, Json.string.injEq, true_and, and_true] at hp
      rw [hl hp.1, CompareOp.symbol_injective hp.2.1, hr hp.2.2]
    | _ => exact absurd (node_injective h).1 (by decide)
  | concat l r padded hl hr =>
    cases e' with
    | concat l' r' padded' =>
      have hp := (node_injective h).2
      simp only [List.cons.injEq, Prod.mk.injEq, Json.bool.injEq, true_and, and_true] at hp
      rw [hl hp.1, hp.2.1, hr hp.2.2]
    | _ => exact absurd (node_injective h).1 (by decide)
  | evaluation f e he =>
    cases e' with
    | evaluation f' e' =>
      have hp := (node_injective h).2
      simp only [List.cons.injEq, Prod.mk.injEq, Json.string.injEq, true_and, and_true] at hp
      rw [he hp.1, hp.2]
    | _ => exact absurd (node_injective h).1 (by decide)
  | solve e d he =>
    cases e' with
    | solve e' d' =>
      have hp := (node_injective h).2
      simp only [List.cons.injEq, Prod.mk.injEq, Json.string.injEq, true_and, and_true] at hp
      rw [Domain.keyword_injective hp.1, he hp.2]
    | _ => exact absurd (node_injective h).1 (by decide)
  | cast e t he =>
    cases e' with
    | cast e' t' =>
      have hp := (node_injective h).2
      simp only [List.cons.injEq, Prod.mk.injEq, Json.string.injEq, true_and, and_true] at hp
      rw [he hp.1, CastType.keyword_injective hp.2]
    | _ => exact absurd (node_injective h).1 (by decide)

theorem exprs_injective {es es' : List Expr} (h : Record.exprs es = Record.exprs es') : es = es' :=
  List.map_injective_iff.mpr (fun _ _ => Expr.record_injective) (Json.array.inj h)

theorem Expr.record_ne_null (e : Expr) : e.record ≠ .null := by
  cases e <;> exact Json.noConfusion

theorem optional_injective {α : Type} {record : α → Json}
    (hinj : ∀ {a b}, record a = record b → a = b) (hnull : ∀ a, record a ≠ .null)
    {o o' : Option α} (h : optional record o = optional record o') : o = o' := by
  cases o with
  | none =>
    cases o' with
    | none => rfl
    | some b => exact absurd h.symm (hnull b)
  | some a =>
    cases o' with
    | none => exact absurd h (hnull a)
    | some b => rw [hinj h]

mutual

/-- **A statement is determined by its record.** -/
theorem Stmt.record_injective : ∀ {s s' : Stmt}, s.record = s'.record → s = s'
  | .assignment t e, s', h => by
    cases s' with
    | assignment t' e' =>
      have hp := (node_injective h).2
      simp only [List.cons.injEq, Prod.mk.injEq, Json.string.injEq, true_and, and_true] at hp
      rw [Expr.record_injective hp.1, hp.2]
    | _ => exact absurd (node_injective h).1 (by decide)
  | .input t p c, s', h => by
    cases s' with
    | input t' p' c' =>
      have hp := (node_injective h).2
      simp only [List.cons.injEq, Prod.mk.injEq, Json.string.injEq, true_and, and_true] at hp
      have hc : c = c' := optional_injective
        (fun he => CastType.keyword_injective (Json.string.inj he)) (fun _ => Json.noConfusion) hp.1
      rw [hc, hp.2.1, optional_injective Expr.record_injective Expr.record_ne_null hp.2.2]
    | _ => exact absurd (node_injective h).1 (by decide)
  | .print es, s', h => by
    cases s' with
    | print es' =>
      have hp := (node_injective h).2
      simp only [List.cons.injEq, Prod.mk.injEq, true_and, and_true] at hp
      rw [exprs_injective hp]
    | _ => exact absurd (node_injective h).1 (by decide)
  | .plot es, s', h => by
    cases s' with
    | plot es' =>
      have hp := (node_injective h).2
      simp only [List.cons.injEq, Prod.mk.injEq, true_and, and_true] at hp
      rw [exprs_injective hp]
    | _ => exact absurd (node_injective h).1 (by decide)
  | .ifThen c b, s', h => by
    cases s' with
    | ifThen c' b' =>
      have hp := (node_injective h).2
      simp only [List.cons.injEq, Prod.mk.injEq, Json.array.injEq, true_and, and_true] at hp
      rw [Expr.record_injective hp.1, stmts_injective hp.2]
    | ifThenElse c' b' o' =>
      have hp := (node_injective h).2
      simp at hp
    | _ => exact absurd (node_injective h).1 (by decide)
  | .ifThenElse c b o, s', h => by
    cases s' with
    | ifThen c' b' =>
      have hp := (node_injective h).2
      simp at hp
    | ifThenElse c' b' o' =>
      have hp := (node_injective h).2
      simp only [List.cons.injEq, Prod.mk.injEq, Json.array.injEq, true_and, and_true] at hp
      rw [Expr.record_injective hp.1, stmts_injective hp.2.1, stmts_injective hp.2.2]
    | _ => exact absurd (node_injective h).1 (by decide)
  | .whileLoop c b, s', h => by
    cases s' with
    | whileLoop c' b' =>
      have hp := (node_injective h).2
      simp only [List.cons.injEq, Prod.mk.injEq, Json.array.injEq, true_and, and_true] at hp
      rw [stmts_injective hp.1, Expr.record_injective hp.2]
    | _ => exact absurd (node_injective h).1 (by decide)
termination_by structural s => s

theorem stmts_injective : ∀ {ss ss' : List Stmt}, Record.stmts ss = Record.stmts ss' → ss = ss'
  | [], [], _ => rfl
  | [], _ :: _, h => by cases h
  | _ :: _, [], h => by cases h
  | s :: ss, s' :: ss', h => by
    obtain ⟨hs, hss⟩ := List.cons.inj h
    rw [Stmt.record_injective hs, stmts_injective hss]
termination_by structural ss => ss

end

theorem Program.record_injective {p q : Program} (h : p.record = q.record) : p = q := by
  have hp := (node_injective h).2
  simp only [List.cons.injEq, Prod.mk.injEq, Json.array.injEq, true_and, and_true] at hp
  have hss : p.statements = q.statements := stmts_injective hp
  obtain ⟨ss⟩ := p
  obtain ⟨ss'⟩ := q
  exact congrArg Program.mk hss

/-! ## Texts -/

namespace Program

/-- **Programs with one text are equal.** -/
theorem toText_injective {p q : Program} (h : p.toText = q.toText) : p = q :=
  record_injective (Json.compact_injective p.record_normal q.record_normal h)

theorem ofText_eq {text : String} {json : Json} (h : Json.ofString? text = some json) :
    ofText text = toProgram json >>= fun p =>
      if p.depth > maxDepth then fail .tooDeep
      else match p.resolve with
        | .ok _ => .ok p
        | .error name => .error (.undefinedName name) := by
  unfold ofText
  rw [h]
  refine congrArg (toProgram json >>= ·) (funext fun p => ?_)
  by_cases hdepth : p.depth > maxDepth
  · simp only [if_pos hdepth]
    rfl
  · simp only [if_neg hdepth]
    rfl

/-- Whatever is read from a text is admissible. -/
theorem admissible_of_ofText {text : String} {p : Program} (h : ofText text = .ok p) :
    p.Admissible := by
  cases hjson : Json.ofString? text with
  | none =>
    rw [ofText, hjson] at h
    cases h
  | some json =>
    rw [ofText_eq hjson] at h
    obtain ⟨q, hq, h⟩ := bind_eq_ok.mp h
    split at h
    · cases h
    · next hdepth =>
      split at h
      · next names hnames =>
        cases h
        exact ⟨shaped_of_toProgram hq, Nat.le_of_not_lt hdepth, names, hnames⟩
      · cases h

/-- **The record of an admissible program is read back**, in whatever text JSON
finds it. -/
theorem ofText_of_admissible {text : String} {p : Program}
    (htext : Json.ofString? text = some p.record) (hp : p.Admissible) : ofText text = .ok p := by
  obtain ⟨hshaped, hdepth, names, hnames⟩ := hp
  have hroom : maxStmtDepth p.statements ≤ p.record.nesting := p.nesting_record_le.1
  have hread : toProgram p.record = .ok p := by
    rw [toProgram_record, stmts_ok _ toStmt_record_of_shaped
      ⟨hshaped.nonempty, hshaped.statements⟩ hroom]
    rfl
  rw [ofText_eq htext, hread]
  show (if p.depth > maxDepth then _ else _) = _
  rw [if_neg (Nat.not_lt.mpr hdepth), hnames]

/-- **The record of a program of another shape is refused as malformed**, in
whatever text JSON finds it. -/
theorem ofText_of_not_shaped {text : String} {p : Program}
    (htext : Json.ofString? text = some p.record) (hp : ¬ p.Shaped IsAsciiName IsNumeral) :
    ∃ cause, ofText text = .error (.malformed cause) := by
  rcases toProgram_record_cases p with h | ⟨cause, h⟩
  · exact absurd (shaped_of_toProgram h) hp
  · refine ⟨cause, ?_⟩
    rw [ofText_eq htext, h]
    rfl

/-- **What is read from a program's text is that program.** -/
theorem eq_of_ofText_toText {p q : Program} (h : ofText p.toText = .ok q) : q = p := by
  cases hjson : Json.ofString? p.toText with
  | none =>
    rw [ofText, hjson] at h
    cases h
  | some json =>
    obtain rfl : json = p.record :=
      Json.eq_of_ofString?_of_spells (Json.spells_compact p.record p.record_normal le_rfl) hjson
    rw [ofText_eq hjson] at h
    obtain ⟨q', hq', h⟩ := bind_eq_ok.mp h
    have hq : q' = p := (toProgram_record_cases p).eq hq'
    split at h
    · cases h
    · split at h
      · cases h
        exact hq
      · cases h

/-- The record of a program within the bound stays below what a reader of JSON allows. -/
theorem nesting_lt_of_depth_le {p : Program} (h : p.depth ≤ maxDepth) :
    p.record.nesting < Json.maxContainers := by
  have hnesting := p.nesting_record_le.2
  have hdepth : p.depth ≤ 40 := h
  rw [Json.maxContainers]
  omega

theorem nesting_le_of_depth_le {p : Program} (h : p.depth ≤ maxDepth) :
    p.record.nesting ≤ Json.maxContainers :=
  (nesting_lt_of_depth_le h).le

theorem ofText_toText {p : Program} (h : p.Admissible) : ofText p.toText = .ok p :=
  ofText_of_admissible
    (Json.ofString?_compact p.record_normal (nesting_le_of_depth_le h.depth_le)) h

/-- **The codec is exact.**  A program's text is read exactly if the program is
admissible, and then as that program; programs with one text are equal; and
whatever is read, from any text, is admissible and is read from its own text. -/
theorem record_codec_exact :
    (∀ p q : Program, ofText p.toText = .ok q ↔ p.Admissible ∧ q = p) ∧
      (∀ p q : Program, p.toText = q.toText → p = q) ∧
        ∀ (text : String) (q : Program), ofText text = .ok q →
          q.Admissible ∧ ofText q.toText = .ok q := by
  refine ⟨fun p q => ⟨fun h => ?_, ?_⟩, fun p q => toText_injective, fun text q h => ?_⟩
  · have hq := eq_of_ofText_toText h
    subst hq
    exact ⟨admissible_of_ofText h, rfl⟩
  · rintro ⟨hp, rfl⟩
    exact ofText_toText hp
  · have hq := admissible_of_ofText h
    exact ⟨hq, ofText_toText hq⟩

/-- `PRINT "A";` as a record in another layout, with its fields in another order, an
escape, and one field too many. -/
def loosePrintRecord : String :=
  "\x7b \"type\": \"Program\", \"params\": \x7b\"stmts\": [\x7b\"type\": \"Print\", " ++
    "\"params\": \x7b\"args\": [\x7b\"type\": \"Text\", \"params\": \x7b\"value\": \"\\u0041\"" ++
    "\x7d\x7d], \"extra\": []\x7d\x7d]\x7d\x7d"

theorem record_codec_exact_loosePrintRecord :
    ofText loosePrintRecord = .ok ⟨[.print [.text "A"]]⟩ ∧
      Admissible ⟨[.print [.text "A"]]⟩ ∧
        ofText (toText ⟨[.print [.text "A"]]⟩) = .ok ⟨[.print [.text "A"]]⟩ := by
  have h : ofText loosePrintRecord = .ok ⟨[.print [.text "A"]]⟩ := by cbv
  exact ⟨h, record_codec_exact.2.2 loosePrintRecord _ h⟩

end Program

end MathScript
