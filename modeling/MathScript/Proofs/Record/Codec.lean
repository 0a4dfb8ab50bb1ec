import MathScript.Proofs.Json.Spelling
import MathScript.Proofs.Program.Shape
import MathScript.Proofs.Result

/-!
# Reading records back

A tree is written as a record and read back node by node.  Three facts about each
kind of node carry the whole codec:

* `toExpr_record_of_shaped`, `toStmt_record_of_shaped`: the record of a tree of
  the right shape is read back as that tree.
* `toExpr_record_cases`, `toStmt_record_cases`: the record of any tree is read
  back as that tree or refused as malformed, never as anything else.
* `shaped_of_toExpr`, `shaped_of_toStmt`: whatever is read, from any record, has
  the right shape.
-/

namespace MathScript

namespace Record

/-! ## Lists of records -/

theorem mapM_ok {ε α β : Type} {f : α → Except ε β} : ∀ {js : List α} {bs : List β},
    js.mapM f = .ok bs → bs.length = js.length ∧ ∀ b ∈ bs, ∃ j ∈ js, f j = .ok b
  | [], bs, h => by
    rw [List.mapM_nil] at h
    cases h
    exact ⟨rfl, fun b hb => absurd hb (by simp)⟩
  | j :: js, bs, h => by
    rw [List.mapM_cons] at h
    obtain ⟨b, hb, h⟩ := bind_eq_ok.mp h
    obtain ⟨bs', hbs, h⟩ := bind_eq_ok.mp h
    cases h
    obtain ⟨hlen, hmem⟩ := mapM_ok hbs
    refine ⟨by rw [List.length_cons, List.length_cons, hlen], fun b' hb' => ?_⟩
    rcases List.mem_cons.mp hb' with rfl | hb'
    · exact ⟨j, by simp, hb⟩
    · obtain ⟨j', hj', h'⟩ := hmem b' hb'
      exact ⟨j', List.mem_cons_of_mem _ hj', h'⟩

/-- Reading gives `a` back, or refuses the record as malformed. -/
def ReadsBack {α : Type} (a : α) (result : Result α) : Prop :=
  result = .ok a ∨ ∃ cause, result = .error (.malformed cause)

theorem ReadsBack.eq {α : Type} {a b : α} {result : Result α} (h : ReadsBack a result)
    (hb : result = .ok b) : b = a := by
  rcases h with h | ⟨cause, h⟩
  · rw [hb] at h
    exact Except.ok.inj h
  · rw [hb] at h
    cases h

/-- What follows the reading of a part reads the whole back if it does so behind
the right part. -/
theorem ReadsBack.bind {α β : Type} {a : α} {b : β} {x : Result α} {f : α → Result β}
    (hx : ReadsBack a x) (hf : ReadsBack b (f a)) : ReadsBack b (x >>= f) := by
  rcases hx with rfl | ⟨cause, rfl⟩
  · exact hf
  · exact Or.inr ⟨cause, rfl⟩

theorem readsBack_pure {α : Type} (a : α) : ReadsBack a (pure a) := Or.inl rfl

theorem readsBack_mapM {α : Type} {f : Json → Result α} {record : α → Json} :
    ∀ {as : List α}, (∀ a ∈ as, ReadsBack a (f (record a))) →
      ReadsBack as ((as.map record).mapM f)
  | [], _ => Or.inl rfl
  | a :: as, h => by
    rw [List.map_cons, List.mapM_cons]
    have ih := readsBack_mapM fun a' ha' => h a' (List.mem_cons_of_mem _ ha')
    exact (h a (by simp)).bind (ih.bind (readsBack_pure _))

theorem mapM_map_ok {α : Type} {f : Json → Result α} {record : α → Json} :
    ∀ {as : List α}, (∀ a ∈ as, f (record a) = .ok a) → (as.map record).mapM f = .ok as
  | [], _ => rfl
  | a :: as, h => by
    rw [List.map_cons, List.mapM_cons, h a (by simp),
      mapM_map_ok fun a' ha' => h a' (List.mem_cons_of_mem _ ha')]
    rfl

theorem stmts_eq_map (ss : List Stmt) : Record.stmts ss = ss.map Stmt.record := by
  induction ss with
  | nil => rfl
  | cons s ss ih => rw [Record.stmts, ih, List.map_cons]

/-- Reads some nodes, at least one. -/
def readSome {α : Type} (f : Json → Result α) (key : String) : List Json → Result (List α)
  | [] => fail (.empty key)
  | js => js.mapM f

theorem readSome_ok {α : Type} (key : String) {as : List α} {record : α → Json}
    {f : Json → Result α} (hne : as ≠ []) (hf : ∀ a ∈ as, f (record a) = .ok a) :
    readSome f key (as.map record) = .ok as := by
  cases as with
  | nil => exact absurd rfl hne
  | cons a as => exact mapM_map_ok hf

/-- A list is read entry by entry, and refused if it is empty. -/
theorem readsBack_some {α : Type} (key : String) {as : List α} {record : α → Json}
    {f : Json → Result α} (hf : ∀ a ∈ as, ReadsBack a (f (record a))) :
    ReadsBack as (readSome f key (as.map record)) := by
  cases as with
  | nil => exact Or.inr ⟨.empty key, rfl⟩
  | cons a as => exact readsBack_mapM hf

/-- A list that was read is not empty, and each of its entries was read. -/
theorem of_list_ok {α : Type} {params : Params} {key : String} {as : List α} {f : Json → Result α}
    (h : (listParam params key >>= List.mapM f) = .ok as) :
    as ≠ [] ∧ ∀ a ∈ as, ∃ j, f j = .ok a := by
  obtain ⟨js, hjs, h⟩ := bind_eq_ok.mp h
  obtain ⟨hlen, hmem⟩ := mapM_ok h
  refine ⟨?_, fun a ha => (hmem a ha).imp fun j hj => hj.2⟩
  rintro rfl
  have hnil : js = [] := List.eq_nil_of_length_eq_zero hlen.symm
  subst hnil
  rw [listParam] at hjs
  obtain ⟨v, -, hv⟩ := bind_eq_ok.mp hjs
  split at hv
  · cases hv
  · next hne =>
    cases hv
    exact hne rfl
  · cases hv

/-! ## Nodes -/

section Nodes

variable (n : Nat)

theorem toExpr_number (w : String) : toExpr (n + 1) (Expr.number w).record =
    if isNumber w then .ok (.number w) else fail (.notANumber w) := rfl

theorem toExpr_text (s : String) : toExpr (n + 1) (Expr.text s).record = .ok (.text s) := rfl

theorem toExpr_name (name : String) : toExpr (n + 1) (Expr.name name).record =
    (if isIdentifier name then .ok name else fail (.notAnIdentifier name)) >>=
      fun name => .ok (.name name) := rfl

theorem toExpr_binary (l r : Expr) (op : ArithOp) : toExpr (n + 1) (Expr.binary l op r).record =
    toExpr n l.record >>= fun l => toExpr n r.record >>= fun r => .ok (.binary l op r) := by
  cases op <;> rfl

theorem toExpr_comparison (l r : Expr) (op : CompareOp) :
    toExpr (n + 1) (Expr.comparison l op r).record =
      toExpr n l.record >>= fun l => toExpr n r.record >>= fun r => .ok (.comparison l op r) := by
  cases op <;> rfl

theorem toExpr_concat (l r : Expr) (padded : Bool) :
    toExpr (n + 1) (Expr.concat l r padded).record =
      toExpr n l.record >>= fun l => toExpr n r.record >>= fun r => .ok (.concat l r padded) := rfl

theorem toExpr_evaluation (f : String) (e : Expr) : toExpr (n + 1) (Expr.evaluation f e).record =
    (if isIdentifier f then .ok f else fail (.notAnIdentifier f)) >>= fun f =>
      toExpr n e.record >>= fun e => .ok (.evaluation f e) := rfl

theorem toExpr_solve (e : Expr) (d : Domain) : toExpr (n + 1) (Expr.solve e d).record =
    toExpr n e.record >>= fun e => .ok (.solve e d) := by
  cases d <;> rfl

theorem toExpr_cast (e : Expr) (t : CastType) : toExpr (n + 1) (Expr.cast e t).record =
    toExpr n e.record >>= fun e => .ok (.cast e t) := by
  cases t <;> rfl

theorem toStmt_assignment (target : String) (value : Expr) :
    toStmt (n + 1) (Stmt.assignment target value).record =
      (if isIdentifier target then .ok target else fail (.notAnIdentifier target)) >>= fun target =>
        toExpr n value.record >>= fun value => .ok (.assignment target value) := rfl

theorem toStmt_input (target : String) (prompt : Option Expr) (cast : Option CastType) :
    toStmt (n + 1) (Stmt.input target prompt cast).record =
      (if isIdentifier target then .ok target else fail (.notAnIdentifier target)) >>= fun target =>
        (prompt.map Expr.record).mapM (toExpr n) >>= fun prompt =>
          .ok (.input target prompt cast) := by
  cases prompt with
  | none => cases cast with
    | none => rfl
    | some t => cases t <;> rfl
  | some e => cases cast with
    | none => cases e <;> rfl
    | some t => cases t <;> cases e <;> rfl

theorem toStmt_print (es : List Expr) : toStmt (n + 1) (Stmt.print es).record =
    readSome (toExpr n) "args" (es.map Expr.record) >>= fun es => .ok (.print es) := by
  cases es <;> rfl

theorem toStmt_plot (es : List Expr) : toStmt (n + 1) (Stmt.plot es).record =
    readSome (toExpr n) "args" (es.map Expr.record) >>= fun es => .ok (.plot es) := by
  cases es <;> rfl

theorem toStmt_ifThen (c : Expr) (b : List Stmt) : toStmt (n + 1) (Stmt.ifThen c b).record =
    toExpr n c.record >>= fun c =>
      readSome (toStmt n) "true_block" (b.map Stmt.record) >>= fun b => .ok (.ifThen c b) := by
  rw [Stmt.record, stmts_eq_map]
  cases b <;> rfl

theorem toStmt_ifThenElse (c : Expr) (b o : List Stmt) :
    toStmt (n + 1) (Stmt.ifThenElse c b o).record =
      toExpr n c.record >>= fun c =>
        readSome (toStmt n) "true_block" (b.map Stmt.record) >>= fun b =>
          readSome (toStmt n) "false_block" (o.map Stmt.record) >>= fun o =>
            .ok (.ifThenElse c b o) := by
  rw [Stmt.record, stmts_eq_map, stmts_eq_map]
  cases b <;> cases o <;> rfl

theorem toStmt_whileLoop (c : Expr) (b : List Stmt) : toStmt (n + 1) (Stmt.whileLoop c b).record =
    toExpr n c.record >>= fun c =>
      readSome (toStmt n) "code_block" (b.map Stmt.record) >>= fun b => .ok (.whileLoop c b) := by
  rw [Stmt.record, stmts_eq_map]
  cases b <;> rfl

theorem toProgram_record (p : Program) : toProgram p.record =
    readSome (toStmt p.record.nesting) "stmts" (p.statements.map Stmt.record) >>= fun ss =>
      .ok ⟨ss⟩ := by
  obtain ⟨ss⟩ := p
  rw [← stmts_eq_map]
  cases ss <;> rfl

end Nodes

/-! ## Trees -/

theorem readsBack_identifier (name : String) :
    ReadsBack name (if isIdentifier name then .ok name else fail (.notAnIdentifier name)) := by
  split
  · exact Or.inl rfl
  · exact Or.inr ⟨_, rfl⟩

/-- **The record of an expression is read back as that expression or refused as
malformed.** -/
theorem toExpr_record_cases (n : Nat) (e : Expr) : ReadsBack e (toExpr n e.record) := by
  induction n generalizing e with
  | zero => exact Or.inr ⟨.notARecord e.record, rfl⟩
  | succ n ih =>
    cases e with
    | number w =>
      rw [toExpr_number]
      split
      · exact Or.inl rfl
      · exact Or.inr ⟨_, rfl⟩
    | text s => exact Or.inl (toExpr_text n s)
    | name name =>
      rw [toExpr_name]
      exact (readsBack_identifier name).bind (Or.inl rfl)
    | binary l op r =>
      rw [toExpr_binary]
      exact (ih l).bind ((ih r).bind (Or.inl rfl))
    | comparison l op r =>
      rw [toExpr_comparison]
      exact (ih l).bind ((ih r).bind (Or.inl rfl))
    | concat l r padded =>
      rw [toExpr_concat]
      exact (ih l).bind ((ih r).bind (Or.inl rfl))
    | evaluation f e =>
      rw [toExpr_evaluation]
      exact (readsBack_identifier f).bind ((ih e).bind (Or.inl rfl))
    | solve e d =>
      rw [toExpr_solve]
      exact (ih e).bind (Or.inl rfl)
    | cast e t =>
      rw [toExpr_cast]
      exact (ih e).bind (Or.inl rfl)

/-- **The record of a statement is read back as that statement or refused as
malformed.** -/
theorem toStmt_record_cases (n : Nat) (s : Stmt) : ReadsBack s (toStmt n s.record) := by
  induction n generalizing s with
  | zero => exact Or.inr ⟨.notARecord s.record, rfl⟩
  | succ n ih =>
    cases s with
    | assignment t e =>
      rw [toStmt_assignment]
      exact (readsBack_identifier t).bind ((toExpr_record_cases n e).bind (Or.inl rfl))
    | input t p c =>
      have hp : ReadsBack p ((p.map Expr.record).mapM (toExpr n)) := by
        cases p with
        | none => exact Or.inl rfl
        | some e => exact (toExpr_record_cases n e).bind (Or.inl rfl)
      rw [toStmt_input]
      exact (readsBack_identifier t).bind (hp.bind (Or.inl rfl))
    | print es =>
      rw [toStmt_print]
      exact (readsBack_some _ fun e _ => toExpr_record_cases n e).bind (Or.inl rfl)
    | plot es =>
      rw [toStmt_plot]
      exact (readsBack_some _ fun e _ => toExpr_record_cases n e).bind (Or.inl rfl)
    | ifThen c b =>
      rw [toStmt_ifThen]
      refine (toExpr_record_cases n c).bind ?_
      exact (readsBack_some _ fun s _ => ih s).bind (Or.inl rfl)
    | ifThenElse c b o =>
      rw [toStmt_ifThenElse]
      refine (toExpr_record_cases n c).bind ?_
      refine (readsBack_some _ fun s _ => ih s).bind ?_
      exact (readsBack_some _ fun s _ => ih s).bind (Or.inl rfl)
    | whileLoop c b =>
      rw [toStmt_whileLoop]
      refine (toExpr_record_cases n c).bind ?_
      exact (readsBack_some _ fun s _ => ih s).bind (Or.inl rfl)

/-- **The record of a program is read back as that program or refused as
malformed.** -/
theorem toProgram_record_cases (p : Program) : ReadsBack p (toProgram p.record) := by
  rw [toProgram_record]
  exact (readsBack_some _ fun s _ => toStmt_record_cases _ s).bind (Or.inl rfl)

/-! ## Trees of the right shape -/

theorem readName_ok {name : String} (h : IsAsciiName name) :
    (if isIdentifier name then .ok name else fail (.notAnIdentifier name) : Result String) =
      .ok name :=
  if_pos ((isIdentifier_iff name).mpr h)

/-- **The record of an expression of the right shape is read back**, if there is
room for its depth. -/
theorem toExpr_record_of_shaped {n : Nat} {e : Expr} (h : e.Shaped IsAsciiName IsNumeral)
    (hn : e.depth ≤ n) : toExpr n e.record = .ok e := by
  induction n generalizing e with
  | zero => exact absurd hn (by cases e <;> rw [Expr.depth] <;> omega)
  | succ n ih =>
    cases e with
    | number w => rw [toExpr_number, if_pos ((isNumber_iff w).mpr h)]
    | text s => exact toExpr_text n s
    | name name =>
      rw [toExpr_name, readName_ok h]
      rfl
    | binary l op r =>
      rw [Expr.depth] at hn
      rw [toExpr_binary, ih h.1 (by omega), ih h.2 (by omega)]
      rfl
    | comparison l op r =>
      rw [Expr.depth] at hn
      rw [toExpr_comparison, ih h.1 (by omega), ih h.2 (by omega)]
      rfl
    | concat l r padded =>
      rw [Expr.depth] at hn
      rw [toExpr_concat, ih h.1 (by omega), ih h.2 (by omega)]
      rfl
    | evaluation f e =>
      rw [Expr.depth] at hn
      rw [toExpr_evaluation, readName_ok h.1, ih h.2 (by omega)]
      rfl
    | solve e d =>
      rw [Expr.depth] at hn
      rw [toExpr_solve, ih (e := e) h (by omega)]
      rfl
    | cast e t =>
      rw [Expr.depth] at hn
      rw [toExpr_cast, ih (e := e) h (by omega)]
      rfl

theorem exprs_ok {n : Nat} (key : String) {es : List Expr}
    (h : es ≠ [] ∧ ∀ e ∈ es, e.Shaped IsAsciiName IsNumeral) (hn : maxExprDepth es ≤ n) :
    readSome (toExpr n) key (es.map Expr.record) = .ok es :=
  readSome_ok key h.1 fun e he =>
    toExpr_record_of_shaped (h.2 e he) (le_trans (depth_le_maxExprDepth he) hn)

theorem stmts_ok {n : Nat} (key : String) {ss : List Stmt}
    (ih : ∀ {s : Stmt}, s.Shaped IsAsciiName IsNumeral → s.depth ≤ n → toStmt n s.record = .ok s)
    (h : ss ≠ [] ∧ Stmt.AllShaped IsAsciiName IsNumeral ss) (hn : maxStmtDepth ss ≤ n) :
    readSome (toStmt n) key (ss.map Stmt.record) = .ok ss :=
  readSome_ok key h.1 fun s hs =>
    ih ((Stmt.allShaped_iff _ _ ss).mp h.2 s hs) (le_trans (depth_le_maxStmtDepth hs) hn)

/-- **The record of a statement of the right shape is read back**, if there is
room for its depth. -/
theorem toStmt_record_of_shaped {n : Nat} {s : Stmt} (h : s.Shaped IsAsciiName IsNumeral)
    (hn : s.depth ≤ n) : toStmt n s.record = .ok s := by
  induction n generalizing s with
  | zero => exact absurd hn (by cases s <;> rw [Stmt.depth] <;> omega)
  | succ n ih =>
    cases s with
    | assignment t e =>
      rw [Stmt.depth] at hn
      rw [toStmt_assignment, readName_ok h.1, toExpr_record_of_shaped h.2 (by omega)]
      rfl
    | input t p c =>
      have hp : (p.map Expr.record).mapM (toExpr n) = .ok p := by
        cases p with
        | none => rfl
        | some e =>
          rw [Stmt.depth, Option.map_some, Option.getD_some] at hn
          rw [Option.map_some, Option.mapM_some, toExpr_record_of_shaped (h.2 e rfl) (by omega)]
          rfl
      rw [toStmt_input, readName_ok h.1, hp]
      rfl
    | print es =>
      rw [Stmt.depth] at hn
      rw [toStmt_print, exprs_ok _ h (by omega)]
      rfl
    | plot es =>
      rw [Stmt.depth] at hn
      rw [toStmt_plot, exprs_ok _ h (by omega)]
      rfl
    | ifThen c b =>
      rw [Stmt.depth] at hn
      have hc := toExpr_record_of_shaped (n := n) h.1 (by omega)
      have hb := stmts_ok "true_block" ih h.2 (by omega)
      simp only [toStmt_ifThen, hc, hb]
      rfl
    | ifThenElse c b o =>
      rw [Stmt.depth] at hn
      have hc := toExpr_record_of_shaped (n := n) h.1 (by omega)
      have hb := stmts_ok "true_block" ih h.2.1 (by omega)
      have ho := stmts_ok "false_block" ih h.2.2 (by omega)
      simp only [toStmt_ifThenElse, hc, hb, ho]
      rfl
    | whileLoop c b =>
      rw [Stmt.depth] at hn
      have hc := toExpr_record_of_shaped (n := n) h.1 (by omega)
      have hb := stmts_ok "code_block" ih h.2 (by omega)
      simp only [toStmt_whileLoop, hc, hb]
      rfl

/-! ## What is read has the right shape -/

theorem isAsciiName_of_identifierParam {params : Params} {key name : String}
    (h : identifierParam params key = .ok name) : IsAsciiName name := by
  obtain ⟨text, -, h⟩ := bind_eq_ok.mp h
  split at h
  · next hname =>
    cases h
    exact (isIdentifier_iff _).mp hname
  · cases h

/-- **What is read as an expression has the right shape.** -/
theorem shaped_of_toExpr {n : Nat} {j : Json} {e : Expr} (h : toExpr n j = .ok e) :
    e.Shaped IsAsciiName IsNumeral := by
  -- The record may be any, so the induction is on the levels that may still be read.
  induction n generalizing j e with
  | zero => cases h
  | succ n ih =>
    obtain ⟨⟨tag, params⟩, -, h⟩ := bind_eq_ok.mp h
    cases tag with
    | number =>
      obtain ⟨w, -, h⟩ := bind_eq_ok.mp h
      split at h
      · next hw =>
        cases h
        exact (isNumber_iff w).mp hw
      · cases h
    | text =>
      obtain ⟨s, -, h⟩ := bind_eq_ok.mp h
      cases h
      trivial
    | name =>
      obtain ⟨name, hname, h⟩ := bind_eq_ok.mp h
      cases h
      exact isAsciiName_of_identifierParam hname
    | binary =>
      obtain ⟨v, hv, h⟩ := bind_eq_ok.mp h
      obtain ⟨l, hl, h⟩ := bind_eq_ok.mp h
      obtain ⟨op, -, h⟩ := bind_eq_ok.mp h
      obtain ⟨v', hv', h⟩ := bind_eq_ok.mp h
      obtain ⟨r, hr, h⟩ := bind_eq_ok.mp h
      cases h
      exact ⟨ih hl, ih hr⟩
    | comparison =>
      obtain ⟨v, hv, h⟩ := bind_eq_ok.mp h
      obtain ⟨l, hl, h⟩ := bind_eq_ok.mp h
      obtain ⟨op, -, h⟩ := bind_eq_ok.mp h
      obtain ⟨v', hv', h⟩ := bind_eq_ok.mp h
      obtain ⟨r, hr, h⟩ := bind_eq_ok.mp h
      cases h
      exact ⟨ih hl, ih hr⟩
    | concat =>
      obtain ⟨v, hv, h⟩ := bind_eq_ok.mp h
      obtain ⟨l, hl, h⟩ := bind_eq_ok.mp h
      obtain ⟨v', hv', h⟩ := bind_eq_ok.mp h
      obtain ⟨r, hr, h⟩ := bind_eq_ok.mp h
      obtain ⟨padded, -, h⟩ := bind_eq_ok.mp h
      cases h
      exact ⟨ih hl, ih hr⟩
    | evaluation =>
      obtain ⟨f, hf, h⟩ := bind_eq_ok.mp h
      obtain ⟨v, hv, h⟩ := bind_eq_ok.mp h
      obtain ⟨e, he, h⟩ := bind_eq_ok.mp h
      cases h
      exact ⟨isAsciiName_of_identifierParam hf, ih he⟩
    | solve =>
      obtain ⟨v, hv, h⟩ := bind_eq_ok.mp h
      obtain ⟨e, he, h⟩ := bind_eq_ok.mp h
      obtain ⟨d, -, h⟩ := bind_eq_ok.mp h
      cases h
      show e.Shaped _ _
      exact ih he
    | cast =>
      obtain ⟨v, hv, h⟩ := bind_eq_ok.mp h
      obtain ⟨e, he, h⟩ := bind_eq_ok.mp h
      obtain ⟨t, -, h⟩ := bind_eq_ok.mp h
      cases h
      show e.Shaped _ _
      exact ih he
    | _ => cases h

theorem shaped_of_prompt {n : Nat} {v : Option Json} {prompt : Option Expr}
    (h : v.mapM (toExpr n) = .ok prompt) : ∀ e ∈ prompt, e.Shaped IsAsciiName IsNumeral := by
  intro e he
  obtain rfl := Option.mem_def.mp he
  cases v with
  | none => cases h
  | some j =>
    rw [Option.mapM_some] at h
    obtain ⟨e', he', h⟩ := bind_eq_ok.mp h
    cases h
    exact shaped_of_toExpr he'

theorem shaped_of_exprs {n : Nat} {params : Params} {key : String} {es : List Expr}
    (h : (listParam params key >>= List.mapM (toExpr n)) = .ok es) :
    es ≠ [] ∧ ∀ e ∈ es, e.Shaped IsAsciiName IsNumeral := by
  obtain ⟨hne, hmem⟩ := of_list_ok h
  refine ⟨hne, fun e he => ?_⟩
  obtain ⟨j, hj⟩ := hmem e he
  exact shaped_of_toExpr hj

theorem shaped_of_stmts {n : Nat} {params : Params} {key : String} {ss : List Stmt}
    (ih : ∀ {j : Json} {s : Stmt}, toStmt n j = .ok s → s.Shaped IsAsciiName IsNumeral)
    (h : (listParam params key >>= List.mapM (toStmt n)) = .ok ss) :
    ss ≠ [] ∧ Stmt.AllShaped IsAsciiName IsNumeral ss := by
  obtain ⟨hne, hmem⟩ := of_list_ok h
  refine ⟨hne, (Stmt.allShaped_iff _ _ ss).mpr fun s hs => ?_⟩
  obtain ⟨j, hj⟩ := hmem s hs
  exact ih hj

/-- **What is read as a statement has the right shape.** -/
theorem shaped_of_toStmt {n : Nat} {j : Json} {s : Stmt} (h : toStmt n j = .ok s) :
    s.Shaped IsAsciiName IsNumeral := by
  induction n generalizing j s with
  | zero => cases h
  | succ n ih =>
    obtain ⟨⟨tag, params⟩, -, h⟩ := bind_eq_ok.mp h
    cases tag with
    | assignment =>
      obtain ⟨t, ht, h⟩ := bind_eq_ok.mp h
      obtain ⟨v, hv, h⟩ := bind_eq_ok.mp h
      obtain ⟨e, he, h⟩ := bind_eq_ok.mp h
      cases h
      exact ⟨isAsciiName_of_identifierParam ht, shaped_of_toExpr he⟩
    | input =>
      obtain ⟨t, ht, h⟩ := bind_eq_ok.mp h
      obtain ⟨p, hp, h⟩ := bind_eq_ok.mp h
      obtain ⟨c, -, h⟩ := bind_eq_ok.mp h
      cases h
      exact ⟨isAsciiName_of_identifierParam ht, shaped_of_prompt hp⟩
    | print =>
      obtain ⟨js, hjs, h⟩ := bind_eq_ok.mp h
      obtain ⟨es, hes, h⟩ := bind_eq_ok.mp h
      cases h
      exact shaped_of_exprs (bind_eq_ok.mpr ⟨js, hjs, hes⟩)
    | plot =>
      obtain ⟨js, hjs, h⟩ := bind_eq_ok.mp h
      obtain ⟨es, hes, h⟩ := bind_eq_ok.mp h
      cases h
      exact shaped_of_exprs (bind_eq_ok.mpr ⟨js, hjs, hes⟩)
    | ifElse =>
      obtain ⟨v, hv, h⟩ := bind_eq_ok.mp h
      obtain ⟨c, hc, h⟩ := bind_eq_ok.mp h
      obtain ⟨js, hjs, h⟩ := bind_eq_ok.mp h
      obtain ⟨b, hb, h⟩ := bind_eq_ok.mp h
      have hbody := shaped_of_stmts ih (bind_eq_ok.mpr ⟨js, hjs, hb⟩)
      split at h
      · cases h
        exact ⟨shaped_of_toExpr hc, hbody⟩
      · obtain ⟨js', hjs', h⟩ := bind_eq_ok.mp h
        obtain ⟨o, ho, h⟩ := bind_eq_ok.mp h
        cases h
        exact ⟨shaped_of_toExpr hc, hbody, shaped_of_stmts ih (bind_eq_ok.mpr ⟨js', hjs', ho⟩)⟩
    | whileLoop =>
      obtain ⟨v, hv, h⟩ := bind_eq_ok.mp h
      obtain ⟨c, hc, h⟩ := bind_eq_ok.mp h
      obtain ⟨js, hjs, h⟩ := bind_eq_ok.mp h
      obtain ⟨b, hb, h⟩ := bind_eq_ok.mp h
      cases h
      exact ⟨shaped_of_toExpr hc, shaped_of_stmts ih (bind_eq_ok.mpr ⟨js, hjs, hb⟩)⟩
    | _ => cases h

/-- **What is read as a program has the right shape.** -/
theorem shaped_of_toProgram {j : Json} {p : Program} (h : toProgram j = .ok p) :
    p.Shaped IsAsciiName IsNumeral := by
  obtain ⟨⟨tag, params⟩, -, h⟩ := bind_eq_ok.mp h
  cases tag with
  | program =>
    obtain ⟨js, hjs, h⟩ := bind_eq_ok.mp h
    obtain ⟨ss, hss, h⟩ := bind_eq_ok.mp h
    cases h
    obtain ⟨hne, hall⟩ := shaped_of_stmts shaped_of_toStmt (bind_eq_ok.mpr ⟨js, hjs, hss⟩)
    exact ⟨hne, hall⟩
  | _ => cases h

end Record
end MathScript
