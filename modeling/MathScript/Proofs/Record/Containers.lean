import MathScript.Proofs.Record.RoundTrip

/-!
# How deep the records of nodes stand

The record of a node stands in the `params` of the record above it, by itself or in a list.
So each level of a program puts at most three containers around the levels below it, and the
containers of a program's text nest no deeper than its depth says.

* `Json.follow?`: what stands at the end of a way into a value, one container for each step.
* `Program.HasNode`: the nodes of a program, with their levels and the ways to their records.
* `HasNode.follow?_eq`, `HasNode.length_le`: **the way to a node leads to its record** and has
  at most three steps for each level.
* `Program.nesting_record_le_of_shaped`: where nothing is empty, the bound of the levels is
  that of the whole record.
* `containers_are_bounded`: **a program within the bound on depth stays within the reader's
  bound on containers**.
-/

namespace MathScript

open Record

/-! ## Ways into a value -/

namespace Json

/-- A step into a container. -/
inductive Step where
  | field (key : String)
  | item (index : Nat)
deriving DecidableEq, Repr

/-- What a container has at a step. -/
def step? : Json → Step → Option Json
  | .object fields, .field key => field? fields key
  | .array items, .item i => items[i]?
  | _, _ => none

/-- What stands at the end of a way.  Around it are as many containers as the way has steps. -/
def follow? : Json → List Step → Option Json
  | j, [] => some j
  | j, s :: path => (j.step? s).bind fun k => k.follow? path

theorem follow?_append (j : Json) (path further : List Step) :
    j.follow? (path ++ further) = (j.follow? path).bind fun k => k.follow? further := by
  induction path generalizing j with
  | nil => rfl
  | cons s path ih =>
    rw [List.cons_append, follow?, follow?, Option.bind_assoc]
    exact congrArg (Option.bind (j.step? s)) (funext fun k => ih k)

end Json

/-! ## Nodes -/

namespace Program

/-- A node of a program below the root. -/
inductive Node where
  | stmt (s : Stmt)
  | expr (e : Expr)

namespace Node

def record : Node → Json
  | stmt s => s.record
  | expr e => e.record

def depth : Node → Nat
  | stmt s => s.depth
  | expr e => e.depth

theorem depth_pos (v : Node) : 0 < v.depth := by
  cases v with
  | stmt s => exact s.depth_pos
  | expr e => exact e.depth_pos

/-- The nodes that stand right below a node by themselves, with their keys. -/
def parts : Node → List (String × Node)
  | expr (.number _) | expr (.text _) | expr (.name _) => []
  | expr (.binary l _ r) | expr (.comparison l _ r) | expr (.concat l r _) =>
    [("left", expr l), ("right", expr r)]
  | expr (.evaluation _ e) | expr (.solve e _) | expr (.cast e _) => [("expr", expr e)]
  | stmt (.assignment _ e) => [("expr", expr e)]
  | stmt (.input _ prompt _) => prompt.toList.map fun e => ("prompt", expr e)
  | stmt (.print _) | stmt (.plot _) => []
  | stmt (.ifThen c _) | stmt (.ifThenElse c _ _) | stmt (.whileLoop c _) =>
    [("condition", expr c)]

/-- The lists of nodes right below a node, with their keys. -/
def lists : Node → List (String × List Node)
  | stmt (.print es) | stmt (.plot es) => [("args", es.map expr)]
  | stmt (.ifThen _ b) => [("true_block", b.map stmt)]
  | stmt (.ifThenElse _ b o) => [("true_block", b.map stmt), ("false_block", o.map stmt)]
  | stmt (.whileLoop _ b) => [("code_block", b.map stmt)]
  | stmt (.assignment _ _) | stmt (.input _ _ _) | expr _ => []

variable {v w : Node} {key : String} {ws : List Node}

/-- Each record has its tag and its `params`. -/
theorem exists_record_eq (v : Node) : ∃ tag params, v.record = Record.node tag params := by
  cases v with
  | stmt s => cases s <;> exact ⟨_, _, rfl⟩
  | expr e => cases e <;> exact ⟨_, _, rfl⟩

theorem map_record_expr (es : List Expr) : (es.map expr).map record = es.map Expr.record := by
  rw [List.map_map]
  rfl

theorem map_record_stmt (ss : List Stmt) : (ss.map stmt).map record = Record.stmts ss := by
  rw [stmts_eq_map, List.map_map]
  rfl

/-- **The record of a part stands under its key.** -/
theorem follow?_part (h : (key, w) ∈ v.parts) :
    v.record.follow? [.field "params", .field key] = some w.record := by
  cases v with
  | expr e =>
    cases e with
    | number | text | name => cases h
    | binary | comparison | concat =>
      rcases List.mem_pair.mp h with heq | heq
      · cases heq
        rfl
      · cases heq
        rfl
    | evaluation | solve | cast =>
      cases List.mem_singleton.mp h
      rfl
  | stmt s =>
    cases s with
    | input n prompt cast =>
      obtain ⟨e, he, heq⟩ := List.mem_map.mp h
      cases heq
      rw [Option.mem_toList.mp he]
      rfl
    | print | plot => cases h
    | assignment | ifThen | ifThenElse | whileLoop =>
      cases List.mem_singleton.mp h
      rfl

/-- **The records of a list stand as an array under its key.** -/
theorem follow?_list (h : (key, ws) ∈ v.lists) :
    v.record.follow? [.field "params", .field key] = some (.array (ws.map record)) := by
  cases v with
  | expr e => cases h
  | stmt s =>
    cases s with
    | assignment | input => cases h
    | print | plot =>
      cases List.mem_singleton.mp h
      rw [map_record_expr]
      rfl
    | ifThen | whileLoop =>
      cases List.mem_singleton.mp h
      rw [map_record_stmt]
      rfl
    | ifThenElse =>
      rcases List.mem_pair.mp h with heq | heq
      · cases heq
        rw [map_record_stmt]
        rfl
      · cases heq
        rw [map_record_stmt]
        rfl

theorem follow?_item {i : Nat} (h : (key, ws) ∈ v.lists) (hi : ws[i]? = some w) :
    v.record.follow? [.field "params", .field key, .item i] = some w.record := by
  have hpath : [.field "params", .field key, .item i] =
      [.field "params", .field key] ++ [Json.Step.item i] := rfl
  rw [hpath, Json.follow?_append, follow?_list h]
  show ((ws.map record)[i]?).bind some = some w.record
  rw [List.getElem?_map, hi]
  rfl

/-- A part is less deep. -/
theorem depth_part (h : (key, w) ∈ v.parts) : w.depth < v.depth := by
  cases v with
  | expr e =>
    cases e with
    | number | text | name => cases h
    | binary | comparison | concat =>
      rcases List.mem_pair.mp h with heq | heq
      · cases heq
        simp only [depth, Expr.depth]
        omega
      · cases heq
        simp only [depth, Expr.depth]
        omega
    | evaluation | solve | cast =>
      cases List.mem_singleton.mp h
      simp only [depth, Expr.depth]
      omega
  | stmt s =>
    cases s with
    | input n prompt cast =>
      obtain ⟨e, he, heq⟩ := List.mem_map.mp h
      cases heq
      rw [Option.mem_toList.mp he, depth, depth, Stmt.depth, Option.map_some, Option.getD_some]
      omega
    | print | plot => cases h
    | assignment | ifThen | ifThenElse | whileLoop =>
      cases List.mem_singleton.mp h
      simp only [depth, Stmt.depth]
      omega

theorem depth_le_maxExprDepth_of_mem {es : List Expr} (h : w ∈ es.map expr) :
    w.depth ≤ maxExprDepth es := by
  obtain ⟨e, he, rfl⟩ := List.mem_map.mp h
  exact depth_le_maxExprDepth he

theorem depth_le_maxStmtDepth_of_mem {ss : List Stmt} (h : w ∈ ss.map stmt) :
    w.depth ≤ maxStmtDepth ss := by
  obtain ⟨s, hs, rfl⟩ := List.mem_map.mp h
  exact depth_le_maxStmtDepth hs

/-- Whatever is listed is less deep. -/
theorem depth_list (h : (key, ws) ∈ v.lists) (hw : w ∈ ws) : w.depth < v.depth := by
  cases v with
  | expr e => cases h
  | stmt s =>
    cases s with
    | assignment | input => cases h
    | print | plot =>
      cases List.mem_singleton.mp h
      have hdepth := depth_le_maxExprDepth_of_mem hw
      rw [depth, Stmt.depth]
      omega
    | ifThen | whileLoop =>
      cases List.mem_singleton.mp h
      have hdepth := depth_le_maxStmtDepth_of_mem hw
      rw [depth, Stmt.depth]
      omega
    | ifThenElse =>
      rw [depth, Stmt.depth]
      rcases List.mem_pair.mp h with heq | heq
      · cases heq
        have hdepth := depth_le_maxStmtDepth_of_mem hw
        omega
      · cases heq
        have hdepth := depth_le_maxStmtDepth_of_mem hw
        omega

end Node

/-- The nodes of a program with their levels, and with the ways to their records. -/
inductive HasNode (p : Program) : Nat → List Json.Step → Node → Prop
  | top {i : Nat} {s : Stmt} : p.statements[i]? = some s →
      HasNode p 1 [.field "params", .field "stmts", .item i] (.stmt s)
  | part {n : Nat} {path : List Json.Step} {v w : Node} {key : String} :
      HasNode p n path v → (key, w) ∈ v.parts →
      HasNode p (n + 1) (path ++ [.field "params", .field key]) w
  | item {n i : Nat} {path : List Json.Step} {v w : Node} {key : String} {ws : List Node} :
      HasNode p n path v → (key, ws) ∈ v.lists → ws[i]? = some w →
      HasNode p (n + 1) (path ++ [.field "params", .field key, .item i]) w

namespace HasNode

variable {p : Program} {n : Nat} {path : List Json.Step} {v : Node}

/-- **The way to a node leads to its record.** -/
theorem follow?_eq (h : p.HasNode n path v) : p.record.follow? path = some v.record := by
  induction h with
  | @top i s hi =>
    show ((Record.stmts p.statements)[i]?).bind some = some s.record
    rw [stmts_eq_map, List.getElem?_map, hi]
    rfl
  | part _ hkey ih =>
    rw [Json.follow?_append, ih]
    exact Node.follow?_part hkey
  | item _ hkey hi ih =>
    rw [Json.follow?_append, ih]
    exact Node.follow?_item hkey hi

/-- **The way to a node has at most three steps for each level.** -/
theorem length_le (h : p.HasNode n path v) : path.length ≤ 3 * n := by
  induction h with
  | top => exact Nat.le_refl 3
  | part _ _ ih =>
    simp only [List.length_append, List.length_cons, List.length_nil]
    omega
  | item _ _ _ ih =>
    simp only [List.length_append, List.length_cons, List.length_nil]
    omega

/-- The levels above a node and its own depth fit into the depth of the program. -/
theorem add_depth_le (h : p.HasNode n path v) : n + v.depth ≤ p.depth + 1 := by
  induction h with
  | @top i s hi =>
    have hdepth : s.depth ≤ p.depth := depth_le_maxStmtDepth (List.mem_of_getElem? hi)
    rw [Node.depth]
    omega
  | part _ hkey ih =>
    have hdepth := Node.depth_part hkey
    omega
  | item _ hkey hi ih =>
    have hdepth := Node.depth_list hkey (List.mem_of_getElem? hi)
    omega

end HasNode

end Program

/-! ## Whole records -/

section Shaped

variable {N M : String → Prop}

theorem maxExprDepth_pos {es : List Expr} (h : es ≠ []) : 0 < maxExprDepth es := by
  obtain ⟨e, es, rfl⟩ := List.exists_cons_of_ne_nil h
  have he := e.depth_pos
  rw [maxExprDepth]
  omega

theorem maxStmtDepth_pos {ss : List Stmt} (h : ss ≠ []) : 0 < maxStmtDepth ss := by
  obtain ⟨s, ss, rfl⟩ := List.exists_cons_of_ne_nil h
  have hs := s.depth_pos
  rw [maxStmtDepth]
  omega

mutual

/-- **Where no list is empty, a statement's record stays below three containers to a level.**
What is innermost is not a list then. -/
theorem Stmt.nesting_record_lt : ∀ {s : Stmt}, s.Shaped N M → s.record.nesting < 3 * s.depth
  | .assignment _ _, _ | .input _ _ _, _ => by
    simp only [Stmt.nesting_record, Stmt.depth]
    omega
  | .print _, h | .plot _, h => by
    have hes := maxExprDepth_pos h.1
    simp only [Stmt.nesting_record, Stmt.depth]
    omega
  | .ifThen c _, h | .whileLoop c _, h => by
    have hc := c.depth_pos
    have hb := itemsNesting_stmts_lt h.2.2
    simp only [Stmt.nesting_record, Stmt.depth]
    omega
  | .ifThenElse c _ _, h => by
    have hc := c.depth_pos
    have hb := itemsNesting_stmts_lt h.2.1.2
    have ho := itemsNesting_stmts_lt h.2.2.2
    simp only [Stmt.nesting_record, Stmt.depth]
    omega
termination_by structural s => s

theorem itemsNesting_stmts_lt : ∀ {ss : List Stmt}, Stmt.AllShaped N M ss →
    Json.itemsNesting (Record.stmts ss) ≤ 3 * maxStmtDepth ss - 1
  | [], _ => Nat.le_refl 0
  | _ :: _, h => by
    have hs := Stmt.nesting_record_lt h.1
    have hss := itemsNesting_stmts_lt h.2
    rw [Record.stmts, Json.itemsNesting, maxStmtDepth]
    omega
termination_by structural ss => ss

end

namespace Program

variable {p : Program}

theorem nesting_record_le_of_shaped (h : p.Shaped N M) :
    p.record.nesting ≤ 3 * p.depth + 2 := by
  have hpos := maxStmtDepth_pos h.nonempty
  have hstatements := itemsNesting_stmts_lt h.statements
  rw [p.nesting_record, depth]
  omega

end Program
end Shaped

/-- A reader with room for the containers of a program reads both its texts. -/
theorem Program.readValue_texts (p : Program) {n : Nat} (h : p.record.nesting ≤ n) :
    Json.readValue n p.toText.toList = some (p.record, []) ∧
      Json.readValue n p.toPrettyText.toList = some (p.record, []) := by
  rw [toText, toPrettyText, Json.compact, Json.pretty, String.toList_ofList, String.toList_ofList]
  exact ⟨Json.readValue_spelling (Json.spells_compact p.record p.record_normal h),
    Json.readValue_spelling (Json.spells_pretty p.record 0 p.record_normal h)⟩

/-- **Programs within the bound on depth stay within the bound on containers.**  A node at
level `n` of a program, counted from 1, is no deeper than the program.  A way into the
program's record leads to its record and on to the `params` there, and around these and with
them there are at most `3 * n + 2` containers.  If no list of the program is empty, a reader
that opens at most `3 * depth + 2` containers inside one another reads both texts of the
program.  A program no deeper than `maxDepth` nests fewer containers than readers open, and
both its texts are read. -/
theorem containers_are_bounded (p : Program) :
    (∀ n path v, p.HasNode n path v → n ≤ p.depth ∧ ∃ tag params,
      v.record = Record.node tag params ∧ p.record.follow? path = some v.record ∧
        p.record.follow? (path ++ [Json.Step.field "params"]) = some (.object params) ∧
        (path ++ [Json.Step.field "params"]).length + 1 ≤ 3 * n + 2) ∧
    (p.Shaped (fun _ => True) (fun _ => True) → p.record.nesting ≤ 3 * p.depth + 2 ∧
      Json.readValue (3 * p.depth + 2) p.toText.toList = some (p.record, []) ∧
        Json.readValue (3 * p.depth + 2) p.toPrettyText.toList = some (p.record, [])) ∧
    (p.depth ≤ maxDepth → p.record.nesting < Json.maxContainers ∧
      Json.ofString? p.toText = some p.record ∧ Json.ofString? p.toPrettyText = some p.record) := by
  refine ⟨fun n path v hv => ?_, fun h => ?_, fun h => ?_⟩
  · obtain ⟨tag, params, hrecord⟩ := v.exists_record_eq
    have hdepth := hv.add_depth_le
    have hpos := v.depth_pos
    have hlength := hv.length_le
    refine ⟨by omega, tag, params, hrecord, hv.follow?_eq, ?_, ?_⟩
    · rw [Json.follow?_append, hv.follow?_eq, hrecord]
      rfl
    · rw [List.length_append, List.length_singleton]
      omega
  · have hnesting := Program.nesting_record_le_of_shaped h
    exact ⟨hnesting, p.readValue_texts hnesting⟩
  · have hlt := Program.nesting_lt_of_depth_le h
    exact ⟨hlt, Json.ofString?_compact p.record_normal hlt.le,
      Json.ofString?_pretty p.record_normal hlt.le⟩

/-- Where every node stands in a list, both bounds are met. -/
theorem containers_are_bounded_listed :
    let p : Program := ⟨[.whileLoop (.number "1") [.print [.text "a"]]]⟩
    let path : List Json.Step := [.field "params", .field "stmts", .item 0, .field "params",
      .field "code_block", .item 0, .field "params", .field "args", .item 0]
    p.HasNode 3 path (.expr (.text "a")) ∧ p.depth = 3 ∧
      p.record.follow? path = some (Record.node .text [("value", .string "a")]) ∧
      (path ++ [Json.Step.field "params"]).length + 1 = 3 * 3 + 2 ∧
      p.record.nesting = 3 * 3 + 2 ∧
      Json.readValue (3 * 3 + 2) p.toText.toList = some (p.record, []) ∧
      Json.ofString? p.toPrettyText = some p.record := by
  intro p path
  have hnode : p.HasNode 3 path (.expr (.text "a")) := by
    have hloop : p.HasNode 1 _ (.stmt (.whileLoop (.number "1") [.print [.text "a"]])) :=
      .top (i := 0) rfl
    have hprint := Program.HasNode.item (i := 0) hloop (List.mem_singleton_self _) rfl
    exact .item (i := 0) hprint (List.mem_singleton_self _) rfl
  obtain ⟨hnodes, hshaped, hdepth⟩ := containers_are_bounded p
  obtain ⟨-, -, -, -, hfollow, -⟩ := hnodes _ _ _ hnode
  have hprinted : ∀ e ∈ [Expr.text "a"], e.Shaped (fun _ => True) (fun _ => True) :=
    List.forall_mem_singleton.mpr trivial
  obtain ⟨-, hread, -⟩ := hshaped ⟨List.cons_ne_nil _ _,
    ⟨trivial, List.cons_ne_nil _ _, ⟨List.cons_ne_nil _ _, hprinted⟩, trivial⟩, trivial⟩
  obtain ⟨-, -, hpretty⟩ := hdepth (by decide)
  exact ⟨hnode, rfl, hfollow, rfl, rfl, hread, hpretty⟩

end MathScript
