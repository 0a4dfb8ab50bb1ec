import MathScript.Proofs.Code.Lines
import MathScript.Proofs.Record.Source

/-!
# The blocks of generated code

In the code of a program blocks are told by indentation alone.  What was read has
no empty block, and nothing that a statement holds can break its line, so every
line is where the statements around it put it.

* `Stmt.map_toLine_rows`: a statement has a line for each of its rows, which are its
  own, those of its blocks, and an `else` between two blocks.
* `Stmt.nested_lines`: behind a line that opens a block stands one that is one deeper.
* `code_is_laid_out`: **the lines of the code of whatever was read**.
-/

namespace MathScript

/-! ## Rows -/

/-- What a line among the statements is for. -/
inductive Heading where
  | statement (s : Stmt)
  /-- The second block of a conditional. -/
  | otherwise

/-- A heading and how many blocks are around it. -/
structure Row where
  depth : Nat
  heading : Heading

mutual

/-- The rows of a statement inside `d` blocks: its own, then those of its blocks. -/
def Stmt.rows (d : Nat) (s : Stmt) : List Row :=
  ⟨d, .statement s⟩ :: match s with
    | .ifThen _ b | .whileLoop _ b => rowsOf (d + 1) b
    | .ifThenElse _ b o => rowsOf (d + 1) b ++ ⟨d, .otherwise⟩ :: rowsOf (d + 1) o
    | _ => []
termination_by structural s

/-- The rows of some statements inside `d` blocks. -/
def rowsOf (d : Nat) : List Stmt → List Row
  | [] => []
  | s :: ss => s.rows d ++ rowsOf d ss
termination_by structural ss => ss

end

/-- The rows of a program, in its order. -/
def Program.rows (p : Program) : List Row :=
  rowsOf 0 p.statements

/-- The text of a heading under the slots of a table.  A statement without blocks is
as it is emitted on its own. -/
def Heading.text (t : NameTable) : Heading → String
  | .statement (.ifThen c _) | .statement (.ifThenElse c _ _) => "if " ++ (c.emit t).1 ++ ":"
  | .statement (.whileLoop c _) => "while " ++ (c.emit t).1 ++ ":"
  | .statement s => (s.emit t).1
  | .otherwise => "else:"

/-- A run of blanks. -/
def spaces (n : Nat) : String :=
  String.ofList (List.replicate n ' ')

/-- A row as it is written: four blanks for each block around it, then its text. -/
def Row.write (t : NameTable) (r : Row) : String :=
  spaces (4 * r.depth) ++ r.heading.text t

/-! ## The lines of rows -/

section Emission

variable {t : NameTable}

/-- The line of a row. -/
def Row.toLine (t : NameTable) (r : Row) : Line :=
  ⟨r.depth, (r.heading.text t).toList⟩

theorem Line.render_eq (l : Line) : l.render = spaces (4 * l.depth) ++ String.ofList l.text := by
  apply String.toList_injective
  rw [toList_render, spaces, String.toList_append, String.toList_ofList, String.toList_ofList]

theorem Row.render_toLine (r : Row) : (r.toLine t).render = r.write t := by
  rw [Line.render_eq, toLine, String.ofList_toList, write]

theorem Expr.toList_emit {e : Expr} (h : t.Holds e.reads) (rest : List Char) :
    (e.emit t).1.toList ++ rest = (e.replace t.codeName Code.numberLiteral).write rest := by
  obtain ⟨s, hs, hw⟩ := Code.expr_eq e h
  rw [emit, hs]
  exact hw rest

/-- What opens a block: a word, a condition and a colon. -/
theorem Expr.toList_guard {c : Expr} (h : t.Holds c.reads) (word : String) :
    (word ++ (c.emit t).1 ++ ":").toList =
      word.toList ++ (c.replace t.codeName Code.numberLiteral).write [':'] := by
  rw [← Expr.toList_emit h]
  simp

/-- The line of a statement without blocks is what is emitted for it. -/
theorem Stmt.toList_emit {s : Stmt} (h : t.Holds (s.mentions.map Mention.subject))
    {text : List Char}
    (hline : (s.replace t.codeName Code.numberLiteral).lines 0 = [⟨0, text⟩]) :
    (s.emit t).1.toList = text := by
  show (Code.joinLines (Code.stmt 0 s t).1).toList = text
  rw [Code.stmt_eq 0 s h, hline, List.map_singleton, Code.joinLines, String.intercalate_singleton,
    Line.toList_render]
  rfl

mutual

/-- **A statement has a line for each of its rows.** -/
theorem Stmt.map_toLine_rows : ∀ (d : Nat) (s : Stmt), t.Holds (s.mentions.map Mention.subject) →
    (s.rows d).map (Row.toLine t) = (s.replace t.codeName Code.numberLiteral).lines d
  | d, .assignment _ _, h | d, .input _ _ _, h | d, .print _, h | d, .plot _, h =>
    congrArg (fun text => [Line.mk d text]) (Stmt.toList_emit h rfl)
  | d, .ifThen c b, h => by
    obtain ⟨hc, hb⟩ := Code.Holds.reads h
    have hopen := congrArg (Line.mk d) (Expr.toList_guard hc "if ")
    exact congrArg₂ List.cons hopen (map_toLine_rowsOf (d + 1) b hb)
  | d, .ifThenElse c b o, h => by
    obtain ⟨hc, hbo⟩ := Code.Holds.reads h
    obtain ⟨hb, ho⟩ := Code.Holds.append hbo
    have hopen := congrArg (Line.mk d) (Expr.toList_guard hc "if ")
    have helse : (Row.mk d .otherwise).toLine t = ⟨d, elseText⟩ :=
      congrArg (Line.mk d) (by decide : "else:".toList = elseText)
    rw [Stmt.rows, List.map_cons, List.map_append, List.map_cons, helse,
      map_toLine_rowsOf (d + 1) b hb, map_toLine_rowsOf (d + 1) o ho]
    exact congrArg (List.cons · _) hopen
  | d, .whileLoop c b, h => by
    obtain ⟨hc, hb⟩ := Code.Holds.reads h
    have hopen := congrArg (Line.mk d) (Expr.toList_guard hc "while ")
    exact congrArg₂ List.cons hopen (map_toLine_rowsOf (d + 1) b hb)
termination_by structural _ s => s

theorem map_toLine_rowsOf : ∀ (d : Nat) (ss : List Stmt),
    t.Holds ((mentionsOf ss).map Mention.subject) →
    (rowsOf d ss).map (Row.toLine t) = linesOf d (replaceAll t.codeName Code.numberLiteral ss)
  | _, [], _ => rfl
  | d, s :: ss, h => by
    obtain ⟨hs, hss⟩ := Code.Holds.append h
    rw [rowsOf, replaceAll, linesOf, List.map_append, Stmt.map_toLine_rows d s hs,
      map_toLine_rowsOf d ss hss]
termination_by structural _ ss => ss

end

end Emission

/-! ## Nesting -/

/-- A line with this text opens a block. -/
def IsOpener (text : List Char) : Prop :=
  text = elseText ∨
    (['i', 'f', ' '] <+: text ∨ ['w', 'h', 'i', 'l', 'e', ' '] <+: text) ∧ [':'] <:+ text

instance (text : List Char) : Decidable (IsOpener text) :=
  inferInstanceAs (Decidable (_ ∨ _))

theorem not_isOpener_underscore (cs : List Char) : ¬IsOpener ('_' :: cs) := by
  simp [IsOpener, elseText]

theorem not_isOpener_bracket (cs : List Char) : ¬IsOpener ('[' :: cs) := by
  simp [IsOpener, elseText]

/-- Lines that belong inside `d` blocks. -/
structure Nested (d : Nat) (ls : List Line) : Prop where
  /-- The first of them is that deep. -/
  head : ∀ l ∈ ls.head?, l.depth = d
  /-- No line is blank. -/
  text : ∀ l ∈ ls, l.text ≠ []
  /-- Behind a line that opens a block stands one that is one deeper. -/
  next : ∀ i l, ls[i]? = some l → IsOpener l.text → ∃ m, ls[i + 1]? = some m ∧ m.depth = l.depth + 1

namespace Nested

variable {d : Nat} {ls ms : List Line}

theorem nil : Nested d [] := by
  refine ⟨?_, ?_, ?_⟩ <;> simp

theorem append (hl : Nested d ls) (hm : Nested d ms) : Nested d (ls ++ ms) := by
  refine ⟨fun l h => ?_, List.forall_mem_append.mpr ⟨hl.text, hm.text⟩, fun i l hi ho => ?_⟩
  · cases ls with
    | nil => exact hm.head l h
    | cons _ _ => exact hl.head l h
  · rcases Nat.lt_or_ge i ls.length with hlt | hge
    · rw [List.getElem?_append_left hlt] at hi
      obtain ⟨m, hnext, hdepth⟩ := hl.next i l hi ho
      have hlt' := (List.getElem?_eq_some_iff.mp hnext).1
      exact ⟨m, by rw [List.getElem?_append_left hlt', hnext], hdepth⟩
    · rw [List.getElem?_append_right hge] at hi
      obtain ⟨m, hnext, hdepth⟩ := hm.next _ l hi ho
      refine ⟨m, ?_, hdepth⟩
      rw [List.getElem?_append_right (by omega), ← hnext]
      congr 1
      omega

/-- Lines of which none opens a block. -/
theorem flat (h : ∀ l ∈ ls, l.depth = d ∧ l.text ≠ [] ∧ ¬IsOpener l.text) : Nested d ls := by
  refine ⟨fun l hl => ?_, fun l hl => (h l hl).2.1, fun i l hi ho => ?_⟩
  · exact (h l (List.mem_of_head? hl)).1
  · exact absurd ho (h l (List.mem_of_getElem? hi)).2.2

theorem line {text : List Char} (hne : text ≠ []) (h : ¬IsOpener text) : Nested d [⟨d, text⟩] :=
  flat (List.forall_mem_singleton.mpr ⟨rfl, hne, h⟩)

/-- A line in front of a block. -/
theorem block {text : List Char} (htext : text ≠ []) (h : Nested (d + 1) ls) (hne : ls ≠ []) :
    Nested d (⟨d, text⟩ :: ls) := by
  obtain ⟨first, rest, rfl⟩ := List.exists_cons_of_ne_nil hne
  refine ⟨?_, List.forall_mem_cons.mpr ⟨htext, h.text⟩, fun i l hi ho => ?_⟩
  · simp
  · cases i with
    | zero =>
      obtain rfl := Option.some.inj hi
      exact ⟨first, rfl, h.head first rfl⟩
    | succ i => exact h.next i l hi ho

end Nested

theorem linesOf_ne_nil : ∀ {d : Nat} {ss : List Stmt}, ss ≠ [] → linesOf d ss ≠ []
  | _, [], h => absurd rfl h
  | d, s :: ss, _ => by cases s <;> exact List.cons_ne_nil _ _

theorem Nested.target {d : Nat} {n : String} (hn : IsSlot n) (cs : List Char) :
    Nested d [⟨d, n.toList ++ '=' :: cs⟩] := by
  obtain ⟨_, _, hlist, -⟩ := hn.toList
  rw [hlist]
  exact Nested.line (List.cons_ne_nil _ _) (not_isOpener_underscore _)

mutual

/-- **Behind a line that opens a block stands one that is one deeper.** -/
theorem Stmt.nested_lines {M : String → Prop} : ∀ (d : Nat) {s : Stmt}, s.Shaped IsSlot M →
    Nested d (s.lines d)
  | _, .assignment _ _, h | _, .input _ _ _, h => Nested.target h.1 _
  | _, .print _, _ | _, .plot _, _ => Nested.line (List.cons_ne_nil _ _) (not_isOpener_underscore _)
  | d, .ifThen _ b, h | d, .whileLoop _ b, h =>
    Nested.block (List.cons_ne_nil _ _) (nested_linesOf (d + 1) h.2.2) (linesOf_ne_nil h.2.1)
  | d, .ifThenElse _ b o, h => by
    obtain ⟨-, ⟨hb, hbody⟩, ho, hother⟩ := h
    refine Nested.append (Nested.block (List.cons_ne_nil _ _) ?_ (linesOf_ne_nil hb))
      (Nested.block (List.cons_ne_nil _ _) ?_ (linesOf_ne_nil ho))
    · exact nested_linesOf (d + 1) hbody
    · exact nested_linesOf (d + 1) hother
termination_by structural _ s => s

theorem nested_linesOf {M : String → Prop} : ∀ (d : Nat) {ss : List Stmt},
    Stmt.AllShaped IsSlot M ss → Nested d (linesOf d ss)
  | _, [], _ => Nested.nil
  | d, _ :: _, h => (Stmt.nested_lines d h.1).append (nested_linesOf d h.2)
termination_by structural _ ss => ss

end

/-! ## Indentation -/

/-- The text begins with something else than a blank. -/
def Bare (text : String) : Prop :=
  ∃ c cs, text.toList = c :: cs ∧ c ≠ ' '

theorem Line.Plain.bare {l : Line} (h : l.Plain) (hne : l.text ≠ []) :
    Bare (String.ofList l.text) := by
  obtain ⟨c, cs, hlist⟩ := List.exists_cons_of_ne_nil hne
  refine ⟨c, cs, by rw [String.toList_ofList, hlist], ?_⟩
  simpa using h.start c (by rw [hlist]; rfl)

theorem IsOpener.start {text : List Char} (h : IsOpener text) :
    ∀ c ∈ text.head?, (c == ' ') = false := by
  rcases h with rfl | ⟨⟨cs, rfl⟩ | ⟨cs, rfl⟩, -⟩ <;> exact fun c hc => Option.some.inj hc ▸ rfl

/-- **Where a written line opens a block, the next one is indented by four more blanks.** -/
theorem Nested.deeper {d : Nat} {ls : List Line} (h : Nested d ls) (hplain : ∀ l ∈ ls, l.Plain)
    {i k : Nat} {text : String} (hi : (ls.map Line.render)[i]? = some (spaces k ++ text))
    (ho : IsOpener text.toList) :
    ∃ text', (ls.map Line.render)[i + 1]? = some (spaces (k + 4) ++ text') ∧ Bare text' := by
  rw [List.getElem?_map] at hi
  obtain ⟨l, hl, hrender⟩ := Option.map_eq_some_iff.mp hi
  have hlist : l.render.toList = List.replicate k ' ' ++ text.toList := by
    rw [hrender, String.toList_append, spaces, String.toList_ofList]
  -- The text does not begin with a blank, so the blanks in front are the indentation.
  obtain ⟨rfl, htext⟩ := (hplain l (List.mem_of_getElem? hl)).eq_of_render ho.start hlist
  obtain ⟨m, hm, hdepth⟩ := h.next i l hl (htext ▸ ho)
  have hmem := List.mem_of_getElem? hm
  refine ⟨String.ofList m.text, ?_, (hplain m hmem).bare (h.text m hmem)⟩
  rw [List.getElem?_map, hm, Option.map_some, m.render_eq, hdepth, Nat.mul_succ]

/-! ## All lines of a program's code -/

/-- A line outside of all blocks. -/
def Line.outer (s : String) : Line :=
  ⟨0, s.toList⟩

theorem Line.render_outer (s : String) : (Line.outer s).render = s := by
  apply String.toList_injective
  rw [toList_render]
  rfl

theorem toList_teardown (t : NameTable) : ∃ cs, (Code.teardown t).toList = '[' :: cs := by
  have hopen : ∃ cs, "[globals().pop(_k,None) for _k in (".toList = '[' :: cs := by simp
  obtain ⟨cs, hopen⟩ := hopen
  unfold Code.teardown
  rw [String.toList_append, String.toList_append, hopen]
  exact ⟨_, rfl⟩

theorem outer_preamble : ∀ s ∈ Code.preamble "_0",
    s.toList ≠ [] ∧ ¬IsOpener s.toList ∧ s.toList.head? ≠ some ' ' := by
  decide

namespace Program

variable {N : String → Prop} {p : Program}

/-- The lines of a program's code, the first four and the last one included. -/
def allLines (p : Program) : List Line :=
  (Code.preamble "_0").map Line.outer ++ p.codeLines ++ [Line.outer (Code.teardown p.declared)]

theorem map_render_allLines (p : Program) : p.allLines.map Line.render =
    Code.preamble "_0" ++ p.codeLines.map Line.render ++ [Code.teardown p.declared] := by
  have hpreamble : ((Code.preamble "_0").map Line.outer).map Line.render = Code.preamble "_0" := by
    rw [List.map_map]
    exact List.map_id'' Line.render_outer _
  rw [allLines, List.map_append, List.map_append, hpreamble, List.map_singleton,
    Line.render_outer]

theorem nested_allLines (h : p.Shaped N IsNumeral) : Nested 0 p.allLines := by
  obtain ⟨cs, hlist⟩ := toList_teardown p.declared
  have hteardown : Nested 0 [Line.outer (Code.teardown p.declared)] := by
    rw [Line.outer, hlist]
    exact Nested.line (List.cons_ne_nil _ _) (not_isOpener_bracket cs)
  have hpreamble : Nested 0 ((Code.preamble "_0").map Line.outer) := by
    refine Nested.flat (List.forall_mem_map.mpr fun s hs => ?_)
    obtain ⟨hne, hopener, -⟩ := outer_preamble s hs
    exact ⟨rfl, hne, hopener⟩
  exact (hpreamble.append (nested_linesOf 0 (shaped_replace h).statements)).append hteardown

theorem plain_allLines (h : p.Shaped N IsNumeral) : ∀ l ∈ p.allLines, l.Plain := by
  refine List.forall_mem_append.mpr ⟨List.forall_mem_append.mpr ⟨?_, ?_⟩, ?_⟩
  · refine List.forall_mem_map.mpr fun s hs => ⟨fun c hc => ?_, oneLine_preamble s hs⟩
    refine beq_false_of_ne ?_
    rintro rfl
    exact (outer_preamble s hs).2.2 hc
  · exact plain_linesOf (shaped_replace h).statements
  · refine List.forall_mem_singleton.mpr ⟨fun c hc => ?_, oneLine_teardown p.declared⟩
    obtain ⟨cs, hlist⟩ := toList_teardown p.declared
    rw [Line.outer, hlist] at hc
    obtain rfl := Option.some.inj hc
    rfl

end Program

/-! ## The layout of code -/

/-- A program is what a source was read as, interrupted or not, or what a record was. -/
inductive Program.Accepted (p : Program) : Prop
  | ofSource {interrupt : Interrupt} {source : String} {t : NameTable}
    (h : parseUnder interrupt source = .ok ⟨p, t⟩) : Accepted p
  | ofRecord {text : String} (h : Program.ofText text = .ok p) : Accepted p

/-- What was read has no empty lists and keeps the scope rules. -/
theorem Program.Accepted.shaped {p : Program} (h : p.Accepted) :
    ∃ N t, p.Shaped N IsNumeral ∧ p.resolve = .ok t := by
  cases h with
  | @ofSource _ _ t h =>
    exact ⟨fun _ => True, t, shaped_of_parseUnder h fun _ _ _ => trivial, resolve_of_parse h⟩
  | ofRecord h =>
    obtain ⟨hshaped, -, t, hresolve⟩ := Program.admissible_of_ofText h
    exact ⟨IsAsciiName, t, hshaped, hresolve⟩

/-- The lines of a text. -/
def linesIn (text : String) : List String :=
  (text.toList.splitOn '\n').map String.ofList

/-- How the lines of code belong to a program. -/
structure Program.LaidOut (p : Program) (lines : List String) : Prop where
  /-- There are four lines in front, then the rows of the program, then the last line. -/
  eq : lines = ["import sympy as _s", "_p=print", "_i=input", "_0=_s.Symbol(\"x\")"] ++
    p.rows.map (Row.write p.declared) ++ [Code.teardown p.declared]
  /-- No row is indented further than the blocks around it ask for, and none is blank. -/
  bare : ∀ r ∈ p.rows, Bare (r.heading.text p.declared)
  /-- Behind a line that opens a block stands one that is indented by four more blanks. -/
  deeper : ∀ i k text, lines[i]? = some (spaces k ++ text) → IsOpener text.toList →
    ∃ text', lines[i + 1]? = some (spaces (k + 4) ++ text') ∧ Bare text'

/-- The lines in the code of a program are all its lines, as they are written. -/
theorem linesIn_code {N : String → Prop} {p : Program} {t : NameTable}
    (h : p.Shaped N IsNumeral) (ht : p.resolve = .ok t) :
    linesIn p.code = p.allLines.map Line.render := by
  have hsplit := splitOn_joinLines (List.cons_ne_nil _ _) (Program.oneLine_codeLines h)
  rw [linesIn, Program.code_eq ht, p.map_render_allLines]
  refine (congrArg (List.map String.ofList) hsplit).trans ?_
  rw [List.map_map]
  exact List.map_id'' (fun _ => String.ofList_toList) _

/-- **The lines of the code of whatever was read.** -/
theorem code_is_laid_out {p : Program} (h : p.Accepted) : p.LaidOut (linesIn p.code) := by
  obtain ⟨N, t, hshaped, ht⟩ := h.shaped
  have hrows : p.rows.map (Row.toLine p.declared) = p.codeLines :=
    map_toLine_rowsOf 0 p.statements (Program.holds_declared ht)
  have hnested := Program.nested_allLines hshaped
  have hplain := Program.plain_allLines hshaped
  rw [linesIn_code hshaped ht]
  refine ⟨?_, fun r hr => ?_, fun _ _ _ => hnested.deeper hplain⟩
  · have hpreamble : Code.preamble "_0" =
        ["import sympy as _s", "_p=print", "_i=input", "_0=_s.Symbol(\"x\")"] := by decide
    have hwrite : Line.render ∘ Row.toLine p.declared = Row.write p.declared :=
      funext Row.render_toLine
    rw [p.map_render_allLines, ← hrows, List.map_map, hpreamble, hwrite]
  · have hmem : r.toLine p.declared ∈ p.allLines := by
      refine List.mem_append_left _ (List.mem_append_right _ ?_)
      rw [← hrows]
      exact List.mem_map_of_mem hr
    have hbare := (hplain _ hmem).bare (hnested.text _ hmem)
    rwa [Row.toLine, String.ofList_toList] at hbare

/-- A loop in the second block of a conditional, and a string with a line break. -/
theorem code_is_laid_out_nested :
    let p : Program := ⟨[.ifThenElse (.name "x") [.print [.text "A\nelse:"]]
      [.whileLoop (.name "x") [.print [.name "x"]]]]⟩
    Program.ofText p.toText = .ok p ∧ linesIn p.code =
      ["import sympy as _s", "_p=print", "_i=input", "_0=_s.Symbol(\"x\")",
        "if _0:",
        "    _p(\"A\\nelse:\")",
        "else:",
        "    while _0:",
        "        _p(_0)",
        "[globals().pop(_k,None) for _k in (\"_s\",\"_p\",\"_i\",\"_0\",)]"] := by
  intro p
  have hname : IsAsciiName "x" := (isIdentifier_iff "x").mp (by decide)
  have htext : Stmt.AllShaped IsAsciiName IsNumeral [.print [.text "A\nelse:"]] :=
    ⟨⟨List.cons_ne_nil _ _, List.forall_mem_singleton.mpr trivial⟩, trivial⟩
  have hloop : Stmt.AllShaped IsAsciiName IsNumeral [.whileLoop (.name "x") [.print [.name "x"]]] :=
    ⟨⟨hname, List.cons_ne_nil _ _, ⟨List.cons_ne_nil _ _, List.forall_mem_singleton.mpr hname⟩,
      trivial⟩, trivial⟩
  have hshaped : p.Shaped IsAsciiName IsNumeral :=
    ⟨List.cons_ne_nil _ _, ⟨hname, ⟨List.cons_ne_nil _ _, htext⟩, List.cons_ne_nil _ _, hloop⟩,
      trivial⟩
  have hread := Program.ofText_toText ⟨hshaped, by decide, NameTable.fresh, rfl⟩
  refine ⟨hread, (code_is_laid_out (.ofRecord hread)).eq.trans ?_⟩
  have hrows : p.rows.map (Row.write NameTable.fresh) =
      ["if _0:", "    _p(\"A\\nelse:\")", "else:", "    while _0:", "        _p(_0)"] := by decide
  have hlast : Code.teardown NameTable.fresh =
      "[globals().pop(_k,None) for _k in (\"_s\",\"_p\",\"_i\",\"_0\",)]" := by decide
  have hdeclared : p.declared = NameTable.fresh := rfl
  rw [hdeclared, hrows, hlast]
  rfl

end MathScript
