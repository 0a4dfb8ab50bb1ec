import MathScript.Code.Emit
import MathScript.Proofs.Program.Slots

/-!
# The text of generated code

The text of a program whose names are slots already, in front of a rest.  Code
generation gives out no slot for a program that keeps the scope rules, so what
it emits is this text of the program under the names of its slots.

* `expr_eq`, `stmts_eq`: **emission is the text of the replaced tree**, and
  leaves the table alone.
* `emit_eq`, `code_eq`: the emission and the code of a program by its lines.
-/

namespace MathScript

/-- The function that converts to a type. -/
def CastType.function : CastType → List Char
  | integer => ['i', 'n', 't']
  | real => ['f', 'l', 'o', 'a', 't']
  | string => ['s', 't', 'r']

/-- What stands around the operands of a call into the library. -/
def sympifyOpen : String := Code.library ++ ".sympify("
def subsOpen : String := ").subs(\x7b" ++ "_0" ++ ":("
def subsClose : String := ")\x7d)"
def solvesetOpen : String := Code.library ++ ".solveset("
def domainOpen : String := "," ++ "_0" ++ ",domain=" ++ Code.library ++ "."

/-- The text of an expression in front of a rest. -/
def Expr.write : Expr → List Char → List Char
  | .number w, rest => w.toList ++ rest
  | .text s, rest => Code.stringChars s.toList ++ rest
  | .name n, rest => n.toList ++ rest
  | .binary l op r, rest =>
    '(' :: l.write (')' :: ((Code.operator op).toList ++ '(' :: r.write (')' :: rest)))
  | .comparison l op r, rest =>
    '(' :: l.write (')' :: (op.symbol.toList ++ '(' :: r.write (')' :: rest)))
  | .concat l r padded, rest =>
    CastType.string.function ++ '(' :: l.write (')' :: ((Code.joiner padded).toList ++
      (CastType.string.function ++ '(' :: r.write (')' :: rest))))
  | .evaluation n e, rest =>
    sympifyOpen.toList ++
      (n.toList ++ (subsOpen.toList ++ e.write (subsClose.toList ++ rest)))
  | .solve e domain, rest =>
    solvesetOpen.toList ++
      e.write (domainOpen.toList ++ (domain.constant.toList ++ (")".toList ++ rest)))
  | .cast e type, rest => type.function ++ '(' :: e.write (')' :: rest)

/-- The text of some expressions behind commas, in front of a rest. -/
def writeFurther : List Expr → List Char → List Char
  | [], rest => rest
  | e :: es, rest => ',' :: e.write (writeFurther es rest)

/-- The text of some expressions between commas, in front of a rest. -/
def writeArguments : List Expr → List Char → List Char
  | [], rest => rest
  | e :: es, rest => e.write (writeFurther es rest)

/-- The text of a prompt, in front of a rest. -/
def writePrompt : Option Expr → List Char → List Char
  | none, rest => rest
  | some e, rest => e.write rest

/-- The text of a call of the reading function, in front of a rest. -/
def writeRead (prompt : Option Expr) (rest : List Char) : List Char :=
  ['_', 'i', '('] ++ writePrompt prompt (')' :: rest)

/-- The text of what an input assigns. -/
def writeInput (prompt : Option Expr) : Option CastType → List Char
  | none => writeRead prompt []
  | some type => type.function ++ '(' :: writeRead prompt [')']

/-- A line: how many blocks are around it, and what stands behind the indentation. -/
structure Line where
  depth : Nat
  text : List Char

/-- The line as it is written. -/
def Line.render (l : Line) : String :=
  Code.indent l.depth ++ String.ofList l.text

mutual

/-- The lines of a statement inside `d` blocks. -/
def Stmt.lines (d : Nat) : Stmt → List Line
  | .assignment n e => [⟨d, n.toList ++ '=' :: e.write []⟩]
  | .input n prompt cast => [⟨d, n.toList ++ '=' :: writeInput prompt cast⟩]
  | .print es => [⟨d, ['_', 'p', '('] ++ writeArguments es [')']⟩]
  | .plot es => [⟨d, ['_', 's', '.', 'p', 'l', 'o', 't', '('] ++ writeArguments es [')']⟩]
  | .ifThen c b => ⟨d, ['i', 'f', ' '] ++ c.write [':']⟩ :: linesOf (d + 1) b
  | .ifThenElse c b o =>
    ⟨d, ['i', 'f', ' '] ++ c.write [':']⟩ ::
      (linesOf (d + 1) b ++ ⟨d, ['e', 'l', 's', 'e', ':']⟩ :: linesOf (d + 1) o)
  | .whileLoop c b => ⟨d, ['w', 'h', 'i', 'l', 'e', ' '] ++ c.write [':']⟩ :: linesOf (d + 1) b
termination_by structural s => s

/-- The lines of some statements inside `d` blocks. -/
def linesOf (d : Nat) : List Stmt → List Line
  | [] => []
  | s :: ss => s.lines d ++ linesOf d ss
termination_by structural ss => ss

end

/-! ## What is emitted -/

/-- What the code calls a name, by its slot in the table. -/
def NameTable.codeName (t : NameTable) (n : String) : String :=
  slotName (t.declareSlot n)

/-- Every name has a slot, and the free variable the first. -/
structure NameTable.Holds (t : NameTable) (names : List String) : Prop where
  free : freeVariable ∈ t.names
  first : t.declareSlot freeVariable = 0
  names : ∀ n ∈ names, n ∈ t.names

namespace Code

variable {t : NameTable}

theorem codeNameOf_eq {n : String} (h : n ∈ t.names) : codeNameOf n t = (t.codeName n, t) :=
  congrArg (Prod.mk (t.codeName n)) (NameTable.declare_of_mem h)

theorem codeNameOf_free {names : List String} (h : t.Holds names) :
    codeNameOf freeVariable t = ("_0", t) := by
  rw [codeNameOf_eq h.free, NameTable.codeName, h.first]
  rfl

/-- What comes behind an emission. -/
theorem bind_eq {α β : Type} {x : Emit α} {f : α → Emit β} {a : α} (h : x t = (a, t)) :
    (x >>= f) t = f a t := by
  show f (x t).1 (x t).2 = f a t
  rw [h]

/-- The emission leaves the table alone, and its text in front of a rest is given
by `w`. -/
def Writes (t : NameTable) (x : Emit String) (w : List Char → List Char) : Prop :=
  ∃ s, x t = (s, t) ∧ ∀ rest, s.toList ++ rest = w rest

theorem Holds.append_left {ns ms : List String} (h : t.Holds (ns ++ ms)) : t.Holds ns := by
  refine ⟨h.free, h.first, ?_⟩
  intro n hn
  exact h.names n (List.mem_append_left _ hn)

theorem Holds.append_right {ns ms : List String} (h : t.Holds (ns ++ ms)) : t.Holds ms := by
  refine ⟨h.free, h.first, ?_⟩
  intro n hn
  exact h.names n (List.mem_append_right _ hn)

theorem toList_conversion (type : CastType) (s : String) :
    (conversion type s).toList = type.function ++ '(' :: (s.toList ++ [')']) := by
  cases type <;> simp [conversion, CastType.function]

/-- **The emission of an expression is the text of the expression under the names
of its slots.** -/
theorem expr_eq (e : Expr) (h : t.Holds e.reads) :
    Writes t (expr e) (e.replace t.codeName numberLiteral).write := by
  induction e with
  | number w => exact ⟨numberLiteral w, rfl, fun rest => rfl⟩
  | text s =>
    refine ⟨stringLiteral s, rfl, fun rest => ?_⟩
    rw [stringLiteral, String.toList_ofList]
    rfl
  | name n => exact ⟨t.codeName n, codeNameOf_eq (h.names n List.mem_cons_self), fun rest => rfl⟩
  | binary l op r ihl ihr =>
    obtain ⟨sl, hl, hwl⟩ := ihl (Holds.append_left h)
    obtain ⟨sr, hr, hwr⟩ := ihr (Holds.append_right h)
    refine ⟨"(" ++ sl ++ ")" ++ operator op ++ "(" ++ sr ++ ")", ?_, fun rest => ?_⟩
    · rw [expr, bind_eq hl, bind_eq hr]
      rfl
    · rw [Expr.replace, Expr.write, ← hwr, ← hwl]
      simp
  | comparison l op r ihl ihr =>
    obtain ⟨sl, hl, hwl⟩ := ihl (Holds.append_left h)
    obtain ⟨sr, hr, hwr⟩ := ihr (Holds.append_right h)
    refine ⟨"(" ++ sl ++ ")" ++ op.symbol ++ "(" ++ sr ++ ")", ?_, fun rest => ?_⟩
    · rw [expr, bind_eq hl, bind_eq hr]
      rfl
    · rw [Expr.replace, Expr.write, ← hwr, ← hwl]
      simp
  | concat l r padded ihl ihr =>
    obtain ⟨sl, hl, hwl⟩ := ihl (Holds.append_left h)
    obtain ⟨sr, hr, hwr⟩ := ihr (Holds.append_right h)
    refine ⟨"str(" ++ sl ++ ")" ++ joiner padded ++ "str(" ++ sr ++ ")", ?_, fun rest => ?_⟩
    · rw [expr, bind_eq hl, bind_eq hr]
      rfl
    · rw [Expr.replace, Expr.write, ← hwr, ← hwl]
      simp [CastType.function]
  | evaluation n e ih =>
    obtain ⟨s, hs, hw⟩ := ih ⟨h.free, h.first, fun m hm => h.names m (List.mem_cons_of_mem _ hm)⟩
    refine ⟨library ++ ".sympify(" ++ t.codeName n ++ ").subs(\x7b" ++ "_0" ++ ":(" ++ s ++
      ")\x7d)", ?_, fun rest => ?_⟩
    · rw [expr, bind_eq (codeNameOf_eq (h.names n List.mem_cons_self)), bind_eq (codeNameOf_free h),
        bind_eq hs]
      rfl
    · rw [Expr.replace, Expr.write, ← hw]
      simp only [sympifyOpen, subsOpen, subsClose, String.toList_append, List.append_assoc]
  | solve e domain ih =>
    obtain ⟨s, hs, hw⟩ := ih h
    refine ⟨library ++ ".solveset(" ++ s ++ "," ++ "_0" ++ ",domain=" ++ library ++ "." ++
      domain.constant ++ ")", ?_, fun rest => ?_⟩
    · rw [expr, bind_eq hs, bind_eq (codeNameOf_free h)]
      rfl
    · rw [Expr.replace, Expr.write, ← hw]
      simp only [solvesetOpen, domainOpen, String.toList_append, List.append_assoc]
  | cast e type ih =>
    obtain ⟨s, hs, hw⟩ := ih h
    refine ⟨conversion type s, ?_, fun rest => ?_⟩
    · rw [expr, bind_eq hs]
      rfl
    · rw [Expr.replace, Expr.write, ← hw, toList_conversion]
      simp

theorem toList_intercalate_comma (s : String) (ss : List String) :
    (",".intercalate (s :: ss)).toList = s.toList ++ ss.flatMap fun s => ',' :: s.toList := by
  induction ss generalizing s with
  | nil => simp
  | cons s' ss ih =>
    rw [String.intercalate_cons_cons, String.toList_append, ih]
    simp

theorem further_eq {es : List Expr} (h : t.Holds (es.flatMap Expr.reads)) :
    ∃ ss, exprs es t = (ss, t) ∧ ∀ rest, ss.flatMap (fun s => ',' :: s.toList) ++ rest =
      writeFurther (es.map (Expr.replace t.codeName numberLiteral)) rest := by
  induction es with
  | nil => exact ⟨[], rfl, fun rest => rfl⟩
  | cons e es ih =>
    obtain ⟨s, hs, hw⟩ := expr_eq e (Holds.append_left h)
    obtain ⟨ss, hss, hws⟩ := ih (Holds.append_right h)
    refine ⟨s :: ss, ?_, fun rest => ?_⟩
    · rw [exprs, bind_eq hs, bind_eq hss]
      rfl
    · rw [List.map_cons, writeFurther, ← hws, ← hw]
      simp

theorem arguments_eq {es : List Expr} (h : t.Holds (es.flatMap Expr.reads)) :
    Writes t (argumentList es)
      (writeArguments (es.map (Expr.replace t.codeName numberLiteral))) := by
  cases es with
  | nil => exact ⟨"", rfl, fun rest => rfl⟩
  | cons e es =>
    obtain ⟨s, hs, hw⟩ := expr_eq e (Holds.append_left h)
    obtain ⟨ss, hss, hws⟩ := further_eq (Holds.append_right h)
    refine ⟨",".intercalate (s :: ss), ?_, fun rest => ?_⟩
    · rw [argumentList, exprs, bind_assoc, bind_eq hs, bind_assoc, bind_eq hss]
      rfl
    · rw [List.map_cons, writeArguments, ← hws, ← hw, toList_intercalate_comma,
        List.append_assoc]

theorem Holds.of_reads {ns : List String}
    (h : t.Holds ((ns.map Mention.read).map Mention.subject)) : t.Holds ns := by
  rw [List.map_map] at h
  have hns : ns.map (Mention.subject ∘ Mention.read) = ns := List.map_id ns
  rwa [hns] at h

theorem Holds.append {ms ms' : List (Mention String)}
    (h : t.Holds ((ms ++ ms').map Mention.subject)) :
    t.Holds (ms.map Mention.subject) ∧ t.Holds (ms'.map Mention.subject) := by
  rw [List.map_append] at h
  exact ⟨Holds.append_left h, Holds.append_right h⟩

theorem Holds.reads {ns : List String} {ms : List (Mention String)}
    (h : t.Holds ((ns.map Mention.read ++ ms).map Mention.subject)) :
    t.Holds ns ∧ t.Holds (ms.map Mention.subject) :=
  ⟨Holds.of_reads (Holds.append h).1, (Holds.append h).2⟩

/-- The emission of a prompt, nothing if there is none. -/
def prompt (prompt : Option Expr) : Emit String :=
  match prompt with
  | some e => expr e
  | none => pure ""

theorem input_eq (d : Nat) (n : String) (p : Option Expr) (cast : Option CastType) :
    stmt d (.input n p cast) = prompt p >>= fun s => codeNameOf n >>= fun x =>
      pure [indent d ++ x ++ "=" ++
        cast.elim (reader ++ "(" ++ s ++ ")") (conversion · (reader ++ "(" ++ s ++ ")"))] := by
  cases p <;> cases cast <;> rfl

theorem prompt_eq {p : Option Expr} (h : t.Holds ((p.map Expr.reads).getD [])) :
    ∃ s, prompt p t = (s, t) ∧ ∀ rest, (reader ++ "(" ++ s ++ ")").toList ++ rest =
      writeRead (p.map (Expr.replace t.codeName numberLiteral)) rest := by
  cases p with
  | none => exact ⟨"", rfl, fun rest => rfl⟩
  | some e =>
    obtain ⟨s, hs, hw⟩ := expr_eq e h
    refine ⟨s, hs, fun rest => ?_⟩
    rw [Option.map_some, writeRead, writePrompt, ← hw]
    simp [reader]

theorem eq_render {d : Nat} {s : String} {text : List Char}
    (h : s.toList = (indent d).toList ++ text) : s = Line.render ⟨d, text⟩ := by
  apply String.toList_injective
  rw [h, Line.render, String.toList_append, String.toList_ofList]

theorem if_eq {d : Nat} {s : String} {w : List Char → List Char}
    (hw : ∀ rest, s.toList ++ rest = w rest) :
    indent d ++ "if " ++ s ++ ":" = Line.render ⟨d, ['i', 'f', ' '] ++ w [':']⟩ :=
  eq_render (by rw [← hw]; simp)

theorem while_eq {d : Nat} {s : String} {w : List Char → List Char}
    (hw : ∀ rest, s.toList ++ rest = w rest) :
    indent d ++ "while " ++ s ++ ":" =
      Line.render ⟨d, ['w', 'h', 'i', 'l', 'e', ' '] ++ w [':']⟩ :=
  eq_render (by rw [← hw]; simp)

theorem else_eq {d : Nat} :
    indent d ++ "else:" = Line.render ⟨d, ['e', 'l', 's', 'e', ':']⟩ :=
  eq_render (by simp)

mutual

theorem stmt_eq : ∀ (d : Nat) (s : Stmt), t.Holds (s.mentions.map Mention.subject) →
    stmt d s t = (((s.replace t.codeName numberLiteral).lines d).map Line.render, t)
  | d, .assignment n e, h => by
    obtain ⟨hreads, hn⟩ := Holds.reads h
    obtain ⟨s, hs, hw⟩ := expr_eq e hreads
    rw [stmt, bind_eq hs, bind_eq (codeNameOf_eq (hn.names n List.mem_cons_self)), Stmt.replace,
      Stmt.lines, List.map_singleton, ← eq_render]
    · rfl
    · rw [← hw]
      simp
  | d, .input n p cast, h => by
    obtain ⟨hreads, hn⟩ := Holds.reads h
    obtain ⟨s, hs, hw⟩ := prompt_eq hreads
    rw [input_eq, bind_eq hs, bind_eq (codeNameOf_eq (hn.names n List.mem_cons_self)),
      Stmt.replace, Stmt.lines, List.map_singleton, ← eq_render]
    · rfl
    · cases cast with
      | none =>
        rw [writeInput, ← hw]
        simp
      | some type =>
        rw [writeInput, ← hw]
        simp [toList_conversion]
  | d, .print es, h => by
    obtain ⟨s, hs, hw⟩ := arguments_eq (Holds.of_reads h)
    rw [stmt, bind_eq hs, Stmt.replace, Stmt.lines, List.map_singleton, ← eq_render]
    · rfl
    · rw [← hw]
      simp [printer]
  | d, .plot es, h => by
    obtain ⟨s, hs, hw⟩ := arguments_eq (Holds.of_reads h)
    rw [stmt, bind_eq hs, Stmt.replace, Stmt.lines, List.map_singleton, ← eq_render]
    · rfl
    · rw [← hw]
      simp [library]
  | d, .ifThen c b, h => by
    obtain ⟨hreads, hb⟩ := Holds.reads h
    obtain ⟨s, hs, hw⟩ := expr_eq c hreads
    rw [stmt, bind_eq hs, bind_eq (stmts_eq (d + 1) b hb), Stmt.replace, Stmt.lines,
      List.map_cons, ← if_eq hw]
    rfl
  | d, .ifThenElse c b o, h => by
    obtain ⟨hreads, hbo⟩ := Holds.reads h
    obtain ⟨hb, ho⟩ := Holds.append hbo
    obtain ⟨s, hs, hw⟩ := expr_eq c hreads
    rw [stmt, bind_eq hs, bind_eq (stmts_eq (d + 1) b hb), bind_eq (stmts_eq (d + 1) o ho),
      Stmt.replace, Stmt.lines, List.map_cons, List.map_append, List.map_cons, ← if_eq hw,
      ← else_eq]
    rfl
  | d, .whileLoop c b, h => by
    obtain ⟨hreads, hb⟩ := Holds.reads h
    obtain ⟨s, hs, hw⟩ := expr_eq c hreads
    rw [stmt, bind_eq hs, bind_eq (stmts_eq (d + 1) b hb), Stmt.replace, Stmt.lines,
      List.map_cons, ← while_eq hw]
    rfl
termination_by structural _ s => s

theorem stmts_eq : ∀ (d : Nat) (ss : List Stmt), t.Holds ((mentionsOf ss).map Mention.subject) →
    stmts d ss t = ((linesOf d (replaceAll t.codeName numberLiteral ss)).map Line.render, t)
  | d, [], _ => rfl
  | d, s :: ss, h => by
    obtain ⟨hs, hss⟩ := Holds.append h
    rw [stmts, bind_eq (stmt_eq d s hs), bind_eq (stmts_eq d ss hss), replaceAll, linesOf,
      List.map_append]
    rfl
termination_by structural _ ss => ss

end

end Code

namespace Program

/-- A program that keeps the scope rules has a slot for every name. -/
theorem holds_declared {p : Program} {t : NameTable} (h : p.resolve = .ok t) :
    p.declared.Holds p.names :=
  ⟨p.free_mem_declared, p.declareSlot_free, List.forall_mem_map.mpr (mem_declared h)⟩

/-- The lines of a program's statements, under the names of its slots. -/
def codeLines (p : Program) : List Line :=
  linesOf 0 (replaceAll p.declared.codeName Code.numberLiteral p.statements)

/-- **The emission of a program is its lines**, and leaves the table alone. -/
theorem emit_eq {p : Program} {t : NameTable} (h : p.resolve = .ok t) :
    p.emit p.declared = (Code.joinLines (Code.preamble "_0" ++ p.codeLines.map Line.render ++
      [Code.teardown p.declared]), p.declared) := by
  have hholds := holds_declared h
  have hlines : Code.programLines p p.declared = (Code.preamble "_0" ++
      p.codeLines.map Line.render ++ [Code.teardown p.declared], p.declared) := by
    rw [Code.programLines, Code.bind_eq (Code.codeNameOf_free hholds),
      Code.bind_eq (Code.stmts_eq 0 p.statements hholds)]
    rfl
  exact congrArg (fun r => (Code.joinLines r.1, r.2)) hlines

/-- The code of a program by its lines. -/
theorem code_eq {p : Program} {t : NameTable} (h : p.resolve = .ok t) :
    p.code = Code.joinLines (Code.preamble "_0" ++ p.codeLines.map Line.render ++
      [Code.teardown p.declared]) := by
  rw [code, emit_eq h]

end Program
end MathScript
