import MathScript.Proofs.Code.Readability

/-!
# The lines of generated code

No line of a program's code holds a line break, and a line's indentation ends
where its text starts.  So the code determines its lines, and these the program.

* `joinLines_inj`: **a text determines the lines it is joined from**.
* `render_inj`: a written line determines its depth and its text.
* `replace_eq_of_code_eq`: programs with the same code have the same statements, up to the
  names of their slots.
-/

namespace MathScript

/-! ## Line breaks -/

/-- There is no line break among the characters. -/
def OneLine (cs : List Char) : Prop :=
  '\n' ∉ cs

instance (cs : List Char) : Decidable (OneLine cs) :=
  inferInstanceAs (Decidable ('\n' ∉ cs))

theorem OneLine.nil : OneLine [] := List.not_mem_nil

theorem OneLine.append {cs ds : List Char} (hcs : OneLine cs) (hds : OneLine ds) :
    OneLine (cs ++ ds) := by
  intro h
  rcases List.mem_append.mp h with h | h
  · exact hcs h
  · exact hds h

theorem OneLine.toList_append {s t : String} (hs : OneLine s.toList) (ht : OneLine t.toList) :
    OneLine (s ++ t).toList := by
  rw [String.toList_append]
  exact hs.append ht

theorem OneLine.cons {c : Char} {cs : List Char} (hc : c ≠ '\n') (hcs : OneLine cs) :
    OneLine (c :: cs) := by
  intro h
  rcases List.mem_cons.mp h with h | h
  · exact hc h.symm
  · exact hcs h

theorem OneLine.flatMap {α : Type} {f : α → List Char} {as : List α}
    (h : ∀ a ∈ as, OneLine (f a)) : OneLine (as.flatMap f) := by
  intro hmem
  obtain ⟨a, ha, hc⟩ := List.mem_flatMap.mp hmem
  exact h a ha hc

theorem OneLine.of_forall {p : Char → Bool} (hp : p '\n' = false) {cs : List Char}
    (h : ∀ c ∈ cs, p c = true) : OneLine cs := by
  intro hmem
  rw [h _ hmem] at hp
  cases hp

/-- Splitting at the breaks gives back the lines that a text is joined from. -/
theorem splitOn_joinLines {ls : List String} (hne : ls ≠ []) (h : ∀ l ∈ ls, OneLine l.toList) :
    (Code.joinLines ls).toList.splitOn '\n' = ls.map String.toList := by
  have hsep : "\n".toList = ['\n'] := rfl
  rw [Code.joinLines, String.toList_intercalate, hsep]
  exact List.splitOn_intercalate _ (List.forall_mem_map.mpr h)
    fun hnil => hne (List.map_eq_nil_iff.mp hnil)

/-- **A text determines the lines it is joined from.** -/
theorem joinLines_inj {ls ms : List String} (h : Code.joinLines ls = Code.joinLines ms)
    (hls : ls ≠ [] ∧ ∀ l ∈ ls, OneLine l.toList) (hms : ms ≠ [] ∧ ∀ l ∈ ms, OneLine l.toList) :
    ls = ms := by
  have hmap : ls.map String.toList = ms.map String.toList := by
    rw [← splitOn_joinLines hls.1 hls.2, h, splitOn_joinLines hms.1 hms.2]
  exact List.map_injective_iff.mpr (fun _ _ => String.toList_injective) hmap

/-! ## Texts without a break -/

theorem oneLine_stringChars (cs : List Char) : OneLine (Code.stringChars cs) := by
  have hcontents : OneLine (Code.contents cs) := fun h =>
    absurd (Code.not_control_contents _ h) (by decide)
  exact (hcontents.cons (by decide)).append (by decide)

theorem IsSlot.oneLine {n : String} (h : IsSlot n) : OneLine n.toList :=
  OneLine.of_forall rfl h.forall_mem

theorem IsNumeral.oneLine {w : String} (h : IsNumeral w) : OneLine w.toList := by
  obtain ⟨c, cs, hw, _, hcs⟩ := IsNumeral.toList h
  rw [hw]
  exact OneLine.of_forall (p := fun d => d.isDigit || d == '.') rfl hcs

theorem CastType.oneLine_function (type : CastType) : OneLine type.function := by
  cases type <;> decide

/-- The text of an expression holds no line break. -/
theorem Expr.oneLine_write {e : Expr} (h : e.Shaped IsSlot IsNumeral) {rest : List Char}
    (hrest : OneLine rest) : OneLine (e.write rest) := by
  induction e generalizing rest with
  | number w => exact (IsNumeral.oneLine h).append hrest
  | text s => exact (oneLine_stringChars _).append hrest
  | name n => exact (IsSlot.oneLine h).append hrest
  | binary l op r ihl ihr =>
    have hop : OneLine (Code.operator op).toList := by cases op <;> decide
    have hr := (ihr h.2 (hrest.cons (by decide : ')' ≠ '\n'))).cons (by decide : '(' ≠ '\n')
    exact (ihl h.1 ((hop.append hr).cons (by decide))).cons (by decide)
  | comparison l op r ihl ihr =>
    have hop : OneLine op.symbol.toList := by cases op <;> decide
    have hr := (ihr h.2 (hrest.cons (by decide : ')' ≠ '\n'))).cons (by decide : '(' ≠ '\n')
    exact (ihl h.1 ((hop.append hr).cons (by decide))).cons (by decide)
  | concat l r padded ihl ihr =>
    have hjoiner : OneLine (Code.joiner padded).toList := by cases padded <;> decide
    have hfunction := CastType.oneLine_function .string
    have hr := (ihr h.2 (hrest.cons (by decide : ')' ≠ '\n'))).cons (by decide : '(' ≠ '\n')
    have hl := ihl h.1 ((hjoiner.append (hfunction.append hr)).cons (by decide : ')' ≠ '\n'))
    exact hfunction.append (hl.cons (by decide))
  | evaluation n e ih =>
    have he := ih h.2 ((by decide : OneLine subsClose.toList).append hrest)
    have hn := (IsSlot.oneLine h.1).append ((by decide : OneLine subsOpen.toList).append he)
    exact (by decide : OneLine sympifyOpen.toList).append hn
  | solve e domain ih =>
    have hdomain : OneLine domain.constant.toList := by cases domain <;> decide
    have hclose := hdomain.append ((by decide : OneLine ")".toList).append hrest)
    have he := ih h ((by decide : OneLine domainOpen.toList).append hclose)
    exact (by decide : OneLine solvesetOpen.toList).append he
  | cast e type ih =>
    have he := ih h (hrest.cons (by decide : ')' ≠ '\n'))
    exact (CastType.oneLine_function type).append (he.cons (by decide))

theorem oneLine_writeFurther {es : List Expr} (h : ∀ e ∈ es, e.Shaped IsSlot IsNumeral)
    {rest : List Char} (hrest : OneLine rest) : OneLine (writeFurther es rest) := by
  induction es with
  | nil => exact hrest
  | cons e es ih =>
    obtain ⟨he, hes⟩ := List.forall_mem_cons.mp h
    exact (Expr.oneLine_write he (ih hes)).cons (by decide)

theorem oneLine_writeArguments {es : List Expr} (h : ∀ e ∈ es, e.Shaped IsSlot IsNumeral)
    {rest : List Char} (hrest : OneLine rest) : OneLine (writeArguments es rest) := by
  cases es with
  | nil => exact hrest
  | cons e es =>
    obtain ⟨he, hes⟩ := List.forall_mem_cons.mp h
    exact Expr.oneLine_write he (oneLine_writeFurther hes hrest)

theorem oneLine_writeRead {p : Option Expr} (h : ∀ e ∈ p, e.Shaped IsSlot IsNumeral)
    {rest : List Char} (hrest : OneLine rest) : OneLine (writeRead p rest) := by
  have hclose : OneLine (')' :: rest) := hrest.cons (by decide)
  refine OneLine.append (by decide) ?_
  cases p with
  | none => exact hclose
  | some e => exact Expr.oneLine_write (h e rfl) hclose

theorem oneLine_writeInput {p : Option Expr} (h : ∀ e ∈ p, e.Shaped IsSlot IsNumeral)
    (c : Option CastType) : OneLine (writeInput p c) := by
  cases c with
  | none => exact oneLine_writeRead h OneLine.nil
  | some type =>
    have hread := oneLine_writeRead h (by decide : OneLine [')'])
    exact (CastType.oneLine_function type).append (hread.cons (by decide))

/-! ## Lines -/

/-- The text of a line does not go on with its indentation, and ends with it. -/
structure Line.Plain (l : Line) : Prop where
  start : ∀ c ∈ l.text.head?, (c == ' ') = false
  oneLine : OneLine l.text

theorem Line.plain_target {d : Nat} {n : String} (hn : IsSlot n) {cs : List Char}
    (hcs : OneLine cs) : (Line.mk d (n.toList ++ '=' :: cs)).Plain := by
  refine ⟨fun c hc => ?_, hn.oneLine.append (hcs.cons (by decide))⟩
  obtain ⟨e, es, hlist, -⟩ := hn.toList
  rw [hlist] at hc
  cases hc
  rfl

theorem Line.plain_word {d : Nat} {word : List Char} {c : Char} (hc : c ≠ ' ')
    (hword : OneLine (c :: word)) {cs : List Char} (hcs : OneLine cs) :
    (Line.mk d (c :: word ++ cs)).Plain := by
  refine ⟨fun c' hc' => ?_, hword.append hcs⟩
  cases hc'
  exact beq_false_of_ne hc

theorem Line.plain_else (d : Nat) : (Line.mk d elseText).Plain := by
  refine ⟨fun c hc => ?_, (by decide : OneLine elseText)⟩
  cases hc
  rfl

mutual

theorem Stmt.plain_lines : ∀ {d : Nat} {s : Stmt}, s.Shaped IsSlot IsNumeral →
    ∀ l ∈ s.lines d, l.Plain
  | _, .assignment n e, h => by
    have hvalue := Expr.oneLine_write h.2 OneLine.nil
    exact List.forall_mem_singleton.mpr (Line.plain_target h.1 hvalue)
  | _, .input n p c, h => by
    have hvalue := oneLine_writeInput h.2 c
    exact List.forall_mem_singleton.mpr (Line.plain_target h.1 hvalue)
  | _, .print es, h | _, .plot es, h => by
    have harguments := oneLine_writeArguments h.2 (by decide : OneLine [')'])
    exact List.forall_mem_singleton.mpr (Line.plain_word (by decide) (by decide) harguments)
  | _, .ifThen c b, h | _, .whileLoop c b, h => by
    have hcondition := Expr.oneLine_write h.1 (by decide : OneLine [':'])
    refine List.forall_mem_cons.mpr ⟨?_, plain_linesOf h.2.2⟩
    exact Line.plain_word (by decide) (by decide) hcondition
  | d, .ifThenElse c b o, h => by
    have hcondition := Expr.oneLine_write h.1 (by decide : OneLine [':'])
    have hother : ∀ l ∈ ⟨d, elseText⟩ :: linesOf (d + 1) o, l.Plain :=
      List.forall_mem_cons.mpr ⟨Line.plain_else d, plain_linesOf h.2.2.2⟩
    refine List.forall_mem_cons.mpr ⟨?_, List.forall_mem_append.mpr ⟨?_, hother⟩⟩
    · exact Line.plain_word (by decide) (by decide) hcondition
    · exact plain_linesOf h.2.1.2
termination_by structural _ s => s

theorem plain_linesOf : ∀ {d : Nat} {ss : List Stmt}, Stmt.AllShaped IsSlot IsNumeral ss →
    ∀ l ∈ linesOf d ss, l.Plain
  | _, [], _ => by
    intro l hl
    cases hl
  | _, s :: ss, h => by
    rw [linesOf]
    exact List.forall_mem_append.mpr ⟨Stmt.plain_lines h.1, plain_linesOf h.2⟩
termination_by structural _ ss => ss

end

theorem toList_indent (d : Nat) : (Code.indent d).toList = List.replicate (4 * d) ' ' := by
  induction d with
  | zero => rfl
  | succ d ih =>
    rw [Code.indent, String.toList_append, ih, Nat.mul_succ, Nat.add_comm, List.replicate_add]
    rfl

theorem Line.toList_render (l : Line) :
    l.render.toList = List.replicate (4 * l.depth) ' ' ++ l.text := by
  rw [render, String.toList_append, toList_indent, String.toList_ofList]

/-- The indentation of a written line is all the blanks in front of its text. -/
theorem Line.Plain.eq_of_render {l : Line} (hl : l.Plain) {k : Nat} {cs : List Char}
    (hcs : ∀ c ∈ cs.head?, (c == ' ') = false)
    (h : l.render.toList = List.replicate k ' ' ++ cs) : 4 * l.depth = k ∧ l.text = cs := by
  have hspace : ∀ d, ∀ c ∈ List.replicate d ' ', (c == ' ') = true := by
    intro d c hc
    rw [List.eq_of_mem_replicate hc]
    rfl
  rw [Line.toList_render] at h
  obtain ⟨hindent, htext⟩ := run_inj h (hspace _) (hspace _) hl.start hcs
  have hlength := congrArg List.length hindent
  rw [List.length_replicate, List.length_replicate] at hlength
  exact ⟨hlength, htext⟩

/-- **A written line determines its depth and its text.** -/
theorem Line.render_inj {l m : Line} (hl : l.Plain) (hm : m.Plain) (h : l.render = m.render) :
    l = m := by
  obtain ⟨hdepth, htext⟩ := hl.eq_of_render hm.start ((congrArg String.toList h).trans
    m.toList_render)
  obtain ⟨d, text⟩ := l
  obtain ⟨d', text'⟩ := m
  obtain rfl : d = d' := Nat.eq_of_mul_eq_mul_left (by decide) hdepth
  exact congrArg (Line.mk d) htext

theorem map_render_inj : ∀ {ls ms : List Line}, (∀ l ∈ ls, l.Plain) → (∀ m ∈ ms, m.Plain) →
    ls.map Line.render = ms.map Line.render → ls = ms
  | [], [], _, _, _ => rfl
  | [], _ :: _, _, _, h => by cases h
  | _ :: _, [], _, _, h => by cases h
  | l :: ls, m :: ms, hls, hms, h => by
    obtain ⟨hl, hls⟩ := List.forall_mem_cons.mp hls
    obtain ⟨hm, hms⟩ := List.forall_mem_cons.mp hms
    obtain ⟨hlm, hrest⟩ := List.cons.inj h
    rw [Line.render_inj hl hm hlm, map_render_inj hls hms hrest]

/-! ## Programs -/

theorem Line.Plain.oneLine_render {l : Line} (h : l.Plain) : OneLine l.render.toList := by
  rw [Line.toList_render]
  refine OneLine.append (fun hmem => ?_) h.oneLine
  exact absurd (List.eq_of_mem_replicate hmem) (by decide)

theorem oneLine_preamble : ∀ l ∈ Code.preamble "_0", OneLine l.toList := by
  decide

theorem oneLine_slotName (k : Nat) : OneLine (slotName k).toList :=
  IsSlot.oneLine ⟨k, rfl⟩

theorem oneLine_intercalate {ss : List String} (h : ∀ s ∈ ss, OneLine s.toList) :
    OneLine (",".intercalate ss).toList := by
  cases ss with
  | nil => decide
  | cons s ss =>
    obtain ⟨hs, hss⟩ := List.forall_mem_cons.mp h
    rw [Code.toList_intercalate_comma]
    exact hs.append (OneLine.flatMap fun s hs => (hss s hs).cons (by decide))

/-- The last line releases names that hold no line break. -/
theorem oneLine_teardown (t : NameTable) : OneLine (Code.teardown t).toList := by
  have hfixed : ∀ n ∈ [Code.library, Code.printer, Code.reader], OneLine n.toList := by decide
  have hreleased : ∀ n ∈ Code.released t, OneLine n.toList := by
    intro n hn
    rcases List.mem_append.mp hn with hn | hn
    · exact hfixed n hn
    · obtain ⟨k, -, rfl⟩ := List.mem_map.mp hn
      exact oneLine_slotName k
  have hquote : OneLine "\"".toList := by decide
  have hquoted : ∀ s ∈ (Code.released t).map (fun n => "\"" ++ n ++ "\""), OneLine s.toList := by
    intro s hs
    obtain ⟨n, hn, rfl⟩ := List.mem_map.mp hs
    exact (hquote.toList_append (hreleased n hn)).toList_append hquote
  have hopen : OneLine "[globals().pop(_k,None) for _k in (".toList := by simp [OneLine]
  have hclose : OneLine ",)]".toList := by decide
  exact (hopen.toList_append (oneLine_intercalate hquoted)).toList_append hclose

namespace Program

variable {N : String → Prop}

theorem shaped_replace {p : Program} (h : p.Shaped N IsNumeral) :
    (p.replace p.declared.codeName Code.numberLiteral).Shaped IsSlot IsNumeral :=
  h.replace (fun _ _ => ⟨_, rfl⟩) fun _ => Code.isNumeral_numberLiteral

/-- The lines that a program's code is joined from. -/
theorem oneLine_codeLines {p : Program} (h : p.Shaped N IsNumeral) :
    ∀ l ∈ Code.preamble "_0" ++ p.codeLines.map Line.render ++ [Code.teardown p.declared],
      OneLine l.toList := by
  intro l hl
  rcases List.mem_append.mp hl with hl | hl
  · rcases List.mem_append.mp hl with hl | hl
    · exact oneLine_preamble l hl
    · obtain ⟨line, hline, rfl⟩ := List.mem_map.mp hl
      exact (plain_linesOf (shaped_replace h).statements line hline).oneLine_render
  · rw [List.mem_singleton.mp hl]
    exact oneLine_teardown p.declared

/-- **The code of a program determines its statements under the names of their
slots.** -/
theorem replace_eq_of_code_eq {a b : Program} {s t : NameTable} (h : a.code = b.code)
    (ha : a.Shaped (fun _ => True) IsNumeral) (hb : b.Shaped (fun _ => True) IsNumeral)
    (hs : a.resolve = .ok s) (ht : b.resolve = .ok t) :
    a.replace a.declared.codeName Code.numberLiteral =
      b.replace b.declared.codeName Code.numberLiteral := by
  rw [code_eq hs, code_eq ht] at h
  have hlines := joinLines_inj h ⟨List.cons_ne_nil _ _, oneLine_codeLines ha⟩
    ⟨List.cons_ne_nil _ _, oneLine_codeLines hb⟩
  -- The first lines are the same for all programs, and the last one is a single line.
  have hbody := List.append_cancel_left (List.append_inj_left' hlines rfl)
  have hcode := map_render_inj (plain_linesOf (shaped_replace ha).statements)
    (plain_linesOf (shaped_replace hb).statements) hbody
  have hblock : linesOf 0 _ ++ [] = linesOf 0 _ ++ [] := congrArg (· ++ []) hcode
  have hnil : Ends 0 [] := by
    intro l hl
    cases hl
  exact congrArg Program.mk (linesOf_inj hblock (shaped_replace ha).statements
    (shaped_replace hb).statements hnil hnil).1

end Program
end MathScript
