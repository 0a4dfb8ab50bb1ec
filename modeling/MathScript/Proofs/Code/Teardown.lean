import MathScript.Proofs.Code.Emission
import MathScript.Proofs.Code.Lines

/-!
# The last line of a program's code

A program may be emitted into any table that emissions come to, and it need not declare what it
reads.  Its last line is written when all slots have been given out, so it can name each of them.

* `slotName_not_reserved`: no slot is called what the code uses by itself.
* `codeName_inj`: names that have slots are not written alike.
* `emit_settled`: **what is emitted is the text of the program under the slots of the table in
  the end**.
* `last_line_releases`: **the last line releases whatever a program binds**.
-/

namespace MathScript

/-! ## Names of slots -/

/-- What the code calls the library, the printing and the reading function, and the variable of
its last line. -/
def reservedNames : List String :=
  [Code.library, Code.printer, Code.reader, "_k"]

/-- No slot is called what the code uses by itself, since slots go by digits. -/
theorem slotName_not_reserved (k : Nat) : slotName k ∉ reservedNames := by
  intro h
  obtain ⟨c, cs, hname, hdigits⟩ := IsSlot.toList ⟨k, rfl⟩
  have hreserved : ∀ n ∈ reservedNames, n.toList[1]?.map Char.isDigit = some false := by decide
  have hc : (slotName k).toList[1]?.map Char.isDigit = some true := by
    rw [hname]
    exact congrArg some (hdigits c List.mem_cons_self)
  rw [hreserved _ h] at hc
  cases hc

namespace NameTable

variable {t : NameTable}

/-- **Names that have slots are not written alike.** -/
theorem codeName_inj {n m : String} (hn : n ∈ t.names) (h : t.codeName n = t.codeName m) :
    n = m := by
  have hslot : t.declareSlot n = t.declareSlot m := slotName_injective h
  rw [declareSlot_eq, declareSlot_eq] at hslot
  exact (List.idxOf_inj hn).mp hslot

theorem Seeded.holds {names : List String} (h : t.Seeded) (hnames : ∀ n ∈ names, n ∈ t.names) :
    t.Holds names := by
  refine ⟨h.mem, ?_, hnames⟩
  rw [declareSlot, h.slot?, Option.getD_some]

end NameTable

namespace Code

variable {t : NameTable}

/-! ## Emission under the slots of the end -/

/-- What is written is what would be written if the slots had been given out before. -/
theorem Interns.settled {α : Type} {x : Emit α} {ns : List String} (h : Interns x ns)
    (ht : t.Seeded) : x t = ((x (t.declareAll ns)).1, t.declareAll ns) := by
  have hsettled : (t.declareAll ns).declareAll ns = t.declareAll ns :=
    NameTable.declareAll_of_subset fun n hn => NameTable.mem_declareAll_iff.mpr (.inr hn)
  have htext : (x t).1 = (x (t.declareAll ns)).1 := by
    refine h.result t _ ht (ht.declareAll ns) fun n _ => ?_
    rw [hsettled]
  exact Prod.ext htext (h.table t ht)

theorem stmts_settled (ht : t.Seeded) (p : Program) :
    let T := t.declareAll p.names
    stmts 0 p.statements t =
      ((linesOf 0 (p.replace T.codeName numberLiteral).statements).map Line.render, T) := by
  intro T
  have hholds : T.Holds p.names :=
    (ht.declareAll p.names).holds fun n hn => NameTable.mem_declareAll_iff.mpr (.inr hn)
  rw [(interns_stmts 0 p.statements).settled ht]
  exact congrArg (fun r => (r.1, T)) (stmts_eq 0 p.statements hholds)

/-- **The code of a program is its text under the slots of the table in the end.** -/
theorem emit_settled (ht : t.Seeded) (p : Program) :
    let T := t.declareAll p.names
    p.emit t = (joinLines (preamble "_0" ++
      (linesOf 0 (p.replace T.codeName numberLiteral).statements).map Line.render ++
        [teardown T]), T) := by
  intro T
  have hfree : codeNameOf freeVariable t = ("_0", t) :=
    codeNameOf_free (ht.holds fun n hn => absurd hn List.not_mem_nil)
  have hlines : programLines p t = (preamble "_0" ++
      (linesOf 0 (p.replace T.codeName numberLiteral).statements).map Line.render ++
        [teardown T], T) := by
    rw [programLines, bind_eq hfree]
    show (preamble "_0" ++ (stmts 0 p.statements t).1 ++ [teardown (stmts 0 p.statements t).2],
      (stmts 0 p.statements t).2) = _
    rw [stmts_settled ht p]
  exact congrArg (fun r => (joinLines r.1, r.2)) hlines

/-! ## What is released -/

/-- Nothing is released twice. -/
theorem nodup_released (t : NameTable) : (released t).Nodup := by
  refine List.nodup_append'.mpr ⟨by decide, List.nodup_range.map slotName_injective, ?_⟩
  intro n hn hslot
  obtain ⟨k, -, rfl⟩ := List.mem_map.mp hslot
  have hreserved : ∀ m ∈ [library, printer, reader], m ∈ reservedNames := by decide
  exact slotName_not_reserved k (hreserved _ hn)

/-- **The last line releases whatever a program binds.**  In every table that emissions come to,
the code of a program ends with a line of its own that takes the library, the printing and the
reading function and all slots of the table in the end out of the interpreter, each once.  The
lines in front of it are the text of the program with one slot for each name that it mentions.
Different names have different slots, and no slot is called what the code uses by itself. -/
theorem last_line_releases (ht : Reached t) (p : Program) :
    let T := (p.emit t).2
    let listed := ["_s", "_p", "_i"] ++ (List.range T.size).map fun k => "_" ++ toString k
    let last := "[globals().pop(_k,None) for _k in (" ++
      ",".intercalate (listed.map fun n => "\"" ++ n ++ "\"") ++ ",)]"
    (p.emit t).1 = joinLines (preamble "_0" ++
        (linesOf 0 (p.replace T.codeName numberLiteral).statements).map Line.render ++ [last]) ∧
      '\n' ∉ last.toList ∧ listed.Nodup ∧
      (∀ n ∈ freeVariable :: p.names, n ∈ T.names) ∧
      (∀ n ∈ T.names, ∃ k < T.size, T.codeName n = "_" ++ toString k) ∧
      (∀ n ∈ T.names, ∀ m ∈ T.names, T.codeName n = T.codeName m → n = m) ∧
      ∀ n, T.codeName n ∉ ["_s", "_p", "_i", "_k"] := by
  intro T listed last
  obtain ⟨hseeded, -⟩ := ht.seeded_nodup
  have hemit := emit_settled hseeded p
  have hT : T = t.declareAll p.names := congrArg Prod.snd hemit
  refine ⟨?_, oneLine_teardown T, nodup_released T, ?_, fun n hn => ?_,
    fun n hn m _ h => NameTable.codeName_inj hn h, fun n => slotName_not_reserved _⟩
  · rw [hemit]
    show _ = joinLines (_ ++ _ ++ [teardown T])
    rw [hT]
  · rw [hT]
    refine List.forall_mem_cons.mpr ⟨(hseeded.declareAll p.names).mem, fun n hn => ?_⟩
    exact NameTable.mem_declareAll_iff.mpr (.inr hn)
  · exact ⟨T.declareSlot n, (NameTable.slot?_eq_some hn).2, rfl⟩

/-- A table with a name of its own, and a program that reads a name it never assigns, in a block
that is not taken. -/
theorem last_line_releases_branches :
    let t := NameTable.fresh.declareAll ["_k"]
    let p : Program := ⟨[.ifThenElse (.number "1") [.assignment "a" (.name "a")]
      [.print [.name "b"]]]⟩
    (p.emit t).2 = ⟨["x", "_k", "a", "b"]⟩ ∧
      (p.emit t).1 = joinLines ["import sympy as _s", "_p=print", "_i=input",
        "_0=_s.Symbol(\"x\")", "if 1:", "    _2=_2", "else:", "    _p(_3)",
        "[globals().pop(_k,None) for _k in (\"_s\",\"_p\",\"_i\",\"_0\",\"_1\",\"_2\",\"_3\",)]"] ∧
      ["_s", "_p", "_i", "_0", "_1", "_2", "_3"].Nodup := by
  intro t p
  have htable : (p.emit t).2 = ⟨["x", "_k", "a", "b"]⟩ := by decide +kernel
  have hlisted : (["_s", "_p", "_i"] ++ (List.range 4).map fun k => "_" ++ toString k) =
      ["_s", "_p", "_i", "_0", "_1", "_2", "_3"] := by decide +kernel
  obtain ⟨hcode, -, hnodup, -⟩ := last_line_releases (.declared ["_k"]) p
  rw [htable] at hcode hnodup
  have hnodup' : (["_s", "_p", "_i"] ++ (List.range 4).map fun k => "_" ++ toString k).Nodup :=
    hnodup
  rw [hlisted] at hnodup'
  refine ⟨htable, hcode.trans ?_, hnodup'⟩
  decide +kernel

end Code
end MathScript
