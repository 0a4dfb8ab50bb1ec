import MathScript.Proofs.Code.Text
import MathScript.Proofs.Grammar.Decision

/-!
# One table of slots

Four walks over a program declare its names: the reading, the collection of its
declarations, the check of its scope, and the emission of its code.  They agree on
every slot.

* `slots_agree`: **the table of the reading is that of the other walks**, and the
  code is the text of the program under the slots of that table.
-/

namespace MathScript

/-- A name in the table has a slot of it. -/
theorem NameTable.slot?_eq_some {t : NameTable} {n : String} (h : n ∈ t.names) :
    t.slot? n = some (t.declareSlot n) ∧ t.declareSlot n < t.size := by
  constructor
  · cases hslot : t.slot? n with
    | none => exact absurd h (List.idxOf?_eq_none_iff.mp hslot)
    | some k => rw [declareSlot, hslot, Option.getD_some]
  · rw [declareSlot_eq]
    exact List.idxOf_lt_length_iff.mpr h

/-- **One table of slots.**  For a source that is read, the table of the reading is
that of the program's declarations and that of the scope check.  The emission ends
with it, so it gave out no slot; what it emits is the text of the program with the
slot of that table for each name, and each of its names has one. -/
theorem slots_agree {interrupt : Interrupt} {source : String} {p : Program} {t : NameTable}
    (h : parseUnder interrupt source = .ok ⟨p, t⟩) :
    p.declared = t ∧ p.resolve = .ok t ∧
      p.emit p.declared = (Code.joinLines (Code.preamble (t.codeName freeVariable) ++
        (linesOf 0 (p.replace t.codeName Code.numberLiteral).statements).map Line.render ++
        [Code.teardown t]), t) ∧
      ∀ n ∈ freeVariable :: p.names, ∃ k, t.slot? n = some k ∧ k < t.size ∧
        t.codeName n = "_" ++ toString k ∧ Code.codeNameOf n t = ("_" ++ toString k, t) := by
  have hresolve := resolve_of_parse h
  obtain rfl := Program.eq_declared_of_resolve hresolve
  have hholds := Program.holds_declared hresolve
  have hfree : p.declared.codeName freeVariable = "_0" :=
    congrArg Prod.fst (Code.codeNameOf_eq hholds.free ▸ Code.codeNameOf_free hholds)
  refine ⟨rfl, hresolve, ?_, fun n hn => ?_⟩
  · rw [hfree]
    exact Program.emit_eq hresolve
  · have hmem : n ∈ p.declared.names := by
      rcases List.mem_cons.mp hn with rfl | hn
      · exact hholds.free
      · exact hholds.names n hn
    obtain ⟨hslot, hlt⟩ := NameTable.slot?_eq_some hmem
    exact ⟨p.declared.declareSlot n, hslot, hlt, rfl, Code.codeNameOf_eq hmem⟩

/-- Targets that are declared only behind what they are assigned, in blocks as well. -/
theorem slots_agree_branches :
    let source := "IF (x > 1) { b = x; } ELSE c = 2; b = c;"
    ∃ p, parse source = .ok ⟨p, ⟨["x", "b", "c"]⟩⟩ ∧ p.declared = ⟨["x", "b", "c"]⟩ ∧
      (p.emit p.declared).2 = ⟨["x", "b", "c"]⟩ := by
  intro source
  have h : parse source = .ok ⟨⟨[.ifThenElse (.comparison (.name "x") .greater (.number "1"))
      [.assignment "b" (.name "x")] [.assignment "c" (.number "2")],
      .assignment "b" (.name "c")]⟩, ⟨["x", "b", "c"]⟩⟩ := by cbv
  obtain ⟨hdeclared, -, hemit, -⟩ := slots_agree h
  exact ⟨_, h, hdeclared, congrArg Prod.snd hemit⟩

end MathScript
