import MathScript.Proofs.Grammar.Printing
import MathScript.Proofs.Grammar.Typing
import MathScript.Proofs.Record.RoundTrip

/-!
# Records and source

A record is admitted if its names and numbers have the right characters, its lists are
not empty, its names are declared in time and it is not too deep.  Source asks for more:
it cannot name anything by a keyword, put a quote into a string or join what is no string.

* `readable_iff_expressible`: **what a record admits is read from some source just if
  source can express it**.
* `ofText_admits_more`: records admit what no source is read as.
-/

namespace MathScript

/-- **What a record admits is read from some source just if source can express it.** -/
theorem readable_iff_expressible {text : String} {p : Program} (h : Program.ofText text = .ok p) :
    (∃ source names, parse source = .ok ⟨p, names⟩) ↔ p.Expressible := by
  constructor
  · rintro ⟨source, names, hread⟩
    exact expressible_of_parse hread
  · intro he
    exact ⟨p.source, p.declared, parse_source he (Program.admissible_of_ofText h)⟩

/-- A sign in front of a string. -/
def signedText : Program :=
  ⟨[.print [.binary (.number "0") .add (.text "A")]]⟩

theorem readable_iff_expressible_signedText :
    Program.ofText signedText.toText = .ok signedText ∧
      ∃ source names, parse source = .ok ⟨signedText, names⟩ := by
  have hzero : IsNumeral "0" := (isNumber_iff "0").mp (by decide)
  have hadmissible : signedText.Admissible :=
    ⟨⟨List.cons_ne_nil _ _, ⟨List.cons_ne_nil _ _, List.forall_mem_singleton.mpr ⟨hzero, trivial⟩⟩,
      trivial⟩, by decide, NameTable.fresh, rfl⟩
  have hadmitted := Program.ofText_toText hadmissible
  have hquotable : IsQuotable "A".toList := by simp [IsQuotable]
  have hexpressible : signedText.Expressible := by
    refine ⟨List.forall_mem_singleton.mpr ⟨trivial, hquotable, fun _ => .inl rfl⟩, trivial⟩
  exact ⟨hadmitted, (readable_iff_expressible hadmitted).mpr hexpressible⟩

/-- It is written with a space behind each token. -/
example : signedText.source = "print + \"A\" ; " := by decide

/-- A program whose only name is a keyword. -/
def keywordTarget : Program :=
  ⟨[.assignment "print" (.number "1")]⟩

/-- **Records admit what no source is read as.** -/
theorem ofText_admits_more :
    Program.ofText keywordTarget.toText = .ok keywordTarget ∧
      ∀ source names, parse source ≠ .ok ⟨keywordTarget, names⟩ := by
  refine ⟨by cbv, fun source names h => ?_⟩
  have htarget : ¬IsReserved "print" := (expressible_of_parse h).1.1
  exact htarget (by decide)

end MathScript
