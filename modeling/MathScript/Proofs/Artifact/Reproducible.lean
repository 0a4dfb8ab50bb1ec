import MathScript.Proofs.Artifact.Delivery
import MathScript.Proofs.Grammar.Agreement
import MathScript.Proofs.Token.Signature

/-!
# What a signature stands for

A signature leaves out layout, comments and lines.  It still tells which tokens a text
consists of, and these alone decide what is read, and so what is packed.

* `signature_determines_program`: **texts that share a signature are read as the same
  program and compiled to the same bytes**, and so are texts that differ only in how
  their keywords are spelled.
-/

namespace MathScript

/-- Tokens that agree in kind and text are alike. -/
theorem alike_of_map_eq {ts us : List Token}
    (h : ts.map (fun t => (t.kind, t.text)) = us.map fun u => (u.kind, u.text)) :
    List.Forall₂ Token.Alike ts us := by
  induction ts generalizing us with
  | nil =>
    cases us with
    | nil => exact .nil
    | cons u us => cases h
  | cons t ts ih =>
    cases us with
    | nil => cases h
    | cons u us =>
      obtain ⟨htu, hrest⟩ := List.cons.inj h
      obtain ⟨hk, ht⟩ := Prod.mk.inj htu
      exact .cons ⟨hk, fun _ => ht⟩ (ih hrest)

/-- Texts that are read alike are compiled to the same bytes. -/
theorem Compiler.compile_eq_ok_iff {a b : String} (c : Compiler)
    (h : (∃ r, parse a = .ok r ∧ parse b = .ok r) ∨
      ∃ e f, parse a = .error e ∧ parse b = .error f ∧ e.Alike f) (artifact : Bytes) :
    c.compile a = .ok artifact ↔ c.compile b = .ok artifact := by
  rw [compile_eq, compile_eq]
  rcases h with ⟨r, ha, hb⟩ | ⟨e, f, ha, hb, -⟩
  · rw [ha, hb]
  · rw [ha, hb]
    simp

/-- **Texts that share a signature are read as the same program and compiled to the
same bytes.**  Texts share a signature exactly where their tokens agree in kind and
text.  Where they agree in kind, and in the texts of identifiers, numbers and string
literals, both are read as one program with one table of names, or neither is read, for
the same reason; and one compiler packs both into the same bytes. -/
theorem signature_determines_program {a b : String} {ts us : List Token}
    (ha : tokenize a = .ok ts) (hb : tokenize b = .ok us) :
    (signature a = signature b ↔
      ts.map (fun t => (t.kind, t.text)) = us.map fun u => (u.kind, u.text)) ∧
    (signature a = signature b → List.Forall₂ Token.Alike ts us) ∧
    (List.Forall₂ Token.Alike ts us →
      ((∃ r, parse a = .ok r ∧ parse b = .ok r) ∨
        ∃ e f, parse a = .error e ∧ parse b = .error f ∧ e.Alike f) ∧
      ∀ (c : Compiler) artifact, c.compile a = .ok artifact ↔ c.compile b = .ok artifact) := by
  have hsignature := signature_eq_iff ha hb
  refine ⟨hsignature, fun h => alike_of_map_eq (hsignature.mp h), fun halike => ?_⟩
  have hread := parseUnder_alike .never ha hb halike
  exact ⟨hread, fun c => c.compile_eq_ok_iff hread⟩

/-- Two spellings of one program.  They do not share a signature, since `Print` is not
the text `PRINT`, but their tokens are alike. -/
theorem signature_determines_program_spellings :
    signature "x = 2; PRINT(x);" ≠ signature "x=2;\n# the same\nPrint ( x ) ;" ∧
      (∃ r, parse "x = 2; PRINT(x);" = .ok r ∧
        parse "x=2;\n# the same\nPrint ( x ) ;" = .ok r) ∧
      ∀ (c : Compiler) artifact, c.compile "x = 2; PRINT(x);" = .ok artifact ↔
        c.compile "x=2;\n# the same\nPrint ( x ) ;" = .ok artifact := by
  have ha : tokenize "x = 2; PRINT(x);" = .ok [⟨.identifier, "x", 1⟩, ⟨.assign, "=", 1⟩,
      ⟨.number, "2", 1⟩, ⟨.semicolon, ";", 1⟩, ⟨.print, "PRINT", 1⟩, ⟨.leftParen, "(", 1⟩,
      ⟨.identifier, "x", 1⟩, ⟨.rightParen, ")", 1⟩, ⟨.semicolon, ";", 1⟩] := by cbv
  have hb : tokenize "x=2;\n# the same\nPrint ( x ) ;" = .ok [⟨.identifier, "x", 1⟩,
      ⟨.assign, "=", 1⟩, ⟨.number, "2", 1⟩, ⟨.semicolon, ";", 1⟩, ⟨.print, "Print", 3⟩,
      ⟨.leftParen, "(", 3⟩, ⟨.identifier, "x", 3⟩, ⟨.rightParen, ")", 3⟩,
      ⟨.semicolon, ";", 3⟩] := by cbv
  obtain ⟨hsignature, -, hread⟩ := signature_determines_program ha hb
  obtain ⟨hparse, hcompile⟩ := hread (by decide)
  refine ⟨fun h => absurd (hsignature.mp h) (by decide), ?_, hcompile⟩
  rcases hparse with hparse | ⟨e, f, he, -, -⟩
  · exact hparse
  · have hok : (parse "x = 2; PRINT(x);").isOk = true := by cbv
    rw [he] at hok
    cases hok

end MathScript
