import MathScript.Program.Equality
import MathScript.Proofs.Code.Lines

/-!
# Programs with the same code

Generated code identifies programs up to the choice of names and to superfluous
zeros: `Program.canonical` puts its slot for every name and drops those zeros, and
programs have the same code if and only if they agree in this form.

* `sameCode_iff`: **the same code is the same canonical form**.
* `canonical_rename`: an injective renaming that fixes the free variable does not
  change the form.
* `outline_eq_of_canonical_eq`: the form keeps everything but names and numbers.
-/

namespace MathScript
namespace Program

/-- No list is empty, numbers are number literals, and names are declared before
they are read. -/
structure Lowerable (p : Program) : Prop where
  shaped : p.Shaped (fun _ => True) IsNumeral
  resolves : ∃ names, p.resolve = .ok names

/-- The program with the slot of every name for the name, and without superfluous
zeros. -/
def canonical (p : Program) : Program :=
  p.replace p.declared.codeName Code.trimmed

/-- The program without the texts of its names and numbers. -/
def outline (p : Program) : Program :=
  p.replace (fun _ => "") fun _ => ""

theorem canonical_eq {p : Program} (h : p.Lowerable) :
    p.canonical = p.replace p.declared.codeName Code.numberLiteral :=
  replace_congr h.shaped (fun _ _ => rfl) fun _ hw => (Code.numberLiteral_eq hw).symm

theorem outline_eq_of_canonical_eq {a b : Program} (h : a.canonical = b.canonical) :
    a.outline = b.outline := by
  have houtline : ∀ p : Program, p.canonical.outline = p.outline := fun p => p.replace_replace
  rw [← houtline a, h, houtline b]

/-! ## Tables of programs in the same form -/

theorem size_declared (p : Program) :
    p.declared.size = NameTable.reach p.declared.declareSlot 1 p.mentions := by
  rw [declared_eq, NameTable.size_after List.prefix_rfl]
  rfl

/-- **The canonical form determines how many slots there are.** -/
theorem size_eq_of_canonical_eq {a b : Program} (h : a.canonical = b.canonical) :
    a.declared.size = b.declared.size := by
  -- The form holds the slots of the declarations, and they determine the size.
  obtain ⟨slotOf, hslot⟩ := slotName_injective.hasLeftInverse
  have hsize : ∀ p : Program, p.declared.size = NameTable.reach slotOf 1 p.canonical.mentions := by
    intro p
    have hcomp : slotOf ∘ p.declared.codeName = p.declared.declareSlot :=
      funext fun n => hslot (p.declared.declareSlot n)
    rw [canonical, mentions_replace, NameTable.reach_map, hcomp, size_declared]
  rw [hsize a, h, ← hsize b]

theorem teardown_eq {t u : NameTable} (h : t.size = u.size) :
    Code.teardown t = Code.teardown u := by
  have hnames : t.codeNames = u.codeNames := by
    rw [NameTable.codeNames, NameTable.codeNames, h]
  have hreleased : Code.released t = Code.released u := congrArg (_ ++ ·) hnames
  unfold Code.teardown
  rw [hreleased]

theorem code_eq_of_canonical_eq {a b : Program} (ha : a.Lowerable) (hb : b.Lowerable)
    (h : a.canonical = b.canonical) : a.code = b.code := by
  obtain ⟨s, hs⟩ := ha.resolves
  obtain ⟨t, ht⟩ := hb.resolves
  have hlines : a.codeLines = b.codeLines := by
    rw [canonical_eq ha, canonical_eq hb] at h
    exact congrArg (linesOf 0 ·.statements) h
  rw [code_eq hs, code_eq ht, hlines, teardown_eq (size_eq_of_canonical_eq h)]

/-- **The same code is the same canonical form.** -/
theorem sameCode_iff {a b : Program} (ha : a.Lowerable) (hb : b.Lowerable) :
    a.sameCode b = true ↔ a.canonical = b.canonical := by
  rw [sameCode, decide_eq_true_iff]
  constructor
  · intro h
    obtain ⟨s, hs⟩ := ha.resolves
    obtain ⟨t, ht⟩ := hb.resolves
    rw [canonical_eq ha, canonical_eq hb]
    exact replace_eq_of_code_eq h ha.shaped hb.shaped hs ht
  · exact code_eq_of_canonical_eq ha hb

/-! ## Renaming -/

theorem fresh_subset (p : Program) : NameTable.fresh.names ⊆ freeVariable :: p.names :=
  List.cons_subset.mpr ⟨List.mem_cons_self, List.nil_subset _⟩

theorem subject_mem (p : Program) : ∀ m ∈ p.mentions, m.subject ∈ freeVariable :: p.names := by
  intro m hm
  exact List.mem_cons_of_mem _ (List.mem_map_of_mem hm)

theorem fresh_rename {f : String → String} (h : f freeVariable = freeVariable) :
    NameTable.fresh.rename f = NameTable.fresh := by
  rw [NameTable.fresh, NameTable.rename, List.map_singleton, h]

section Renaming

variable {p : Program} {f : String → String}
  (hf : NameTable.Separates f (freeVariable :: p.names)) (hfree : f freeVariable = freeVariable)

include hf hfree

theorem declared_rename : (p.replace f id).declared = p.declared.rename f := by
  rw [declared_eq, declared_eq, mentions_replace,
    ← NameTable.after_rename hf p.fresh_subset p.subject_mem, fresh_rename hfree]

/-- A name keeps its slot if no other name becomes the same. -/
theorem codeName_rename {n : String} (hn : n ∈ p.names) :
    (p.replace f id).declared.codeName (f n) = p.declared.codeName n := by
  have hsubset : p.declared.names ⊆ freeVariable :: p.names := by
    rw [declared_eq]
    exact NameTable.after_subset p.fresh_subset p.subject_mem
  rw [declared_rename hf hfree, NameTable.codeName, NameTable.codeName,
    NameTable.declareSlot_rename hf hsubset (List.mem_cons_of_mem _ hn)]

theorem Lowerable.rename (h : p.Lowerable) : (p.replace f id).Lowerable := by
  refine ⟨h.shaped.replace (fun _ _ => trivial) fun _ hw => hw, ?_⟩
  obtain ⟨t, ht⟩ := h.resolves
  have hrenamed := NameTable.firstUndeclared_rename hf p.fresh_subset p.subject_mem
  rw [fresh_rename hfree, firstUndeclared_of_resolve ht, ← mentions_replace] at hrenamed
  rw [resolve_eq, NameTable.check, hrenamed]
  exact ⟨_, rfl⟩

/-- **Renaming does not change the canonical form.** -/
theorem canonical_rename (h : p.Lowerable) : (p.replace f id).canonical = p.canonical := by
  rw [canonical, replace_replace]
  exact replace_congr h.shaped (fun n hn => codeName_rename hf hfree hn) fun _ _ => rfl

end Renaming

end Program

/-- **Generated code identifies programs up to naming and superfluous zeros.**
Programs have the same code if and only if they have the same canonical form;
an injective renaming that fixes the free variable does not change the code; and
programs that differ in anything but names and numbers have different code. -/
theorem sameCode_up_to_naming {a b : Program} (ha : a.Lowerable) (hb : b.Lowerable) :
    (a.sameCode b = true ↔ a.canonical = b.canonical) ∧
      (∀ f : String → String, NameTable.Separates f (freeVariable :: a.names) →
        f freeVariable = freeVariable → (a.replace f id).code = a.code) ∧
      (a.outline ≠ b.outline → a.code ≠ b.code) := by
  have hsame := Program.sameCode_iff ha hb
  refine ⟨hsame, fun f hf hfree => ?_, fun hne hcode => hne ?_⟩
  · exact Program.code_eq_of_canonical_eq (Program.Lowerable.rename hf hfree ha) ha
      (Program.canonical_rename hf hfree ha)
  · exact Program.outline_eq_of_canonical_eq (hsame.mp (decide_eq_true hcode))

/-- A number in two spellings under two names, and a string in its place. -/
theorem sameCode_up_to_naming_seven :
    let assign (n : String) (e : Expr) : Program := ⟨[.assignment n e, .print [.name n]]⟩
    let long := assign "y" (.number "007")
    let short := assign "z" (.number "7")
    let text := assign "y" (.text "7")
    let f : String → String := fun n => if n = "y" then "z" else n
    long.sameCode short = true ∧ (long.replace f id).code = long.code ∧ long.code ≠ text.code := by
  intro assign long short text f
  have hshaped : ∀ n e, e.Shaped (fun _ => True) IsNumeral →
      (assign n e).Shaped (fun _ => True) IsNumeral := fun n e he =>
    ⟨List.cons_ne_nil _ _, ⟨trivial, he⟩,
      ⟨List.cons_ne_nil _ _, List.forall_mem_singleton.mpr trivial⟩, trivial⟩
  have hlong : long.Lowerable :=
    ⟨hshaped _ _ ⟨['0', '0', '7'], by decide, Or.inl rfl⟩, ⟨["x", "y"]⟩, by cbv⟩
  have hshort : short.Lowerable :=
    ⟨hshaped _ _ ⟨['7'], by decide, Or.inl rfl⟩, ⟨["x", "z"]⟩, by cbv⟩
  have htext : text.Lowerable := ⟨hshaped _ _ trivial, ⟨["x", "y"]⟩, by cbv⟩
  have hf : NameTable.Separates f (freeVariable :: long.names) := by decide
  exact ⟨(sameCode_up_to_naming hlong hshort).1.mpr (by cbv),
    (sameCode_up_to_naming hlong hshort).2.1 f hf (by decide),
    (sameCode_up_to_naming hlong htext).2.2 (by decide)⟩

end MathScript
