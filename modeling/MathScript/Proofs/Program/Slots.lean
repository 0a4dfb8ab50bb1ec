import MathScript.Proofs.Program.Rename

/-!
# Slots

A name keeps its slot from its declaration on, so the slots of a program can be
read off the table of all its declarations.

* `size_after`: **the size of a table is determined by the slots of what is
  declared**, since each new name takes the next one.
* `mem_declared`: every name of a program that keeps the scope rules has a slot.
* `declareSlot_rename`: names that stay apart keep their slots.
-/

namespace MathScript
namespace NameTable

theorem declareSlot_eq (t : NameTable) (n : String) : t.declareSlot n = t.names.idxOf n := by
  rw [List.idxOf_eq_getD_idxOf?]
  rfl

theorem contains_iff {t : NameTable} {n : String} : t.contains n = true ↔ n ∈ t.names :=
  List.contains_iff_mem

theorem declare_of_mem {t : NameTable} {n : String} (h : n ∈ t.names) : t.declare n = t := by
  rw [declare, if_pos (contains_iff.mpr h)]

theorem declare_of_not_mem {t : NameTable} {n : String} (h : n ∉ t.names) :
    t.declare n = ⟨t.names ++ [n]⟩ := by
  rw [declare, if_neg fun hc => h (contains_iff.mp hc)]

theorem mem_declare (t : NameTable) (n : String) : n ∈ (t.declare n).names := by
  by_cases h : n ∈ t.names
  · rw [declare_of_mem h]
    exact h
  · rw [declare_of_not_mem h]
    exact List.mem_append_right _ List.mem_cons_self

/-! ## Growing tables -/

theorem prefix_declare (t : NameTable) (n : String) : t.names <+: (t.declare n).names := by
  by_cases h : n ∈ t.names
  · exact ⟨[], by rw [declare_of_mem h, List.append_nil]⟩
  · rw [declare_of_not_mem h]
    exact List.prefix_append _ _

theorem prefix_after (t : NameTable) (ms : List (Mention String)) :
    t.names <+: (t.after id ms).names := by
  induction ms generalizing t with
  | nil => exact List.prefix_rfl
  | cons m ms ih =>
    cases m with
    | read n => exact ih t
    | declare n => exact (t.prefix_declare n).trans (ih _)

/-- A name keeps its slot in larger tables. -/
theorem declareSlot_of_prefix {t T : NameTable} (h : t.names <+: T.names) {n : String}
    (hn : n ∈ t.names) : T.declareSlot n = t.declareSlot n := by
  obtain ⟨ns, hns⟩ := h
  rw [declareSlot_eq, declareSlot_eq, ← hns, List.idxOf_append_of_mem hn]

/-- What is mentioned in time is in the table at the end. -/
theorem mem_after {t : NameTable} {ms : List (Mention String)}
    (h : t.firstUndeclared id ms = none) : ∀ m ∈ ms, m.subject ∈ (t.after id ms).names := by
  induction ms generalizing t with
  | nil => simp
  | cons m ms ih =>
    cases m with
    | read n =>
      rw [firstUndeclared] at h
      split at h
      · next hn =>
        refine List.forall_mem_cons.mpr ⟨?_, ih h⟩
        exact (t.prefix_after ms).subset (contains_iff.mp hn)
      · cases h
    | declare n =>
      refine List.forall_mem_cons.mpr ⟨?_, ih h⟩
      exact ((t.declare n).prefix_after ms).subset (t.mem_declare n)

/-! ## The size of a table -/

/-- The size of a table of `k` names after some mentions, by the slots they have in
the end. -/
def reach {α : Type} (slot : α → Nat) : Nat → List (Mention α) → Nat
  | k, [] => k
  | k, .read _ :: ms => reach slot k ms
  | k, .declare a :: ms => reach slot (max k (slot a + 1)) ms

theorem reach_map {α β : Type} (slot : β → Nat) (f : α → β) (k : Nat) (ms : List (Mention α)) :
    reach slot k (ms.map (Mention.map f)) = reach (slot ∘ f) k ms := by
  induction ms generalizing k with
  | nil => rfl
  | cons m ms ih =>
    cases m with
    | read a => exact ih k
    | declare a => exact ih _

theorem size_declare (t : NameTable) (n : String) :
    (t.declare n).size = max t.size ((t.declare n).declareSlot n + 1) := by
  rw [declareSlot_eq, size, size]
  by_cases h : n ∈ t.names
  · have hlt := List.idxOf_lt_length_iff.mpr h
    rw [declare_of_mem h]
    omega
  · have hidx : (t.names ++ [n]).idxOf n = t.names.length := by
      rw [List.idxOf_append_of_notMem h, List.idxOf_cons_self, Nat.add_zero]
    rw [declare_of_not_mem h, hidx, List.length_append, List.length_singleton]
    omega

/-- **The size of a table is determined by the slots of what is declared.** -/
theorem size_after {t T : NameTable} {ms : List (Mention String)}
    (h : (t.after id ms).names <+: T.names) :
    (t.after id ms).size = reach T.declareSlot t.size ms := by
  induction ms generalizing t with
  | nil => rfl
  | cons m ms ih =>
    cases m with
    | read n => exact ih h
    | declare n =>
      have hslot : T.declareSlot n = (t.declare n).declareSlot n :=
        declareSlot_of_prefix (((t.declare n).prefix_after ms).trans h) (t.mem_declare n)
      rw [reach, hslot, ← size_declare]
      exact ih h

/-! ## Tables under other names -/

/-- The table with `f n` in the slot of `n`. -/
def rename (f : String → String) (t : NameTable) : NameTable :=
  ⟨t.names.map f⟩

/-- `f` keeps the names in `names` apart. -/
def Separates (f : String → String) (names : List String) : Prop :=
  ∀ a ∈ names, ∀ b ∈ names, f a = f b → a = b

instance (f : String → String) (names : List String) : Decidable (Separates f names) :=
  inferInstanceAs (Decidable (∀ a ∈ names, ∀ b ∈ names, f a = f b → a = b))

variable {f : String → String} {names : List String}

theorem mem_rename_iff (hf : Separates f names) {t : NameTable} (ht : t.names ⊆ names)
    {n : String} (hn : n ∈ names) : f n ∈ (t.rename f).names ↔ n ∈ t.names := by
  constructor
  · intro h
    obtain ⟨m, hm, he⟩ := List.mem_map.mp h
    rwa [← hf m (ht hm) n hn he]
  · exact fun h => List.mem_map_of_mem h

theorem declare_rename (hf : Separates f names) {t : NameTable} (ht : t.names ⊆ names)
    {n : String} (hn : n ∈ names) : (t.rename f).declare (f n) = (t.declare n).rename f := by
  by_cases h : n ∈ t.names
  · rw [declare_of_mem h, declare_of_mem ((mem_rename_iff hf ht hn).mpr h)]
  · rw [declare_of_not_mem h, declare_of_not_mem fun h' => h ((mem_rename_iff hf ht hn).mp h')]
    simp [rename]

theorem declare_subset {t : NameTable} (ht : t.names ⊆ names) {n : String} (hn : n ∈ names) :
    (t.declare n).names ⊆ names := by
  by_cases h : n ∈ t.names
  · rwa [declare_of_mem h]
  · rw [declare_of_not_mem h]
    exact List.append_subset.mpr ⟨ht, List.cons_subset.mpr ⟨hn, List.nil_subset _⟩⟩

theorem after_subset {t : NameTable} (ht : t.names ⊆ names) {ms : List (Mention String)}
    (hms : ∀ m ∈ ms, m.subject ∈ names) : (t.after id ms).names ⊆ names := by
  induction ms generalizing t with
  | nil => exact ht
  | cons m ms ih =>
    obtain ⟨hm, hrest⟩ := List.forall_mem_cons.mp hms
    cases m with
    | read n => exact ih ht hrest
    | declare n => exact ih (declare_subset ht hm) hrest

theorem after_rename (hf : Separates f names) {t : NameTable} (ht : t.names ⊆ names)
    {ms : List (Mention String)} (hms : ∀ m ∈ ms, m.subject ∈ names) :
    (t.rename f).after id (ms.map (Mention.map f)) = (t.after id ms).rename f := by
  induction ms generalizing t with
  | nil => rfl
  | cons m ms ih =>
    obtain ⟨hm, hrest⟩ := List.forall_mem_cons.mp hms
    cases m with
    | read n => exact ih ht hrest
    | declare n =>
      have hn : n ∈ names := hm
      show ((t.rename f).declare (f n)).after id _ = _
      rw [declare_rename hf ht hn]
      exact ih (declare_subset ht hn) hrest

theorem firstUndeclared_rename (hf : Separates f names) {t : NameTable} (ht : t.names ⊆ names)
    {ms : List (Mention String)} (hms : ∀ m ∈ ms, m.subject ∈ names) :
    (t.rename f).firstUndeclared id (ms.map (Mention.map f)) =
      (t.firstUndeclared id ms).map f := by
  induction ms generalizing t with
  | nil => rfl
  | cons m ms ih =>
    obtain ⟨hm, hrest⟩ := List.forall_mem_cons.mp hms
    cases m with
    | read n =>
      have hmem := mem_rename_iff hf ht (show n ∈ names from hm)
      rw [List.map_cons, Mention.map, firstUndeclared, firstUndeclared, id, id]
      by_cases h : n ∈ t.names
      · rw [if_pos (contains_iff.mpr (hmem.mpr h)), if_pos (contains_iff.mpr h)]
        exact ih ht hrest
      · rw [if_neg fun h' => h (hmem.mp (contains_iff.mp h')),
          if_neg fun h' => h (contains_iff.mp h')]
        rfl
    | declare n =>
      have hn : n ∈ names := hm
      show ((t.rename f).declare (f n)).firstUndeclared id _ = _
      rw [declare_rename hf ht hn]
      exact ih (declare_subset ht hn) hrest

/-- Names that stay apart keep their slots. -/
theorem declareSlot_rename (hf : Separates f names) {t : NameTable} (ht : t.names ⊆ names)
    {n : String} (hn : n ∈ names) : (t.rename f).declareSlot (f n) = t.declareSlot n := by
  rw [declareSlot_eq, declareSlot_eq, rename]
  obtain ⟨ns⟩ := t
  induction ns with
  | nil => rfl
  | cons m ns ih =>
    obtain ⟨hm, hns⟩ := List.cons_subset.mp ht
    rw [List.map_cons, List.idxOf_cons, List.idxOf_cons]
    by_cases h : m = n
    · subst h
      simp
    · have h' : f m ≠ f n := fun he => h (hf m hm n hn he)
      rw [beq_false_of_ne h, beq_false_of_ne h']
      exact congrArg (· + 1) (ih hns)

end NameTable

namespace Program

/-- **Every name of a program that keeps the scope rules has a slot.** -/
theorem mem_declared {p : Program} {t : NameTable} (h : p.resolve = .ok t) :
    ∀ m ∈ p.mentions, m.subject ∈ p.declared.names := by
  rw [declared_eq]
  exact NameTable.mem_after (firstUndeclared_of_resolve h)

theorem free_mem_declared (p : Program) : freeVariable ∈ p.declared.names := by
  rw [declared_eq]
  exact (NameTable.fresh.prefix_after p.mentions).subset List.mem_cons_self

/-- The free variable has the first slot. -/
theorem declareSlot_free (p : Program) : p.declared.declareSlot freeVariable = 0 := by
  rw [declared_eq, NameTable.declareSlot_of_prefix (NameTable.fresh.prefix_after p.mentions)
    List.mem_cons_self]
  rfl

end Program
end MathScript
