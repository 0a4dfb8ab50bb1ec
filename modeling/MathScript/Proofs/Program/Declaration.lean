import MathScript.Proofs.Program.Slots

/-!
# Declarations and reads in program order

The mentions of a program form one list, and both questions about its names are questions
about places in that list: which names its table ends with, and whether each name that it
reads stands behind its declaration.

* `declareAll`: the table with some names declared one after the other.
  `names_declareAll`: **it gains the new ones among them**, each where it is declared first.
* `InTime`: each name read is the free variable or declared before.  `IsFirstLate`: the
  first one that is neither.
* `scope_is_decided`: **the scope rules decide which of the two holds**, and leave the free
  variable and the declared names, or the name that comes too early.
-/

namespace MathScript
namespace NameTable

/-! ## What is added to a table -/

/-- The table with the names declared, one after the other. -/
def declareAll (t : NameTable) : List String → NameTable
  | [] => t
  | n :: ns => (t.declare n).declareAll ns

theorem declareAll_append (t : NameTable) (ns ms : List String) :
    t.declareAll (ns ++ ms) = (t.declareAll ns).declareAll ms := by
  induction ns generalizing t with
  | nil => rfl
  | cons n ns ih => exact ih (t.declare n)

theorem prefix_declareAll (t : NameTable) (ns : List String) :
    t.names <+: (t.declareAll ns).names := by
  induction ns generalizing t with
  | nil => exact List.prefix_rfl
  | cons n ns ih => exact (t.prefix_declare n).trans (ih _)

theorem mem_declare_iff {t : NameTable} {n m : String} :
    m ∈ (t.declare n).names ↔ m ∈ t.names ∨ m = n := by
  by_cases h : n ∈ t.names
  · rw [declare_of_mem h]
    constructor
    · exact .inl
    · rintro (hm | rfl)
      · exact hm
      · exact h
  · rw [declare_of_not_mem h, List.mem_append, List.mem_singleton]

theorem mem_declareAll_iff {t : NameTable} {ns : List String} {m : String} :
    m ∈ (t.declareAll ns).names ↔ m ∈ t.names ∨ m ∈ ns := by
  induction ns generalizing t with
  | nil => simp [declareAll]
  | cons n ns ih => rw [declareAll, ih, mem_declare_iff, List.mem_cons, or_assoc]

/-- Names that are there already change nothing. -/
theorem declareAll_of_subset {t : NameTable} {ns : List String} (h : ∀ n ∈ ns, n ∈ t.names) :
    t.declareAll ns = t := by
  induction ns with
  | nil => rfl
  | cons n ns ih =>
    obtain ⟨hn, hns⟩ := List.forall_mem_cons.mp h
    rw [declareAll, declare_of_mem hn]
    exact ih hns

/-- **A table gains the names that are new to it**, each where it is declared first. -/
theorem names_declareAll (t : NameTable) (ns : List String) :
    (t.declareAll ns).names = t.names ++ (ns.filter fun n => !t.contains n).eraseDups := by
  induction ns generalizing t with
  | nil => simp [declareAll]
  | cons n ns ih =>
    rw [declareAll, ih]
    by_cases h : n ∈ t.names
    · rw [declare_of_mem h, List.filter_cons_of_neg (by simpa [contains_iff] using h)]
    · rw [List.filter_cons_of_pos (by simpa [← contains_iff] using h), List.eraseDups_cons,
        List.filter_filter, declare_of_not_mem h, List.append_assoc, List.singleton_append]
      -- a name is new behind `n` if it is new and not `n`
      have hnew : ∀ m ∈ ns, (!NameTable.contains ⟨t.names ++ [n]⟩ m) =
          ((!(m == n)) && !t.contains m) := by
        intro m _
        simp [contains, List.contains_eq_mem, Bool.and_comm, beq_eq_decide]
      rw [List.filter_congr hnew]

theorem nodup_declare {t : NameTable} (h : t.names.Nodup) (n : String) :
    (t.declare n).names.Nodup := by
  by_cases hn : n ∈ t.names
  · rwa [declare_of_mem hn]
  · rw [declare_of_not_mem hn]
    exact List.nodup_append'.mpr ⟨h, List.nodup_singleton n, by simpa using hn⟩

theorem nodup_declareAll {t : NameTable} (h : t.names.Nodup) (ns : List String) :
    (t.declareAll ns).names.Nodup := by
  induction ns generalizing t with
  | nil => exact h
  | cons n ns ih => exact ih (nodup_declare h n)

/-! ## Mentions in time -/

/-- What some mentions declare, each name as often as it is declared. -/
def targets : List (Mention String) → List String
  | [] => []
  | .read _ :: ms => targets ms
  | .declare n :: ms => n :: targets ms

theorem mem_targets {ms : List (Mention String)} {n : String} :
    n ∈ targets ms ↔ .declare n ∈ ms := by
  induction ms with
  | nil => simp [targets]
  | cons m ms ih => cases m <;> simp [targets, ih]

/-- Reading adds nothing. -/
theorem after_eq (t : NameTable) (ms : List (Mention String)) :
    t.after id ms = t.declareAll (targets ms) := by
  induction ms generalizing t with
  | nil => rfl
  | cons m ms ih =>
    cases m with
    | read n => exact ih t
    | declare n => exact ih (t.declare n)

/-- Each name that is read is in the table, or declared before it is read. -/
def InTimeFrom (t : NameTable) (ms : List (Mention String)) : Prop :=
  ∀ before n behind, ms = before ++ .read n :: behind → n ∈ t.names ∨ .declare n ∈ before

theorem inTimeFrom_read {t : NameTable} {n : String} {ms : List (Mention String)} :
    t.InTimeFrom (.read n :: ms) ↔ n ∈ t.names ∧ t.InTimeFrom ms := by
  constructor
  · intro h
    refine ⟨by simpa using h [] n ms rfl, ?_⟩
    rintro before m behind rfl
    simpa using h (.read n :: before) m behind rfl
  · rintro ⟨hn, h⟩ before m behind hms
    cases before with
    | nil =>
      obtain ⟨hm, -⟩ := List.cons.inj hms
      cases hm
      exact .inl hn
    | cons first before =>
      obtain ⟨-, hms⟩ := List.cons.inj hms
      exact (h before m behind hms).imp_right (List.mem_cons_of_mem _)

theorem inTimeFrom_declare {t : NameTable} {n : String} {ms : List (Mention String)} :
    t.InTimeFrom (.declare n :: ms) ↔ (t.declare n).InTimeFrom ms := by
  constructor
  · rintro h before m behind rfl
    have hm := h (.declare n :: before) m behind rfl
    rw [mem_declare_iff]
    simpa [or_assoc] using hm
  · intro h before m behind hms
    cases before with
    | nil =>
      obtain ⟨hm, -⟩ := List.cons.inj hms
      cases hm
    | cons first before =>
      obtain ⟨rfl, htail⟩ := List.cons.inj hms
      have hm := h before m behind htail
      rw [mem_declare_iff] at hm
      simpa [or_assoc] using hm

theorem firstUndeclared_eq_none_iff {t : NameTable} {ms : List (Mention String)} :
    t.firstUndeclared id ms = none ↔ t.InTimeFrom ms := by
  induction ms generalizing t with
  | nil => simp [firstUndeclared, InTimeFrom]
  | cons m ms ih =>
    cases m with
    | read n =>
      rw [inTimeFrom_read, ← ih, firstUndeclared, id_eq, ← contains_iff]
      split <;> simp_all
    | declare n => rw [inTimeFrom_declare, ← ih, firstUndeclared, id_eq]

theorem exists_of_firstUndeclared {t : NameTable} {ms : List (Mention String)} {n : String}
    (h : t.firstUndeclared id ms = some n) :
    ∃ before behind, ms = before ++ .read n :: behind ∧ n ∉ t.names ∧ .declare n ∉ before ∧
      t.InTimeFrom before := by
  induction ms generalizing t with
  | nil => cases h
  | cons m ms ih =>
    cases m with
    | read a =>
      rw [firstUndeclared] at h
      by_cases ha : a ∈ t.names
      · rw [id_eq, if_pos (contains_iff.mpr ha)] at h
        obtain ⟨before, behind, rfl, hn, hbefore, htime⟩ := ih h
        exact ⟨.read a :: before, behind, rfl, hn, by simpa using hbefore,
          inTimeFrom_read.mpr ⟨ha, htime⟩⟩
      · rw [id_eq, if_neg fun hc => ha (contains_iff.mp hc)] at h
        obtain rfl := Option.some.inj h
        exact ⟨[], ms, rfl, ha, by simp, by simp [InTimeFrom]⟩
    | declare a =>
      obtain ⟨before, behind, rfl, hn, hbefore, htime⟩ := ih h
      rw [mem_declare_iff, not_or] at hn
      refine ⟨.declare a :: before, behind, rfl, hn.1, ?_, inTimeFrom_declare.mpr htime⟩
      rw [List.mem_cons, not_or]
      exact ⟨fun heq => hn.2 (Mention.declare.inj heq), hbefore⟩

/-- **The first name that is read too early**, by its place among the mentions. -/
theorem firstUndeclared_eq_some_iff {t : NameTable} {ms : List (Mention String)} {n : String} :
    t.firstUndeclared id ms = some n ↔
      ∃ before behind, ms = before ++ .read n :: behind ∧ n ∉ t.names ∧ .declare n ∉ before ∧
        t.InTimeFrom before := by
  constructor
  · exact exists_of_firstUndeclared
  · rintro ⟨before, behind, rfl, hn, hbefore, htime⟩
    have hlate : (t.after id before).contains n = false := by
      rw [← Bool.not_eq_true, contains_iff, after_eq, mem_declareAll_iff, mem_targets]
      exact not_or.mpr ⟨hn, hbefore⟩
    rw [firstUndeclared_append, firstUndeclared_eq_none_iff.mpr htime, firstUndeclared, id_eq,
      hlate]
    rfl

end NameTable

/-! ## Programs -/

/-- Each name that is read is the free variable, or declared before it is read. -/
def InTime (ms : List (Mention String)) : Prop :=
  ∀ before n behind, ms = before ++ .read n :: behind → n = freeVariable ∨ .declare n ∈ before

/-- `n` is read where it is neither the free variable nor declared, and everything in front
of that is in time. -/
def IsFirstLate (n : String) (ms : List (Mention String)) : Prop :=
  ∃ before behind, ms = before ++ .read n :: behind ∧ n ≠ freeVariable ∧
    .declare n ∉ before ∧ InTime before

theorem inTimeFrom_fresh {ms : List (Mention String)} :
    NameTable.fresh.InTimeFrom ms ↔ InTime ms := by
  simp [NameTable.InTimeFrom, InTime, NameTable.fresh]

/-- **The scope rules decide by the order of the mentions.**  A program keeps them if each
name that it reads is the free variable or declared before, and then its table is that of its
declarations: the free variable, and the other names where they are declared first.
Otherwise they report the first name that is read too early. -/
theorem scope_is_decided (p : Program) :
    (∀ t, p.resolve = .ok t ↔ InTime p.mentions ∧ t = p.declared) ∧
      p.declared.names = freeVariable ::
        ((NameTable.targets p.mentions).filter fun n => n != freeVariable).eraseDups ∧
      ∀ n, p.resolve = .error n ↔ IsFirstLate n p.mentions := by
  have hresolve : p.resolve = NameTable.fresh.check p.mentions := p.resolve_eq
  unfold NameTable.check at hresolve
  refine ⟨?_, ?_, ?_⟩
  · intro t
    rw [hresolve, ← inTimeFrom_fresh, ← NameTable.firstUndeclared_eq_none_iff, p.declared_eq]
    split
    · next n hn => simp [hn]
    · next hnone => simp [hnone, eq_comm]
  · rw [p.declared_eq, NameTable.after_eq, NameTable.names_declareAll]
    have hnew : ∀ n ∈ NameTable.targets p.mentions,
        (!NameTable.fresh.contains n) = (n != freeVariable) := by
      intro n _
      simp [NameTable.contains, NameTable.fresh, bne, beq_eq_decide]
    rw [List.filter_congr hnew]
    rfl
  · intro n
    have hlate : NameTable.fresh.firstUndeclared id p.mentions = some n ↔
        IsFirstLate n p.mentions := by
      rw [NameTable.firstUndeclared_eq_some_iff]
      simp only [inTimeFrom_fresh]
      simp only [NameTable.fresh, List.mem_singleton]
      rfl
    rw [hresolve, ← hlate]
    split
    · next m hm => simp [hm]
    · next hnone => simp [hnone]

/-- A name that is declared in one block and read in another, behind it. -/
example : Program.resolve ⟨[.ifThenElse (.name "x") [.assignment "a" (.number "1")]
    [.print [.name "a", .name "b"]]]⟩ = .error "b" := by rfl

end MathScript
