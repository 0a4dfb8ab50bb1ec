import MathScript.Proofs.Program.Mention
import MathScript.Proofs.Program.Shape

/-!
# Programs under other names

`replace f g` puts `f n` for every name `n` of a program and `g w` for every
number `w`; everything else stays.

* `mentions_replace`: **a program under other names mentions the other names**.
* `replace_replace`: replacing twice is replacing once.
* `replace_congr`: only what a program mentions and the numbers it may hold
  matter.
-/

namespace MathScript

/-! ## Replacing names and numbers -/

/-- The expression with `f n` for every name `n` and `g w` for every number `w`. -/
def Expr.replace (f g : String → String) : Expr → Expr
  | .number w => .number (g w)
  | .text s => .text s
  | .name n => .name (f n)
  | .binary l op r => .binary (l.replace f g) op (r.replace f g)
  | .comparison l op r => .comparison (l.replace f g) op (r.replace f g)
  | .concat l r padded => .concat (l.replace f g) (r.replace f g) padded
  | .evaluation n e => .evaluation (f n) (e.replace f g)
  | .solve e domain => .solve (e.replace f g) domain
  | .cast e type => .cast (e.replace f g) type

mutual

/-- The statement with `f n` for every name `n` and `g w` for every number `w`. -/
def Stmt.replace (f g : String → String) : Stmt → Stmt
  | .assignment n e => .assignment (f n) (e.replace f g)
  | .input n prompt cast => .input (f n) (prompt.map (Expr.replace f g)) cast
  | .print es => .print (es.map (Expr.replace f g))
  | .plot es => .plot (es.map (Expr.replace f g))
  | .ifThen c b => .ifThen (c.replace f g) (replaceAll f g b)
  | .ifThenElse c b o => .ifThenElse (c.replace f g) (replaceAll f g b) (replaceAll f g o)
  | .whileLoop c b => .whileLoop (c.replace f g) (replaceAll f g b)
termination_by structural s => s

/-- `Stmt.replace`, for each of some statements. -/
def replaceAll (f g : String → String) : List Stmt → List Stmt
  | [] => []
  | s :: ss => s.replace f g :: replaceAll f g ss
termination_by structural ss => ss

end

/-- The program with `f n` for every name `n` and `g w` for every number `w`. -/
def Program.replace (f g : String → String) (p : Program) : Program :=
  ⟨replaceAll f g p.statements⟩

variable {f g f' g' : String → String}

/-! ## What replaced programs mention -/

theorem Expr.reads_replace (e : Expr) : (e.replace f g).reads = e.reads.map f := by
  induction e with
  | number _ | text _ | name _ => rfl
  | binary l _ r hl hr | comparison l _ r hl hr | concat l r _ hl hr =>
    rw [replace, reads, reads, List.map_append, hl, hr]
  | evaluation n e he => rw [replace, reads, reads, List.map_cons, he]
  | solve e _ he | cast e _ he => exact he

theorem Expr.map_reads_replace (e : Expr) :
    (e.replace f g).reads.map Mention.read = (e.reads.map Mention.read).map (Mention.map f) := by
  rw [reads_replace, List.map_map, List.map_map]
  rfl

theorem flatMap_reads_replace (es : List Expr) :
    (es.map (Expr.replace f g)).flatMap Expr.reads = (es.flatMap Expr.reads).map f := by
  rw [List.flatMap_map, List.map_flatMap]
  exact congrArg (List.flatMap · es) (funext Expr.reads_replace)

theorem map_flatMap_reads_replace (es : List Expr) :
    ((es.map (Expr.replace f g)).flatMap Expr.reads).map Mention.read =
      ((es.flatMap Expr.reads).map Mention.read).map (Mention.map f) := by
  rw [flatMap_reads_replace, List.map_map, List.map_map]
  rfl

mutual

theorem Stmt.mentions_replace : ∀ s : Stmt,
    (s.replace f g).mentions = s.mentions.map (Mention.map f)
  | .assignment n e => by
    rw [Stmt.replace, Stmt.mentions, Stmt.mentions, List.map_append, e.map_reads_replace]
    rfl
  | .input n prompt _ => by
    rw [Stmt.replace, Stmt.mentions, Stmt.mentions, List.map_append]
    cases prompt with
    | none => rfl
    | some e => exact congrArg (· ++ _) e.map_reads_replace
  | .print es => map_flatMap_reads_replace es
  | .plot es => map_flatMap_reads_replace es
  | .ifThen c b => by
    rw [Stmt.replace, Stmt.mentions, Stmt.mentions, List.map_append, c.map_reads_replace,
      mentionsOf_replaceAll b]
  | .ifThenElse c b o => by
    rw [Stmt.replace, Stmt.mentions, Stmt.mentions, List.map_append, List.map_append,
      c.map_reads_replace, mentionsOf_replaceAll b, mentionsOf_replaceAll o]
  | .whileLoop c b => by
    rw [Stmt.replace, Stmt.mentions, Stmt.mentions, List.map_append, c.map_reads_replace,
      mentionsOf_replaceAll b]
termination_by structural s => s

theorem mentionsOf_replaceAll : ∀ ss : List Stmt,
    mentionsOf (replaceAll f g ss) = (mentionsOf ss).map (Mention.map f)
  | [] => rfl
  | s :: ss => by
    rw [replaceAll, mentionsOf, mentionsOf, List.map_append, s.mentions_replace,
      mentionsOf_replaceAll ss]
termination_by structural ss => ss

end

/-- **A program under other names mentions the other names.** -/
theorem Program.mentions_replace (p : Program) :
    (p.replace f g).mentions = p.mentions.map (Mention.map f) :=
  mentionsOf_replaceAll p.statements

/-! ## Replacing twice -/

theorem Expr.replace_replace (e : Expr) :
    (e.replace f g).replace f' g' = e.replace (f' ∘ f) (g' ∘ g) := by
  induction e with
  | number _ | text _ | name _ => rfl
  | binary l _ r hl hr | comparison l _ r hl hr | concat l r _ hl hr =>
    simp only [replace, hl, hr]
  | evaluation n e he => simp only [replace, he, Function.comp_apply]
  | solve e _ he | cast e _ he => simp only [replace, he]

mutual

theorem Stmt.replace_replace : ∀ s : Stmt,
    (s.replace f g).replace f' g' = s.replace (f' ∘ f) (g' ∘ g)
  | .assignment n e => by simp only [Stmt.replace, e.replace_replace, Function.comp_apply]
  | .input n prompt _ => by
    cases prompt <;> simp [Stmt.replace, Expr.replace_replace]
  | .print es => by simp [Stmt.replace, Expr.replace_replace]
  | .plot es => by simp [Stmt.replace, Expr.replace_replace]
  | .ifThen c b => by simp only [Stmt.replace, c.replace_replace, replaceAll_replaceAll b]
  | .ifThenElse c b o => by
    simp only [Stmt.replace, c.replace_replace, replaceAll_replaceAll b, replaceAll_replaceAll o]
  | .whileLoop c b => by simp only [Stmt.replace, c.replace_replace, replaceAll_replaceAll b]
termination_by structural s => s

theorem replaceAll_replaceAll : ∀ ss : List Stmt,
    replaceAll f' g' (replaceAll f g ss) = replaceAll (f' ∘ f) (g' ∘ g) ss
  | [] => rfl
  | s :: ss => by simp only [replaceAll, s.replace_replace, replaceAll_replaceAll ss]
termination_by structural ss => ss

end

theorem Program.replace_replace (p : Program) :
    (p.replace f g).replace f' g' = p.replace (f' ∘ f) (g' ∘ g) :=
  congrArg Program.mk (replaceAll_replaceAll p.statements)

/-! ## What replacing depends on -/

section Shapes

variable {N M N' M' : String → Prop}

theorem Expr.replace_congr {e : Expr} (hs : e.Shaped N M) (hf : ∀ n ∈ e.reads, f n = f' n)
    (hg : ∀ w, M w → g w = g' w) : e.replace f g = e.replace f' g' := by
  induction e with
  | number w => rw [replace, replace, hg w hs]
  | text _ => rfl
  | name n => rw [replace, replace, hf n List.mem_cons_self]
  | binary l _ r hl hr | comparison l _ r hl hr | concat l r _ hl hr =>
    rw [replace, replace, hl hs.1 fun n hn => hf n (List.mem_append_left _ hn),
      hr hs.2 fun n hn => hf n (List.mem_append_right _ hn)]
  | evaluation n e he =>
    rw [replace, replace, hf n List.mem_cons_self,
      he hs.2 fun n hn => hf n (List.mem_cons_of_mem _ hn)]
  | solve e _ he | cast e _ he => rw [replace, replace, he hs hf]

theorem Expr.replace_congr_mentions {e : Expr} (hs : e.Shaped N M)
    (hf : ∀ m ∈ e.reads.map Mention.read, f m.subject = f' m.subject)
    (hg : ∀ w, M w → g w = g' w) : e.replace f g = e.replace f' g' :=
  replace_congr hs (fun n hn => hf (.read n) (List.mem_map_of_mem hn)) hg

theorem map_replace_congr {es : List Expr} (hs : ∀ e ∈ es, e.Shaped N M)
    (hf : ∀ m ∈ (es.flatMap Expr.reads).map Mention.read, f m.subject = f' m.subject)
    (hg : ∀ w, M w → g w = g' w) : es.map (Expr.replace f g) = es.map (Expr.replace f' g') := by
  refine List.map_congr_left fun e he => Expr.replace_congr (hs e he) (fun n hn => ?_) hg
  exact hf (.read n) (List.mem_map_of_mem (List.mem_flatMap.mpr ⟨e, he, hn⟩))

mutual

theorem Stmt.replace_congr (hg : ∀ w, M w → g w = g' w) : ∀ {s : Stmt}, s.Shaped N M →
    (∀ m ∈ s.mentions, f m.subject = f' m.subject) → s.replace f g = s.replace f' g'
  | .assignment n e, hs, hf => by
    rw [Stmt.mentions, List.forall_mem_append] at hf
    have hn : f n = f' n := hf.2 (.declare n) List.mem_cons_self
    rw [Stmt.replace, Stmt.replace, Expr.replace_congr_mentions hs.2 hf.1 hg, hn]
  | .input n prompt _, hs, hf => by
    rw [Stmt.mentions, List.forall_mem_append] at hf
    have hn : f n = f' n := hf.2 (.declare n) List.mem_cons_self
    rw [Stmt.replace, Stmt.replace, hn]
    cases prompt with
    | none => rfl
    | some e =>
      rw [Option.map_some, Option.map_some, Expr.replace_congr_mentions (hs.2 e rfl) hf.1 hg]
  | .print es, hs, hf => congrArg Stmt.print (map_replace_congr hs.2 hf hg)
  | .plot es, hs, hf => congrArg Stmt.plot (map_replace_congr hs.2 hf hg)
  | .ifThen c b, hs, hf => by
    rw [Stmt.mentions, List.forall_mem_append] at hf
    rw [Stmt.replace, Stmt.replace, Expr.replace_congr_mentions hs.1 hf.1 hg,
      replaceAll_congr hg hs.2.2 hf.2]
  | .ifThenElse c b o, hs, hf => by
    rw [Stmt.mentions, List.forall_mem_append, List.forall_mem_append] at hf
    rw [Stmt.replace, Stmt.replace, Expr.replace_congr_mentions hs.1 hf.1 hg,
      replaceAll_congr hg hs.2.1.2 hf.2.1, replaceAll_congr hg hs.2.2.2 hf.2.2]
  | .whileLoop c b, hs, hf => by
    rw [Stmt.mentions, List.forall_mem_append] at hf
    rw [Stmt.replace, Stmt.replace, Expr.replace_congr_mentions hs.1 hf.1 hg,
      replaceAll_congr hg hs.2.2 hf.2]
termination_by s => sizeOf s

theorem replaceAll_congr (hg : ∀ w, M w → g w = g' w) : ∀ {ss : List Stmt},
    Stmt.AllShaped N M ss → (∀ m ∈ mentionsOf ss, f m.subject = f' m.subject) →
    replaceAll f g ss = replaceAll f' g' ss
  | [], _, _ => rfl
  | s :: ss, hs, hf => by
    rw [mentionsOf, List.forall_mem_append] at hf
    rw [replaceAll, replaceAll, Stmt.replace_congr hg hs.1 hf.1, replaceAll_congr hg hs.2 hf.2]
termination_by ss => sizeOf ss

end

/-- Only what is mentioned matters, and the numbers there may be. -/
theorem Program.replace_congr {p : Program} (hs : p.Shaped N M) (hf : ∀ n ∈ p.names, f n = f' n)
    (hg : ∀ w, M w → g w = g' w) : p.replace f g = p.replace f' g' :=
  congrArg Program.mk (replaceAll_congr hg hs.statements fun m hm =>
    hf m.subject (List.mem_map_of_mem hm))

theorem Expr.Shaped.replace {e : Expr} (hs : e.Shaped N M) (hf : ∀ n, N n → N' (f n))
    (hg : ∀ w, M w → M' (g w)) : (e.replace f g).Shaped N' M' := by
  induction e with
  | number w => exact hg w hs
  | text _ => trivial
  | name n => exact hf n hs
  | binary l _ r hl hr | comparison l _ r hl hr | concat l r _ hl hr =>
    exact ⟨hl hs.1, hr hs.2⟩
  | evaluation n e he => exact ⟨hf n hs.1, he hs.2⟩
  | solve e _ he | cast e _ he => exact he hs

theorem map_ne_nil {es : List Expr} (h : es ≠ []) : es.map (Expr.replace f g) ≠ [] :=
  fun hnil => h (List.map_eq_nil_iff.mp hnil)

theorem replaceAll_ne_nil : ∀ {ss : List Stmt}, ss ≠ [] → replaceAll f g ss ≠ []
  | [], h => absurd rfl h
  | _ :: _, _ => List.cons_ne_nil _ _

mutual

theorem Stmt.Shaped.replace (hf : ∀ n, N n → N' (f n)) (hg : ∀ w, M w → M' (g w)) :
    ∀ {s : Stmt}, s.Shaped N M → (s.replace f g).Shaped N' M'
  | .assignment n _, hs => ⟨hf n hs.1, hs.2.replace hf hg⟩
  | .input n prompt _, hs => by
    refine ⟨hf n hs.1, fun e he => ?_⟩
    obtain ⟨e', he', rfl⟩ := Option.map_eq_some_iff.mp he
    exact (hs.2 e' he').replace hf hg
  | .print es, hs | .plot es, hs => by
    refine ⟨map_ne_nil hs.1, fun e he => ?_⟩
    obtain ⟨e', he', rfl⟩ := List.mem_map.mp he
    exact (hs.2 e' he').replace hf hg
  | .ifThen _ b, hs | .whileLoop _ b, hs =>
    ⟨hs.1.replace hf hg, replaceAll_ne_nil hs.2.1, Stmt.AllShaped.replace hf hg hs.2.2⟩
  | .ifThenElse _ b o, hs =>
    ⟨hs.1.replace hf hg, ⟨replaceAll_ne_nil hs.2.1.1, Stmt.AllShaped.replace hf hg hs.2.1.2⟩,
      replaceAll_ne_nil hs.2.2.1, Stmt.AllShaped.replace hf hg hs.2.2.2⟩
termination_by s => sizeOf s

theorem Stmt.AllShaped.replace (hf : ∀ n, N n → N' (f n)) (hg : ∀ w, M w → M' (g w)) :
    ∀ {ss : List Stmt}, Stmt.AllShaped N M ss → Stmt.AllShaped N' M' (replaceAll f g ss)
  | [], _ => trivial
  | _ :: _, hs => ⟨Stmt.Shaped.replace hf hg hs.1, Stmt.AllShaped.replace hf hg hs.2⟩
termination_by ss => sizeOf ss

end

theorem Program.Shaped.replace {p : Program} (hs : p.Shaped N M) (hf : ∀ n, N n → N' (f n))
    (hg : ∀ w, M w → M' (g w)) : (p.replace f g).Shaped N' M' :=
  ⟨replaceAll_ne_nil hs.nonempty, Stmt.AllShaped.replace hf hg hs.statements⟩

end Shapes

end MathScript
