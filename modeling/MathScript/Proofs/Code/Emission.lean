import MathScript.Proofs.Code.SlotAgreement
import MathScript.Proofs.Program.Declaration

/-!
# Emission into a growing table

One name table can serve many emissions, of trees that were never checked.  A name that the
table lacks gets the next slot then, so what is emitted later may find a larger table.

* `Interns`: an emission declares given names in their order, and what it writes is told by
  the slots they end with.
* `interns_expr`, `interns_stmt`: **expressions and statements intern their names** in
  program order.
* `emission_appends`: **each emission only appends**, the new names of what is emitted, and
  an expression or a statement has the same code at any later time.
-/

namespace MathScript
namespace NameTable

/-- The free variable has the first slot. -/
def Seeded (t : NameTable) : Prop :=
  t.names.head? = some freeVariable

theorem seeded_fresh : fresh.Seeded := rfl

theorem Seeded.grow {t u : NameTable} (h : t.Seeded) (hu : t.names <+: u.names) :
    u.Seeded := by
  obtain ⟨ns, hns⟩ := hu
  rw [Seeded, ← hns, List.head?_append, h]
  rfl

theorem Seeded.declareAll {t : NameTable} (h : t.Seeded) (ns : List String) :
    (t.declareAll ns).Seeded :=
  h.grow (t.prefix_declareAll ns)

theorem Seeded.mem {t : NameTable} (h : t.Seeded) : freeVariable ∈ t.names :=
  List.mem_of_mem_head? h

theorem Seeded.slot? {t : NameTable} (h : t.Seeded) : t.slot? freeVariable = some 0 := by
  obtain ⟨ns, hns⟩ := List.head?_eq_some_iff.mp h
  rw [NameTable.slot?, hns, List.idxOf?_cons, if_pos (beq_self_eq_true _)]

/-- A name that has a slot keeps it in larger tables. -/
theorem slot?_grow {t T : NameTable} (h : t.names <+: T.names) {n : String}
    (hn : n ∈ t.names) : T.slot? n = t.slot? n := by
  rw [(slot?_eq_some hn).1, (slot?_eq_some (h.subset hn)).1, declareSlot_of_prefix h hn]

/-- The slot that declaring gives is the slot from then on. -/
theorem slot?_declare (t : NameTable) (n : String) :
    (t.declare n).slot? n = some (t.declareSlot n) := by
  rw [(slot?_eq_some (t.mem_declare n)).1]
  by_cases h : n ∈ t.names
  · rw [declare_of_mem h]
  · have hlast : (t.names ++ [n]).idxOf n = t.names.idxOf n := by
      rw [List.idxOf_append_of_notMem h, List.idxOf_cons_self, List.idxOf_of_notMem h,
        Nat.add_zero]
    rw [declare_of_not_mem h, declareSlot_eq, declareSlot_eq, hlast]

end NameTable

namespace Code

/-! ## Interning -/

/-- The names are declared one after the other, and what is written is told by the slots
that they end with. -/
structure Interns {α : Type} (x : Emit α) (ns : List String) : Prop where
  /-- The table gains the names in their order. -/
  table : ∀ t : NameTable, t.Seeded → (x t).2 = t.declareAll ns
  /-- Tables that end with the same slots for the names have the same result. -/
  result : ∀ t u : NameTable, t.Seeded → u.Seeded →
    (∀ n ∈ ns, (t.declareAll ns).slot? n = (u.declareAll ns).slot? n) → (x t).1 = (x u).1

namespace Interns

variable {α β : Type} {x : Emit α} {ns ms : List String}

theorem pure (a : α) : Interns (pure a : Emit α) [] :=
  ⟨fun _ _ => rfl, fun _ _ _ _ _ => rfl⟩

theorem codeNameOf (n : String) : Interns (codeNameOf n) [n] := by
  refine ⟨fun _ _ => rfl, ?_⟩
  intro t u _ _ hslots
  have hslot : (t.declare n).slot? n = (u.declare n).slot? n := hslots n List.mem_cons_self
  rw [NameTable.slot?_declare, NameTable.slot?_declare] at hslot
  exact congrArg slotName (Option.some.inj hslot)

/-- The free variable is there already. -/
theorem codeNameOf_free : Interns (Code.codeNameOf freeVariable) [] := by
  have hslot : ∀ t : NameTable, t.Seeded → t.declareSlot freeVariable = 0 := by
    intro t ht
    rw [NameTable.declareSlot, ht.slot?, Option.getD_some]
  constructor
  · intro t ht
    exact NameTable.declare_of_mem ht.mem
  · intro t u ht hu _
    show slotName (t.declareSlot freeVariable) = slotName (u.declareSlot freeVariable)
    rw [hslot t ht, hslot u hu]

theorem bind {f : α → Emit β} (hx : Interns x ns) (hf : ∀ a, Interns (f a) ms) :
    Interns (x >>= f) (ns ++ ms) := by
  have hrun : ∀ t, (x >>= f) t = f (x t).1 (x t).2 := fun _ => rfl
  constructor
  · intro t ht
    rw [hrun, hx.table t ht, (hf _).table _ (ht.declareAll ns), NameTable.declareAll_append]
  · intro t u ht hu hslots
    rw [NameTable.declareAll_append, NameTable.declareAll_append] at hslots
    -- the names of `x` have their final slots when it is done
    have hfinal : ∀ (v : NameTable), ∀ n ∈ ns,
        ((v.declareAll ns).declareAll ms).slot? n = (v.declareAll ns).slot? n := by
      intro v n hn
      exact NameTable.slot?_grow ((v.declareAll ns).prefix_declareAll ms)
        (NameTable.mem_declareAll_iff.mpr (.inr hn))
    have hfirst : (x t).1 = (x u).1 := by
      refine hx.result t u ht hu fun n hn => ?_
      rw [← hfinal t n hn, ← hfinal u n hn]
      exact hslots n (List.mem_append_left _ hn)
    rw [hrun, hrun, hx.table t ht, hx.table u hu, hfirst]
    refine (hf _).result _ _ (ht.declareAll ns) (hu.declareAll ns) fun n hn => ?_
    exact hslots n (List.mem_append_right _ hn)

/-- What comes last declares nothing. -/
theorem bind_nil {f : α → Emit β} (hx : Interns x ns) (hf : ∀ a, Interns (f a) []) :
    Interns (x >>= f) ns := by
  have h := hx.bind hf
  rwa [List.append_nil] at h

theorem map (f : α → β) (hx : Interns x ns) : Interns (f <$> x) ns :=
  hx.bind_nil fun a => .pure (f a)

end Interns

/-- **An expression interns the names that it reads.** -/
theorem interns_expr (e : Expr) : Interns (expr e) e.reads := by
  induction e with
  | number w => exact .pure _
  | text s => exact .pure _
  | name n => exact .codeNameOf n
  | binary l op r ihl ihr => exact ihl.bind fun _ => ihr.bind_nil fun _ => .pure _
  | comparison l op r ihl ihr => exact ihl.bind fun _ => ihr.bind_nil fun _ => .pure _
  | concat l r padded ihl ihr => exact ihl.bind fun _ => ihr.bind_nil fun _ => .pure _
  | evaluation f e ih =>
    have hargument : ∀ g, Interns (do
        let x ← codeNameOf freeVariable
        let a ← expr e
        return library ++ ".sympify(" ++ g ++ ").subs(\x7b" ++ x ++ ":(" ++ a ++ ")\x7d)")
        e.reads := fun _ => Interns.codeNameOf_free.bind fun _ => ih.bind_nil fun _ => .pure _
    exact (Interns.codeNameOf f).bind hargument
  | solve e domain ih =>
    exact ih.bind_nil fun _ => Interns.codeNameOf_free.bind_nil fun _ => .pure _
  | cast e type ih => exact ih.bind_nil fun _ => .pure _

theorem interns_exprs (es : List Expr) : Interns (exprs es) (es.flatMap Expr.reads) := by
  induction es with
  | nil => exact .pure _
  | cons e es ih => exact (interns_expr e).bind fun _ => ih.bind_nil fun _ => .pure _

theorem interns_argumentList (es : List Expr) :
    Interns (argumentList es) (es.flatMap Expr.reads) :=
  (interns_exprs es).bind_nil fun _ => .pure _

theorem interns_prompt (p : Option Expr) : Interns (prompt p) ((p.map Expr.reads).getD []) := by
  cases p with
  | none => exact .pure _
  | some e => exact interns_expr e

theorem subject_reads (ns : List String) : (ns.map Mention.read).map Mention.subject = ns := by
  rw [List.map_map]
  exact List.map_id ns

theorem subject_reads_append (ns : List String) (ms : List (Mention String)) :
    (ns.map Mention.read ++ ms).map Mention.subject = ns ++ ms.map Mention.subject := by
  rw [List.map_append, subject_reads]

mutual

/-- **A statement interns its names**: what it reads, then its target or its blocks. -/
theorem interns_stmt : ∀ (d : Nat) (s : Stmt),
    Interns (stmt d s) (s.mentions.map Mention.subject)
  | d, .assignment n e => by
    rw [Stmt.mentions, subject_reads_append]
    exact (interns_expr e).bind fun _ => (Interns.codeNameOf n).bind_nil fun _ => .pure _
  | d, .input n p cast => by
    rw [Stmt.mentions, subject_reads_append, input_eq]
    exact (interns_prompt p).bind fun _ => (Interns.codeNameOf n).bind_nil fun _ => .pure _
  | d, .print es => by
    rw [Stmt.mentions, subject_reads]
    exact (interns_argumentList es).bind_nil fun _ => .pure _
  | d, .plot es => by
    rw [Stmt.mentions, subject_reads]
    exact (interns_argumentList es).bind_nil fun _ => .pure _
  | d, .ifThen c b => by
    rw [Stmt.mentions, subject_reads_append]
    exact (interns_expr c).bind fun _ => (interns_stmts (d + 1) b).bind_nil fun _ => .pure _
  | d, .ifThenElse c b o => by
    rw [Stmt.mentions, subject_reads_append, List.map_append]
    exact (interns_expr c).bind fun _ => (interns_stmts (d + 1) b).bind fun _ =>
      (interns_stmts (d + 1) o).bind_nil fun _ => .pure _
  | d, .whileLoop c b => by
    rw [Stmt.mentions, subject_reads_append]
    exact (interns_expr c).bind fun _ => (interns_stmts (d + 1) b).bind_nil fun _ => .pure _
termination_by structural _ s => s

theorem interns_stmts : ∀ (d : Nat) (ss : List Stmt),
    Interns (stmts d ss) ((mentionsOf ss).map Mention.subject)
  | _, [] => .pure _
  | d, s :: ss => by
    rw [mentionsOf, List.map_append]
    exact (interns_stmt d s).bind fun _ => (interns_stmts d ss).bind_nil fun _ => .pure _
termination_by structural _ ss => ss

end

/-- A program interns its names as well, but its last line tells the size of the table. -/
theorem table_programLines {t : NameTable} (ht : t.Seeded) (p : Program) :
    (programLines p t).2 = t.declareAll p.names := by
  have hbody := ((Interns.codeNameOf_free).bind fun _ => interns_stmts 0 p.statements).table t ht
  exact hbody

/-! ## Emissions one after the other -/

/-- What code is emitted for. -/
inductive Piece where
  | expression (e : Expr)
  | statement (s : Stmt)
  | program (p : Program)

namespace Piece

/-- The code, and the table with the slots that were given out. -/
def emit : Piece → NameTable → String × NameTable
  | expression e => e.emit
  | statement s => s.emit
  | program p => p.emit

/-- The names in the order in which they are emitted, each as often as it stands there. -/
def names : Piece → List String
  | expression e => e.reads
  | statement s => s.mentions.map Mention.subject
  | program p => p.names

/-- A piece that has no line about the whole table. -/
def IsFragment : Piece → Prop
  | expression _ | statement _ => True
  | program _ => False

end Piece

/-- The table after the emission of some pieces, one after the other. -/
def emitAll : NameTable → List Piece → NameTable
  | t, [] => t
  | t, q :: qs => emitAll (q.emit t).2 qs

/-- The tables that emissions come to: at first any names may be declared behind the free
variable, and then pieces are emitted. -/
inductive Reached : NameTable → Prop
  | declared (ns : List String) : Reached (NameTable.fresh.declareAll ns)
  | emitted {t : NameTable} (q : Piece) : Reached t → Reached (q.emit t).2

theorem Piece.table_emit {t : NameTable} (ht : t.Seeded) (q : Piece) :
    (q.emit t).2 = t.declareAll q.names := by
  cases q with
  | expression e => exact (interns_expr e).table t ht
  | statement s => exact ((interns_stmt 0 s).map joinLines).table t ht
  | program p => exact table_programLines ht p

theorem Piece.interns_emit {q : Piece} (hq : q.IsFragment) : Interns q.emit q.names := by
  cases q with
  | expression e => exact interns_expr e
  | statement s => exact (interns_stmt 0 s).map joinLines
  | program p => exact hq.elim

theorem Piece.prefix_emit {t : NameTable} (ht : t.Seeded) (q : Piece) :
    t.names <+: (q.emit t).2.names := by
  rw [q.table_emit ht]
  exact t.prefix_declareAll q.names

/-- One emission keeps the free variable first and no name twice, so all of them do. -/
theorem Reached.seeded_nodup {t : NameTable} (h : Reached t) : t.Seeded ∧ t.names.Nodup := by
  induction h with
  | declared ns =>
    exact ⟨NameTable.seeded_fresh.declareAll ns,
      NameTable.nodup_declareAll (List.nodup_singleton freeVariable) ns⟩
  | @emitted t q _ ih =>
    obtain ⟨hseeded, hnodup⟩ := ih
    rw [q.table_emit hseeded]
    exact ⟨hseeded.declareAll q.names, NameTable.nodup_declareAll hnodup q.names⟩

theorem prefix_emitAll {t : NameTable} (ht : t.Seeded) (qs : List Piece) :
    t.names <+: (emitAll t qs).names := by
  induction qs generalizing t with
  | nil => exact List.prefix_rfl
  | cons q qs ih =>
    have hstep := q.prefix_emit ht
    exact hstep.trans (ih (ht.grow hstep))

/-- What is emitted once is emitted again as it was, in every larger table. -/
theorem Piece.emit_again {t u : NameTable} {q : Piece} (hq : q.IsFragment) (ht : t.Seeded)
    (hu : (q.emit t).2.names <+: u.names) : q.emit u = ((q.emit t).1, u) := by
  rw [q.table_emit ht] at hu
  have hseeded : u.Seeded := (ht.declareAll q.names).grow hu
  have hnames : ∀ n ∈ q.names, n ∈ (t.declareAll q.names).names := by
    intro n hn
    exact NameTable.mem_declareAll_iff.mpr (.inr hn)
  have htable : u.declareAll q.names = u :=
    NameTable.declareAll_of_subset fun n hn => hu.subset (hnames n hn)
  have htext : (q.emit u).1 = (q.emit t).1 := by
    refine (q.interns_emit hq).result u t hseeded ht fun n hn => ?_
    rw [htable]
    exact NameTable.slot?_grow hu (hnames n hn)
  exact Prod.ext htext ((q.table_emit hseeded).trans htable)

/-- **Emission only appends.**  In every table that emissions come to, the emission of a
piece keeps all slots, no name stands twice, and the free variable has slot 0.  The table
gains the names of the piece that it lacks, in their order.  An expression or a statement
emitted again after any other emissions has the same code and gives out no slot, and its
code is told by the slots that its names end with. -/
theorem emission_appends {t : NameTable} (ht : Reached t) (q : Piece) :
    (∀ n k, t.slot? n = some k → (q.emit t).2.slot? n = some k) ∧
      (q.emit t).2.names.Nodup ∧ (q.emit t).2.slot? freeVariable = some 0 ∧
      (q.emit t).2.names = t.names ++ (q.names.filter fun n => !t.contains n).eraseDups ∧
      (q.IsFragment → ∀ later : List Piece,
        q.emit (emitAll (q.emit t).2 later) = ((q.emit t).1, emitAll (q.emit t).2 later)) ∧
      (q.IsFragment → ∀ u, Reached u →
        (∀ n ∈ q.names, (q.emit u).2.slot? n = (q.emit t).2.slot? n) →
          (q.emit u).1 = (q.emit t).1) := by
  obtain ⟨hseeded, -⟩ := ht.seeded_nodup
  obtain ⟨hseeded', hnodup'⟩ := (ht.emitted q).seeded_nodup
  refine ⟨?_, hnodup', hseeded'.slot?, ?_, ?_, ?_⟩
  · intro n k hslot
    have hn : n ∈ t.names := by
      by_contra hn
      rw [NameTable.slot?, List.idxOf?_eq_none_iff.mpr hn] at hslot
      cases hslot
    rw [NameTable.slot?_grow (q.prefix_emit hseeded) hn, hslot]
  · rw [q.table_emit hseeded, NameTable.names_declareAll]
  · intro hq later
    exact q.emit_again hq hseeded (prefix_emitAll hseeded' later)
  · intro hq u hu hslots
    obtain ⟨hseededu, -⟩ := hu.seeded_nodup
    refine (q.interns_emit hq).result u t hseededu hseeded fun n hn => ?_
    rw [← q.table_emit hseeded, ← q.table_emit hseededu]
    exact hslots n hn

/-- A name of a function and a target that no one declared, and the same statement again
behind a name that came later. -/
theorem emission_appends_assignment :
    let t := NameTable.fresh.declareAll ["a"]
    let q := Piece.statement (.assignment "b" (.evaluation "g" (.name "b")))
    q.emit t = ("_3=_s.sympify(_2).subs(\x7b_0:(_3)\x7d)", ⟨["x", "a", "g", "b"]⟩) ∧
      q.emit (emitAll (q.emit t).2 [.expression (.name "c")]) =
        ("_3=_s.sympify(_2).subs(\x7b_0:(_3)\x7d)", ⟨["x", "a", "g", "b", "c"]⟩) := by
  intro t q
  have hfirst : q.emit t =
      ("_3=_s.sympify(_2).subs(\x7b_0:(_3)\x7d)", ⟨["x", "a", "g", "b"]⟩) := by
    subst t q
    cbv
  obtain ⟨-, -, -, -, hagain, -⟩ := emission_appends (.declared ["a"]) q
  refine ⟨hfirst, (hagain trivial [.expression (.name "c")]).trans ?_⟩
  rw [hfirst]
  rfl

end Code
end MathScript
