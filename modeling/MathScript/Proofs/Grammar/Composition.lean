import MathScript.Proofs.Program.Slots
import MathScript.Proofs.Token.Seam

/-!
# Programs behind one another

A program has used up all of its tokens when it ends, and what it has opened is closed
again.  So a program behind another one is read as it is alone, with the names of the
first one declared before it starts: no name of it is missing because of that, and no
`ELSE` can stand at its start.

* `Extends.after`: what some mentions add to a table, by what they add to a smaller one.
* `derivesEachIn_of_parse`: what is read derives with the room that a reading has, and so
  do like tokens.
* `parse_append`: **the statements of two programs, one behind the other, and what the
  second one adds to the names of the first**.
-/

namespace MathScript

/-! ## Names -/

namespace NameTable

/-- `T` has the names of `base`, and those of `t` that are not in `base` behind them. -/
def Extends (T base t : NameTable) : Prop :=
  T.names = base.names ++ t.names.filter fun n => !base.contains n

variable {T base t : NameTable}

theorem Extends.mem_iff (h : T.Extends base t) (n : String) :
    n ∈ T.names ↔ n ∈ base.names ∨ n ∈ t.names := by
  rw [h, List.mem_append, List.mem_filter, Bool.not_eq_true', ← Bool.not_eq_true, contains_iff]
  tauto

theorem Extends.declare (h : T.Extends base t) (n : String) :
    (T.declare n).Extends base (t.declare n) := by
  have hmem := h.mem_iff n
  by_cases ht : n ∈ t.names
  · rw [declare_of_mem ht, declare_of_mem (hmem.mpr (.inr ht))]
    exact h
  · rw [declare_of_not_mem ht, Extends, List.filter_append, ← List.append_assoc, ← h]
    by_cases hbase : n ∈ base.names
    · rw [declare_of_mem (hmem.mpr (.inl hbase)),
        List.filter_cons_of_neg (by simpa [contains_iff] using hbase)]
      simp
    · have hT : n ∉ T.names := fun hn => (hmem.mp hn).elim hbase ht
      have hkeep : [n].filter (fun n => !base.contains n) = [n] :=
        List.filter_cons_of_pos (by rwa [Bool.not_eq_true', ← Bool.not_eq_true, contains_iff])
      rw [declare_of_not_mem hT, hkeep]

/-- **The same mentions add the same names, but for those that are there.** -/
theorem Extends.after (h : T.Extends base t) (ms : List (Mention String)) :
    (T.after id ms).Extends base (t.after id ms) := by
  induction ms generalizing T t with
  | nil => exact h
  | cons m ms ih =>
    cases m with
    | read n => exact ih h
    | declare n => exact ih (h.declare n)

/-- In a larger table nothing more is missing. -/
theorem Extends.firstUndeclared_eq_none (h : T.Extends base t) {ms : List (Mention String)}
    (hms : t.firstUndeclared id ms = none) : T.firstUndeclared id ms = none := by
  induction ms generalizing T t with
  | nil => rfl
  | cons m ms ih =>
    cases m with
    | read n =>
      rw [firstUndeclared] at hms ⊢
      split at hms
      · next hn =>
        have hT : T.contains n = true :=
          contains_iff.mpr ((h.mem_iff n).mpr (.inr (contains_iff.mp hn)))
        rw [id_eq, if_pos hT]
        exact ih h hms
      · cases hms
    | declare n => exact ih (h.declare n) hms

/-- A table that a program starts with has no names of its own. -/
theorem extends_fresh (h : freeVariable ∈ T.names) : T.Extends T fresh := by
  have hnone : fresh.names.filter (fun n => !T.contains n) = [] := by
    rw [fresh, List.filter_cons_of_neg (by simpa [contains_iff] using h)]
    rfl
  rw [Extends, hnone, List.append_nil]

end NameTable

theorem mentionsOf_append (ss os : List Stmt) :
    mentionsOf (ss ++ os) = mentionsOf ss ++ mentionsOf os := by
  induction ss with
  | nil => rfl
  | cons s ss ih => rw [List.cons_append, mentionsOf, mentionsOf, ih, List.append_assoc]

/-- The statements of one program behind those of another. -/
def Program.append (p q : Program) : Program :=
  ⟨p.statements ++ q.statements⟩

theorem Program.mentions_append (p q : Program) :
    (p.append q).mentions = p.mentions ++ q.mentions :=
  mentionsOf_append p.statements q.statements

/-- **A program behind another one declares its names behind the names of that**, and
reads none too early. -/
theorem Program.resolve_append {p q : Program} {t u : NameTable} (hp : p.resolve = .ok t)
    (hq : q.resolve = .ok u) :
    (p.append q).resolve = .ok ⟨t.names ++ u.names.filter fun n => !t.contains n⟩ := by
  have hdeclared := eq_declared_of_resolve hp
  have hextends : t.Extends t NameTable.fresh := by
    refine NameTable.extends_fresh ?_
    rw [hdeclared]
    exact p.free_mem_declared
  rw [declared_eq] at hdeclared
  have hnone : t.firstUndeclared id q.mentions = none :=
    hextends.firstUndeclared_eq_none (firstUndeclared_of_resolve hq)
  have hnames : t.after id q.mentions = ⟨t.names ++ u.names.filter fun n => !t.contains n⟩ := by
    have hafter := hextends.after q.mentions
    rw [← q.declared_eq, ← eq_declared_of_resolve hq] at hafter
    exact congrArg NameTable.mk hafter
  rw [resolve_eq, mentions_append, NameTable.check_append, ← resolve_eq, hp]
  show t.check q.mentions = _
  rw [NameTable.check, hnone, hnames]

/-! ## Programs -/

open Grammar

/-- **What is read derives with the room that a reading has**, and like tokens derive it
too. -/
theorem derivesEachIn_of_parse {source : String} {ts us : List Token} {p : Program} {t : NameTable}
    (h : tokenize source = .ok ts) (hparse : parse source = .ok ⟨p, t⟩)
    (hus : List.Forall₂ Token.Alike us ts) :
    ∃ ms, DerivesEachIn maxDepth (maxDepth - 1) us p.statements ms := by
  obtain ⟨line, htape⟩ := tape_of_tokenize h
  have hread : parse source = _ := parseUnder_of_tape htape
  rw [hparse] at hread
  let start (ts : List Token) : Cursor := ⟨ts, .complete line, NameTable.fresh, 0, 0, 1⟩
  have halike : (start us).Alike (start ts) :=
    ⟨hus, .complete line line, fun _ => ⟨line, rfl⟩, rfl, rfl, rfl, rfl⟩
  have hagree := agrees_program .never halike
  have hrun := ensures_program .never (start us) (show 1 ≤ maxDepth by decide)
  unfold Agree at hagree
  split at hagree
  · next q c' q' d' hc hd =>
    rw [hd] at hread
    obtain ⟨rfl, -⟩ := hagree
    cases hread
    obtain ⟨vs, ms, hend, hp, hss, -⟩ := hrun.of_eq_ok hc
    have htokens : us = vs ++ c'.tokens := hp.tokens
    rw [hend, List.append_nil] at htokens
    exact ⟨ms, htokens ▸ hss⟩
  · next e f hc hd =>
    rw [hd] at hread
    cases hread
  · exact hagree.elim

/-- **The statements of two programs, one behind the other.**  Two texts that are read as
programs are read as one with a line break between them.  Its statements are those of the
first program and then those of the second one; its names are those of the first one, and
then what the second one adds to them, in its order. -/
theorem parse_append {a b lineBreak : String} {p q : Program} {t u : NameTable}
    (ha : parse a = .ok ⟨p, t⟩) (hb : parse b = .ok ⟨q, u⟩)
    (hbreak : IsSeparator .lineBreak lineBreak.toList) :
    parse (a ++ lineBreak ++ b) = .ok ⟨⟨p.statements ++ q.statements⟩,
      ⟨t.names ++ u.names.filter fun n => !t.contains n⟩⟩ := by
  have hta : tokenize a = .ok _ := tokenize_of_parseUnder ha
  have htb : tokenize b = .ok _ := tokenize_of_parseUnder hb
  obtain ⟨us, hus, htokens⟩ := tokenize_seam hta htb hbreak
  obtain ⟨ms, hp⟩ := derivesEachIn_of_parse hta ha
    (List.forall₂_same.mpr fun t _ => ⟨rfl, fun _ => rfl⟩)
  obtain ⟨ns, hq⟩ := derivesEachIn_of_parse htb hb hus
  have hboth : DerivesStmtsIn maxDepth (maxDepth - 1) _ (p.append q).statements (ms ++ ns) :=
    (hp.append hq).derivesIn
  have hresolve := Program.resolve_append (resolve_of_parse ha) (resolve_of_parse hb)
  rw [Program.eq_declared_of_resolve hresolve]
  exact parse_of_room htokens hboth le_rfl (by decide) hresolve

/-- A dangling `IF` and a comment in front of the line break, a CRLF that is made of two
line breaks, and a name that both programs declare. -/
theorem parse_append_dangling :
    let a := "y = 1; IF (y) z = 2; # ELSE\r"
    let b := "w = x; z = 3;"
    let p : Program := ⟨[.assignment "y" (.number "1"),
      .ifThen (.name "y") [.assignment "z" (.number "2")]]⟩
    let q : Program := ⟨[.assignment "w" (.name "x"), .assignment "z" (.number "3")]⟩
    parse a = .ok ⟨p, ⟨["x", "y", "z"]⟩⟩ ∧ parse b = .ok ⟨q, ⟨["x", "w", "z"]⟩⟩ ∧
      parse (a ++ "\n" ++ b) = .ok ⟨⟨p.statements ++ q.statements⟩, ⟨["x", "y", "z", "w"]⟩⟩ := by
  intro a b p q
  obtain ⟨ha, hb⟩ : parse a = .ok ⟨p, ⟨["x", "y", "z"]⟩⟩ ∧
      parse b = .ok ⟨q, ⟨["x", "w", "z"]⟩⟩ := ⟨by cbv, by cbv⟩
  have hbreak : IsSeparator .lineBreak "\n".toList := .lf
  have hnew : ["x", "w", "z"].filter (fun n => !NameTable.contains ⟨["x", "y", "z"]⟩ n) =
      ["w"] := by decide
  have hboth := parse_append ha hb hbreak
  rw [hnew] at hboth
  exact ⟨ha, hb, hboth⟩

end MathScript
