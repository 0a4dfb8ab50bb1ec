import MathScript.Proofs.Grammar.Decision
import MathScript.Proofs.Record.RoundTrip
import MathScript.Proofs.Token.Shape

/-!
# Programs from source as records

A program that was read from source has the shape that records ask for: its
names and numbers are texts of tokens, and no rule of the grammar builds an empty
list.  Source admits two letters outside ASCII in names and records do not, and
that is the only difference.

* `mem_names_iff`: the names of a program are the identifiers it derives from.
* `admissible_of_parse`: **what is read from source is admissible if its names are
  in ASCII**.
* `record_round_trip_of_parse`: such a program comes back from its record, and
  any other is refused.
-/

namespace MathScript

/-! ## Names -/

section Shapes

variable {N M : String → Prop}

theorem Expr.Shaped.reads {e : Expr} (h : e.Shaped N M) : ∀ n ∈ e.reads, N n := by
  induction e with
  | number _ | text _ => simp [Expr.reads]
  | name n =>
    intro n' hn
    rw [List.mem_singleton.mp hn]
    exact h
  | binary l _ r hl hr | comparison l _ r hl hr | concat l r _ hl hr =>
    intro n hn
    rcases List.mem_append.mp hn with hn | hn
    · exact hl h.1 n hn
    · exact hr h.2 n hn
  | evaluation f e he =>
    intro n hn
    rcases List.mem_cons.mp hn with rfl | hn
    · exact h.1
    · exact he h.2 n hn
  | solve e _ he | cast e _ he => exact he h

theorem Expr.Shaped.mentions {e : Expr} (h : e.Shaped N M) :
    ∀ m ∈ e.reads.map Mention.read, N m.subject := by
  intro m hm
  obtain ⟨n, hn, rfl⟩ := List.mem_map.mp hm
  exact h.reads n hn

mutual

theorem Stmt.Shaped.mentions : ∀ {s : Stmt}, s.Shaped N M → ∀ m ∈ s.mentions, N m.subject
  | .assignment target value, h => by
    intro m hm
    rcases List.mem_append.mp hm with hm | hm
    · exact h.2.mentions m hm
    · rw [List.mem_singleton.mp hm]
      exact h.1
  | .input target prompt _, h => by
    intro m hm
    rcases List.mem_append.mp hm with hm | hm
    · cases prompt with
      | none => cases hm
      | some e => exact (h.2 e rfl).mentions m hm
    · rw [List.mem_singleton.mp hm]
      exact h.1
  | .print es, h | .plot es, h => by
    intro m hm
    obtain ⟨n, hn, rfl⟩ := List.mem_map.mp hm
    obtain ⟨e, he, hn⟩ := List.mem_flatMap.mp hn
    exact (h.2 e he).reads n hn
  | .ifThen c b, h | .whileLoop c b, h => by
    intro m hm
    rcases List.mem_append.mp hm with hm | hm
    · exact h.1.mentions m hm
    · exact Stmt.AllShaped.mentions h.2.2 m hm
  | .ifThenElse c b o, h => by
    intro m hm
    rcases List.mem_append.mp hm with hm | hm
    · exact h.1.mentions m hm
    rcases List.mem_append.mp hm with hm | hm
    · exact Stmt.AllShaped.mentions h.2.1.2 m hm
    · exact Stmt.AllShaped.mentions h.2.2.2 m hm
termination_by s => sizeOf s

theorem Stmt.AllShaped.mentions : ∀ {ss : List Stmt}, Stmt.AllShaped N M ss →
    ∀ m ∈ mentionsOf ss, N m.subject
  | [], _ => by simp [mentionsOf]
  | s :: ss, h => by
    intro m hm
    rcases List.mem_append.mp hm with hm | hm
    · exact Stmt.Shaped.mentions h.1 m hm
    · exact Stmt.AllShaped.mentions h.2 m hm
termination_by ss => sizeOf ss

end

theorem Program.Shaped.names {p : Program} (h : p.Shaped N M) : ∀ n ∈ p.names, N n := by
  intro n hn
  obtain ⟨m, hm, rfl⟩ := List.mem_map.mp hn
  exact Stmt.AllShaped.mentions h.statements m hm

end Shapes

namespace Grammar

/-! ## What a derivation mentions -/

/-- These are mentions of just the identifiers among the tokens. -/
def Covers (ts : List Token) (ms : List (Mention Token)) : Prop :=
  ∀ t, t ∈ ms.map Mention.subject ↔ t ∈ ts ∧ t.kind = .identifier

theorem covers_readsOf (ts : List Token) : Covers ts (readsOf ts) := by
  intro t
  simp [readsOf, Mention.subject]

variable {ts us : List Token} {ms ns : List (Mention Token)}

theorem Covers.append (h : Covers ts ms) (h' : Covers us ns) : Covers (ts ++ us) (ms ++ ns) := by
  intro t
  rw [List.map_append, List.mem_append, h t, h' t, List.mem_append, or_and_right]

theorem Covers.cons_other {t : Token} (ht : t.kind ≠ .identifier) (h : Covers ts ms) :
    Covers (t :: ts) ms := by
  intro u
  rw [h u, List.mem_cons, or_and_right]
  refine ⟨Or.inr, fun hu => hu.resolve_left ?_⟩
  rintro ⟨rfl, hk⟩
  exact ht hk

theorem Covers.concat_other {t : Token} (ht : t.kind ≠ .identifier) (h : Covers ts ms) :
    Covers (ts ++ [t]) ms := by
  intro u
  rw [h u, List.mem_append, List.mem_singleton, or_and_right]
  refine ⟨Or.inl, fun hu => hu.resolve_right ?_⟩
  rintro ⟨rfl, hk⟩
  exact ht hk

/-- A target stands in front of what is read before it is declared. -/
theorem Covers.cons_declare {t : Token} (ht : t.kind = .identifier) (h : Covers ts ms) :
    Covers (t :: ts) (ms ++ [.declare t]) := by
  intro u
  rw [List.map_append, List.mem_append, h u, List.mem_cons, or_and_right, or_comm]
  refine or_congr_left ?_
  rw [List.map_singleton, List.mem_singleton]
  exact ⟨fun hu => ⟨hu, hu ▸ ht⟩, And.left⟩

theorem covers_nil : Covers [] [] := by
  intro t
  simp

theorem DerivesCast.covers {cast : Option CastType} (h : DerivesCast ts cast) : Covers ts [] := by
  cases h with
  | none => exact covers_nil
  | some type hw hd =>
    refine (covers_nil.cons_other ?_).cons_other ?_
    · rw [hd]
      cases type <;> decide
    · rw [hw]
      decide

/-- A token of another kind than an identifier. -/
theorem ne_identifier {t : Token} {k : TokenKind} (ht : t.kind = k) (hk : k ≠ .identifier) :
    t.kind ≠ .identifier :=
  ht ▸ hk

/-- A word in front of a condition and a block. -/
theorem covers_guarded {w lp rp : Token} (hw : w.kind ≠ .identifier) (hl : lp.kind = .leftParen)
    (hr : rp.kind = .rightParen) (h : Covers us ms) :
    Covers (w :: lp :: (ts ++ rp :: us)) (readsOf ts ++ ms) :=
  (((covers_readsOf ts).append (h.cons_other (ne_identifier hr (by decide)))).cons_other
    (ne_identifier hl (by decide))).cons_other hw

mutual

theorem DerivesStmt.covers : ∀ {d : Bool} {ts : List Token} {s : Stmt}
    {ms : List (Mention Token)}, DerivesStmt d ts s ms → Covers ts ms
  | _, _, _, _, .assignment hi ha _ hs => by
    refine Covers.cons_declare hi (Covers.cons_other (ne_identifier ha (by decide)) ?_)
    exact (covers_readsOf _).concat_other (ne_identifier hs (by decide))
  | _, _, _, _, .input hw _ hg hi hc hs => by
    have htarget := (hc.covers.concat_other (ne_identifier hs (by decide))).cons_declare hi
    refine Covers.cons_other (ne_identifier hw (by decide)) ((covers_readsOf _).append ?_)
    exact htarget.cons_other (ne_identifier hg (by decide))
  | _, _, _, _, .print hw _ hs => by
    refine Covers.cons_other (ne_identifier hw (by decide)) ?_
    exact (covers_readsOf _).concat_other (ne_identifier hs (by decide))
  | _, _, _, _, .plot hw _ hs => by
    refine Covers.cons_other (ne_identifier hw (by decide)) ?_
    exact (covers_readsOf _).concat_other (ne_identifier hs (by decide))
  | _, _, _, _, .ifThen hw hl _ hr hb =>
    covers_guarded (ne_identifier hw (by decide)) hl hr hb.covers
  | _, _, _, _, .ifThenElse hw hl _ hr hb he ho =>
    covers_guarded (ne_identifier hw (by decide)) hl hr
      (hb.covers.append (ho.covers.cons_other (ne_identifier he (by decide))))
  | _, _, _, _, .whileLoop hw hl _ hr hb =>
    covers_guarded (ne_identifier hw (by decide)) hl hr hb.covers

theorem DerivesBlock.covers : ∀ {d : Bool} {ts : List Token} {ss : List Stmt}
    {ms : List (Mention Token)}, DerivesBlock d ts ss ms → Covers ts ms
  | _, _, _, _, .single h => h.covers
  | _, _, _, _, .braces hl h hr =>
    (h.covers.concat_other (ne_identifier hr (by decide))).cons_other
      (ne_identifier hl (by decide))

theorem DerivesStmts.covers : ∀ {ts : List Token} {ss : List Stmt}
    {ms : List (Mention Token)}, DerivesStmts ts ss ms → Covers ts ms
  | _, _, _, .one h => h.covers
  | _, _, _, .cons h hs => h.covers.append hs.covers

end

/-! ## The shape of what derives -/

variable {N M : String → Prop}

theorem Joins.shaped {level : Level} {k : TokenKind} {l r e : Expr} (h : Joins level k l r e)
    (hl : l.Shaped N M) (hr : r.Shaped N M) : e.Shaped N M := by
  cases h <;> exact ⟨hl, hr⟩

/-- The names and numbers among the tokens are fit for records. -/
structure Fit (N M : String → Prop) (ts : List Token) : Prop where
  name : ∀ t ∈ ts, t.kind = .identifier → N t.text
  number : ∀ t ∈ ts, t.kind = .number → M t.text

theorem Fit.of_subset (h : Fit N M ts) (hs : us ⊆ ts) : Fit N M us :=
  ⟨fun t ht => h.name t (hs ht), fun t ht => h.number t (hs ht)⟩

theorem Derives.shaped {level : Level} {e : Expr} (h : Derives level ts e) (hz : M "0")
    (hf : Fit N M ts) : e.Shaped N M := by
  induction h with
  | number ht => exact hf.number _ (by simp) ht
  | text _ => trivial
  | name ht => exact hf.name _ (by simp) ht
  | evaluation ht _ _ _ ih =>
    have hargument := ih (hf.of_subset fun _ h => by simp [h])
    exact ⟨hf.name _ (by simp) ht, hargument⟩
  | parentheses _ _ _ ih => exact ih (hf.of_subset fun _ h => by simp [h])
  | power _ _ _ ihb ihe =>
    have hbase := ihb (hf.of_subset fun _ h => by simp [h])
    have hexponent := ihe (hf.of_subset fun _ h => by simp [h])
    exact ⟨hbase, hexponent⟩
  | plus _ _ ih | minus _ _ ih => exact ⟨hz, ih (hf.of_subset fun _ h => by simp [h])⟩
  | joined _ _ hj _ ihl ihr =>
    have hleft := ihl (hf.of_subset fun _ h => by simp [h])
    have hright := ihr (hf.of_subset fun _ h => by simp [h])
    exact hj.shaped hleft hright
  | solvedIn _ _ _ _ _ ih | solved _ _ ih | converted _ _ _ _ ih =>
    exact ih (hf.of_subset fun _ h => by simp [h])
  | base _ ih | unsigned _ ih | first _ _ ih | compared _ ih | plain _ ih => exact ih hf

theorem DerivesArguments.shaped {es : List Expr} (h : DerivesArguments ts es) (hz : M "0")
    (hf : Fit N M ts) : es ≠ [] ∧ ∀ e ∈ es, e.Shaped N M := by
  induction h with
  | one h =>
    refine ⟨List.cons_ne_nil _ _, fun e he => ?_⟩
    rw [List.mem_singleton.mp he]
    exact h.shaped hz hf
  | cons h _ _ ih =>
    refine ⟨List.cons_ne_nil _ _, List.forall_mem_cons.mpr ⟨?_, ?_⟩⟩
    · exact h.shaped hz (hf.of_subset fun _ h => by simp [h])
    · exact (ih (hf.of_subset fun _ h => by simp [h])).2

mutual

/-- **What derives has no empty lists, and its names and numbers are those of the
tokens.** -/
theorem DerivesStmt.shaped : ∀ {d : Bool} {ts : List Token} {s : Stmt}
    {ms : List (Mention Token)}, DerivesStmt d ts s ms → M "0" → Fit N M ts → s.Shaped N M
  | _, _, _, _, .assignment hi _ he _, hz, hf =>
    ⟨hf.name _ (by simp) hi, he.shaped hz (hf.of_subset fun _ h => by simp [h])⟩
  | _, _, _, _, .input _ hp _ hi _ _, hz, hf => by
    refine ⟨hf.name _ (by simp) hi, fun e he => ?_⟩
    cases hp with
    | none => cases he
    | some h =>
      obtain rfl := Option.some.inj he
      exact h.shaped hz (hf.of_subset fun _ h => by simp [h])
  | _, _, _, _, .print _ h _, hz, hf => h.shaped hz (hf.of_subset fun _ h => by simp [h])
  | _, _, _, _, .plot _ h _, hz, hf => h.shaped hz (hf.of_subset fun _ h => by simp [h])
  | _, _, _, _, .ifThen _ _ hc _ hb, hz, hf =>
    ⟨hc.shaped hz (hf.of_subset fun _ h => by simp [h]),
      hb.shaped hz (hf.of_subset fun _ h => by simp [h])⟩
  | _, _, _, _, .ifThenElse _ _ hc _ hb _ ho, hz, hf =>
    ⟨hc.shaped hz (hf.of_subset fun _ h => by simp [h]),
      hb.shaped hz (hf.of_subset fun _ h => by simp [h]),
      ho.shaped hz (hf.of_subset fun _ h => by simp [h])⟩
  | _, _, _, _, .whileLoop _ _ hc _ hb, hz, hf =>
    ⟨hc.shaped hz (hf.of_subset fun _ h => by simp [h]),
      hb.shaped hz (hf.of_subset fun _ h => by simp [h])⟩

theorem DerivesBlock.shaped : ∀ {d : Bool} {ts : List Token} {ss : List Stmt}
    {ms : List (Mention Token)}, DerivesBlock d ts ss ms → M "0" → Fit N M ts →
    ss ≠ [] ∧ Stmt.AllShaped N M ss
  | _, _, _, _, .single h, hz, hf => ⟨List.cons_ne_nil _ _, h.shaped hz hf, trivial⟩
  | _, _, _, _, .braces _ h _, hz, hf => h.shaped hz (hf.of_subset fun _ h => by simp [h])

theorem DerivesStmts.shaped : ∀ {ts : List Token} {ss : List Stmt}
    {ms : List (Mention Token)}, DerivesStmts ts ss ms → M "0" → Fit N M ts →
    ss ≠ [] ∧ Stmt.AllShaped N M ss
  | _, _, _, .one h, hz, hf => ⟨List.cons_ne_nil _ _, h.shaped hz hf, trivial⟩
  | _, _, _, .cons h hs, hz, hf =>
    ⟨List.cons_ne_nil _ _, h.shaped hz (hf.of_subset fun _ h => by simp [h]),
      (hs.shaped hz (hf.of_subset fun _ h => by simp [h])).2⟩

end

/-- **The names of a program are the identifiers it derives from.** -/
theorem DerivesProgram.mem_names_iff {p : Program} (h : DerivesProgram ts p ms) (n : String) :
    n ∈ p.names ↔ ∃ t ∈ ts, t.kind = .identifier ∧ t.text = n := by
  have hmentions : ms.map (Mention.map Token.text) = p.mentions := DerivesStmts.mentions_eq h
  have hnames : p.names = (ms.map Mention.subject).map Token.text := by
    rw [Program.names, ← hmentions, List.map_map, List.map_map]
    refine List.map_congr_left fun m _ => ?_
    cases m <;> rfl
  rw [hnames, List.mem_map]
  constructor
  · rintro ⟨t, ht, rfl⟩
    obtain ⟨hts, hk⟩ := (DerivesStmts.covers h t).mp ht
    exact ⟨t, hts, hk, rfl⟩
  · rintro ⟨t, hts, hk, rfl⟩
    exact ⟨t, (DerivesStmts.covers h t).mpr ⟨hts, hk⟩, rfl⟩

end Grammar

/-! ## Source and records -/

open Grammar

variable {source : String} {p : Program} {names : NameTable}

theorem isNumeral_zero : IsNumeral "0" :=
  ⟨['0'], by decide, Or.inl rfl⟩

/-- **What is read from source has no empty lists**, its numbers are numerals, and its
names are those of the identifiers. -/
theorem shaped_of_parseUnder {interrupt : Interrupt} {N : String → Prop}
    (h : parseUnder interrupt source = .ok ⟨p, names⟩)
    (hN : ∀ t ∈ (Tape.ofString source).tokens, t.kind = .identifier → N t.text) :
    p.Shaped N IsNumeral := by
  obtain ⟨_, hd, _, _, _⟩ := derives_of_parseUnder h
  obtain ⟨hne, hs⟩ := DerivesStmts.shaped hd isNumeral_zero ⟨hN, fun _ => isNumeral_of_mem⟩
  exact ⟨hne, hs⟩

/-- **What is read from source is admissible if its names are in ASCII.** -/
theorem admissible_of_parse (h : parse source = .ok ⟨p, names⟩) (ha : ∀ n ∈ p.names, IsAscii n) :
    p.Admissible := by
  obtain ⟨_, hd, _, _, hdepth⟩ := derives_of_parseUnder h
  have hshaped : p.Shaped IsAsciiName IsNumeral := by
    refine shaped_of_parseUnder h fun t ht hk => ?_
    have hn : t.text ∈ p.names := (hd.mem_names_iff _).mpr ⟨t, ht, hk, rfl⟩
    exact (isName_of_mem ht hk).isAsciiName (ha _ hn)
  exact ⟨hshaped, hdepth, names, resolve_of_parse h⟩

/-- A program with a name outside ASCII is refused, in whatever text JSON finds
it. -/
theorem ofText_of_not_isAscii {text : String} (htext : Json.ofString? text = some p.record)
    {n : String} (hn : n ∈ p.names) (ha : ¬IsAscii n) :
    ∃ cause, Program.ofText text = .error (.malformed cause) :=
  Program.ofText_of_not_shaped htext fun hs => ha (hs.names n hn).isAscii

/-- In whatever text JSON finds it, the record of a program that was read from
source is read back just if the names are in ASCII. -/
theorem ofText_iff_of_parse (h : parse source = .ok ⟨p, names⟩) {text : String}
    (htext : Json.ofString? text = some p.record) :
    Program.ofText text = .ok p ↔ ∀ n ∈ p.names, IsAscii n := by
  constructor
  · intro hread n hn
    by_contra ha
    obtain ⟨cause, hcause⟩ := ofText_of_not_isAscii htext hn ha
    rw [hread] at hcause
    cases hcause
  · intro ha
    exact Program.ofText_of_admissible htext (admissible_of_parse h ha)

/-- **What is read from source comes back from its record**, compact or indented,
exactly if its names are in ASCII; a name with U+017F or U+212A makes both records
malformed. -/
theorem record_round_trip_of_parse (h : parse source = .ok ⟨p, names⟩) :
    (Program.ofText p.toText = .ok p ↔ ∀ n ∈ p.names, IsAscii n) ∧
    (Program.ofText p.toPrettyText = .ok p ↔ ∀ n ∈ p.names, IsAscii n) ∧
    ((∃ n ∈ p.names, '\u017F' ∈ n.toList ∨ '\u212A' ∈ n.toList) →
      (∃ cause, Program.ofText p.toText = .error (.malformed cause)) ∧
        ∃ cause, Program.ofText p.toPrettyText = .error (.malformed cause)) := by
  obtain ⟨_, _, _, _, hdepth⟩ := derives_of_parseUnder h
  have hnesting := Program.nesting_le_of_depth_le hdepth
  have hcompact := Json.ofString?_compact p.record_normal hnesting
  have hpretty := Json.ofString?_pretty p.record_normal hnesting
  refine ⟨ofText_iff_of_parse h hcompact, ofText_iff_of_parse h hpretty, ?_⟩
  rintro ⟨n, hn, hletter⟩
  have ha : ¬IsAscii n := by
    intro ha
    rcases hletter with hs | hk
    · exact absurd (ha _ hs) (by decide)
    · exact absurd (ha _ hk) (by decide)
  exact ⟨ofText_of_not_isAscii hcompact hn ha, ofText_of_not_isAscii hpretty hn ha⟩

/-- A name that records do not admit. -/
def longS : String :=
  "\u017F = 1;"

theorem record_round_trip_of_parse_longS :
    parse longS = .ok ⟨⟨[.assignment "\u017F" (.number "1")]⟩, ⟨["x", "\u017F"]⟩⟩ ∧
      (∃ cause, Program.ofText (Program.toText ⟨[.assignment "\u017F" (.number "1")]⟩) =
        .error (.malformed cause)) ∧
      ∃ cause, Program.ofText (Program.toPrettyText ⟨[.assignment "\u017F" (.number "1")]⟩) =
        .error (.malformed cause) := by
  have hparse : parse longS =
      .ok ⟨⟨[.assignment "\u017F" (.number "1")]⟩, ⟨["x", "\u017F"]⟩⟩ := by cbv
  refine ⟨hparse, (record_round_trip_of_parse hparse).2.2 ⟨"\u017F", ?_, Or.inl ?_⟩⟩
  · decide
  · decide

end MathScript
