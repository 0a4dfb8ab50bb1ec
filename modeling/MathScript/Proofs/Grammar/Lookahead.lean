import MathScript.Proofs.Grammar.Loops

/-!
# What a reading has looked at

A reading goes by the tokens it has passed and by the kind of the one ahead.  What it makes
of them does not depend on what stands behind, and it fails as soon as nothing could stand
there that would do.

What may come is a `Prospect`: the beginnings of what a rule of the grammar derives.  A step
is timely if it succeeds only where it would do so in front of any token of the same kind,
and fails only behind a beginning, and in the same way on every text that goes on with the
same token.

* `Timely.bind`: **one behind the other, timely steps are timely**.
-/

namespace MathScript

/-- The error is about neither the grammar nor the names: the text ends in what is no token,
the nesting is too deep, or the reading was called off. -/
def ParseError.Apart : ParseError → Prop
  | .lexical _ | .nestingTooDeep _ | .interrupted _ => True
  | .invalidToken _ _ | .unexpectedEnd | .undefinedName _ _ => False

namespace Grammar

variable {α β : Type}

/-! ## Prospects -/

/-- Tokens that may come, with what they mention. -/
abbrev Prospect := List Token → List (Mention Token) → Prop

/-- What may come behind some tokens. -/
def Prospect.after (ahead : Prospect) (ts : List Token) (ms : List (Mention Token)) : Prospect :=
  fun us ns => ahead (ts ++ us) (ms ++ ns)

theorem Prospect.after_after (ahead : Prospect) (ts us : List Token)
    (ms ns : List (Mention Token)) :
    (ahead.after ts ms).after us ns = ahead.after (ts ++ us) (ms ++ ns) := by
  funext vs os
  rw [after, after, after, List.append_assoc, List.append_assoc]

theorem Prospect.after_nil {ahead : Prospect} {ts : List Token} {ms : List (Mention Token)}
    (h : ahead ts ms) : ahead.after ts ms [] [] := by
  rwa [after, List.append_nil, List.append_nil]

/-- The error at a lookahead that is not what the grammar wants. -/
def unexpectedAt : List Token → ParseError
  | t :: _ => .invalidToken t.text t.line
  | [] => .unexpectedEnd

theorem Cursor.unexpected_eq (c : Cursor) : c.unexpected = unexpectedAt c.tokens := by
  unfold Cursor.unexpected
  cases c.tokens <;> rfl

theorem unexpectedAt_congr {ts us : List Token} (h : us.head? = ts.head?) :
    unexpectedAt us = unexpectedAt ts := by
  cases ts <;> cases us <;> cases h <;> rfl

/-- Behind the tokens `ts` the error is due: they are as they should be, with every name
declared in time, and what stands ahead is refused, or is a name that could be read here if
it were declared. -/
inductive Due (ahead : Prospect) (names : NameTable) (ts : List Token) :
    List Token → ParseError → Prop
  | unexpected {ms : List (Mention Token)} (rest : List Token) (hts : ahead ts ms)
      (hms : names.firstUndeclared Token.text ms = none) :
      Due ahead names ts rest (unexpectedAt rest)
  | undeclared {ms : List (Mention Token)} {t : Token} (rest : List Token) (hts : ahead ts ms)
      (hms : names.firstUndeclared Token.text ms = none) (ht : t.kind = .identifier)
      (hread : ahead (ts ++ [t]) (ms ++ [.read t])) :
      Due ahead names ts (t :: rest) (.undefinedName t.text t.line)

section Due

variable {ahead ahead' : Prospect} {names : NameTable} {ts us rest : List Token}
  {ms : List (Mention Token)} {e : ParseError} {text : String} {line : Nat}

theorem Due.mono (h : Due ahead names ts rest e) (ha : ∀ us ns, ahead us ns → ahead' us ns) :
    Due ahead' names ts rest e := by
  cases h with
  | unexpected rest hts hms => exact .unexpected rest (ha _ _ hts) hms
  | undeclared rest hts hms ht hread => exact .undeclared rest (ha _ _ hts) hms ht (ha _ _ hread)

/-- What is due behind more tokens is due behind all of them. -/
theorem Due.behind {c c' : Cursor} (hp : Passes c us ms c')
    (h : Due (ahead.after us ms) c'.names ts rest e) : Due ahead c.names (us ++ ts) rest e := by
  have hdeclared {ns : List (Mention Token)}
      (hns : c'.names.firstUndeclared Token.text ns = none) :
      c.names.firstUndeclared Token.text (ms ++ ns) = none := by
    rw [NameTable.firstUndeclared_append, hp.declared, ← hp.names, hns]
    rfl
  cases h with
  | unexpected rest hts hns => exact .unexpected rest hts (hdeclared hns)
  | undeclared rest hts hns ht hread =>
    refine .undeclared rest hts (hdeclared hns) ht ?_
    rw [List.append_assoc, List.append_assoc]
    exact hread

theorem Due.of_invalidToken (h : Due ahead names ts rest (.invalidToken text line)) :
    ∃ t us ms, rest = t :: us ∧ t.text = text ∧ t.line = line ∧ ahead ts ms ∧
      names.firstUndeclared Token.text ms = none := by
  generalize he : ParseError.invalidToken text line = e at h
  cases h with
  | unexpected rest hts hms =>
    cases rest with
    | nil => cases he
    | cons t us =>
      cases he
      exact ⟨t, us, _, rfl, rfl, rfl, hts, hms⟩
  | undeclared => cases he

theorem Due.of_unexpectedEnd (h : Due ahead names ts rest .unexpectedEnd) :
    ∃ ms, rest = [] ∧ ahead ts ms ∧ names.firstUndeclared Token.text ms = none := by
  generalize he : ParseError.unexpectedEnd = e at h
  cases h with
  | unexpected rest hts hms =>
    cases rest with
    | nil => exact ⟨_, rfl, hts, hms⟩
    | cons t us => cases he
  | undeclared => cases he

theorem Due.of_undefinedName (h : Due ahead names ts rest (.undefinedName text line)) :
    ∃ t us ms, rest = t :: us ∧ t.kind = .identifier ∧ t.text = text ∧ t.line = line ∧
      ahead ts ms ∧ names.firstUndeclared Token.text ms = none ∧
      ahead (ts ++ [t]) (ms ++ [.read t]) := by
  generalize he : ParseError.undefinedName text line = e at h
  cases h with
  | unexpected rest hts hms => cases rest <;> cases he
  | undeclared us hts hms ht hread =>
    cases he
    exact ⟨_, us, _, rfl, ht, rfl, rfl, hts, hms, hread⟩

end Due

/-! ## Timely steps -/

/-- The cursor in front of these tokens and nothing else. -/
def Cursor.facing (c : Cursor) (tokens : List Token) (line : Nat) : Cursor :=
  { c with tokens := tokens, ending := .complete line }

/-- Started at `c`, the step gives a result that any token of the same kind ahead would
leave it with; or it fails where that is due, whatever stands behind the token ahead. -/
def Timely (ahead : Prospect) (step : Step α) (c : Cursor) : Prop :=
  Meets step c
    (fun a c' => ∃ ts, c.tokens = ts ++ c'.tokens ∧ ∀ rest line, kindOf rest = c'.kind? →
      step (c.facing (ts ++ rest) line) = .ok (a, c'.facing rest line))
    fun e => e.Apart ∨ ∃ ts rest, c.tokens = ts ++ rest ∧ Due ahead c.names ts rest e ∧
      ∀ rest' line, rest'.head? = rest.head? → step (c.facing (ts ++ rest') line) = .error e

/-- The lookahead is of the same kind where what may be it is. -/
theorem kindOf_append_eq {c : Cursor} {ts rest rest' : List Token} (hts : c.tokens = ts ++ rest)
    (h : kindOf rest' = kindOf rest) : kindOf (ts ++ rest') = c.kind? := by
  show kindOf (ts ++ rest') = kindOf c.tokens
  rw [hts]
  cases ts with
  | nil => exact h
  | cons t ts => rfl

section Timely

variable {ahead ahead' : Prospect} {step : Step α} {next : α → Step β} {c : Cursor}

theorem Timely.mono (h : Timely ahead step c) (ha : ∀ ts ms, ahead ts ms → ahead' ts ms) :
    Timely ahead' step c := by
  refine Meets.mono h (fun _ _ ht => ht) fun e => Or.imp_right ?_
  rintro ⟨ts, rest, hts, hd, hrun⟩
  exact ⟨ts, rest, hts, hd.mono ha, hrun⟩

/-- **One behind the other, timely steps are timely.** -/
theorem Timely.bind (h : Timely ahead step c)
    (hn : Ensures step c fun a c' => ∃ ts ms, Passes c ts ms c' ∧
      Timely (ahead.after ts ms) (next a) c') : Timely ahead (step >>= next) c := by
  unfold Timely
  rw [meets_bind]
  refine (Meets.and h hn).mono ?_ ?_
  · rintro a c₁ ⟨⟨ts, hts, hrun⟩, ts', ms, hp, hnext⟩
    obtain rfl : ts = ts' := List.append_cancel_right (hts.symm.trans hp.tokens)
    refine Meets.mono hnext ?_ fun e => Or.imp_right ?_
    · rintro b c₂ ⟨us, hus, hrun'⟩
      refine ⟨ts ++ us, by rw [hts, hus, List.append_assoc], fun rest line hrest => ?_⟩
      rw [List.append_assoc, run_bind_of_ok (hrun _ line (kindOf_append_eq hus hrest))]
      exact hrun' rest line hrest
    · rintro ⟨us, rest, hus, hdue, hrun'⟩
      refine ⟨ts ++ us, rest, by rw [hts, hus, List.append_assoc], hdue.behind hp,
        fun rest' line hrest => ?_⟩
      have hkind : kindOf rest' = kindOf rest := congrArg (Option.map Token.kind) hrest
      rw [List.append_assoc, run_bind_of_ok (hrun _ line (kindOf_append_eq hus hkind))]
      exact hrun' rest' line hrest
  · rintro e ⟨hstep, -⟩
    refine hstep.imp_right ?_
    rintro ⟨ts, rest, hts, hdue, hrun⟩
    exact ⟨ts, rest, hts, hdue, fun rest' line hrest => run_bind_of_error (hrun rest' line hrest)⟩

theorem Timely.map (h : Timely ahead step c) (f : α → β) :
    Timely ahead (step >>= fun a => pure (f a)) c := by
  unfold Timely
  rw [meets_bind]
  refine Meets.mono h ?_ fun e => Or.imp_right ?_
  · rintro a c₁ ⟨ts, hts, hrun⟩
    exact ⟨ts, hts, fun rest line hrest => run_bind_of_ok (hrun rest line hrest)⟩
  · rintro ⟨ts, rest, hts, hdue, hrun⟩
    exact ⟨ts, rest, hts, hdue, fun rest' line hrest => run_bind_of_error (hrun rest' line hrest)⟩

/-! ### Moves -/

theorem timely_of_apart {e : ParseError} (h : step c = .error e) (he : e.Apart) :
    Timely ahead step c := by
  unfold Timely Meets
  rw [h]
  exact .inl he

theorem timely_of_ok {a : α} {c' : Cursor} (ts : List Token) (h : step c = .ok (a, c'))
    (hts : c.tokens = ts ++ c'.tokens)
    (hrun : ∀ rest line, kindOf rest = c'.kind? →
      step (c.facing (ts ++ rest) line) = .ok (a, c'.facing rest line)) :
    Timely ahead step c := by
  unfold Timely Meets
  rw [h]
  exact ⟨ts, hts, hrun⟩

theorem timely_of_due {e : ParseError} (ts rest : List Token) (h : step c = .error e)
    (hts : c.tokens = ts ++ rest) (hdue : Due ahead c.names ts rest e)
    (hrun : ∀ rest' line, rest'.head? = rest.head? →
      step (c.facing (ts ++ rest') line) = .error e) : Timely ahead step c := by
  unfold Timely Meets
  rw [h]
  exact .inr ⟨ts, rest, hts, hdue, hrun⟩

theorem timely_pure (a : α) : Timely ahead (pure a) c :=
  ⟨[], rfl, fun _ _ _ => rfl⟩

theorem timely_peek {next : Option TokenKind → Step β} (h : Timely ahead (next c.kind?) c) :
    Timely ahead (peek >>= next) c := by
  have hpeek : Timely ahead peek c := by
    refine timely_of_ok [] rfl rfl fun rest line hrest => ?_
    show Except.ok (kindOf rest, c.facing rest line) = _
    rw [hrest]
  exact hpeek.bind ⟨[], [], .refl c, h⟩

theorem timely_isAt {kind : TokenKind} {next : Bool → Step β}
    (h : Timely ahead (next (decide (c.kind? = some kind))) c) :
    Timely ahead (isAt kind >>= next) c := by
  show Timely ahead (peek >>= fun kind' => next (decide (kind' = some kind))) c
  exact timely_peek h

theorem timely_refuse (h : ahead [] []) : Timely ahead (refuse : Step α) c := by
  refine .inr ⟨[], c.tokens, rfl, ?_, fun rest line hrest => ?_⟩
  · rw [c.unexpected_eq]
    exact .unexpected _ h rfl
  · show Except.error (c.facing rest line).unexpected = _
    rw [Cursor.unexpected_eq, Cursor.unexpected_eq]
    exact congrArg _ (unexpectedAt_congr hrest)

theorem timely_refuseDepth : Timely ahead (refuseDepth : Step α) c :=
  .inl trivial

theorem run_advance {t : Token} {rest : List Token} (ht : c.tokens = t :: rest) :
    (∃ e, advance c = .error (.lexical e)) ∨ advance c = .ok (t, { c with tokens := rest }) := by
  obtain ⟨tokens, ending, names, checks, depth, level⟩ := c
  obtain rfl : tokens = t :: rest := ht
  cases rest with
  | nil =>
    cases ending with
    | complete line => exact .inr rfl
    | unrecognised e => exact .inl ⟨e, rfl⟩
  | cons u rest => exact .inr rfl

theorem run_advance_facing {t : Token} {rest : List Token} {line : Nat} :
    advance (c.facing (t :: rest) line) = .ok (t, c.facing rest line) := by
  cases rest <;> rfl

theorem timely_advance {kind : TokenKind} (hk : c.kind? = some kind) : Timely ahead advance c := by
  obtain ⟨t, rest, ht, -⟩ := Cursor.kind?_eq_some.mp hk
  rcases run_advance ht with ⟨e, hrun⟩ | hrun
  · exact timely_of_apart hrun trivial
  · exact timely_of_ok [t] hrun ht fun rest' line _ => run_advance_facing

theorem timely_advance_bind {kind : TokenKind} {next : Token → Step β} (hk : c.kind? = some kind)
    (hn : ∀ t rest, c.tokens = t :: rest → t.kind = kind →
      Timely (ahead.after [t] []) (next t) { c with tokens := rest }) :
    Timely ahead (advance >>= next) c :=
  (timely_advance hk).bind (ensures_advance hk fun t rest ht htk =>
    ⟨[t], [], .token ht, hn t rest ht htk⟩)

theorem timely_consume_bind {kind : TokenKind} {next : Token → Step β} (h : ahead [] [])
    (hn : ∀ t rest, c.tokens = t :: rest → t.kind = kind →
      Timely (ahead.after [t] []) (next t) { c with tokens := rest }) :
    Timely ahead (consume kind >>= next) c := by
  unfold consume
  rw [bind_assoc]
  refine timely_isAt ?_
  by_cases hk : c.kind? = some kind
  · rw [decide_eq_true hk]
    exact timely_advance_bind hk hn
  · rw [decide_eq_false hk]
    exact (timely_refuse h).bind trivial

theorem timely_word_bind {meaning? : TokenKind → Option α} (h : ahead [] [])
    (hn : ∀ t rest a, c.tokens = t :: rest → meaning? t.kind = some a →
      Timely (ahead.after [t] []) (next a) { c with tokens := rest }) :
    Timely ahead (word meaning? >>= next) c := by
  unfold word
  rw [bind_assoc]
  refine timely_peek ?_
  cases ha : c.kind?.bind meaning? with
  | none => exact (timely_refuse h).bind trivial
  | some a =>
    obtain ⟨kind, hk, ha⟩ := Option.bind_eq_some_iff.mp ha
    rw [bind_assoc]
    exact timely_advance_bind hk fun t rest ht htk => hn t rest a ht (htk ▸ ha)

/-- A name is consumed and looked up before anything else. -/
def declaredName : Step Token := do
  let t ← advance
  checkDeclared t
  return t

theorem run_declaredName {t : Token} (h : advance c = .ok (t, c')) :
    declaredName c = if c'.names.contains t.text then .ok (t, c') else
      .error (.undefinedName t.text t.line) := by
  unfold declaredName
  rw [run_bind_of_ok h, run_eq_iff, meets_bind, meets_checkDeclared]
  split <;> rfl

/-- Where a name is not declared, the error is due in front of it. -/
theorem timely_declaredName (hk : c.kind? = some .identifier) (h : ahead [] [])
    (hread : ∀ t, t.kind = .identifier → ahead [t] [.read t]) : Timely ahead declaredName c := by
  obtain ⟨t, rest, ht, htk⟩ := Cursor.kind?_eq_some.mp hk
  rcases run_advance ht with ⟨e, hrun⟩ | hrun
  · exact timely_of_apart (run_bind_of_error hrun) trivial
  · by_cases hn : c.names.contains t.text = true
    · refine timely_of_ok [t] ((run_declaredName hrun).trans (if_pos hn)) ht fun rest' line _ => ?_
      exact (run_declaredName run_advance_facing).trans (if_pos hn)
    · refine timely_of_due [] _ ((run_declaredName hrun).trans (if_neg hn)) ht
        (.undeclared rest h rfl htk (hread t htk)) fun rest' line hrest => ?_
      obtain ⟨us, rfl⟩ := List.head?_eq_some_iff.mp hrest
      exact (run_declaredName run_advance_facing).trans (if_neg hn)

theorem timely_name_bind {next : Token → Step β} (hk : c.kind? = some .identifier)
    (h : ahead [] []) (hread : ∀ t, t.kind = .identifier → ahead [t] [.read t])
    (hn : ∀ t rest, c.tokens = t :: rest → t.kind = .identifier →
      Timely (ahead.after [t] [.read t]) (next t) { c with tokens := rest }) :
    Timely ahead (advance >>= fun t => checkDeclared t >>= fun _ => next t) c := by
  have hsplit : (advance >>= fun t => checkDeclared t >>= fun _ => next t) =
      declaredName >>= next := by
    unfold declaredName
    simp only [bind_assoc, pure_bind]
  rw [hsplit]
  refine (timely_declaredName hk h hread).bind ?_
  unfold declaredName
  rw [Ensures, meets_bind]
  refine ensures_advance hk fun t rest ht htk => ?_
  rw [meets_bind, meets_checkDeclared]
  split
  · next hd =>
    have hms : missing? c.names [t] = none := by
      rw [missing?_cons_identifier _ _ htk]
      exact if_pos hd
    have hp : Passes c [t] (readsOf [t]) { c with tokens := rest } := .reads ht hms
    rw [readsOf_cons_identifier _ htk] at hp
    exact ⟨[t], [.read t], hp, hn t rest ht htk⟩
  · trivial

theorem timely_place (e : Expr) (height : Nat) : Timely ahead (place e height) c := by
  have hrun (d : Cursor) : place e height d = if d.level + (height + 1) > maxDepth then
      .error (.nestingTooDeep d.line) else .ok (⟨e, height + 1⟩, d) := by
    rw [run_eq_iff, meets_place]
    split <;> rfl
  by_cases hdeep : c.level + (height + 1) > maxDepth
  · exact timely_of_apart ((hrun c).trans (if_pos hdeep)) trivial
  · exact timely_of_ok [] ((hrun c).trans (if_neg hdeep)) rfl fun rest line _ =>
      (hrun _).trans (if_neg hdeep)

theorem timely_place_bind {e : Expr} {height : Nat} {next : Node → Step β}
    (hn : Timely ahead (next ⟨e, height + 1⟩) c) : Timely ahead (place e height >>= next) c := by
  refine (timely_place e height).bind ?_
  rw [Ensures, meets_place]
  split
  · trivial
  · exact ⟨[], [], .refl c, hn⟩

theorem timely_declare_bind {t : Token} {next : Unit → Step β}
    (hn : Timely (ahead.after [] [.declare t]) (next ())
      { c with names := c.names.declare t.text }) : Timely ahead (declare t.text >>= next) c := by
  have hdeclare : Timely ahead (declare t.text) c :=
    timely_of_ok [] rfl rfl fun _ _ _ => rfl
  exact hdeclare.bind ⟨[], [.declare t], .declare t, hn⟩

/-- The interrupt stops the reading. -/
theorem run_consult_of_stop {interrupt : Interrupt} {reason : Interrupted}
    (h : interrupt.check c.checks = some reason) :
    consult interrupt c = .error (.interrupted reason) := by
  rw [run_eq_iff, consult, meets_bind, meets_get, meets_bind, meets_set, h]
  rfl

/-- The interrupt lets the reading go on. -/
theorem run_consult_of_pass {interrupt : Interrupt} (h : interrupt.check c.checks = none) :
    consult interrupt c = .ok ((), { c with checks := c.checks + 1 }) := by
  rw [run_eq_iff, consult, meets_bind, meets_get, meets_bind, meets_set, h]
  rfl

theorem timely_consult (interrupt : Interrupt) : Timely ahead (consult interrupt) c := by
  cases hcheck : interrupt.check c.checks with
  | some reason => exact timely_of_apart (run_consult_of_stop hcheck) trivial
  | none =>
    exact timely_of_ok [] (run_consult_of_pass hcheck) rfl fun _ _ _ => run_consult_of_pass hcheck

theorem timely_consult_bind {interrupt : Interrupt} {next : Unit → Step β}
    (hn : Timely ahead (next ()) { c with checks := c.checks + 1 }) :
    Timely ahead (consult interrupt >>= next) c := by
  refine (timely_consult interrupt).bind (ensures_consult ⟨[], [], ?_, hn⟩)
  exact ⟨rfl, rfl, rfl, rfl, rfl, rfl⟩

/-! ### Nestings and levels -/

/-- A run is timely if it is another one's, up to counters that are lowered at its end. -/
theorem Timely.lowered {inner : Step α} {c' : Cursor} (h : Timely ahead inner c')
    (lower : Cursor → Cursor) (htokens : c'.tokens = c.tokens) (hnames : c'.names = c.names)
    (hrun : step c = (inner c').map fun r => (r.1, lower r.2))
    (hrun' : ∀ ts line, step (c.facing ts line) =
      (inner (c'.facing ts line)).map fun r => (r.1, lower r.2))
    (hlower : ∀ d, (lower d).tokens = d.tokens ∧
      ∀ ts line, lower (d.facing ts line) = (lower d).facing ts line) : Timely ahead step c := by
  unfold Timely Meets at h
  cases hi : inner c' with
  | ok r =>
    obtain ⟨a, c₁⟩ := r
    rw [hi] at h hrun
    obtain ⟨ts, hts, hinner⟩ := h
    refine timely_of_ok ts hrun (by rw [← htokens, (hlower c₁).1, hts]) fun rest line hrest => ?_
    have hkind : kindOf rest = c₁.kind? := by
      rw [hrest, Cursor.kind?, (hlower c₁).1]
      rfl
    rw [hrun', hinner rest line hkind, ← (hlower c₁).2]
    rfl
  | error e =>
    rw [hi] at h hrun
    rcases h with he | ⟨ts, rest, hts, hdue, hinner⟩
    · exact timely_of_apart hrun he
    · refine timely_of_due ts rest hrun (htokens ▸ hts) (hnames ▸ hdue) fun rest' line hrest => ?_
      rw [hrun', hinner rest' line hrest]
      rfl

theorem run_nested (step : Step α) (d : Cursor) : nested step d =
    if d.depth + 1 > maxDepth then .error (.nestingTooDeep d.line)
    else (step { d with depth := d.depth + 1 }).map fun r =>
      (r.1, { r.2 with depth := r.2.depth - 1 }) := by
  rw [run_eq_iff, meets_nested]
  split
  · rfl
  · unfold Meets
    cases step _ <;> rfl

theorem Timely.nested (h : Timely ahead step { c with depth := c.depth + 1 }) :
    Timely ahead (nested step) c := by
  by_cases hdepth : c.depth + 1 > maxDepth
  · exact timely_of_apart ((run_nested step c).trans (if_pos hdepth)) trivial
  · exact h.lowered (fun d => { d with depth := d.depth - 1 }) rfl rfl
      ((run_nested step c).trans (if_neg hdepth))
      (fun _ _ => (run_nested step _).trans (if_neg hdepth)) fun _ => ⟨rfl, fun _ _ => rfl⟩

theorem run_descended (step : Step α) (d : Cursor) : descended step d =
    if d.level + 1 > maxDepth then .error (.nestingTooDeep d.line)
    else (step { d with level := d.level + 1 }).map fun r =>
      (r.1, { r.2 with level := r.2.level - 1 }) := by
  unfold descended
  rw [run_eq_iff, meets_bind, meets_descend]
  split
  · rfl
  · rw [meets_bind]
    unfold Meets
    cases step _ <;> rfl

theorem Timely.descended (h : c.level + 1 ≤ maxDepth →
    Timely ahead step { c with level := c.level + 1 }) : Timely ahead (descended step) c := by
  by_cases hlevel : c.level + 1 > maxDepth
  · exact timely_of_apart ((run_descended step c).trans (if_pos hlevel)) trivial
  · exact (h (Nat.le_of_not_lt hlevel)).lowered (fun d => { d with level := d.level - 1 }) rfl rfl
      ((run_descended step c).trans (if_neg hlevel))
      (fun _ _ => (run_descended step _).trans (if_neg hlevel)) fun _ => ⟨rfl, fun _ _ => rfl⟩

end Timely

end Grammar
end MathScript
