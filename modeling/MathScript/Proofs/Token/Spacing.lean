import MathScript.Proofs.Token.Reserved

/-!
# Tokens with spaces behind them

No rule looks further than the character behind what it matches, and to all of them a
character that can only start something new is as good there as the end of the text.  So a
text that is one token alone is that token in front of a separator too, and tokens that are
written with spaces behind them are read back.

* `EndsToken`: no token goes on over the character, as with those that separators start with.
* `firstToken?_append`: **a token stays what it is in front of what ends it**.
* `scan_spaced_append`, `tokenize_spaced`: tokens written with spaces behind them are read
  back.
-/

namespace MathScript

/-! ## In front of a separator -/

/-- A run stops where it meets what it does not take. -/
theorem takeWhile_append_stop {p : Char → Bool} {c : Char} (hc : p c = false)
    (cs rest : List Char) : (cs ++ c :: rest).takeWhile p = cs.takeWhile p := by
  induction cs with
  | nil => exact List.takeWhile_cons_of_neg (by simp [hc])
  | cons d cs ih => rw [List.cons_append, List.takeWhile_cons, List.takeWhile_cons, ih]

theorem isPrefixOf_append {c : Char} {chars : List Char} (h : c ∉ chars) (cs rest : List Char) :
    chars.isPrefixOf (cs ++ c :: rest) = chars.isPrefixOf cs := by
  induction chars generalizing cs with
  | nil => simp
  | cons d chars ih =>
    rw [List.mem_cons, not_or] at h
    cases cs with
    | nil =>
      rw [List.nil_append, List.isPrefixOf_cons_cons, beq_eq_false_iff_ne.mpr (Ne.symm h.1)]
      rfl
    | cons e cs =>
      rw [List.cons_append, List.isPrefixOf_cons_cons, List.isPrefixOf_cons_cons, ih h.2 cs]

theorem findSome?_congr {α β : Type} {f g : α → Option β} {as : List α}
    (h : ∀ a ∈ as, f a = g a) : as.findSome? f = as.findSome? g := by
  induction as with
  | nil => rfl
  | cons a as ih =>
    obtain ⟨ha, has⟩ := List.forall_mem_cons.mp h
    rw [List.findSome?_cons, List.findSome?_cons, ha, ih has]

/-- A string literal ends at its own quote. -/
theorem quoted_append {cs : List Char} {n : Nat} (h : Pattern.length? .quoted cs = some n)
    (rest : List Char) : Pattern.length? .quoted (cs ++ rest) = some n := by
  obtain ⟨body, tail, rfl, hbody, rfl⟩ := quotedLength?_eq_some.mp h
  rw [Pattern.length?]
  refine quotedLength?_eq_some.mpr ⟨body, tail ++ rest, ?_, hbody, rfl⟩
  simp

/-- A string literal starts with a quote. -/
theorem quoted_eq_none {d : Char} (hd : d ≠ '"') (cs : List Char) :
    Pattern.length? .quoted (d :: cs) = none := by
  rw [Pattern.length?, Pattern.quotedLength?]
  simp [hd]

/-- A quote starts nothing but string literals. -/
theorem length?_quote {pattern : Pattern} (hp : pattern.proper = true) (hq : pattern ≠ .quoted)
    (cs : List Char) : pattern.length? ('"' :: cs) = none := by
  cases pattern with
  | quoted => exact absurd rfl hq
  | keyword word =>
    obtain ⟨hne, hlower⟩ := keyword_proper hp
    cases word with
    | nil => exact absurd rfl hne
    | cons d word =>
      have hd : foldLetter '"' ≠ d := by
        rintro rfl
        exact absurd (hlower _ List.mem_cons_self) (by decide)
      simp [Pattern.length?, hd]
  | name => rfl
  | number => rfl
  | symbol chars =>
    obtain ⟨hne, hchars⟩ := symbol_proper hp
    cases chars with
    | nil => exact absurd rfl hne
    | cons d chars =>
      have hd : d ≠ '"' := (hchars d List.mem_cons_self).2.2
      simp [Pattern.length?, List.isPrefixOf_cons_cons, hd]

/-- No token goes on over the character. -/
structure EndsToken (c : Char) : Prop where
  word : Text.isWord c = false
  name : isNameChar c = false
  letter : (foldLetter c).isLower = false
  digit : c.isDigit = false
  point : c ≠ '.'
  equals : c ≠ '='

theorem endsToken_of_mem_gapHeads {c : Char} (h : c ∈ gapHeads) : EndsToken c := by
  obtain ⟨hword, hname, hletter, hdigit, hpoint, -⟩ := gapHead_spec h
  have hequals : c ≠ '=' := by
    rintro rfl
    exact absurd h (by decide)
  exact ⟨hword, hname, hletter, hdigit, hpoint, hequals⟩

theorem endsToken_semicolon : EndsToken ';' :=
  ⟨by decide, by decide, by decide, by decide, by decide, by decide⟩

/-- Nothing but an equals sign goes on in a symbol. -/
theorem eq_of_mem_tail_symbol {kind : TokenKind} {chars : List Char}
    (h : (kind, Pattern.symbol chars) ∈ tokenRules) : ∀ d ∈ chars.tail, d = '=' := by
  have hall : (tokenRules.all fun r => match r.2 with
      | .symbol chars => chars.tail.all fun d => d == '='
      | _ => true) = true := by decide
  have hchars := List.all_eq_true.mp hall _ h
  simpa using hchars

section Behind

variable {c : Char} (hc : EndsToken c) (cs rest : List Char)
include hc

theorem endsWord_append : Pattern.endsWord (cs ++ c :: rest) = Pattern.endsWord cs := by
  cases cs with
  | nil => simp [Pattern.endsWord, hc.word]
  | cons d cs => rfl

theorem keyword_append {word : List Char} (hw : (Pattern.keyword word).proper = true) :
    Pattern.length? (.keyword word) (cs ++ c :: rest) = Pattern.length? (.keyword word) cs := by
  obtain ⟨-, hlower⟩ := keyword_proper hw
  rw [Pattern.length?, Pattern.length?]
  by_cases hle : word.length ≤ cs.length
  · rw [List.take_append_of_le_length hle, List.drop_append_of_le_length hle, endsWord_append hc]
  · -- the word would have to go on over the character
    have hover : ((cs ++ c :: rest).take word.length).map foldLetter ≠ word := by
      intro hfold
      have hmem : c ∈ (cs ++ c :: rest).take word.length := by
        rw [List.take_append, List.take_cons (by omega)]
        simp
      have hfolded := List.mem_map_of_mem (f := foldLetter) hmem
      rw [hfold] at hfolded
      have hl := hlower _ hfolded
      rw [hc.letter] at hl
      cases hl
    have hshort : (cs.take word.length).map foldLetter ≠ word := by
      intro hfold
      have hlength := congrArg List.length hfold
      rw [List.length_map, List.length_take] at hlength
      omega
    rw [decide_eq_false hover, decide_eq_false hshort]
    rfl

theorem name_append :
    Pattern.length? .name (cs ++ c :: rest) = Pattern.length? .name cs := by
  cases cs with
  | nil =>
    have hstart : isNameStart c = false := (Bool.or_eq_false_iff.mp hc.name).1
    simp [Pattern.length?, hstart]
  | cons d cs =>
    have hrun : ((cs ++ c :: rest).take (maxNameLength - 1)).takeWhile isNameChar =
        (cs.take (maxNameLength - 1)).takeWhile isNameChar := by
      rw [List.take_append]
      cases (maxNameLength - 1) - cs.length with
      | zero => rw [List.take_zero, List.append_nil]
      | succ n => exact takeWhile_append_stop hc.name _ _
    rw [List.cons_append, Pattern.length?, Pattern.length?]
    simp only [hrun]

theorem number_append :
    Pattern.length? .number (cs ++ c :: rest) = Pattern.length? .number cs := by
  have hwhole : (cs.takeWhile Char.isDigit).length ≤ cs.length :=
    (List.takeWhile_prefix Char.isDigit).length_le
  rw [Pattern.length?, Pattern.length?, Pattern.numberLength?, Pattern.numberLength?,
    takeWhile_append_stop hc.digit]
  split
  · rfl
  · rw [List.drop_append_of_le_length hwhole]
    generalize cs.drop (cs.takeWhile Char.isDigit).length = ds
    cases ds with
    | nil => simp [hc.point]
    | cons d ds =>
      by_cases hd : d = '.'
      · subst hd
        simp only [List.cons_append, takeWhile_append_stop hc.digit]
      · simp [hd]

/-- What ends a symbol may start another one, so there has to be something in front. -/
theorem symbol_append {kind : TokenKind} {chars : List Char}
    (hs : (kind, Pattern.symbol chars) ∈ tokenRules) (hcs : cs ≠ []) :
    Pattern.length? (.symbol chars) (cs ++ c :: rest) = Pattern.length? (.symbol chars) cs := by
  have hmem : c ∉ chars.tail := fun h => hc.equals (eq_of_mem_tail_symbol hs c h)
  have hprefix : chars.isPrefixOf (cs ++ c :: rest) = chars.isPrefixOf cs := by
    cases cs with
    | nil => exact absurd rfl hcs
    | cons e cs =>
      cases chars with
      | nil => simp
      | cons d chars =>
        have htail : chars.isPrefixOf (cs ++ c :: rest) = chars.isPrefixOf cs :=
          isPrefixOf_append hmem cs rest
        rw [List.cons_append, List.isPrefixOf_cons_cons, List.isPrefixOf_cons_cons, htail]
  rw [Pattern.length?, Pattern.length?, hprefix]

/-- **No rule but the one for string literals sees the difference** between what ends a
token and the end of the text. -/
theorem length?_append {r : TokenKind × Pattern} (hr : r ∈ tokenRules) (hq : r.2 ≠ .quoted)
    (hcs : cs ≠ []) : r.2.length? (cs ++ c :: rest) = r.2.length? cs := by
  obtain ⟨kind, pattern⟩ := r
  cases pattern with
  | quoted => exact absurd rfl hq
  | keyword word => exact keyword_append hc cs rest (proper_of_mem _ hr)
  | name => exact name_append hc cs rest
  | number => exact number_append hc cs rest
  | symbol chars => exact symbol_append hc cs rest hr hcs

/-- **A token stays what it is in front of what ends it.** -/
theorem firstToken?_append {r : TokenKind × Nat} (h : firstToken? cs = some r) :
    firstToken? (cs ++ c :: rest) = some r := by
  have hcs : cs ≠ [] := by
    rintro rfl
    cases h
  have hrules : tokenRules = (.stringLiteral, .quoted) :: tokenRules.tail := rfl
  have hother : ∀ r ∈ tokenRules.tail, r ∈ tokenRules ∧ r.2 ≠ .quoted := by
    intro r hr
    have hall : (tokenRules.tail.all fun r => r.2 != .quoted) = true := by decide
    exact ⟨List.mem_of_mem_tail hr, bne_iff_ne.mp (List.all_eq_true.mp hall r hr)⟩
  have htail : tokenRules.tail.findSome?
        (fun r => (r.2.length? (cs ++ c :: rest)).map fun n => (r.1, n)) =
      tokenRules.tail.findSome? fun r => (r.2.length? cs).map fun n => (r.1, n) :=
    findSome?_congr fun r hr => by
      rw [length?_append hc cs rest (hother r hr).1 (hother r hr).2 hcs]
  unfold firstToken? at h ⊢
  rw [hrules, List.findSome?_cons] at h ⊢
  rw [htail]
  cases hquoted : Pattern.length? .quoted cs with
  | some n =>
    rw [hquoted] at h
    rw [quoted_append hquoted]
    exact h
  | none =>
    rw [hquoted] at h
    -- another rule matches, so the text does not start with a quote
    cases cs with
    | nil => exact absurd rfl hcs
    | cons d cs =>
      have hd : d ≠ '"' := by
        rintro rfl
        have hnone : tokenRules.tail.findSome?
            (fun r => (r.2.length? ('"' :: cs)).map fun n => (r.1, n)) = none :=
          List.findSome?_eq_none_iff.mpr fun r hr => by
            rw [length?_quote (proper_of_mem r (hother r hr).1) (hother r hr).2]
            rfl
        rw [hnone] at h
        cases h
      rw [List.cons_append, quoted_eq_none hd]
      exact h

end Behind

/-! ## Single tokens -/

/-- The text of the token is this token, alone. -/
def Token.Alone (t : Token) : Prop :=
  firstToken? t.text.toList = some (t.kind, t.text.toList.length)

/-- A rule decides where none in front of it matches. -/
theorem firstToken?_eq {before after : List (TokenKind × Pattern)} {kind : TokenKind}
    {pattern : Pattern} {cs : List Char} {n : Nat}
    (hrules : tokenRules = before ++ (kind, pattern) :: after)
    (hbefore : ∀ r ∈ before, r.2.length? cs = none) (hn : pattern.length? cs = some n) :
    firstToken? cs = some (kind, n) := by
  have hnone : before.findSome? (fun r => (r.2.length? cs).map fun n => (r.1, n)) = none :=
    List.findSome?_eq_none_iff.mpr fun r hr => by rw [hbefore r hr]; rfl
  unfold firstToken?
  rw [hrules, List.findSome?_append, hnone, List.findSome?_cons, hn]
  rfl

theorem cases_of_mem_rulesBeforeName :
    ∀ r ∈ rulesBeforeName, r.2 = .quoted ∨ ∃ word ∈ reservedWords, r.2 = .keyword word := by
  decide

theorem isNameStart_of_ascii {c : Char} (h : c = '_' ∨ c.isAlpha = true) :
    isNameStart c = true := by
  rcases h with rfl | h
  · decide
  · have hs : c ≠ '\u017F' := by
      rintro rfl
      exact absurd h (by decide)
    have hk : c ≠ '\u212A' := by
      rintro rfl
      exact absurd h (by decide)
    rw [isNameStart, foldLetter, if_neg hs, if_neg hk, Char.isLower_toLower_eq_isAlpha, h,
      Bool.or_true]

theorem isNameChar_of_ascii {c : Char} (h : c = '_' ∨ c.isAlphanum = true) :
    isNameChar c = true ∧ Text.isWord c = true := by
  constructor
  · rw [isNameChar]
    rw [Char.isAlphanum, Bool.or_eq_true, ← or_assoc] at h
    rcases h with h | h
    · rw [isNameStart_of_ascii h, Bool.true_or]
    · rw [h, Bool.or_true]
  · rcases h with rfl | h
    · decide
    · rw [Text.isWord, if_pos (toNat_lt_of_isAlphanum h), h, Bool.true_or]

/-- A name is matched whole. -/
theorem name_eq_length {c : Char} {cs : List Char} (hc : isNameStart c = true)
    (hcs : ∀ d ∈ cs, isNameChar d = true) (hlength : cs.length ≤ maxNameLength - 1) :
    Pattern.length? .name (c :: cs) = some (c :: cs).length := by
  have hrun : (cs.take (maxNameLength - 1)).takeWhile isNameChar = cs := by
    rw [List.take_of_length_le hlength]
    exact List.takeWhile_eq_self_iff.mpr hcs
  rw [Pattern.length?, if_pos hc, hrun, List.length_cons, Nat.add_comm]

/-- **An ASCII name that is not reserved is an identifier.** -/
theorem firstToken?_name {name : String} (h : IsAsciiName name) (hr : ¬IsReserved name) :
    firstToken? name.toList = some (.identifier, name.toList.length) := by
  obtain ⟨c, cs, hname, hc, hcs, hlength⟩ := h
  have hstart : isNameStart c = true := isNameStart_of_ascii hc
  have hword : ∀ d ∈ c :: cs, Text.isWord d = true := by
    refine List.forall_mem_cons.mpr ⟨(isNameChar_of_ascii ?_).2, fun d hd =>
      (isNameChar_of_ascii (hcs d hd)).2⟩
    refine hc.imp_right fun ha => ?_
    rw [Char.isAlphanum, ha, Bool.true_or]
  rw [IsReserved, hname] at hr
  rw [hname]
  refine firstToken?_eq (List.take_append_drop 14 tokenRules).symm (fun r hrule => ?_) ?_
  · rcases cases_of_mem_rulesBeforeName r hrule with hq | ⟨word, hmem, hk⟩
    · rw [hq]
      refine quoted_eq_none ?_ cs
      rintro rfl
      exact absurd hstart (by decide)
    · -- a keyword in front of another word character is none, and the whole name is not reserved
      rw [hk, Pattern.length?]
      refine if_neg fun hmatch => ?_
      obtain ⟨hfold, hend⟩ := Bool.and_eq_true_iff.mp hmatch
      have hfold := of_decide_eq_true hfold
      cases hrest : (c :: cs).drop word.length with
      | nil =>
        rw [List.take_of_length_le (List.drop_eq_nil_iff.mp hrest)] at hfold
        exact hr (hfold ▸ hmem)
      | cons d ds =>
        have hd : d ∈ c :: cs := List.mem_of_mem_drop (hrest ▸ List.mem_cons_self)
        rw [hrest, Pattern.endsWord, hword d hd] at hend
        cases hend
  · exact name_eq_length hstart (fun d hd => (isNameChar_of_ascii (hcs d hd)).1) hlength

theorem isNameStart_of_isDigit {c : Char} (h : c.isDigit = true) : isNameStart c = false := by
  rw [← Bool.not_eq_true]
  intro hs
  rcases cases_of_isNameStart hs with rfl | ha | rfl | rfl
  · exact absurd h (by decide)
  · simp only [Char.isAlpha, Char.isUpper, Char.isLower, Char.isDigit, Bool.or_eq_true,
      Bool.and_eq_true, decide_eq_true_eq, ge_iff_le, UInt32.le_iff_toNat_le] at h ha
    have ha' : 'A'.val.toNat = 65 := rfl
    have hz : 'a'.val.toNat = 97 := rfl
    have hn : '9'.val.toNat = 57 := rfl
    omega
  · exact absurd h (by decide)
  · exact absurd h (by decide)

theorem numberLength?_eq_length {text : String} (h : IsNumeral text) :
    Pattern.numberLength? text.toList = some text.toList.length := by
  have hrun : ∀ {cs : List Char}, IsDigits cs → cs.takeWhile Char.isDigit = cs := fun hcs =>
    List.takeWhile_eq_self_iff.mpr hcs.2
  have hpos : ∀ {cs : List Char}, IsDigits cs → cs.length ≠ 0 := fun hcs hz =>
    hcs.1 (List.length_eq_zero_iff.mp hz)
  unfold Pattern.numberLength?
  obtain ⟨whole, hw, he | ⟨fraction, hf, he⟩⟩ := h
  · rw [he, hrun hw]
    split
    · next hz => exact absurd hz (hpos hw)
    · rw [List.drop_length]
  · have hwhole : (whole ++ '.' :: fraction).takeWhile Char.isDigit = whole := by
      rw [takeWhile_append_stop (by decide), hrun hw]
    rw [he, hwhole]
    split
    · next hz => exact absurd hz (hpos hw)
    · simp only [List.drop_left, hrun hf]
      split
      · next hz => exact absurd hz (hpos hf)
      · rw [List.length_append, List.length_cons]
        congr 1
        omega

/-- **A numeral is a number.** -/
theorem firstToken?_numeral {text : String} (h : IsNumeral text) :
    firstToken? text.toList = some (.number, text.toList.length) := by
  obtain ⟨d, ds, htext, hd⟩ : ∃ d ds, text.toList = d :: ds ∧ d.isDigit = true := by
    obtain ⟨whole, hw, he⟩ := h
    obtain ⟨d, ds, rfl⟩ := List.exists_cons_of_ne_nil hw.1
    rcases he with he | ⟨fraction, -, he⟩
    · exact ⟨d, ds, he, hw.2 d List.mem_cons_self⟩
    · exact ⟨d, _, he, hw.2 d List.mem_cons_self⟩
  have hstart := isNameStart_of_isDigit hd
  have hlength : Pattern.length? .number text.toList = some text.toList.length := by
    rw [Pattern.length?, numberLength?_eq_length h]
  refine firstToken?_eq (List.take_append_drop 15 tokenRules).symm (fun r hrule => ?_) hlength
  have hbefore : tokenRules.take 15 = rulesBeforeName ++ [(.identifier, .name)] := rfl
  rw [hbefore, List.mem_append, List.mem_singleton] at hrule
  rw [htext]
  rcases hrule with hrule | rfl
  · rcases cases_of_mem_rulesBeforeName r hrule with hq | ⟨word, hmem, hk⟩
    · rw [hq]
      refine quoted_eq_none ?_ ds
      rintro rfl
      exact absurd hd (by decide)
    · have hproper := proper_of_mem r (List.mem_of_mem_take hrule)
      rw [hk] at hproper ⊢
      refine Option.eq_none_iff_forall_ne_some.mpr fun n hn => ?_
      rw [isNameStart_of_keyword hproper hn] at hstart
      cases hstart
  · rw [Pattern.length?, hstart]
    rfl

/-- **What is quotable, between quotes, is a string literal.** -/
theorem firstToken?_quoted {body : List Char} (h : IsQuotable body) :
    firstToken? ('"' :: (body ++ ['"'])) = some (.stringLiteral, body.length + 2) := by
  have hquoted : Pattern.length? .quoted ('"' :: (body ++ ['"'])) = some (body.length + 2) := by
    rw [Pattern.length?]
    exact quotedLength?_eq_some.mpr ⟨body, [], rfl, h, rfl⟩
  have hrules : tokenRules = [] ++ (.stringLiteral, .quoted) :: tokenRules.tail := rfl
  exact firstToken?_eq hrules (by simp) hquoted

/-! ## Tokens with spaces behind them -/

/-- The tokens with a space behind each. -/
def spaced (ts : List Token) : List Char :=
  ts.flatMap fun t => t.text.toList ++ [' ']

/-- No token starts like a separator. -/
theorem notMem_gapHeads_of_firstToken? {d : Char} {ds : List Char} {r : TokenKind × Nat}
    (h : firstToken? (d :: ds) = some r) : d ∉ gapHeads := by
  intro hd
  obtain ⟨-, hname, -, -, -, hquote⟩ := gapHead_spec hd
  rcases head_of_firstToken? h with hc | hc | ⟨-, hc⟩
  · exact hquote hc
  · rw [hname] at hc
    cases hc
  · exact hc hd

theorem Token.Alone.cons {t : Token} (h : t.Alone) :
    ∃ d ds, t.text.toList = d :: ds ∧ d ∉ gapHeads := by
  unfold Token.Alone at h
  cases htext : t.text.toList with
  | nil =>
    rw [htext] at h
    cases h
  | cons d ds =>
    rw [htext] at h
    exact ⟨d, ds, rfl, notMem_gapHeads_of_firstToken? h⟩

theorem scan_append (line : Nat) (cs rest : List Char) :
    Tape.scan line cs.length (cs ++ rest) = Tape.scan line 0 rest := by
  induction cs with
  | nil => rfl
  | cons c cs ih => exact ih

/-- One blank more or less in front of a text makes no difference. -/
theorem scan_blank {c : Char} (hc : c = ' ' ∨ c = '\t') (line : Nat) (cs : List Char) :
    Tape.scan line 0 (c :: cs) = Tape.scan line 0 cs := by
  have hblanks : ∀ (d : Char) (ds : List Char), d = ' ' ∨ d = '\t' →
      Tape.scan line 0 (d :: ds) =
        Tape.scan line 0 (ds.drop (ds.takeWhile fun c => c == ' ' || c == '\t').length) := by
    intro d ds hd
    have hgap : firstGap? (d :: ds) =
        some (.blanks, (ds.takeWhile fun c => c == ' ' || c == '\t').length + 1) := by
      rcases hd with rfl | rfl <;> simp [firstGap?]
    rw [scan_gap hgap, Nat.add_sub_cancel, scan_drop]
    rfl
  rw [hblanks c cs hc]
  cases cs with
  | nil => rfl
  | cons d ds =>
    by_cases hd : d = ' ' ∨ d = '\t'
    · rw [hblanks d ds hd, List.takeWhile_cons_of_pos (by simpa using hd), List.length_cons,
        List.drop_succ_cons]
    · rw [List.takeWhile_cons_of_neg (by simpa using hd)]
      rfl

theorem firstGap?_eq_none {d : Char} {ds : List Char} (h : d ∉ gapHeads) :
    firstGap? (d :: ds) = none := by
  rw [← Option.not_isSome_iff_eq_none]
  exact fun hgap => h (mem_gapHeads_of_firstGap? hgap)

/-- Tokens with spaces behind them are read back in front of any other text. -/
theorem scan_spaced_append (line : Nat) {ts : List Token} (h : ∀ t ∈ ts, t.Alone ∧ t.line = line)
    (rest : List Char) :
    Tape.scan line 0 (spaced ts ++ rest) =
      ⟨ts ++ (Tape.scan line 0 rest).tokens, (Tape.scan line 0 rest).ending⟩ := by
  induction ts with
  | nil => rfl
  | cons t ts ih =>
    obtain ⟨⟨halone, hline⟩, hts⟩ := List.forall_mem_cons.mp h
    obtain ⟨d, ds, htext, hd⟩ := halone.cons
    set behind := spaced ts ++ rest with hbehind
    have hfirst : firstToken? (d :: (ds ++ ' ' :: behind)) = some (t.kind, ds.length + 1) := by
      have hspace : EndsToken ' ' := endsToken_of_mem_gapHeads (by decide)
      have happend := firstToken?_append hspace _ behind halone
      rwa [htext] at happend
    have htoken : (⟨t.kind, String.ofList ((d :: (ds ++ ' ' :: behind)).take (ds.length + 1)),
        line⟩ : Token) = t := by
      rw [List.take_succ_cons, List.take_left, ← htext, String.ofList_toList, ← hline]
    have hspaced : spaced (t :: ts) ++ rest = d :: (ds ++ ' ' :: behind) := by
      simp [spaced, htext, hbehind]
    rw [hspaced, scan_token (firstGap?_eq_none hd) hfirst, htoken, Nat.add_sub_cancel, scan_append,
      scan_blank (.inl rfl), ih hts]
    rfl

/-- **Tokens written with spaces behind them are read back.** -/
theorem tokenize_spaced {ts : List Token} (h : ∀ t ∈ ts, t.Alone ∧ t.line = 1) :
    tokenize (String.ofList (spaced ts)) = .ok ts := by
  have hscan := scan_spaced_append 1 h []
  rw [List.append_nil] at hscan
  unfold tokenize Tape.ofString
  rw [String.toList_ofList, hscan, Tape.scan, List.append_nil]
  rfl

end MathScript
