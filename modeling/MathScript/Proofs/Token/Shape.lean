import MathScript.Proofs.Program.Shape
import MathScript.Token.Tape

/-!
# The shape of tokens

What the text of a token looks like by its kind.

* `isName_of_mem`: an identifier is a letter or underscore and at most 63 letters,
  digits and underscores, where U+017F and U+212A are letters too.
* `isNumeral_of_mem`: a number is digits, or digits, a point and digits.
* `isQuoted_of_mem`: a string literal stands between quotes on one line, with no quote
  inside.
* `space_notMem_of_mem`: no other token holds a space.
* `IsName.isAsciiName`: **the identifiers that records admit are those in ASCII**.
-/

namespace MathScript

/-! ## Letters -/

/-- Two letters outside ASCII fold to letters in it. -/
theorem cases_of_isNameStart {c : Char} (h : isNameStart c = true) :
    c = '_' ∨ c.isAlpha = true ∨ c = '\u017F' ∨ c = '\u212A' := by
  unfold isNameStart foldLetter at h
  rw [Bool.or_eq_true, beq_iff_eq] at h
  rcases h with h | h
  · exact Or.inl h
  · by_cases hs : c = '\u017F'
    · exact Or.inr (Or.inr (Or.inl hs))
    by_cases hk : c = '\u212A'
    · exact Or.inr (Or.inr (Or.inr hk))
    rw [if_neg hs, if_neg hk, Char.isLower_toLower_eq_isAlpha] at h
    exact Or.inr (Or.inl h)

/-- All characters are ASCII characters. -/
def IsAscii (text : String) : Prop :=
  ∀ c ∈ text.toList, c.toNat < 128

theorem toNat_lt_of_isAlphanum {c : Char} (h : c.isAlphanum = true) : c.toNat < 128 := by
  simp only [Char.isAlphanum, Char.isAlpha, Char.isUpper, Char.isLower, Char.isDigit,
    Bool.or_eq_true, Bool.and_eq_true, decide_eq_true_eq, ge_iff_le, UInt32.le_iff_toNat_le] at h
  have hc : c.toNat = c.val.toNat := rfl
  have hz : 'Z'.val.toNat = 90 := rfl
  have hz' : 'z'.val.toNat = 122 := rfl
  have hn : '9'.val.toNat = 57 := rfl
  omega

theorem IsAsciiName.isAscii {text : String} (h : IsAsciiName text) : IsAscii text := by
  obtain ⟨c, cs, ht, hc, hcs, _⟩ := h
  have hchar : ∀ d : Char, d = '_' ∨ d.isAlphanum = true → d.toNat < 128 := by
    rintro d (rfl | hd)
    · decide
    · exact toNat_lt_of_isAlphanum hd
  intro d hd
  rw [ht] at hd
  rcases List.mem_cons.mp hd with rfl | hd
  · refine hchar d (hc.imp_right fun ha => ?_)
    rw [Char.isAlphanum, ha, Bool.true_or]
  · exact hchar d (hcs d hd)

/-- What a rule for names matches. -/
def IsName (text : String) : Prop :=
  ∃ c cs, text.toList = c :: cs ∧ isNameStart c = true ∧ (∀ d ∈ cs, isNameChar d = true) ∧
    cs.length ≤ 63

/-- **An identifier in ASCII is a name that records admit.** -/
theorem IsName.isAsciiName {text : String} (h : IsName text) (ha : IsAscii text) :
    IsAsciiName text := by
  obtain ⟨c, cs, ht, hc, hcs, hlen⟩ := h
  have hstart : ∀ d ∈ text.toList, isNameStart d = true → d = '_' ∨ d.isAlpha = true := by
    intro d hd hs
    rcases cases_of_isNameStart hs with h | h | rfl | rfl
    · exact Or.inl h
    · exact Or.inr h
    · exact absurd (ha _ hd) (by decide)
    · exact absurd (ha _ hd) (by decide)
  refine ⟨c, cs, ht, hstart c (by rw [ht]; exact List.mem_cons_self) hc, fun d hd => ?_, hlen⟩
  have hmem : d ∈ text.toList := by
    rw [ht]
    exact List.mem_cons_of_mem _ hd
  have hchar := hcs d hd
  rw [isNameChar, Bool.or_eq_true] at hchar
  rw [Char.isAlphanum, Bool.or_eq_true]
  rcases hchar with h | h
  · exact (hstart d hmem h).imp_right Or.inl
  · exact Or.inr (Or.inr h)

/-! ## Pieces of text -/

theorem isDigits_takeWhile {cs : List Char} (h : (cs.takeWhile Char.isDigit).length ≠ 0) :
    IsDigits (cs.takeWhile Char.isDigit) :=
  ⟨fun hnil => h (by rw [hnil]; rfl), fun _ hc => List.mem_takeWhile_imp hc⟩

theorem take_length_takeWhile (p : Char → Bool) (cs : List Char) :
    cs.take (cs.takeWhile p).length = cs.takeWhile p :=
  (List.prefix_iff_eq_take.mp (List.takeWhile_prefix p)).symm

theorem isNumeral_of_numberLength? {cs : List Char} {n : Nat}
    (h : Pattern.numberLength? cs = some n) : IsNumeral (String.ofList (cs.take n)) := by
  have htake := take_length_takeWhile Char.isDigit cs
  unfold Pattern.numberLength? at h
  split at h
  · cases h
  · next hwhole =>
    have hw := isDigits_takeWhile hwhole
    split at h
    · next rest hdrop =>
      split at h
      · cases h
        exact ⟨_, hw, Or.inl (by rw [htake, String.toList_ofList])⟩
      · next hfraction =>
        cases h
        have hf := isDigits_takeWhile hfraction
        refine ⟨_, hw, Or.inr ⟨_, hf, ?_⟩⟩
        rw [String.toList_ofList, Nat.add_assoc, List.take_add, htake, hdrop, Nat.add_comm 1,
          List.take_succ_cons, take_length_takeWhile]
    · cases h
      exact ⟨_, hw, Or.inl (by rw [htake, String.toList_ofList])⟩

theorem isName_of_length? {cs : List Char} {n : Nat} (h : Pattern.length? .name cs = some n) :
    IsName (String.ofList (cs.take n)) := by
  cases cs with
  | nil => cases h
  | cons c rest =>
    simp only [Pattern.length?] at h
    split at h
    · next hc =>
      cases h
      refine ⟨c, (rest.take (maxNameLength - 1)).takeWhile isNameChar, ?_, hc,
        fun d hd => List.mem_takeWhile_imp hd, ?_⟩
      · have hpiece := (List.takeWhile_prefix isNameChar).trans
          (List.take_prefix (maxNameLength - 1) rest)
        rw [String.toList_ofList, Nat.add_comm, List.take_succ_cons,
          ← List.prefix_iff_eq_take.mp hpiece]
      · have hprefix : (rest.take (maxNameLength - 1)).takeWhile isNameChar <+:
            rest.take (maxNameLength - 1) := List.takeWhile_prefix isNameChar
        have hlen := hprefix.length_le
        exact Nat.le_trans hlen (List.length_take_le _ _)
    · cases h

/-- Nothing that would end a string literal. -/
def IsQuotable (cs : List Char) : Prop :=
  ∀ c ∈ cs, c ≠ '"' ∧ c ≠ '\r' ∧ c ≠ '\n'

instance (cs : List Char) : Decidable (IsQuotable cs) :=
  inferInstanceAs (Decidable (∀ c ∈ cs, _))

/-- What the rule for string literals matches. -/
def IsQuoted (text : String) : Prop :=
  ∃ body, text.toList = '"' :: (body ++ ['"']) ∧ IsQuotable body

/-- A string literal is a quote, what is quoted, a quote. -/
theorem quotedLength?_eq_some {cs : List Char} {n : Nat} :
    Pattern.quotedLength? cs = some n ↔
      ∃ body rest, cs = '"' :: (body ++ '"' :: rest) ∧ IsQuotable body ∧ n = body.length + 2 := by
  constructor
  · intro h
    unfold Pattern.quotedLength? at h
    split at h
    · next cs =>
      dsimp only at h
      have htake := take_length_takeWhile (fun c => c != '"' && c != '\r' && c != '\n') cs
      have hquotable :
          IsQuotable (cs.takeWhile fun c => c != '"' && c != '\r' && c != '\n') := by
        intro c hc
        simpa [and_assoc] using List.mem_takeWhile_imp hc
      generalize cs.takeWhile (fun c => c != '"' && c != '\r' && c != '\n') = body
        at h htake hquotable
      split at h
      · next rest hdrop =>
        refine ⟨body, rest, ?_, hquotable, (Option.some.inj h).symm⟩
        rw [← hdrop, ← List.take_append_drop body.length cs, htake, List.drop_left]
      · cases h
    · cases h
  · rintro ⟨body, rest, rfl, hquotable, rfl⟩
    have hinside : ∀ c ∈ body, (c != '"' && c != '\r' && c != '\n') = true := fun c hc => by
      simpa [and_assoc] using hquotable c hc
    have hrun : (body ++ '"' :: rest).takeWhile (fun c => c != '"' && c != '\r' && c != '\n') =
        body := by
      rw [List.takeWhile_append_of_pos hinside, List.takeWhile_cons_of_neg (by decide),
        List.append_nil]
    unfold Pattern.quotedLength?
    simp only [hrun, List.drop_left]

theorem isQuoted_of_quotedLength? {cs : List Char} {n : Nat}
    (h : Pattern.quotedLength? cs = some n) : IsQuoted (String.ofList (cs.take n)) := by
  obtain ⟨body, rest, rfl, hquotable, rfl⟩ := quotedLength?_eq_some.mp h
  refine ⟨body, ?_, hquotable⟩
  rw [String.toList_ofList, List.take_succ_cons, List.take_append]
  simp

theorem IsNumeral.space_notMem {text : String} (h : IsNumeral text) : ' ' ∉ text.toList := by
  have hdigits : ∀ {cs : List Char}, IsDigits cs → ' ' ∉ cs := fun hcs hmem =>
    absurd (hcs.2 _ hmem) (by decide)
  obtain ⟨whole, hw, he | ⟨fraction, hf, he⟩⟩ := h
  · rw [he]
    exact hdigits hw
  · rw [he]
    simp [hdigits hw, hdigits hf]

/-- A piece that a keyword matches folds to the word. -/
theorem map_foldLetter_of_length? {cs word : List Char} {n : Nat}
    (h : Pattern.length? (.keyword word) cs = some n) : (cs.take n).map foldLetter = word := by
  rw [Pattern.length?] at h
  split at h
  · next hword =>
    cases h
    exact of_decide_eq_true (Bool.and_eq_true_iff.mp hword).1
  · cases h

/-- A piece that a symbol matches is the symbol. -/
theorem take_eq_of_length? {cs chars : List Char} {n : Nat}
    (h : Pattern.length? (.symbol chars) cs = some n) : cs.take n = chars := by
  rw [Pattern.length?] at h
  split at h
  · next hprefix =>
    cases h
    exact (List.prefix_iff_eq_take.mp (List.isPrefixOf_iff_prefix.mp hprefix)).symm
  · cases h

/-! ## Rules -/

/-- The characters that separators start with. -/
def gapHeads : List Char :=
  [' ', '\t', '\r', '\n', '#']

/-- Keywords are written in lower-case letters, and symbols in characters that start no
separator, no string literal and continue no word. -/
def Pattern.proper : Pattern → Bool
  | keyword word => !word.isEmpty && word.all Char.isLower
  | symbol chars =>
    !chars.isEmpty && chars.all fun c => !Text.isWord c && !gapHeads.contains c && c != '"'
  | _ => true

theorem proper_of_mem : ∀ r ∈ tokenRules, r.2.proper = true := by
  decide

theorem keyword_proper {word : List Char} (h : (Pattern.keyword word).proper = true) :
    word ≠ [] ∧ ∀ c ∈ word, c.isLower = true := by
  simpa [Pattern.proper] using h

theorem symbol_proper {chars : List Char} (h : (Pattern.symbol chars).proper = true) :
    chars ≠ [] ∧ ∀ c ∈ chars, Text.isWord c = false ∧ c ∉ gapHeads ∧ c ≠ '"' := by
  simpa [Pattern.proper, and_assoc] using h

/-! ## Tokens -/

/-- A text that consists of tokens throughout ends behind them. -/
theorem tape_of_tokenize {source : String} {tokens : List Token}
    (h : tokenize source = .ok tokens) :
    ∃ line, Tape.ofString source = ⟨tokens, .complete line⟩ := by
  unfold tokenize Tape.tokens? at h
  cases ht : Tape.ofString source with
  | mk ts ending =>
    rw [ht] at h
    cases ending with
    | complete line =>
      obtain rfl := Except.ok.inj h
      exact ⟨line, rfl⟩
    | unrecognised e => cases h

/-- Every token comes from a rule. -/
theorem firstToken?_of_mem {t : Token} (cs : List Char) (line pending : Nat)
    (h : t ∈ (Tape.scan line pending cs).tokens) :
    ∃ cs n, firstToken? cs = some (t.kind, n) ∧ t.text = String.ofList (cs.take n) := by
  induction cs generalizing line pending with
  | nil => cases h
  | cons c cs ih =>
    cases pending with
    | succ pending => exact ih line pending h
    | zero =>
      unfold Tape.scan at h
      split at h
      · exact ih _ _ h
      · exact ih _ _ h
      · split at h
        · next kind n hfirst =>
          rcases List.mem_cons.mp h with rfl | h
          · exact ⟨c :: cs, n, hfirst, rfl⟩
          · exact ih _ _ h
        · cases h

/-- The rule a token comes from. -/
theorem rule_of_firstToken? {cs : List Char} {kind : TokenKind} {n : Nat}
    (h : firstToken? cs = some (kind, n)) :
    ∃ pattern, (kind, pattern) ∈ tokenRules ∧ pattern.length? cs = some n := by
  obtain ⟨⟨kind', pattern⟩, hmem, hr⟩ := List.exists_of_findSome?_eq_some h
  obtain ⟨n', hn, he⟩ := Option.map_eq_some_iff.mp hr
  cases he
  exact ⟨pattern, hmem, hn⟩

theorem isName_of_mem {source : String} {t : Token} (h : t ∈ (Tape.ofString source).tokens)
    (hk : t.kind = .identifier) : IsName t.text := by
  obtain ⟨cs, n, hfirst, ht⟩ := firstToken?_of_mem _ _ _ h
  obtain ⟨pattern, hrule, hn⟩ := rule_of_firstToken? hfirst
  have hpattern : ∀ r ∈ tokenRules, r.1 = .identifier → r.2 = .name := by decide
  obtain rfl : pattern = .name := hpattern _ hrule hk
  rw [ht]
  exact isName_of_length? hn

theorem isNumeral_of_mem {source : String} {t : Token} (h : t ∈ (Tape.ofString source).tokens)
    (hk : t.kind = .number) : IsNumeral t.text := by
  obtain ⟨cs, n, hfirst, ht⟩ := firstToken?_of_mem _ _ _ h
  obtain ⟨pattern, hrule, hn⟩ := rule_of_firstToken? hfirst
  have hpattern : ∀ r ∈ tokenRules, r.1 = .number → r.2 = .number := by decide
  obtain rfl : pattern = .number := hpattern _ hrule hk
  rw [ht]
  exact isNumeral_of_numberLength? hn

theorem isQuoted_of_mem {source : String} {t : Token} (h : t ∈ (Tape.ofString source).tokens)
    (hk : t.kind = .stringLiteral) : IsQuoted t.text := by
  obtain ⟨cs, n, hfirst, ht⟩ := firstToken?_of_mem _ _ _ h
  obtain ⟨pattern, hrule, hn⟩ := rule_of_firstToken? hfirst
  have hpattern : ∀ r ∈ tokenRules, r.1 = .stringLiteral → r.2 = .quoted := by decide
  obtain rfl : pattern = .quoted := hpattern _ hrule hk
  rw [ht]
  exact isQuoted_of_quotedLength? hn

theorem space_notMem_of_mem {source : String} {t : Token} (h : t ∈ (Tape.ofString source).tokens)
    (hk : t.kind ≠ .stringLiteral) : ' ' ∉ t.text.toList := by
  obtain ⟨cs, n, hfirst, ht⟩ := firstToken?_of_mem _ _ _ h
  obtain ⟨pattern, hrule, hn⟩ := rule_of_firstToken? hfirst
  have hproper : pattern.proper = true := proper_of_mem _ hrule
  cases pattern with
  | quoted =>
    have hkind : ∀ r ∈ tokenRules, r.2 = .quoted → r.1 = .stringLiteral := by decide
    exact absurd (hkind _ hrule rfl) hk
  | keyword word =>
    rw [ht, String.toList_ofList]
    intro hspace
    have hfold : ' ' ∈ (cs.take n).map foldLetter := List.mem_map_of_mem hspace
    rw [map_foldLetter_of_length? hn] at hfold
    exact absurd ((keyword_proper hproper).2 _ hfold) (by decide)
  | name =>
    obtain ⟨c, cs', hcs, hc, hcs', _⟩ := isName_of_length? hn
    rw [ht, hcs]
    intro hspace
    rcases List.mem_cons.mp hspace with rfl | hspace
    · exact absurd hc (by decide)
    · exact absurd (hcs' _ hspace) (by decide)
  | number =>
    rw [ht]
    exact (isNumeral_of_numberLength? hn).space_notMem
  | symbol chars =>
    rw [ht, String.toList_ofList, take_eq_of_length? hn]
    exact fun hspace => absurd ((symbol_proper hproper).2 _ hspace).2.1 (by decide)

end MathScript
