import MathScript.Proofs.Token.Shape

/-!
# Reserved words

Keywords are tried before names, but only where the word ends.  What stands directly
behind a name belongs to no name, and if the text goes on with a token or a separator
there, to no word either.  So a name that spells a keyword, up to the case of its
letters, would have been read as the keyword.

* `firstToken?_of_scan`: in a text of tokens throughout, another token or a separator
  starts behind each token, or nothing does.
* `not_isReserved_of_mem`: **no identifier of such a text spells a keyword**.
-/

namespace MathScript

/-! ## What is reserved -/

/-- The word of a keyword. -/
def Pattern.word? : Pattern → Option (List Char)
  | keyword word => some word
  | _ => none

/-- The words of the keywords. -/
def reservedWords : List (List Char) :=
  tokenRules.filterMap fun r => r.2.word?

/-- The name spells a keyword, letter case ignored. -/
def IsReserved (name : String) : Prop :=
  name.toList.map foldLetter ∈ reservedWords

instance (name : String) : Decidable (IsReserved name) :=
  inferInstanceAs (Decidable (_ ∈ _))

/-! ## Behind a token -/

section Scan

variable {line : Nat} {c : Char} {cs : List Char}

theorem scan_gap {gap : Gap} {n : Nat} (h : firstGap? (c :: cs) = some (gap, n)) :
    Tape.scan line 0 (c :: cs) =
      Tape.scan (if gap = .lineBreak then line + 1 else line) (n - 1) cs := by
  rw [Tape.scan, h]
  cases gap <;> rfl

theorem scan_token {kind : TokenKind} {n : Nat} (hgap : firstGap? (c :: cs) = none)
    (h : firstToken? (c :: cs) = some (kind, n)) :
    Tape.scan line 0 (c :: cs) =
      (Tape.scan line (n - 1) cs).cons ⟨kind, String.ofList ((c :: cs).take n), line⟩ := by
  rw [Tape.scan, hgap]
  simp only [h]

theorem scan_unrecognised (hgap : firstGap? (c :: cs) = none) (h : firstToken? (c :: cs) = none) :
    (Tape.scan line 0 (c :: cs)).ending = .unrecognised (.ofChars line (c :: cs)) := by
  rw [Tape.scan, hgap]
  simp only [h]

end Scan

/-- Pending characters are passed over. -/
theorem scan_drop (line pending : Nat) (cs : List Char) :
    Tape.scan line pending cs = Tape.scan line 0 (cs.drop pending) := by
  induction cs generalizing pending with
  | nil => cases pending <;> rfl
  | cons c cs ih =>
    cases pending with
    | zero => rfl
    | succ pending => exact ih pending

/-- A token or a separator starts here, or the text ends. -/
def Starts (cs : List Char) : Prop :=
  cs = [] ∨ (firstGap? cs).isSome ∨ (firstToken? cs).isSome

theorem starts_of_scan {line last pending : Nat} {cs : List Char}
    (h : (Tape.scan line pending cs).ending = .complete last) : Starts (cs.drop pending) := by
  induction cs generalizing pending with
  | nil => exact .inl List.drop_nil
  | cons c cs ih =>
    cases pending with
    | succ pending => exact ih h
    | zero =>
      rw [List.drop_zero, Starts]
      cases hgap : firstGap? (c :: cs) with
      | some gap => simp
      | none =>
        cases hfirst : firstToken? (c :: cs) with
        | some r => simp
        | none =>
          rw [scan_unrecognised hgap hfirst] at h
          cases h

/-- Behind each token, another token or a separator starts, or nothing is left. -/
theorem firstToken?_of_scan {t : Token} {line last pending : Nat} {cs : List Char}
    (h : (Tape.scan line pending cs).ending = .complete last)
    (ht : t ∈ (Tape.scan line pending cs).tokens) :
    ∃ cs n, firstToken? cs = some (t.kind, n) ∧ t.text = String.ofList (cs.take n) ∧
      Starts (cs.drop n) := by
  induction cs generalizing line pending with
  | nil => cases ht
  | cons c cs ih =>
    cases pending with
    | succ pending => exact ih h ht
    | zero =>
      cases hgap : firstGap? (c :: cs) with
      | some gap =>
        rw [scan_gap hgap] at h ht
        exact ih h ht
      | none =>
        cases hfirst : firstToken? (c :: cs) with
        | none =>
          rw [scan_unrecognised hgap hfirst] at h
          cases h
        | some r =>
          obtain ⟨kind, n⟩ := r
          rw [scan_token hgap hfirst] at h ht
          rcases List.mem_cons.mp ht with rfl | ht
          · refine ⟨c :: cs, n, hfirst, rfl, ?_⟩
            cases n with
            | zero => exact .inr (.inr (by rw [List.drop_zero, hfirst]; rfl))
            | succ n => exact starts_of_scan h
          · exact ih h ht

/-! ## What starts with what -/

/-- What starts a separator belongs to nothing else. -/
theorem gapHead_spec {c : Char} (h : c ∈ gapHeads) :
    Text.isWord c = false ∧ isNameChar c = false ∧ (foldLetter c).isLower = false ∧
      c.isDigit = false ∧ c ≠ '.' ∧ c ≠ '"' := by
  have hall : (gapHeads.all fun d => !Text.isWord d && !isNameChar d && !(foldLetter d).isLower &&
      !d.isDigit && d != '.' && d != '"') = true := by decide
  simpa [and_assoc] using List.all_eq_true.mp hall c h

theorem mem_gapHeads_of_firstGap? {c : Char} {cs : List Char}
    (h : (firstGap? (c :: cs)).isSome = true) : c ∈ gapHeads := by
  unfold firstGap? at h
  split at h
  · next hc => obtain ⟨rfl, -⟩ := List.cons.inj hc; decide
  · next hc => obtain ⟨rfl, -⟩ := List.cons.inj hc; decide
  · next hc => obtain ⟨rfl, -⟩ := List.cons.inj hc; decide
  · next hc => obtain ⟨rfl, -⟩ := List.cons.inj hc; decide
  · by_cases hc : c = ' ' ∨ c = '\t'
    · rcases hc with rfl | rfl <;> decide
    · rw [List.takeWhile_cons_of_neg (by simpa using hc)] at h
      cases h

/-- A keyword starts with a letter. -/
theorem isNameStart_of_keyword {word : List Char} {c : Char} {cs : List Char} {n : Nat}
    (hp : (Pattern.keyword word).proper = true)
    (hn : Pattern.length? (.keyword word) (c :: cs) = some n) : isNameStart c = true := by
  obtain ⟨hne, hlower⟩ := keyword_proper hp
  have hfold := map_foldLetter_of_length? hn
  cases n with
  | zero => exact absurd hfold.symm hne
  | succ n =>
    rw [List.take_succ_cons, List.map_cons] at hfold
    have hc : (foldLetter c).isLower = true := hlower _ (hfold ▸ List.mem_cons_self)
    rw [isNameStart, hc, Bool.or_true]

/-- A token starts with a quote, with what continues names, or with what neither
continues words nor starts separators. -/
theorem head_of_firstToken? {c : Char} {cs : List Char} {r : TokenKind × Nat}
    (h : firstToken? (c :: cs) = some r) :
    c = '"' ∨ isNameChar c = true ∨ (Text.isWord c = false ∧ c ∉ gapHeads) := by
  obtain ⟨kind, n⟩ := r
  obtain ⟨pattern, hrule, hn⟩ := rule_of_firstToken? h
  have hproper : pattern.proper = true := proper_of_mem _ hrule
  cases pattern with
  | quoted =>
    rw [Pattern.length?] at hn
    unfold Pattern.quotedLength? at hn
    split at hn
    · next hc => exact .inl (List.cons.inj hc).1
    · cases hn
  | keyword word =>
    exact .inr (.inl (by rw [isNameChar, isNameStart_of_keyword hproper hn, Bool.true_or]))
  | name =>
    rw [Pattern.length?] at hn
    split at hn
    · next hc => exact .inr (.inl (by rw [isNameChar, hc, Bool.true_or]))
    · cases hn
  | number =>
    by_cases hc : c.isDigit = true
    · exact .inr (.inl (by rw [isNameChar, hc, Bool.or_true]))
    · rw [Pattern.length?, Pattern.numberLength?, List.takeWhile_cons_of_neg hc] at hn
      cases hn
  | symbol chars =>
    obtain ⟨hne, hchars⟩ := symbol_proper hproper
    have htake := take_eq_of_length? hn
    cases n with
    | zero => exact absurd htake.symm hne
    | succ n =>
      rw [List.take_succ_cons] at htake
      have hc := hchars c (htake ▸ List.mem_cons_self)
      exact .inr (.inr ⟨hc.1, hc.2.1⟩)

/-- **What starts a token or a separator continues a word only if it continues names.** -/
theorem isNameChar_of_starts {c : Char} {cs : List Char} (h : Starts (c :: cs))
    (hw : Text.isWord c = true) : isNameChar c = true := by
  rcases h with h | h | h
  · cases h
  · rw [(gapHead_spec (mem_gapHeads_of_firstGap? h)).1] at hw
    cases hw
  · obtain ⟨r, hr⟩ := Option.isSome_iff_exists.mp h
    rcases head_of_firstToken? hr with rfl | hc | ⟨hc, -⟩
    · exact absurd hw (by decide)
    · exact hc
    · rw [hc] at hw
      cases hw

/-! ## Names -/

/-- The rules in front of the one for names. -/
def rulesBeforeName : List (TokenKind × Pattern) :=
  tokenRules.take 14

/-- No rule in front of the one for names matches where a name is read. -/
theorem length?_eq_none_of_name {cs : List Char} {n : Nat}
    (h : firstToken? cs = some (.identifier, n)) :
    ∀ r ∈ rulesBeforeName, r.2.length? cs = none := by
  have hsplit : tokenRules = rulesBeforeName ++ tokenRules.drop 14 :=
    (List.take_append_drop 14 tokenRules).symm
  have hkinds : ∀ r ∈ rulesBeforeName, r.1 ≠ .identifier := by decide
  unfold firstToken? at h
  rw [hsplit, List.findSome?_append] at h
  cases hbefore : rulesBeforeName.findSome? fun r => (r.2.length? cs).map fun n => (r.1, n) with
  | none =>
    intro r hr
    simpa using List.findSome?_eq_none_iff.mp hbefore r hr
  | some found =>
    rw [hbefore] at h
    obtain ⟨r, hr, hfound⟩ := List.exists_of_findSome?_eq_some hbefore
    obtain ⟨m, -, hm⟩ := Option.map_eq_some_iff.mp hfound
    obtain rfl : found = (.identifier, n) := Option.some.inj h
    exact absurd (Prod.mk.inj hm).1 (hkinds r hr)

theorem mem_rulesBeforeName {word : List Char} (h : word ∈ reservedWords) :
    ∃ r ∈ rulesBeforeName, r.2 = .keyword word := by
  have hall : ∀ w ∈ reservedWords, ∃ r ∈ rulesBeforeName, r.2 = .keyword w := by decide
  exact hall word h

/-- A name goes on as long as it may. -/
theorem name_maximal {cs : List Char} {n : Nat} (h : Pattern.length? .name cs = some n) :
    n ≤ cs.length ∧ (n < maxNameLength → ∀ d ∈ (cs.drop n).head?, isNameChar d = false) := by
  cases cs with
  | nil => cases h
  | cons c rest =>
    rw [Pattern.length?] at h
    split at h
    · cases h
      have hparts := List.takeWhile_append_dropWhile
        (p := isNameChar) (l := rest.take (maxNameLength - 1))
      have hstop := List.head?_dropWhile_not isNameChar (rest.take (maxNameLength - 1))
      set body := (rest.take (maxNameLength - 1)).takeWhile isNameChar with hbody
      have hlength : body.length ≤ rest.length := by
        have hall := congrArg List.length hparts
        rw [List.length_append, List.length_take] at hall
        omega
      refine ⟨by rw [List.length_cons]; omega, fun hshort d hd => ?_⟩
      rw [Nat.add_comm, List.drop_succ_cons, List.head?_drop] at hd
      have hinside : (rest.take (maxNameLength - 1))[body.length]? = rest[body.length]? :=
        List.getElem?_take_of_lt (by omega)
      rw [← hparts, List.getElem?_append_right (Nat.le_refl _), Nat.sub_self,
        ← List.head?_eq_getElem?] at hinside
      rw [← hinside] at hd
      rw [Option.mem_def.mp hd] at hstop
      simpa using hstop
    · cases h

theorem numberLength?_le {cs : List Char} {n : Nat} (h : Pattern.numberLength? cs = some n) :
    n ≤ cs.length := by
  have hrun : ∀ ds : List Char, (ds.takeWhile Char.isDigit).length ≤ ds.length := fun ds =>
    (List.takeWhile_prefix _).length_le
  have hwhole := hrun cs
  unfold Pattern.numberLength? at h
  split at h
  · cases h
  · split at h
    · next rest hdrop =>
      have hrest := congrArg List.length hdrop
      rw [List.length_drop, List.length_cons] at hrest
      split at h
      · cases h
        exact hwhole
      · cases h
        have hfraction := hrun rest
        omega
    · cases h
      exact hwhole

/-- A match lies within the text. -/
theorem length?_le {pattern : Pattern} {cs : List Char} {n : Nat}
    (h : pattern.length? cs = some n) : n ≤ cs.length := by
  cases pattern with
  | quoted =>
    obtain ⟨body, rest, rfl, -, rfl⟩ := quotedLength?_eq_some.mp h
    simp
  | keyword word =>
    have hfold := congrArg List.length (map_foldLetter_of_length? h)
    rw [Pattern.length?] at h
    split at h
    · cases h
      rw [List.length_map, List.length_take] at hfold
      omega
    · cases h
  | name => exact (name_maximal h).1
  | number => exact numberLength?_le h
  | symbol chars =>
    have htake := congrArg List.length (take_eq_of_length? h)
    rw [Pattern.length?] at h
    split at h
    · cases h
      rw [List.length_take] at htake
      omega
    · cases h

theorem length_le_of_firstToken? {cs : List Char} {kind : TokenKind} {n : Nat}
    (h : firstToken? cs = some (kind, n)) : n ≤ cs.length := by
  obtain ⟨pattern, -, hn⟩ := rule_of_firstToken? h
  exact length?_le hn

/-- **A name does not spell a keyword** if a token or a separator starts behind it. -/
theorem not_isReserved_of_firstToken? {cs : List Char} {n : Nat}
    (h : firstToken? cs = some (.identifier, n)) (hs : Starts (cs.drop n)) :
    ¬IsReserved (String.ofList (cs.take n)) := by
  intro hreserved
  rw [IsReserved, String.toList_ofList] at hreserved
  have hname : Pattern.length? .name cs = some n := by
    obtain ⟨pattern, hrule, hn⟩ := rule_of_firstToken? h
    have hpattern : ∀ r ∈ tokenRules, r.1 = .identifier → r.2 = .name := by decide
    obtain rfl : pattern = .name := hpattern _ hrule rfl
    exact hn
  obtain ⟨hlength, hstop⟩ := name_maximal hname
  obtain ⟨⟨kind, pattern⟩, hr, rfl⟩ := mem_rulesBeforeName hreserved
  have hnone := length?_eq_none_of_name h _ hr
  have hwordLength : ((cs.take n).map foldLetter).length = n := by
    rw [List.length_map, List.length_take, Nat.min_eq_left hlength]
  have hshort : ∀ word ∈ reservedWords, word.length < maxNameLength := by decide
  have hn : n < maxNameLength := hwordLength ▸ hshort _ hreserved
  -- the keyword did not match, so the word goes on behind the name
  rw [Pattern.length?, hwordLength] at hnone
  cases hrest : cs.drop n with
  | nil => simp [hrest, Pattern.endsWord] at hnone
  | cons d ds =>
    rw [hrest] at hnone hs hstop
    have hword : Text.isWord d = true := by simpa [Pattern.endsWord] using hnone
    have hd := hstop hn d rfl
    rw [isNameChar_of_starts hs hword] at hd
    cases hd

/-- **No identifier of a text of tokens throughout spells a keyword.** -/
theorem not_isReserved_of_mem {source : String} {ts : List Token} (h : tokenize source = .ok ts)
    {t : Token} (ht : t ∈ ts) (hk : t.kind = .identifier) : ¬IsReserved t.text := by
  obtain ⟨last, htape⟩ := tape_of_tokenize h
  unfold Tape.ofString at htape
  obtain ⟨cs, n, hfirst, htext, hs⟩ := firstToken?_of_scan (t := t)
    (by rw [htape]) (by rw [htape]; exact ht)
  rw [htext]
  exact not_isReserved_of_firstToken? (hk ▸ hfirst) hs

end MathScript
