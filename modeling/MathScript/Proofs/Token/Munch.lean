import MathScript.Proofs.Token.Spacing
import MathScript.Proofs.Token.Segments

/-!
# The first rule matches the most

Rules are tried in their order, and lengths are never compared.  That comes to the same
as taking the longest match, a keyword before a name of the same length: two rules that
match at one place start alike, so they are two words or two symbols; of two words both
end where the word does, and a symbol stands behind those that it is a part of.

* `firstToken?_eq_some_iff`: **the first match is the longest match**.
* `Token.Munched`: what follows for a token and what stands behind it.
* `maximal_munch`: every token of a source text is such a token.
-/

namespace MathScript

/-! ## Words -/

/-- What names are made of, words are made of. -/
theorem isWord_of_isNameChar {c : Char} (h : isNameChar c = true) : Text.isWord c = true := by
  rw [isNameChar, Bool.or_eq_true] at h
  rcases h with h | h
  · rcases cases_of_isNameStart h with rfl | ha | rfl | rfl
    · decide
    · exact (isNameChar_of_ascii (.inr (by rw [Char.isAlphanum, ha, Bool.true_or]))).2
    · decide +kernel
    · decide +kernel
  · exact (isNameChar_of_ascii (.inr (by rw [Char.isAlphanum, h, Bool.or_true]))).2

theorem isWord_of_name {cs : List Char} {n : Nat} (h : Pattern.length? .name cs = some n) :
    ∀ c ∈ cs.take n, Text.isWord c = true := by
  obtain ⟨c, rest, htext, hc, hrest, -⟩ := isName_of_length? h
  rw [String.toList_ofList] at htext
  rw [htext]
  refine List.forall_mem_cons.mpr ⟨isWord_of_isNameChar ?_, fun d hd =>
    isWord_of_isNameChar (hrest d hd)⟩
  rw [isNameChar, hc, Bool.true_or]

theorem isWord_of_keyword {word cs : List Char} {n : Nat}
    (hp : (Pattern.keyword word).proper = true)
    (h : Pattern.length? (.keyword word) cs = some n) :
    ∀ c ∈ cs.take n, Text.isWord c = true := by
  intro c hc
  have hfold : foldLetter c ∈ word := map_foldLetter_of_length? h ▸ List.mem_map_of_mem hc
  refine isWord_of_isNameChar ?_
  rw [isNameChar, isNameStart, (keyword_proper hp).2 _ hfold, Bool.or_true, Bool.true_or]

/-- A keyword ends where the word does. -/
theorem endsWord_of_keyword {word cs : List Char} {n : Nat}
    (h : Pattern.length? (.keyword word) cs = some n) :
    ∀ c ∈ (cs.drop n).head?, Text.isWord c = false := by
  rw [Pattern.length?] at h
  split at h
  · next hmatch =>
    cases h
    have hend := (Bool.and_eq_true_iff.mp hmatch).2
    intro c hc
    obtain ⟨tail, htail⟩ := List.head?_eq_some_iff.mp hc
    rw [htail] at hend
    simpa [Pattern.endsWord] using hend
  · cases h

/-- No run of word characters goes on behind the end of a word. -/
theorem le_of_endsWord {cs : List Char} {n m : Nat}
    (hend : ∀ c ∈ (cs.drop n).head?, Text.isWord c = false)
    (hword : ∀ c ∈ cs.take m, Text.isWord c = true) (hm : m ≤ cs.length) : m ≤ n := by
  by_contra hlt
  have hn : n < cs.length := by omega
  have hin : cs[n] ∈ cs.take m := List.mem_take_iff_getElem.mpr ⟨n, by omega, rfl⟩
  have hnot := hend cs[n] (by rw [List.head?_drop, List.getElem?_eq_getElem hn]; rfl)
  rw [hword _ hin] at hnot
  cases hnot

/-! ## What starts alike -/

/-- What a token can start as. -/
inductive Opening where
  | quote | letter | digit | mark
deriving DecidableEq

/-- What starts with this character. -/
def Opening.ofChar (c : Char) : Opening :=
  if c = '"' then .quote else if isNameStart c then .letter else if c.isDigit then .digit else .mark

/-- What this pattern starts as. -/
def Pattern.opening : Pattern → Opening
  | quoted => .quote
  | keyword _ | name => .letter
  | number => .digit
  | symbol _ => .mark

theorem Opening.ofChar_letter {c : Char} (h : isNameStart c = true) : ofChar c = .letter := by
  have hq : c ≠ '"' := by
    rintro rfl
    exact absurd h (by decide)
  rw [ofChar, if_neg hq, if_pos h]

/-- **The first character tells what a token is**, but for words and for symbols which. -/
theorem opening_eq_of_length? {pattern : Pattern} (hp : pattern.proper = true) {c : Char}
    {cs : List Char} {n : Nat} (h : pattern.length? (c :: cs) = some n) :
    pattern.opening = Opening.ofChar c := by
  cases pattern with
  | quoted =>
    obtain ⟨body, rest, hcs, -, -⟩ := quotedLength?_eq_some.mp h
    obtain ⟨rfl, -⟩ := List.cons.inj hcs
    rfl
  | keyword word => exact (Opening.ofChar_letter (isNameStart_of_keyword hp h)).symm
  | name =>
    rw [Pattern.length?] at h
    split at h
    · next hc => exact (Opening.ofChar_letter hc).symm
    · cases h
  | number =>
    by_cases hc : c.isDigit = true
    · have hq : c ≠ '"' := by
        rintro rfl
        exact absurd hc (by decide)
      have hletter : ¬isNameStart c = true := by simp [isNameStart_of_isDigit hc]
      rw [Opening.ofChar, if_neg hq, if_neg hletter, if_pos hc]
      rfl
    · rw [Pattern.length?, Pattern.numberLength?, List.takeWhile_cons_of_neg hc] at h
      cases h
  | symbol chars =>
    have htake := take_eq_of_length? h
    obtain ⟨hne, hchars⟩ := symbol_proper hp
    cases n with
    | zero => exact absurd htake.symm hne
    | succ n =>
      rw [List.take_succ_cons] at htake
      obtain ⟨hword, -, hq⟩ := hchars c (htake ▸ List.mem_cons_self)
      have hname : isNameChar c = false := by
        rw [← Bool.not_eq_true]
        intro hname
        rw [isWord_of_isNameChar hname] at hword
        cases hword
      obtain ⟨hletter, hdigit⟩ := Bool.or_eq_false_iff.mp hname
      rw [Opening.ofChar, if_neg hq, if_neg (by simp [hletter]), if_neg (by simp [hdigit])]
      rfl

/-! ## The longest match -/

/-- A rule of this kind matches this much, and none matches more; a keyword that matches
as much is the one. -/
structure LongestMatch (cs : List Char) (kind : TokenKind) (n : Nat) : Prop where
  isMatch : ∃ pattern, (kind, pattern) ∈ tokenRules ∧ pattern.length? cs = some n
  longest : ∀ r ∈ tokenRules, ∀ m, r.2.length? cs = some m → m ≤ n
  keywordFirst : ∀ other word, (other, Pattern.keyword word) ∈ tokenRules →
    Pattern.length? (.keyword word) cs = some n → other = kind

/-- Rules of one kind are one rule. -/
theorem pattern_eq_of_mem :
    ∀ r ∈ tokenRules, ∀ r' ∈ tokenRules, r.1 = r'.1 → r.2 = r'.2 := by
  decide +kernel

/-- Rules of one shape are one rule. -/
theorem kind_eq_of_mem :
    ∀ r ∈ tokenRules, ∀ r' ∈ tokenRules, r.2 = r'.2 → r.1 = r'.1 := by
  decide +kernel

/-- The characters of a symbol. -/
def Pattern.chars? : Pattern → Option (List Char)
  | symbol chars => some chars
  | _ => none

/-- This pattern may be tried before that one: names leave no keyword behind, and it is no
part of a symbol. -/
def Pattern.Precedes (pattern other : Pattern) : Prop :=
  (pattern = name → other.word? = none) ∧ ∀ chars ∈ other.chars?, pattern.length? chars = none

instance (pattern other : Pattern) : Decidable (pattern.Precedes other) :=
  inferInstanceAs (Decidable (_ ∧ _))

theorem tokenRules_pairwise : tokenRules.Pairwise fun r r' => r.2.Precedes r'.2 := by
  decide +kernel

/-- **What is tried later matches no more.** -/
theorem Pattern.Precedes.le {pattern other : Pattern} (h : pattern.Precedes other)
    (hp : pattern.proper = true) (hp' : other.proper = true) {cs : List Char} {n m : Nat}
    (hn : pattern.length? cs = some n) (hm : other.length? cs = some m)
    (ho : pattern.opening = other.opening) : m ≤ n := by
  cases pattern with
  | quoted =>
    cases other with
    | quoted => exact Nat.le_of_eq (Option.some.inj (hm.symm.trans hn))
    | _ => cases ho
  | keyword word =>
    have hend := endsWord_of_keyword hn
    cases other with
    | keyword word' => exact le_of_endsWord hend (isWord_of_keyword hp' hm) (length?_le hm)
    | name => exact le_of_endsWord hend (isWord_of_name hm) (length?_le hm)
    | _ => cases ho
  | name =>
    cases other with
    | keyword word' => cases h.1 rfl
    | name => exact Nat.le_of_eq (Option.some.inj (hm.symm.trans hn))
    | _ => cases ho
  | number =>
    cases other with
    | number => exact Nat.le_of_eq (Option.some.inj (hm.symm.trans hn))
    | _ => cases ho
  | symbol chars =>
    cases other with
    | symbol chars' =>
      by_contra hlt
      -- the shorter symbol would start the longer one
      have hprefix : chars <+: chars' := by
        rw [← take_eq_of_length? hn, ← take_eq_of_length? hm]
        exact List.take_prefix_take_left (by omega)
      have hnone := h.2 chars' rfl
      rw [Pattern.length?, if_pos (List.isPrefixOf_iff_prefix.mpr hprefix)] at hnone
      cases hnone
    | _ => cases ho

/-- The rule that decides, and the rules in front of it, which do not match. -/
theorem exists_rules_of_firstToken? {cs : List Char} {kind : TokenKind} {n : Nat}
    (h : firstToken? cs = some (kind, n)) :
    ∃ before pattern after, tokenRules = before ++ (kind, pattern) :: after ∧
      pattern.length? cs = some n ∧ ∀ r ∈ before, r.2.length? cs = none := by
  obtain ⟨before, ⟨kind', pattern⟩, after, hrules, hfound, hbefore⟩ :=
    List.findSome?_eq_some_iff.mp h
  obtain ⟨n', hn, he⟩ := Option.map_eq_some_iff.mp hfound
  cases he
  exact ⟨before, pattern, after, hrules, hn, fun r hr => by simpa using hbefore r hr⟩

/-- Rules that match at one place start alike. -/
theorem opening_eq_of_mem {r r' : TokenKind × Pattern} (hr : r ∈ tokenRules)
    (hr' : r' ∈ tokenRules) {cs : List Char} {n m : Nat} (hn : r.2.length? cs = some n)
    (hm : r'.2.length? cs = some m) : r.2.opening = r'.2.opening := by
  cases cs with
  | nil =>
    have hnone : ∀ r ∈ tokenRules, r.2.length? [] = none := by decide
    rw [hnone r hr] at hn
    cases hn
  | cons c cs =>
    rw [opening_eq_of_length? (proper_of_mem r hr) hn,
      opening_eq_of_length? (proper_of_mem r' hr') hm]

/-- **The first match is a longest one.** -/
theorem longestMatch_of_firstToken? {cs : List Char} {kind : TokenKind} {n : Nat}
    (h : firstToken? cs = some (kind, n)) : LongestMatch cs kind n := by
  obtain ⟨before, pattern, after, hrules, hn, hbefore⟩ := exists_rules_of_firstToken? h
  have hmem : (kind, pattern) ∈ tokenRules := by simp [hrules]
  have hproper := proper_of_mem _ hmem
  have horder : ∀ r ∈ after, pattern.Precedes r.2 := by
    have hpairs := tokenRules_pairwise
    rw [hrules] at hpairs
    exact (List.pairwise_cons.mp (List.pairwise_append.mp hpairs).2.1).1
  -- a rule that matches is this one or behind it
  have hcases : ∀ r ∈ tokenRules, ∀ m, r.2.length? cs = some m →
      r = (kind, pattern) ∨ pattern.Precedes r.2 := by
    intro r hr m hm
    rw [hrules, List.mem_append, List.mem_cons] at hr
    rcases hr with hr | rfl | hr
    · rw [hbefore r hr] at hm
      cases hm
    · exact .inl rfl
    · exact .inr (horder r hr)
  refine ⟨⟨pattern, hmem, hn⟩, fun r hr m hm => ?_, fun other word hother hword => ?_⟩
  · rcases hcases r hr m hm with rfl | hprecedes
    · exact Nat.le_of_eq (Option.some.inj (hm.symm.trans hn))
    · exact hprecedes.le hproper (proper_of_mem r hr) hn hm (opening_eq_of_mem hmem hr hn hm)
  · rcases hcases _ hother n hword with heq | hprecedes
    · exact congrArg Prod.fst heq
    · have ho := opening_eq_of_mem hmem hother hn hword
      cases pattern with
      | keyword word' =>
        -- as many letters, so the same word
        have hsame : word' = word :=
          (map_foldLetter_of_length? hn).symm.trans (map_foldLetter_of_length? hword)
        exact kind_eq_of_mem _ hother _ hmem (by rw [hsame])
      | name => cases hprecedes.1 rfl
      | _ => cases ho

/-- There is one longest match. -/
theorem LongestMatch.unique {cs : List Char} {kind kind' : TokenKind} {n n' : Nat}
    (h : LongestMatch cs kind n) (h' : LongestMatch cs kind' n') : kind = kind' ∧ n = n' := by
  obtain ⟨pattern, hmem, hn⟩ := h.isMatch
  obtain ⟨pattern', hmem', hn'⟩ := h'.isMatch
  obtain rfl : n = n' := Nat.le_antisymm (h'.longest _ hmem n hn) (h.longest _ hmem' n' hn')
  refine ⟨?_, rfl⟩
  have ho := opening_eq_of_mem hmem hmem' hn hn'
  by_cases hkeyword : ∃ word, pattern = .keyword word
  · obtain ⟨word, rfl⟩ := hkeyword
    exact h'.keywordFirst kind word hmem hn
  by_cases hkeyword' : ∃ word, pattern' = .keyword word
  · obtain ⟨word, rfl⟩ := hkeyword'
    exact (h.keywordFirst kind' word hmem' hn').symm
  refine kind_eq_of_mem _ hmem _ hmem' ?_
  cases pattern with
  | keyword word => exact absurd ⟨word, rfl⟩ hkeyword
  | symbol chars =>
    cases pattern' with
    | symbol chars' => rw [← take_eq_of_length? hn, take_eq_of_length? hn']
    | _ => cases ho
  | _ =>
    cases pattern' with
    | keyword word => exact absurd ⟨word, rfl⟩ hkeyword'
    | _ => first | rfl | cases ho

/-- **The first match is the longest match**, a keyword before a name. -/
theorem firstToken?_eq_some_iff {cs : List Char} {kind : TokenKind} {n : Nat} :
    firstToken? cs = some (kind, n) ↔ LongestMatch cs kind n := by
  refine ⟨longestMatch_of_firstToken?, fun h => ?_⟩
  obtain ⟨pattern, hmem, hn⟩ := h.isMatch
  cases hfirst : firstToken? cs with
  | none =>
    have hnone := List.findSome?_eq_none_iff.mp hfirst _ hmem
    rw [hn] at hnone
    cases hnone
  | some found =>
    obtain ⟨kind', n'⟩ := found
    obtain ⟨rfl, rfl⟩ := h.unique (longestMatch_of_firstToken? hfirst)
    rfl

/-! ## Tokens -/

/-- A token as the longest match in front of what stands behind it, and what follows for
words. -/
structure Token.Munched (t : Token) (behind : List Char) : Prop where
  match_iff : ∀ kind n, LongestMatch (t.text.toList ++ behind) kind n ↔
    kind = t.kind ∧ n = t.text.toList.length
  /-- A keyword is its word, letter case ignored, where the word ends. -/
  keyword_iff : ∀ kind word, (kind, Pattern.keyword word) ∈ tokenRules →
    (t.kind = kind ↔ t.text.toList.map foldLetter = word ∧
      ∀ c ∈ behind.head?, Text.isWord c = false)
  /-- Only a name that is as long as names can be stands in front of more of a name. -/
  capped : (t.kind = .identifier ∨ ∃ word, (t.kind, Pattern.keyword word) ∈ tokenRules) →
    (∃ c ∈ behind.head?, isNameChar c = true) →
    t.kind = .identifier ∧ t.text.toList.length = maxNameLength

/-- **What is read at a place is munched there.** -/
theorem Token.munched_of_firstToken? {t : Token} {behind : List Char}
    (h : firstToken? (t.text.toList ++ behind) = some (t.kind, t.text.toList.length)) :
    t.Munched behind := by
  have hlongest := longestMatch_of_firstToken? h
  obtain ⟨pattern, hmem, hn⟩ := hlongest.isMatch
  have htext : (t.text.toList ++ behind).take t.text.toList.length = t.text.toList :=
    List.take_left
  have hbehind : (t.text.toList ++ behind).drop t.text.toList.length = behind := List.drop_left
  refine ⟨fun kind n => ⟨fun hmatch => hmatch.unique hlongest, ?_⟩,
    fun kind word hkeyword => ⟨?_, ?_⟩, ?_⟩
  · rintro ⟨rfl, rfl⟩
    exact hlongest
  · rintro rfl
    obtain rfl : pattern = .keyword word := pattern_eq_of_mem _ hmem _ hkeyword rfl
    have hfold := map_foldLetter_of_length? hn
    have hend := endsWord_of_keyword hn
    rw [htext] at hfold
    rw [hbehind] at hend
    exact ⟨hfold, hend⟩
  · rintro ⟨rfl, hend⟩
    refine (hlongest.keywordFirst kind _ hkeyword ?_).symm
    have hword : Pattern.endsWord behind = true := by
      cases behind with
      | nil => rfl
      | cons c behind => rw [Pattern.endsWord, hend c rfl]; rfl
    rw [Pattern.length?, List.length_map, htext, hbehind, hword]
    simp
  · rintro hword ⟨c, hc, hname⟩
    rcases hword with hk | ⟨word, hkeyword⟩
    · refine ⟨hk, ?_⟩
      have hpattern : ∀ r ∈ tokenRules, r.1 = .identifier → r.2 = .name := by decide
      obtain rfl : pattern = .name := hpattern _ hmem hk
      obtain ⟨d, rest, hcs, -, -, hcap⟩ := isName_of_length? hn
      rw [String.toList_ofList, htext] at hcs
      have hstop := (name_maximal hn).2
      rw [hbehind] at hstop
      by_contra hlength
      have hshort : t.text.toList.length < maxNameLength := by
        rw [hcs, List.length_cons] at hlength ⊢
        unfold maxNameLength at hlength ⊢
        omega
      rw [hstop hshort c hc] at hname
      cases hname
    · obtain rfl : pattern = .keyword word := pattern_eq_of_mem _ hmem _ hkeyword rfl
      have hend := endsWord_of_keyword hn
      rw [hbehind] at hend
      have hc' := isWord_of_isNameChar hname
      rw [hend c hc] at hc'
      cases hc'

/-- **Every token of a text is munched where it stands.**  The tokens that are yielded are
those of a segmentation, each the longest match in front of all that follows it; and where
the text consists of tokens throughout, no identifier spells a keyword. -/
theorem maximal_munch (source : String) :
    ∃ segments gap rest, Segmentation 1 source.toList segments gap rest ∧
      (Tape.ofString source).tokens = segments.map Segment.token ∧
      (∀ before s after, segments = before ++ s :: after →
        s.token.Munched (after.flatMap Segment.chars ++ (gap ++ rest))) ∧
      (tokenize source = .ok (segments.map Segment.token) →
        ∀ s ∈ segments, s.token.kind = .identifier → ¬IsReserved s.token.text) := by
  obtain ⟨segments, gap, rest, hsegments, hreads, hscan⟩ :=
    exists_segmentation_read 1 source.toList
  refine ⟨segments, gap, rest, hsegments, ?_, fun before s after hsplit =>
    Token.munched_of_firstToken? (hreads before s after hsplit), fun h s hs hk =>
    not_isReserved_of_mem h (List.mem_map_of_mem hs) hk⟩
  rw [Tape.ofString, hscan]

end MathScript
