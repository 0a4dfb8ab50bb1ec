import MathScript.Proofs.Grammar.Agreement
import MathScript.Proofs.Token.Munch
import MathScript.Proofs.Token.Signature

/-!
# Other layouts

The tokens of a text may be written down again with other blanks, line breaks and
comments in between.  Each of them is a text by itself, where it stood in front of more:
what a rule matches it matches alone, and no rule matches more than all there is.  In
front of a separator it is then read as itself.

* `Token.alone_of_mem`: **a token of a text is a text of one token**.
* `scan_layout`: a gap is left behind, and its line breaks are counted.
* `layout_independence`: what is written with other gaps has the same tokens, on the
  lines where they now stand, and is read as the same program.
-/

namespace MathScript

/-! ## Tokens alone -/

/-- What a rule matches, it matches where nothing follows. -/
theorem length?_take {pattern : Pattern} {cs : List Char} {n : Nat}
    (h : pattern.length? cs = some n) : pattern.length? (cs.take n) = some n := by
  have hlength : (cs.take n).length = n := List.length_take_of_le (length?_le h)
  cases pattern with
  | quoted =>
    obtain ⟨body, rest, rfl, hbody, rfl⟩ := quotedLength?_eq_some.mp h
    rw [Pattern.length?]
    refine quotedLength?_eq_some.mpr ⟨body, [], ?_, hbody, rfl⟩
    rw [List.take_succ_cons, List.take_append]
    simp
  | keyword word =>
    have hfold := map_foldLetter_of_length? h
    have hword : word.length = n := by rw [← hfold, List.length_map, hlength]
    rw [Pattern.length?, hword, List.take_take, Nat.min_self, hfold,
      List.drop_eq_nil_of_le (Nat.le_of_eq hlength)]
    simp [Pattern.endsWord]
  | name =>
    obtain ⟨c, rest, htext, hc, hrest, hcap⟩ := isName_of_length? h
    rw [String.toList_ofList] at htext
    rw [htext] at hlength ⊢
    rw [name_eq_length hc hrest hcap, hlength]
  | number =>
    have hnumeral := numberLength?_eq_length (isNumeral_of_numberLength? h)
    rwa [String.toList_ofList, hlength] at hnumeral
  | symbol chars =>
    have htake := take_eq_of_length? h
    rw [htake] at hlength ⊢
    rw [Pattern.length?, if_pos (List.isPrefixOf_iff_prefix.mpr (List.prefix_refl chars)), hlength]

/-- **A token is itself where nothing follows**, if a token or a separator starts behind
it. -/
theorem firstToken?_take {cs : List Char} {kind : TokenKind} {n : Nat}
    (h : firstToken? cs = some (kind, n)) (hs : Starts (cs.drop n)) :
    firstToken? (cs.take n) = some (kind, n) := by
  have hlongest := longestMatch_of_firstToken? h
  obtain ⟨pattern, hmem, hn⟩ := hlongest.isMatch
  have halone := length?_take hn
  refine firstToken?_eq_some_iff.mpr ⟨⟨pattern, hmem, halone⟩, fun r hr m hm => ?_,
    fun other word hother hword => ?_⟩
  · -- nothing matches more than all there is
    exact Nat.le_trans (length?_le hm) (List.length_take_le n cs)
  · have ho := opening_eq_of_mem hmem hother halone hword
    have hfold := map_foldLetter_of_length? hword
    rw [List.take_take, Nat.min_self] at hfold
    cases pattern with
    | keyword word' =>
      have hsame : word' = word := (map_foldLetter_of_length? hn).symm.trans hfold
      exact kind_eq_of_mem _ hother _ hmem (by rw [hsame])
    | name =>
      -- a name that spells a keyword would have been read as the keyword
      have hkinds : ∀ r ∈ tokenRules, r.2 = .name → r.1 = .identifier := by decide
      obtain rfl : kind = .identifier := hkinds _ hmem rfl
      refine absurd ?_ (not_isReserved_of_firstToken? h hs)
      rw [IsReserved, String.toList_ofList, hfold]
      exact List.mem_filterMap.mpr ⟨_, hother, rfl⟩
    | _ => cases ho

/-- **A token of a text is a text of one token.** -/
theorem Token.alone_of_mem {source : String} {ts : List Token} (h : tokenize source = .ok ts)
    {t : Token} (ht : t ∈ ts) : t.Alone := by
  obtain ⟨last, htape⟩ := tape_of_tokenize h
  unfold Tape.ofString at htape
  obtain ⟨cs, n, hfirst, htext, hs⟩ := firstToken?_of_scan (t := t)
    (by rw [htape]) (by rw [htape]; exact ht)
  rw [Token.Alone, htext, String.toList_ofList, firstToken?_take hfirst hs,
    List.length_take_of_le (length_le_of_firstToken? hfirst)]

theorem Token.Alone.unbroken {t : Token} (h : t.Alone) :
    t.text.toList ≠ [] ∧ Unbroken t.text.toList := by
  have hu := unbroken_of_firstToken? h
  rwa [List.take_length] at hu

/-! ## Gaps -/

/-- Blanks, line breaks and comments, each comment closed by a line break. -/
inductive IsLayout : List Char → Prop
  | nil : IsLayout []
  | blank {c : Char} {cs : List Char} (hc : c = ' ' ∨ c = '\t') (h : IsLayout cs) :
    IsLayout (c :: cs)
  | lineBreak {c : Char} {cs : List Char} (hc : c = '\r' ∨ c = '\n') (h : IsLayout cs) :
    IsLayout (c :: cs)
  | comment {body cs : List Char} {c : Char} (hbody : Unbroken body) (hc : c = '\r' ∨ c = '\n')
    (h : IsLayout cs) : IsLayout ('#' :: (body ++ c :: cs))

/-- A gap starts as separators do, or it is empty. -/
theorem IsLayout.head {gap : List Char} (h : IsLayout gap) : ∀ c ∈ gap.head?, c ∈ gapHeads := by
  cases h with
  | nil => simp
  | blank hc => rcases hc with rfl | rfl <;> simp [gapHeads]
  | lineBreak hc => rcases hc with rfl | rfl <;> simp [gapHeads]
  | comment => simp [gapHeads]

/-- A comment is left behind up to the line break that closes it. -/
theorem scan_comment {body : List Char} (hbody : Unbroken body) {c : Char}
    (hc : c = '\r' ∨ c = '\n') (line : Nat) (cs : List Char) :
    Tape.scan line 0 ('#' :: (body ++ c :: cs)) = Tape.scan line 0 (c :: cs) := by
  have hinside : ∀ d ∈ body, (d != '\r' && d != '\n') = true := fun d hd => by
    simpa using hbody d hd
  have hstop : (c != '\r' && c != '\n') = false := by rcases hc with rfl | rfl <;> decide
  have hrun : (body ++ c :: cs).takeWhile (fun c => c != '\r' && c != '\n') = body := by
    rw [takeWhile_append_stop hstop, List.takeWhile_eq_self_iff.mpr hinside]
  have hgap : firstGap? ('#' :: (body ++ c :: cs)) = some (.comment, 1 + body.length) := by
    rw [firstGap?, hrun]
  rw [scan_gap hgap, Nat.add_sub_cancel_left, scan_append]
  rfl

/-- **A gap is left behind**, and its line breaks are counted. -/
theorem scan_layout {gap : List Char} (h : IsLayout gap) {rest : List Char}
    (hrest : rest.head? ≠ some '\n') (line : Nat) :
    Tape.scan line 0 (gap ++ rest) = Tape.scan (line + lineBreaks gap) 0 rest := by
  -- a line break is one break or none, by what stands behind it in the gap
  have hbreak : ∀ {c : Char} {cs : List Char} (line : Nat), c = '\r' ∨ c = '\n' →
      (∀ line, Tape.scan line 0 (cs ++ rest) = Tape.scan (line + lineBreaks cs) 0 rest) →
      Tape.scan line 0 (c :: (cs ++ rest)) = Tape.scan (line + lineBreaks (c :: cs)) 0 rest := by
    intro c cs line hc ih
    have hhead : (cs ++ rest).head? ≠ some '\n' ↔ cs.head? ≠ some '\n' := by
      cases cs with
      | nil => simpa using hrest
      | cons d cs => rfl
    rw [scan_break hc, ih, lineBreaks, Nat.add_assoc]
    simp only [hhead]
  induction h generalizing line with
  | nil => rfl
  | @blank c cs hc h ih =>
    have hu : Unbroken [c] := by rcases hc with rfl | rfl <;> simp [Unbroken]
    have hplain : lineBreaks (c :: cs) = lineBreaks cs := hu.lineBreaks_append cs
    rw [List.cons_append, scan_blank hc, ih, hplain]
  | @lineBreak c cs hc h ih => exact hbreak line hc ih
  | @comment body cs c hbody hc h ih =>
    have hu : Unbroken ('#' :: body) := List.forall_mem_cons.mpr ⟨by decide, hbody⟩
    have hplain : lineBreaks ('#' :: (body ++ c :: cs)) = lineBreaks (c :: cs) :=
      hu.lineBreaks_append (c :: cs)
    rw [hplain, List.cons_append, List.append_assoc, List.cons_append, scan_comment hbody hc]
    exact hbreak line hc ih

/-! ## Tokens with other gaps -/

/-- These tokens, each with a gap in front of it, and a last gap.  No two tokens touch. -/
structure IsLaidOut (ts : List Token) (segments : List Segment) (last : List Char) : Prop where
  tokens : segments.map Segment.token = ts
  gaps : ∀ s ∈ segments, IsLayout s.gap
  lastGap : IsLayout last
  apart : ∀ s ∈ segments.tail, s.gap ≠ []

/-- The tokens of the segments, on the lines where the gaps put them. -/
def relined (line : Nat) : List Segment → List Token
  | [] => []
  | s :: segments =>
    { s.token with line := line + lineBreaks s.gap } ::
      relined (line + lineBreaks s.gap) segments

theorem map_relined (line : Nat) (segments : List Segment) :
    (relined line segments).map (fun t => (t.kind, t.text)) =
      (segments.map Segment.token).map fun t => (t.kind, t.text) := by
  induction segments generalizing line with
  | nil => rfl
  | cons s segments ih => rw [relined, List.map_cons, List.map_cons, List.map_cons, ih]

/-- The line breaks in front of a token lead to its line. -/
theorem line_relined {before after : List Segment} {s : Segment} (line : Nat)
    (h : ∀ s ∈ before, s.token.Alone) :
    ((relined line (before ++ s :: after))[before.length]?).map Token.line =
      some (line + lineBreaks (before.flatMap Segment.chars ++ s.gap)) := by
  induction before generalizing line with
  | nil => rfl
  | cons first before ih =>
    obtain ⟨hfirst, hbefore⟩ := List.forall_mem_cons.mp h
    obtain ⟨hne, hu⟩ := hfirst.unbroken
    rw [List.cons_append, relined, List.length_cons, List.getElem?_cons_succ, ih _ hbefore,
      List.flatMap_cons, List.append_assoc, lineBreaks_segment hne hu, Nat.add_assoc]

/-- A text starts as separators do, or it is empty. -/
theorem head_segments {segments : List Segment} {last : List Char}
    (hgaps : ∀ s ∈ segments, IsLayout s.gap) (hne : ∀ s ∈ segments, s.gap ≠ [])
    (hlast : IsLayout last) :
    ∀ c ∈ (segments.flatMap Segment.chars ++ last).head?, c ∈ gapHeads := by
  cases segments with
  | nil => exact hlast.head
  | cons s segments =>
    obtain ⟨c, gap, hgap⟩ := List.exists_cons_of_ne_nil (hne s List.mem_cons_self)
    have hc := (hgaps s List.mem_cons_self).head
    rw [hgap] at hc
    simpa [Segment.chars, hgap] using hc

/-- **Tokens are read back from behind their gaps.** -/
theorem scan_segments {segments : List Segment} {last : List Char}
    (halone : ∀ s ∈ segments, s.token.Alone) (hgaps : ∀ s ∈ segments, IsLayout s.gap)
    (hlast : IsLayout last) (hapart : ∀ s ∈ segments.tail, s.gap ≠ []) (line : Nat) :
    ∃ end', Tape.scan line 0 (segments.flatMap Segment.chars ++ last) =
      ⟨relined line segments, .complete end'⟩ := by
  induction segments generalizing line with
  | nil =>
    refine ⟨line + lineBreaks last, ?_⟩
    have hscan : Tape.scan line 0 (last ++ []) = Tape.scan (line + lineBreaks last) 0 [] :=
      scan_layout hlast (by simp) line
    rwa [List.append_nil] at hscan
  | cons s segments ih =>
    obtain ⟨hs, halone⟩ := List.forall_mem_cons.mp halone
    obtain ⟨hgap, hgaps⟩ := List.forall_mem_cons.mp hgaps
    have hnext := head_segments hgaps hapart hlast
    obtain ⟨end', hscan⟩ := ih halone hgaps (fun u hu => hapart u (List.mem_of_mem_tail hu))
      (line + lineBreaks s.gap)
    set behind := segments.flatMap Segment.chars ++ last with hbehind
    refine ⟨end', ?_⟩
    obtain ⟨d, ds, htext, hd⟩ := hs.cons
    have hfirst : firstToken? (d :: (ds ++ behind)) = some (s.token.kind, ds.length + 1) := by
      have hfirst := hs
      rw [Token.Alone, htext] at hfirst
      cases hb : behind with
      | nil => rwa [List.append_nil]
      | cons c rest =>
        have hc : c ∈ gapHeads := hnext c (by rw [hb]; rfl)
        exact firstToken?_append (endsToken_of_mem_gapHeads hc) (d :: ds) rest hfirst
    have hchars : (s :: segments).flatMap Segment.chars ++ last =
        s.gap ++ d :: (ds ++ behind) := by
      rw [List.flatMap_cons, List.append_assoc, ← hbehind, Segment.chars, List.append_assoc, htext,
        List.cons_append]
    have htoken : String.ofList ((d :: (ds ++ behind)).take (ds.length + 1)) = s.token.text := by
      rw [List.take_succ_cons, List.take_left, ← htext, String.ofList_toList]
    have hbreak : (d :: (ds ++ behind)).head? ≠ some '\n' := by
      intro hhead
      obtain rfl : d = '\n' := Option.some.inj hhead
      exact hd (by decide)
    rw [hchars, scan_layout hgap hbreak, scan_token (firstGap?_eq_none hd) hfirst, htoken,
      Nat.add_sub_cancel, scan_append, hscan]
    rfl

/-- **Layout does not matter.**  The tokens of a text, written down with other blanks, line
breaks and closed comments, are read back in kind and text, each on the line to which the
line breaks in front of it lead; the signature is the same, and so is the program with its
table, or the variant of the error. -/
theorem layout_independence {source : String} {ts : List Token} (h : tokenize source = .ok ts)
    {segments : List Segment} {last : List Char} (hlaid : IsLaidOut ts segments last) :
    let text := String.ofList (segments.flatMap Segment.chars ++ last)
    ∃ us, tokenize text = .ok us ∧
      us.map (fun u => (u.kind, u.text)) = ts.map (fun t => (t.kind, t.text)) ∧
      (∀ before s after, segments = before ++ s :: after →
        (us[before.length]?).map Token.line =
          some (1 + lineBreaks (before.flatMap Segment.chars ++ s.gap))) ∧
      signature text = signature source ∧
      ∀ interrupt,
        (∃ r, parseUnder interrupt source = .ok r ∧ parseUnder interrupt text = .ok r) ∨
        ∃ e f, parseUnder interrupt source = .error e ∧ parseUnder interrupt text = .error f ∧
          e.Alike f := by
  intro text
  obtain ⟨rfl, hgaps, hlast, hapart⟩ := hlaid
  have halone : ∀ s ∈ segments, s.token.Alone := fun s hs =>
    Token.alone_of_mem h (List.mem_map_of_mem hs)
  obtain ⟨end', hscan⟩ := scan_segments halone hgaps hlast hapart 1
  have htokens : tokenize text = .ok (relined 1 segments) := by
    unfold tokenize Tape.ofString
    rw [String.toList_ofList, hscan]
    rfl
  have hsame := map_relined 1 segments
  refine ⟨_, htokens, hsame, ?_, (signature_eq_iff htokens h).mpr hsame, fun interrupt =>
    parseUnder_alike interrupt h htokens ?_⟩
  · rintro before s after rfl
    exact line_relined 1 fun s hs => halone s (List.mem_append_left _ hs)
  · have hpairs := List.forall₂_map_left_iff.mp (List.forall₂_map_right_iff.mp
      (List.forall₂_eq_eq_eq ▸ hsame.symm))
    exact hpairs.imp fun t u htu => ⟨congrArg Prod.fst htu, fun _ => congrArg Prod.snd htu⟩

/-- An assignment spread over five lines. -/
theorem layout_independence_spread :
    let source := "a=-1;"
    let segments : List Segment := [⟨"# a\r\n".toList, ⟨.identifier, "a", 1⟩⟩,
      ⟨[' '], ⟨.assign, "=", 1⟩⟩, ⟨['\r'], ⟨.minus, "-", 1⟩⟩,
      ⟨"#\n\t".toList, ⟨.number, "1", 1⟩⟩, ⟨['\r', '\n'], ⟨.semicolon, ";", 1⟩⟩]
    let text := String.ofList (segments.flatMap Segment.chars ++ "#\n".toList)
    tokenize source = .ok (segments.map Segment.token) ∧
      IsLaidOut (segments.map Segment.token) segments "#\n".toList ∧
      ∃ us, tokenize text = .ok us ∧ (us[4]?).map Token.line = some 5 ∧
        signature text = signature source := by
  intro source segments text
  have htokens : tokenize source = .ok (segments.map Segment.token) := by cbv
  have hlaid : IsLaidOut (segments.map Segment.token) segments "#\n".toList := by
    have hempty : Unbroken [] := by simp [Unbroken]
    have hword : Unbroken [' ', 'a'] := by simp [Unbroken]
    refine ⟨rfl, ?_, .comment hempty (.inr rfl) .nil, ?_⟩
    · simp only [segments, List.forall_mem_cons]
      refine ⟨?_, .blank (.inl rfl) .nil, .lineBreak (.inl rfl) .nil, ?_, ?_, by simp⟩
      · exact .comment hword (.inl rfl) (.lineBreak (.inr rfl) .nil)
      · exact .comment hempty (.inr rfl) (.blank (.inr rfl) .nil)
      · exact .lineBreak (.inl rfl) (.lineBreak (.inr rfl) .nil)
    · decide
  obtain ⟨us, hus, -, hlines, hsignature, -⟩ := layout_independence htokens hlaid
  have hline := hlines (segments.take 4) ⟨['\r', '\n'], ⟨.semicolon, ";", 1⟩⟩ [] rfl
  have hbreaks : 1 + lineBreaks ((segments.take 4).flatMap Segment.chars ++ ['\r', '\n']) = 5 := by
    cbv
  rw [hbreaks] at hline
  exact ⟨htokens, hlaid, us, hus, hline, hsignature⟩

end MathScript
