import MathScript.Proofs.Grammar.Agreement
import MathScript.Proofs.Token.Segments
import MathScript.Proofs.Token.Spacing

/-!
# Texts behind one another

A line break ends whatever stands in front of it: no token goes on over it, and neither
does a comment.  It may join with a line break at the end of the text in front of it or
at the start of the text behind it, which changes lines and nothing else.

* `scan_alike`: lines aside, a text has the same tokens wherever it starts.
* `tokenize_seam`: **a text behind another one and a line break keeps its tokens**.
-/

namespace MathScript

/-- **Lines aside, a text has the same tokens wherever it starts.** -/
theorem scan_alike {line last pending : Nat} {cs : List Char}
    (h : (Tape.scan line pending cs).ending = .complete last) (line' : Nat) :
    List.Forall₂ Token.Alike (Tape.scan line' pending cs).tokens
        (Tape.scan line pending cs).tokens ∧
      ∃ last', (Tape.scan line' pending cs).ending = .complete last' := by
  induction cs generalizing line line' pending with
  | nil => cases pending <;> exact ⟨.nil, _, rfl⟩
  | cons c cs ih =>
    cases pending with
    | succ pending => exact ih h line'
    | zero =>
      cases hgap : firstGap? (c :: cs) with
      | some found =>
        rw [scan_gap hgap] at h ⊢
        rw [scan_gap hgap]
        exact ih h _
      | none =>
        cases hfirst : firstToken? (c :: cs) with
        | none =>
          rw [scan_unrecognised hgap hfirst] at h
          cases h
        | some found =>
          rw [scan_token hgap hfirst] at h ⊢
          rw [scan_token hgap hfirst]
          obtain ⟨htokens, hend⟩ := ih h line'
          exact ⟨.cons ⟨rfl, fun _ => rfl⟩ htokens, hend⟩

/-! ## Across a line break -/

/-- A token is a piece of its text. -/
theorem exists_piece_of_firstToken? {cs : List Char} {kind : TokenKind} {n : Nat}
    (h : firstToken? cs = some (kind, n)) :
    ∃ piece rest, cs = piece ++ rest ∧ n = piece.length ∧ 0 < piece.length :=
  ⟨cs.take n, cs.drop n, (List.take_append_drop n cs).symm,
    (List.length_take_of_le (length_le_of_firstToken? h)).symm,
    List.length_pos_of_ne_nil (unbroken_of_firstToken? h).1⟩

section Break

variable {c : Char} (hc : c = '\r' ∨ c = '\n')
include hc

theorem mem_gapHeads_of_break : c ∈ gapHeads := by
  rcases hc with rfl | rfl <;> decide

/-- A separator in front of a line break is what it is, unless the two are one CRLF. -/
theorem firstGap?_append {cs : List Char} {found : Gap × Nat} (h : firstGap? cs = some found)
    (rest : List Char) :
    firstGap? (cs ++ c :: rest) = some found ∨ cs = ['\r'] ∧ c = '\n' := by
  unfold firstGap? at h
  split at h
  · exact .inl h
  · next tail hne =>
    cases tail with
    | nil =>
      rcases hc with rfl | rfl
      · exact .inl h
      · exact .inr ⟨rfl, rfl⟩
    | cons d tail =>
      have hd : d ≠ '\n' := by
        rintro rfl
        exact hne tail rfl
      refine .inl ?_
      rw [← h]
      simp [firstGap?, hd]
  · exact .inl h
  · next tail =>
    refine .inl ?_
    have hstop : (c != '\r' && c != '\n') = false := by rcases hc with rfl | rfl <;> decide
    rw [← h, List.cons_append, firstGap?, takeWhile_append_stop hstop]
  · refine .inl ?_
    cases cs with
    | nil => cases h
    | cons d ds =>
      have hblank : d = ' ' ∨ d = '\t' := by
        by_contra hd
        have hnone : ((d :: ds).takeWhile fun c => c == ' ' || c == '\t') = [] :=
          List.takeWhile_cons_of_neg (by simpa using hd)
        rw [hnone] at h
        cases h
      have hstop : (c == ' ' || c == '\t') = false := by rcases hc with rfl | rfl <;> decide
      have hrun : ((d :: ds) ++ c :: rest).takeWhile (fun c => c == ' ' || c == '\t') = _ :=
        takeWhile_append_stop hstop _ _
      rw [← h, ← hrun]
      rcases hblank with rfl | rfl <;> rfl

/-- **In front of a line break a text keeps its tokens, and behind them comes the other
text.** -/
theorem scan_seam {as : List Char} {line last : Nat}
    (h : (Tape.scan line 0 as).ending = .complete last) (cs : List Char) :
    ∃ line', Tape.scan line 0 (as ++ c :: cs) =
      ⟨(Tape.scan line 0 as).tokens ++ (Tape.scan line' 0 cs).tokens,
        (Tape.scan line' 0 cs).ending⟩ := by
  induction hn : as.length using Nat.strong_induction_on generalizing as line with
  | _ n ih =>
    cases as with
    | nil => exact ⟨_, scan_break hc line cs⟩
    | cons d ds =>
      cases hgap : firstGap? (d :: ds) with
      | some found =>
        obtain ⟨kind, length⟩ := found
        rcases firstGap?_append hc hgap cs with hsame | ⟨hcr, rfl⟩
        · obtain ⟨piece, rest, hsplit, rfl, hpiece, -⟩ := isSeparator_of_firstGap? hgap
          have hpos := hpiece.length_pos
          have hsplit' : d :: (ds ++ c :: cs) = piece ++ (rest ++ c :: cs) := by
            rw [← List.cons_append, hsplit, List.append_assoc]
          have hsame : firstGap? (d :: (ds ++ c :: cs)) = some (kind, piece.length) := hsame
          have hshort : rest.length < n := by
            rw [← hn, hsplit, List.length_append]
            omega
          rw [scan_gap hgap, scan_behind _ hsplit hpos] at h ⊢
          rw [List.cons_append, scan_gap hsame, scan_behind _ hsplit' hpos]
          exact ih rest.length hshort h rfl
        · obtain ⟨rfl, rfl⟩ := List.cons.inj hcr
          exact ⟨line + 1, rfl⟩
      | none =>
        cases hfirst : firstToken? (d :: ds) with
        | none =>
          rw [scan_unrecognised hgap hfirst] at h
          cases h
        | some found =>
          obtain ⟨kind, length⟩ := found
          have hgap' : firstGap? (d :: (ds ++ c :: cs)) = none :=
            firstGap?_eq_none (notMem_gapHeads_of_firstToken? hfirst)
          have hends : EndsToken c := endsToken_of_mem_gapHeads (mem_gapHeads_of_break hc)
          have hfirst' : firstToken? (d :: (ds ++ c :: cs)) = some (kind, length) :=
            firstToken?_append hends (d :: ds) cs hfirst
          obtain ⟨piece, rest, hsplit, rfl, hpos⟩ := exists_piece_of_firstToken? hfirst
          have hsplit' : d :: (ds ++ c :: cs) = piece ++ (rest ++ c :: cs) := by
            rw [← List.cons_append, hsplit, List.append_assoc]
          have hshort : rest.length < n := by
            rw [← hn, hsplit, List.length_append]
            omega
          have htext : (d :: ds).take piece.length = piece := by rw [hsplit, List.take_left]
          have htext' : (d :: (ds ++ c :: cs)).take piece.length = piece := by
            rw [hsplit', List.take_left]
          rw [scan_token hgap hfirst, scan_behind _ hsplit hpos, htext] at h ⊢
          rw [List.cons_append, scan_token hgap' hfirst', scan_behind _ hsplit' hpos, htext']
          obtain ⟨line', hline⟩ := ih rest.length hshort h rfl
          exact ⟨line', by rw [hline]; rfl⟩

end Break

/-- **A text behind another one and a line break keeps its tokens**, lines aside. -/
theorem tokenize_seam {a b between : String} {ts us : List Token} (ha : tokenize a = .ok ts)
    (hb : tokenize b = .ok us) (hbetween : IsSeparator .lineBreak between.toList) :
    ∃ vs, List.Forall₂ Token.Alike vs us ∧ tokenize (a ++ between ++ b) = .ok (ts ++ vs) := by
  obtain ⟨last, htape⟩ := tape_of_tokenize ha
  obtain ⟨last', htape'⟩ := tape_of_tokenize hb
  have hscan : Tape.scan 1 0 a.toList = ⟨ts, .complete last⟩ := htape
  have hscan' : Tape.scan 1 0 b.toList = ⟨us, .complete last'⟩ := htape'
  have hend : (Tape.scan 1 0 a.toList).ending = .complete last := by rw [hscan]
  have hend' : (Tape.scan 1 0 b.toList).ending = .complete last' := by rw [hscan']
  obtain ⟨line, hline⟩ : ∃ line, Tape.ofString (a ++ between ++ b) =
      ⟨ts ++ (Tape.scan line 0 b.toList).tokens, (Tape.scan line 0 b.toList).ending⟩ := by
    rw [Tape.ofString, String.toList_append, String.toList_append, List.append_assoc]
    generalize between.toList = between at hbetween
    cases hbetween with
    | crlf =>
      obtain ⟨line, hline⟩ := scan_seam (.inl rfl) hend ('\n' :: b.toList)
      rw [hscan, scan_break (.inr rfl)] at hline
      exact ⟨_, hline⟩
    | cr =>
      obtain ⟨line, hline⟩ := scan_seam (.inl rfl) hend b.toList
      rw [hscan] at hline
      exact ⟨line, hline⟩
    | lf =>
      obtain ⟨line, hline⟩ := scan_seam (.inr rfl) hend b.toList
      rw [hscan] at hline
      exact ⟨line, hline⟩
  obtain ⟨halike, last'', hcomplete⟩ := scan_alike hend' line
  rw [hscan'] at halike
  refine ⟨_, halike, ?_⟩
  rw [tokenize, Tape.tokens?, hline]
  simp only [hcomplete]

end MathScript
