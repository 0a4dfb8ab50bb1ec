import MathScript.Proofs.Token.Layout
import MathScript.Proofs.Token.Seam

/-!
# More text on the same line

A text goes on where it ends, and a token at its end is not touched by what follows if that
starts with a character no token goes on over.  Only a comment would go on, up to the end of
the line; whether a text ends in one shows in what a semicolon behind it adds.

* `scan_continued`: **in front of what ends a token a closed text keeps its tokens**, and its
  last line goes on.
* `tokenize_between`: tokens with spaces behind them, a closed text, and the rest of its last
  line.
-/

namespace MathScript

/-- The text does not end in a comment: a semicolon behind it is read. -/
def IsClosed (line : Nat) (cs : List Char) : Prop :=
  (Tape.scan line 0 (cs ++ [';'])).tokens ≠ (Tape.scan line 0 cs).tokens

/-! ## Comments -/

theorem exists_break {cs : List Char} (h : ¬Unbroken cs) :
    ∃ body c rest, cs = body ++ c :: rest ∧ Unbroken body ∧ (c = '\r' ∨ c = '\n') := by
  induction cs with
  | nil => exact absurd (by simp [Unbroken]) h
  | cons d ds ih =>
    by_cases hd : d = '\r' ∨ d = '\n'
    · exact ⟨[], d, ds, rfl, by simp [Unbroken], hd⟩
    · have hds : ¬Unbroken ds := by
        intro hds
        exact h (List.forall_mem_cons.mpr ⟨not_or.mp hd, hds⟩)
      obtain ⟨body, c, rest, rfl, hbody, hc⟩ := ih hds
      exact ⟨d :: body, c, rest, rfl, List.forall_mem_cons.mpr ⟨not_or.mp hd, hbody⟩, hc⟩

/-- A comment that no line break closes goes on to the end of the text. -/
theorem scan_open_comment {body : List Char} (hbody : Unbroken body) (line : Nat) :
    Tape.scan line 0 ('#' :: body) = ⟨[], .complete line⟩ := by
  have hinside : ∀ d ∈ body, (d != '\r' && d != '\n') = true := by
    intro d hd
    simpa using hbody d hd
  have hgap : firstGap? ('#' :: body) = some (.comment, 1 + body.length) := by
    rw [firstGap?, List.takeWhile_eq_self_iff.mpr hinside]
  have hscan := scan_append line body []
  rw [List.append_nil] at hscan
  rw [scan_gap hgap, Nat.add_sub_cancel_left]
  exact hscan

theorem not_isClosed_comment {body : List Char} (hbody : Unbroken body) (line : Nat) :
    ¬IsClosed line ('#' :: body) := by
  have hmore : Unbroken (body ++ [';']) := by
    intro d hd
    rcases List.mem_append.mp hd with hd | hd
    · exact hbody d hd
    · obtain rfl := List.mem_singleton.mp hd
      decide
  intro h
  apply h
  rw [List.cons_append, scan_open_comment hmore, scan_open_comment hbody]

/-! ## On the last line -/

section Continued

variable {c : Char} (hc : EndsToken c) (hbreak : c ≠ '\n') (cs : List Char)
include hc hbreak

/-- **In front of what ends a token a closed text keeps its tokens**, and its last line goes
on. -/
theorem scan_continued {as : List Char} {line last : Nat}
    (h : (Tape.scan line 0 as).ending = .complete last) (hclosed : IsClosed line as) :
    Tape.scan line 0 (as ++ c :: cs) =
      ⟨(Tape.scan line 0 as).tokens ++ (Tape.scan last 0 (c :: cs)).tokens,
        (Tape.scan last 0 (c :: cs)).ending⟩ := by
  induction hn : as.length using Nat.strong_induction_on generalizing as line with
  | _ n ih =>
    cases as with
    | nil =>
      have hline : Ending.complete line = .complete last := h
      cases hline
      rfl
    | cons d ds =>
      have hshort : ds.length < n := by
        rw [← hn]
        exact Nat.lt_succ_self _
      unfold IsClosed at hclosed
      rw [List.cons_append] at hclosed ⊢
      by_cases hblank : d = ' ' ∨ d = '\t'
      · rw [scan_blank hblank] at h hclosed ⊢
        rw [scan_blank hblank] at hclosed ⊢
        exact ih ds.length hshort h hclosed rfl
      by_cases hline : d = '\r' ∨ d = '\n'
      · -- a line break is one break or none, by what stands behind it
        have hhead : ∀ (c : Char) (cs : List Char), c ≠ '\n' →
            ((ds ++ c :: cs).head? ≠ some '\n' ↔ ds.head? ≠ some '\n') := by
          intro c cs hc
          cases ds with
          | nil => simpa using hc
          | cons e es => rfl
        rw [scan_break hline] at h hclosed ⊢
        rw [scan_break hline] at hclosed ⊢
        simp only [hhead c cs hbreak, hhead ';' [] (by decide)] at hclosed ⊢
        exact ih ds.length hshort h hclosed rfl
      by_cases hcomment : d = '#'
      · subst hcomment
        by_cases hbody : Unbroken ds
        · exact absurd hclosed (not_isClosed_comment hbody line)
        · obtain ⟨body, e, rest, rfl, hbody, he⟩ := exists_break hbody
          rw [List.append_assoc, List.cons_append, scan_comment hbody he] at hclosed ⊢
          rw [scan_comment hbody he] at h hclosed ⊢
          refine ih (e :: rest).length ?_ h hclosed rfl
          rw [List.length_append] at hshort
          omega
      · have hd : d ∉ gapHeads := by
          simp only [gapHeads, List.mem_cons, List.not_mem_nil, or_false, not_or]
          tauto
        cases hfirst : firstToken? (d :: ds) with
        | none =>
          rw [scan_unrecognised (firstGap?_eq_none hd) hfirst] at h
          cases h
        | some found =>
          obtain ⟨kind, length⟩ := found
          obtain ⟨piece, rest, hsplit, rfl, hpos⟩ := exists_piece_of_firstToken? hfirst
          have htext : (d :: ds).take piece.length = piece := by rw [hsplit, List.take_left]
          -- the token stands in front of either text, and leaves it what is left
          have hscan : ∀ (c : Char) (cs : List Char), EndsToken c →
              Tape.scan line 0 (d :: (ds ++ c :: cs)) =
                (Tape.scan line 0 (rest ++ c :: cs)).cons ⟨kind, String.ofList piece, line⟩ := by
            intro c cs hc
            have hsplit' : d :: (ds ++ c :: cs) = piece ++ (rest ++ c :: cs) := by
              rw [← List.cons_append, hsplit, List.append_assoc]
            have hfirst' : firstToken? (d :: (ds ++ c :: cs)) = some (kind, piece.length) :=
              firstToken?_append hc (d :: ds) cs hfirst
            rw [scan_token (firstGap?_eq_none hd) hfirst', scan_behind _ hsplit' hpos, hsplit',
              List.take_left]
          have hrest : rest.length < n := by
            rw [← hn, hsplit, List.length_append]
            omega
          rw [scan_token (firstGap?_eq_none hd) hfirst, scan_behind _ hsplit hpos, htext]
            at h hclosed ⊢
          rw [hscan ';' [] endsToken_semicolon] at hclosed
          have hclosed' : IsClosed line rest := by
            intro heq
            apply hclosed
            rw [Tape.cons, Tape.cons, heq]
          rw [hscan c cs hc, ih rest.length hrest h hclosed' rfl]
          rfl

end Continued

/-- **Tokens with spaces behind them, a closed text, and the rest of its last line.** -/
theorem tokenize_between {e front back : String} {ts before : List Token} (h : tokenize e = .ok ts)
    (hfront : front.toList = spaced before) (hbefore : ∀ t ∈ before, t.Alone ∧ t.line = 1)
    (hclosed : IsClosed 1 e.toList) {c : Char} (hc : EndsToken c) (hbreak : c ≠ '\n')
    (hback : back.toList.head? = some c) {after : Nat → List Token}
    (hafter : ∀ line, Tape.scan line 0 back.toList = ⟨after line, .complete line⟩) :
    tokenize (front ++ e ++ back) =
      .ok (before ++ (ts ++ after (Tape.ofString e).ending.line)) := by
  obtain ⟨last, htape⟩ := tape_of_tokenize h
  have hscan : Tape.scan 1 0 e.toList = ⟨ts, .complete last⟩ := htape
  have hend : (Tape.scan 1 0 e.toList).ending = .complete last := by rw [hscan]
  obtain ⟨cs, hcs⟩ := List.head?_eq_some_iff.mp hback
  have hmore := scan_continued hc hbreak cs hend hclosed
  rw [← hcs, hafter last, hscan] at hmore
  have htext : (front ++ e ++ back).toList = spaced before ++ (e.toList ++ back.toList) := by
    rw [String.toList_append, String.toList_append, hfront, List.append_assoc]
  rw [tokenize, Tape.ofString, htext, scan_spaced_append 1 hbefore, hmore, htape]
  rfl

end MathScript
