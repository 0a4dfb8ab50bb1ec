import MathScript.Proofs.Token.Reserved

/-!
# Cutting a text into tokens

A text is its tokens with a gap in front of each, a last gap, and a rest in front of which
neither a token nor a separator starts.  Each token stands on the line to which the line
breaks in front of it lead.

* `exists_gap`: a gap is left behind whole, and its line breaks are counted.
* `exists_segmentation`: **nothing of a text is lost, and no line is miscounted**.
* `Tape.nth_eq`: pulls yield the tokens of a tape, then its failure once, then nothing.
* `lossless_segmentation`: the same of a source text, as it is pulled and as a whole.
-/

namespace MathScript

/-! ## Lines and gaps -/

/-- The line breaks in a text: each LF, and each CR that no LF follows. -/
def lineBreaks : List Char → Nat
  | [] => 0
  | c :: cs => (if c = '\n' ∨ c = '\r' ∧ cs.head? ≠ some '\n' then 1 else 0) + lineBreaks cs

/-- No line breaks in a text. -/
def Unbroken (cs : List Char) : Prop :=
  ∀ c ∈ cs, c ≠ '\r' ∧ c ≠ '\n'

/-- A separator of this kind. -/
inductive IsSeparator : Gap → List Char → Prop
  | crlf : IsSeparator .lineBreak ['\r', '\n']
  | cr : IsSeparator .lineBreak ['\r']
  | lf : IsSeparator .lineBreak ['\n']
  | blanks {cs : List Char} (hne : cs ≠ []) (h : ∀ c ∈ cs, c = ' ' ∨ c = '\t') :
      IsSeparator .blanks cs
  | comment {cs : List Char} (h : Unbroken cs) : IsSeparator .comment ('#' :: cs)

/-- Separators, one after the other. -/
inductive IsGap : List Char → Prop
  | nil : IsGap []
  | cons {kind : Gap} {piece cs : List Char} (hp : IsSeparator kind piece) (h : IsGap cs) :
      IsGap (piece ++ cs)

theorem Unbroken.lineBreaks_append {cs : List Char} (h : Unbroken cs) (ds : List Char) :
    lineBreaks (cs ++ ds) = lineBreaks ds := by
  induction cs with
  | nil => rfl
  | cons c cs ih =>
    obtain ⟨hc, hcs⟩ := List.forall_mem_cons.mp h
    rw [List.cons_append, lineBreaks, if_neg (by simp [hc.1, hc.2]), Nat.zero_add, ih hcs]

/-- Line breaks add up wherever no CRLF is torn. -/
theorem lineBreaks_append {ds : List Char} (h : ds.head? ≠ some '\n') (cs : List Char) :
    lineBreaks (cs ++ ds) = lineBreaks cs + lineBreaks ds := by
  induction cs with
  | nil => rw [List.nil_append, lineBreaks, Nat.zero_add]
  | cons c cs ih =>
    have hhead : (cs ++ ds).head? ≠ some '\n' ↔ cs.head? ≠ some '\n' := by
      cases cs with
      | nil => simpa using h
      | cons d cs => rfl
    rw [List.cons_append, lineBreaks, lineBreaks, ih, Nat.add_assoc]
    simp only [hhead]

namespace IsSeparator

variable {kind : Gap} {piece : List Char}

theorem length_pos (h : IsSeparator kind piece) : 0 < piece.length := by
  cases h with
  | blanks hne => exact List.length_pos_of_ne_nil hne
  | _ => exact Nat.succ_pos _

/-- A line break is one line break, and no other separator holds any. -/
theorem lineBreaks_append (h : IsSeparator kind piece) {cs : List Char}
    (hcr : piece = ['\r'] → cs.head? ≠ some '\n') :
    lineBreaks (piece ++ cs) = (if kind = .lineBreak then 1 else 0) + lineBreaks cs := by
  cases h with
  | crlf => simp [lineBreaks]
  | cr => simp [lineBreaks, hcr rfl]
  | lf => simp [lineBreaks]
  | blanks _ h =>
    have hplain : Unbroken piece := by
      intro c hc
      rcases h c hc with rfl | rfl <;> decide
    rw [hplain.lineBreaks_append, if_neg (by decide), Nat.zero_add]
  | @comment body h =>
    have hplain : Unbroken ('#' :: body) := List.forall_mem_cons.mpr ⟨by decide, h⟩
    rw [hplain.lineBreaks_append, if_neg (by decide), Nat.zero_add]

end IsSeparator

/-- The piece that `firstGap?` measures is a separator, and it takes all of a CRLF. -/
theorem isSeparator_of_firstGap? {cs : List Char} {kind : Gap} {n : Nat}
    (h : firstGap? cs = some (kind, n)) :
    ∃ piece rest, cs = piece ++ rest ∧ n = piece.length ∧ IsSeparator kind piece ∧
      (piece = ['\r'] → rest.head? ≠ some '\n') := by
  unfold firstGap? at h
  split at h
  · next rest =>
    cases h
    exact ⟨['\r', '\n'], rest, rfl, rfl, .crlf, nofun⟩
  · next rest hne =>
    cases h
    refine ⟨['\r'], rest, rfl, rfl, .cr, fun _ hhead => ?_⟩
    obtain ⟨tail, rfl⟩ := List.head?_eq_some_iff.mp hhead
    exact hne tail rfl
  · next rest =>
    cases h
    exact ⟨['\n'], rest, rfl, rfl, .lf, nofun⟩
  · next rest =>
    cases h
    refine ⟨'#' :: rest.takeWhile fun c => c != '\r' && c != '\n',
      rest.dropWhile fun c => c != '\r' && c != '\n', ?_, ?_, .comment fun c hc => ?_, ?_⟩
    · rw [List.cons_append, List.takeWhile_append_dropWhile]
    · rw [List.length_cons, Nat.add_comm]
    · simpa using List.mem_takeWhile_imp hc
    · simp
  · split at h
    · cases h
    · next hlength =>
      cases h
      refine ⟨cs.takeWhile fun c => c == ' ' || c == '\t',
        cs.dropWhile fun c => c == ' ' || c == '\t', List.takeWhile_append_dropWhile.symm, rfl,
        .blanks (fun hnil => hlength (by rw [hnil]; rfl)) fun c hc => ?_, fun hcr => ?_⟩
      · simpa using List.mem_takeWhile_imp hc
      · have hmem : '\r' ∈ cs.takeWhile fun c => c == ' ' || c == '\t' := by
          rw [hcr]
          exact List.mem_singleton_self _
        exact absurd (List.mem_takeWhile_imp hmem) (by decide)

/-! ## Steps of a scan -/

/-- A scan goes on behind a piece of the text that it has read. -/
theorem scan_behind (line : Nat) {c : Char} {cs piece rest : List Char}
    (h : c :: cs = piece ++ rest) (hp : 0 < piece.length) :
    Tape.scan line (piece.length - 1) cs = Tape.scan line 0 rest := by
  obtain ⟨d, ds, rfl⟩ := List.exists_cons_of_length_pos hp
  obtain ⟨-, hcs⟩ := List.cons.inj h
  rw [hcs, List.length_cons, Nat.add_sub_cancel, scan_drop]
  exact congrArg _ List.drop_left

/-- The first character of a line break is left behind, and counted unless it is the CR
of a CRLF. -/
theorem scan_break {c : Char} (hc : c = '\r' ∨ c = '\n') (line : Nat) (cs : List Char) :
    Tape.scan line 0 (c :: cs) =
      Tape.scan (line + if c = '\n' ∨ c = '\r' ∧ cs.head? ≠ some '\n' then 1 else 0) 0 cs := by
  rcases hc with rfl | rfl
  · cases cs with
    | nil => rfl
    | cons d cs =>
      by_cases hd : d = '\n'
      · subst hd
        rfl
      · have hgap : firstGap? ('\r' :: d :: cs) = some (.lineBreak, 1) := by simp [firstGap?, hd]
        rw [scan_gap hgap]
        simp [hd]
  · rfl

/-- **A gap is left behind whole**, and its line breaks are counted. -/
theorem exists_gap (cs : List Char) :
    ∃ gap rest, cs = gap ++ rest ∧ IsGap gap ∧ firstGap? rest = none ∧
      ∀ line, Tape.scan line 0 cs = Tape.scan (line + lineBreaks gap) 0 rest := by
  induction hn : cs.length using Nat.strong_induction_on generalizing cs with
  | _ n ih =>
    cases hgap : firstGap? cs with
    | none => exact ⟨[], cs, rfl, .nil, hgap, fun _ => rfl⟩
    | some found =>
      obtain ⟨kind, length⟩ := found
      obtain ⟨piece, rest, hcs, hlength, hpiece, hcr⟩ := isSeparator_of_firstGap? hgap
      have hpos := hpiece.length_pos
      have hshort : rest.length < n := by
        rw [← hn, hcs, List.length_append]
        omega
      obtain ⟨gap, rest', hrest, hg, hnone, hscan⟩ := ih rest.length hshort rest rfl
      have hbreaks : lineBreaks (piece ++ gap) =
          (if kind = .lineBreak then 1 else 0) + lineBreaks gap := by
        refine hpiece.lineBreaks_append fun hp => ?_
        have hhead := hcr hp
        rw [hrest] at hhead
        cases gap with
        | nil => simp
        | cons d gap => exact hhead
      refine ⟨piece ++ gap, rest', ?_, .cons hpiece hg, hnone, fun line => ?_⟩
      · rw [hcs, hrest, List.append_assoc]
      · cases cs with
        | nil => cases hgap
        | cons c cs =>
          rw [scan_gap hgap, hlength, scan_behind _ hcs hpos, hscan, hbreaks]
          congr 1
          split <;> omega

/-- A token takes characters, and no line break. -/
theorem unbroken_of_firstToken? {cs : List Char} {kind : TokenKind} {n : Nat}
    (h : firstToken? cs = some (kind, n)) : cs.take n ≠ [] ∧ Unbroken (cs.take n) := by
  obtain ⟨pattern, hrule, hn⟩ := rule_of_firstToken? h
  have hproper : pattern.proper = true := proper_of_mem _ hrule
  have hdigits : ∀ {ds : List Char}, IsDigits ds → Unbroken ds := by
    rintro ds ⟨-, hds⟩ c hc
    constructor <;> rintro rfl <;> exact absurd (hds _ hc) (by decide)
  rw [← String.toList_ofList (l := cs.take n)]
  cases pattern with
  | quoted =>
    obtain ⟨body, htext, hbody⟩ := isQuoted_of_quotedLength? hn
    rw [htext]
    refine ⟨List.cons_ne_nil _ _, List.forall_mem_cons.mpr ⟨by decide, ?_⟩⟩
    exact List.forall_mem_append.mpr
      ⟨fun c hc => (hbody c hc).2, List.forall_mem_singleton.mpr (by decide)⟩
  | keyword word =>
    obtain ⟨hne, hlower⟩ := keyword_proper hproper
    have hfold := map_foldLetter_of_length? hn
    rw [String.toList_ofList]
    refine ⟨fun hnil => hne (by rw [← hfold, hnil]; rfl), fun c hc => ?_⟩
    have hc : (foldLetter c).isLower = true := hlower _ (hfold ▸ List.mem_map_of_mem hc)
    constructor <;> rintro rfl <;> exact absurd hc (by decide)
  | name =>
    obtain ⟨c, cs', htext, hc, hcs', -⟩ := isName_of_length? hn
    rw [htext]
    refine ⟨List.cons_ne_nil _ _, List.forall_mem_cons.mpr ⟨?_, fun d hd => ?_⟩⟩
    · constructor <;> rintro rfl <;> exact absurd hc (by decide)
    · have hd := hcs' d hd
      constructor <;> rintro rfl <;> exact absurd hd (by decide)
  | number =>
    obtain ⟨whole, hw, htext | ⟨fraction, hf, htext⟩⟩ := isNumeral_of_numberLength? hn
    · rw [htext]
      exact ⟨hw.1, hdigits hw⟩
    · rw [htext]
      refine ⟨by simp, List.forall_mem_append.mpr ⟨hdigits hw, ?_⟩⟩
      exact List.forall_mem_cons.mpr ⟨by decide, hdigits hf⟩
  | symbol chars =>
    obtain ⟨hne, hchars⟩ := symbol_proper hproper
    rw [String.toList_ofList, take_eq_of_length? hn]
    refine ⟨hne, fun c hc => ?_⟩
    have hc := (hchars c hc).2.1
    constructor <;> rintro rfl <;> exact absurd hc (by decide)

/-! ## Segments -/

/-- A token and what separates it from the one in front of it. -/
structure Segment where
  gap : List Char
  token : Token

/-- The characters of a segment. -/
def Segment.chars (s : Segment) : List Char :=
  s.gap ++ s.token.text.toList

/-- A text that starts on a line, as segments, a last gap, and a rest at which nothing
starts. -/
structure Segmentation (line : Nat) (cs : List Char) (segments : List Segment)
    (gap rest : List Char) : Prop where
  chars : cs = segments.flatMap Segment.chars ++ (gap ++ rest)
  gaps : ∀ s ∈ segments, IsGap s.gap
  lastGap : IsGap gap
  /-- A token stands on the line to which the line breaks in front of it lead. -/
  lines : ∀ before s after, segments = before ++ s :: after →
    s.token.line = line + lineBreaks (before.flatMap Segment.chars ++ s.gap)
  noSeparator : firstGap? rest = none
  noToken : ∀ r ∈ tokenRules, r.2.length? rest = none

/-- The line on which the rest starts, or the text ends. -/
def lastLine (line : Nat) (segments : List Segment) (gap : List Char) : Nat :=
  line + lineBreaks (segments.flatMap Segment.chars ++ gap)

/-- The ending of a text with this rest. -/
def Ending.ofRest (line : Nat) (rest : List Char) : Ending :=
  if rest = [] then .complete line else .unrecognised (.ofChars line rest)

/-- Behind a gap and a token come only the line breaks of the gap. -/
theorem lineBreaks_segment {s : Segment} (hne : s.token.text.toList ≠ [])
    (hu : Unbroken s.token.text.toList) (cs : List Char) :
    lineBreaks (s.chars ++ cs) = lineBreaks s.gap + lineBreaks cs := by
  rw [Segment.chars, List.append_assoc, lineBreaks_append, hu.lineBreaks_append]
  obtain ⟨c, text, htext⟩ := List.exists_cons_of_ne_nil hne
  rw [htext] at hu ⊢
  exact fun hc => (hu c List.mem_cons_self).2 (Option.some.inj hc)

/-- One more segment in front. -/
theorem Segmentation.cons {line : Nat} {cs gap rest : List Char} {segments : List Segment}
    {s : Segment} (hgap : IsGap s.gap) (hne : s.token.text.toList ≠ [])
    (hu : Unbroken s.token.text.toList) (hline : s.token.line = line + lineBreaks s.gap)
    (h : Segmentation s.token.line cs segments gap rest) :
    Segmentation line (s.chars ++ cs) (s :: segments) gap rest where
  chars := by rw [List.flatMap_cons, List.append_assoc, ← h.chars]
  gaps := List.forall_mem_cons.mpr ⟨hgap, h.gaps⟩
  lastGap := h.lastGap
  lines := by
    intro before s' after hsplit
    cases before with
    | nil =>
      obtain ⟨rfl, -⟩ := List.cons.inj hsplit
      exact hline
    | cons first before =>
      obtain ⟨rfl, htail⟩ : s = first ∧ segments = before ++ s' :: after := List.cons.inj hsplit
      rw [h.lines before s' after htail, hline, List.flatMap_cons, List.append_assoc,
        lineBreaks_segment hne hu, Nat.add_assoc]
  noSeparator := h.noSeparator
  noToken := h.noToken

/-- Each token is what is read where it stands, in front of all that follows. -/
def ReadsEach (segments : List Segment) (rest : List Char) : Prop :=
  ∀ before s after, segments = before ++ s :: after →
    firstToken? (s.token.text.toList ++ (after.flatMap Segment.chars ++ rest)) =
      some (s.token.kind, s.token.text.toList.length)

theorem ReadsEach.cons {s : Segment} {segments : List Segment} {rest : List Char}
    (hs : firstToken? (s.token.text.toList ++ (segments.flatMap Segment.chars ++ rest)) =
      some (s.token.kind, s.token.text.toList.length))
    (h : ReadsEach segments rest) : ReadsEach (s :: segments) rest := by
  intro before s' after hsplit
  cases before with
  | nil =>
    obtain ⟨rfl, rfl⟩ := List.cons.inj hsplit
    exact hs
  | cons first before => exact h before s' after (List.cons.inj hsplit).2

/-- A text is cut at the tokens that are read in it. -/
theorem exists_segmentation_read (line : Nat) (cs : List Char) :
    ∃ segments gap rest, Segmentation line cs segments gap rest ∧
      ReadsEach segments (gap ++ rest) ∧
      Tape.scan line 0 cs =
        ⟨segments.map Segment.token, .ofRest (lastLine line segments gap) rest⟩ := by
  -- each round leaves a gap and a token behind
  induction hn : cs.length using Nat.strong_induction_on generalizing line cs with
  | _ n ih =>
    obtain ⟨gap, rest, hcs, hgap, hnone, hscan⟩ := exists_gap cs
    have hstop : firstToken? rest = none → Segmentation line cs [] gap rest := fun hfirst =>
      ⟨hcs, by simp, hgap, by simp, hnone, fun r hr => by
        simpa using List.findSome?_eq_none_iff.mp hfirst r hr⟩
    rw [hscan]
    cases hr : rest with
    | nil =>
      rw [hr] at hstop
      exact ⟨[], gap, [], hstop (by decide), by simp [ReadsEach], rfl⟩
    | cons c rest' =>
      rw [hr] at hnone
      cases hfirst : firstToken? (c :: rest') with
      | none =>
        rw [hr] at hstop
        refine ⟨[], gap, c :: rest', hstop hfirst, by simp [ReadsEach], ?_⟩
        rw [Tape.scan, hnone]
        simp only [hfirst]
        rfl
      | some found =>
        obtain ⟨kind, length⟩ := found
        obtain ⟨hne, hu⟩ := unbroken_of_firstToken? hfirst
        set text := (c :: rest').take length with htext
        set behind := (c :: rest').drop length with hbehind
        have hsplit : c :: rest' = text ++ behind := (List.take_append_drop length _).symm
        have hlength : behind.length < n := by
          rw [← hn, hcs, hr, hsplit, List.length_append, List.length_append]
          have hpos := List.length_pos_of_ne_nil hne
          omega
        let s : Segment := ⟨gap, ⟨kind, String.ofList text, line + lineBreaks gap⟩⟩
        have hchars : s.token.text.toList = text := String.toList_ofList
        obtain ⟨segments, gap', rest'', hsegments, hreads, htape⟩ :=
          ih behind.length hlength s.token.line behind rfl
        have hwhole : cs = s.chars ++ behind := by
          rw [hcs, hr, hsplit, Segment.chars, hchars, List.append_assoc]
        refine ⟨s :: segments, gap', rest'', ?_, .cons ?_ hreads, ?_⟩
        · rw [hwhole]
          exact .cons hgap (hchars ▸ hne) (hchars ▸ hu) rfl hsegments
        · rw [hchars, ← hsegments.chars, ← hsplit, hfirst, htext,
            List.length_take_of_le (length_le_of_firstToken? hfirst)]
        · have hgo : Tape.scan (line + lineBreaks gap) (length - 1) rest' =
              Tape.scan s.token.line 0 behind := by
            rw [scan_drop, hbehind]
            cases length with
            | zero => exact absurd rfl hne
            | succ length => rfl
          have hlast : lastLine line (s :: segments) gap' =
              lastLine s.token.line segments gap' := by
            rw [lastLine, List.flatMap_cons, List.append_assoc,
              lineBreaks_segment (hchars ▸ hne) (hchars ▸ hu), ← Nat.add_assoc]
            rfl
          rw [scan_token hnone hfirst, hgo, htape, hlast]
          rfl

/-- **Nothing of a text is lost, and no line is miscounted.** -/
theorem exists_segmentation (line : Nat) (cs : List Char) :
    ∃ segments gap rest, Segmentation line cs segments gap rest ∧
      Tape.scan line 0 cs =
        ⟨segments.map Segment.token, .ofRest (lastLine line segments gap) rest⟩ := by
  obtain ⟨segments, gap, rest, hsegments, -, hscan⟩ := exists_segmentation_read line cs
  exact ⟨segments, gap, rest, hsegments, hscan⟩

/-! ## Pulls -/

namespace Tape

/-- What is left of a tape after some pulls. -/
def after : Nat → Tape → Tape
  | 0, tape => tape
  | n + 1, tape => after n tape.pull.2.2

/-- What a tape yields after `n` pulls. -/
def nth (tape : Tape) (n : Nat) : Option (Except Unrecognised Token) :=
  (tape.after n).pull.1

theorem nth_of_complete (line n : Nat) : nth ⟨[], .complete line⟩ n = none := by
  induction n with
  | zero => rfl
  | succ n ih => exact ih

/-- **Pulls yield the tokens, then the failure once, then nothing.** -/
theorem nth_eq (tape : Tape) (n : Nat) :
    tape.nth n = (tape.tokens.map .ok ++ match tape.ending with
      | .complete _ => []
      | .unrecognised e => [.error e])[n]? := by
  obtain ⟨ts, ending⟩ := tape
  induction ts generalizing n with
  | nil =>
    cases ending with
    | complete line => exact nth_of_complete line n
    | unrecognised e =>
      cases n with
      | zero => rfl
      | succ n => exact nth_of_complete e.line n
  | cons t ts ih =>
    cases n with
    | zero => rfl
    | succ n => exact ih n

end Tape

/-- **A text is cut without loss.**  It is tokens with a gap in front of each, a last gap
and a rest; each token stands on the line to which the line breaks in front of it lead, and
neither a separator nor a token starts at the rest.  Pulls yield the tokens in order.
Without a rest that is all, and the text is read as those tokens; with a rest they then
yield one failure, on the line where the rest starts, and nothing more. -/
theorem lossless_segmentation (source : String) :
    ∃ segments gap rest, Segmentation 1 source.toList segments gap rest ∧
      (rest = [] →
        tokenize source = .ok (segments.map Segment.token) ∧
        ∀ n, (Tape.ofString source).nth n = (segments.map fun s => .ok s.token)[n]?) ∧
      (rest ≠ [] →
        tokenize source = .error (.ofChars (lastLine 1 segments gap) rest) ∧
        ∀ n, (Tape.ofString source).nth n = (segments.map (fun s => .ok s.token) ++
          [.error (.ofChars (lastLine 1 segments gap) rest)])[n]?) := by
  obtain ⟨segments, gap, rest, hsegments, hscan⟩ := exists_segmentation 1 source.toList
  have htape : Tape.ofString source =
      ⟨segments.map Segment.token, .ofRest (lastLine 1 segments gap) rest⟩ := hscan
  refine ⟨segments, gap, rest, hsegments, fun hrest => ?_, fun hrest => ?_⟩
  · have hending : Ending.ofRest (lastLine 1 segments gap) rest = .complete _ := if_pos hrest
    rw [tokenize, Tape.tokens?, htape, hending]
    refine ⟨rfl, fun n => ?_⟩
    rw [Tape.nth_eq, List.append_nil, List.map_map]
    rfl
  · have hending : Ending.ofRest (lastLine 1 segments gap) rest = .unrecognised _ := if_neg hrest
    rw [tokenize, Tape.tokens?, htape, hending]
    refine ⟨rfl, fun n => ?_⟩
    rw [Tape.nth_eq, List.map_map]
    rfl

end MathScript
