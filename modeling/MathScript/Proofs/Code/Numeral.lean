import MathScript.Proofs.Code.Literal
import MathScript.Proofs.Token.Spacing

/-!
# Numbers in source, records and code

A number is matched as a token, tested in a record and rewritten in generated code, each time
by another reading of its characters: a run of digits and perhaps one more, a cut at the first
point, and zeros dropped from the front.  The three agree on which texts are numbers, and the
rewritten number is the same one.

* `tokenize_alone`: a text that is one token is read as that token.
* `toList_numberLiteral`: **a literal keeps whatever stands behind the whole part**, and the
  whole part without zeros in front.
* `ofDigitChars_trimZeros`: those zeros do not count.
* `numerals_agree`: **what is a number is one everywhere**, and the literal of a number denotes
  the same rational.
-/

namespace MathScript

/-! ## The parts of a number -/

/-- The digits in front of the point of a number. -/
def wholeDigits (s : String) : List Char :=
  s.toList.takeWhile Char.isDigit

/-- The digits behind the point of a number, none if there is no point. -/
def fractionDigits (s : String) : List Char :=
  (s.toList.dropWhile Char.isDigit).tail

/-- The rational that a number denotes in decimal notation. -/
def decimalValue (s : String) : ℚ :=
  Nat.ofDigitChars 10 (wholeDigits s) 0 +
    Nat.ofDigitChars 10 (fractionDigits s) 0 / 10 ^ (fractionDigits s).length

/-- No digit stands right behind the whole part. -/
theorem head?_dropWhile_isDigit (cs : List Char) :
    ∀ c ∈ (cs.dropWhile Char.isDigit).head?, c.isDigit = false := by
  intro c hc
  have hhead := List.head?_dropWhile_not Char.isDigit cs
  rw [Option.mem_def.mp hc] at hhead
  simpa using hhead

/-- A numeral has digits in front, and then nothing or its point. -/
theorem IsNumeral.parts {s : String} (h : IsNumeral s) :
    IsDigits (wholeDigits s) ∧ (s.toList.dropWhile Char.isDigit = [] ∨
      ∃ fraction, s.toList.dropWhile Char.isDigit = '.' :: fraction) := by
  obtain ⟨whole, hw, he | ⟨fraction, -, he⟩⟩ := h
  · have hend : ∀ c ∈ ([] : List Char).head?, c.isDigit = false := by simp
    obtain ⟨htake, hdrop⟩ := takeWhile_dropWhile_append hw.2 hend
    rw [List.append_nil] at htake hdrop
    rw [wholeDigits, he, htake, hdrop]
    exact ⟨hw, .inl rfl⟩
  · have hpoint : ∀ c ∈ ('.' :: fraction).head?, c.isDigit = false := by simp
    obtain ⟨htake, hdrop⟩ := takeWhile_dropWhile_append hw.2 hpoint
    rw [wholeDigits, he, htake, hdrop]
    exact ⟨hw, .inr ⟨fraction, rfl⟩⟩

namespace Code

/-! ## Zeros in front -/

/-- **Zeros in front do not count.** -/
theorem ofDigitChars_trimZeros (ds : List Char) :
    Nat.ofDigitChars 10 (trimZeros ds) 0 = Nat.ofDigitChars 10 ds 0 := by
  induction ds with
  | nil => rfl
  | cons d ds ih =>
    by_cases hd : d = '0'
    · subst hd
      rw [trimZeros_zero, ih, Nat.ofDigitChars_cons, Nat.sub_self]
    · rw [trimZeros_of_ne hd]

/-- A whole part without zeros in front is zero, or starts with another digit. -/
theorem trimZeros_cases (ds : List Char) :
    trimZeros ds = ['0'] ∨ ∃ d rest, d ≠ '0' ∧ trimZeros ds = d :: rest := by
  induction ds with
  | nil => exact .inl rfl
  | cons d ds ih =>
    by_cases hd : d = '0'
    · subst hd
      rw [trimZeros_zero]
      exact ih
    · exact .inr ⟨d, ds, hd, trimZeros_of_ne hd ds⟩

theorem trimZeros_trimZeros (ds : List Char) : trimZeros (trimZeros ds) = trimZeros ds := by
  rcases trimZeros_cases ds with h | ⟨d, rest, hd, h⟩
  · rw [h]
    rfl
  · rw [h, trimZeros_of_ne hd]

/-! ## Literals -/

variable {s : String}

/-- **A literal keeps whatever stands behind the whole part.** -/
theorem toList_numberLiteral (h : IsNumeral s) :
    (numberLiteral s).toList = trimZeros (wholeDigits s) ++ s.toList.dropWhile Char.isDigit := by
  have hparts : wholeDigits s ++ s.toList.dropWhile Char.isDigit = s.toList :=
    List.takeWhile_append_dropWhile
  obtain ⟨hwhole, hbehind⟩ := h.parts
  rw [numberLiteral, String.toList_ofList, numberChars]
  rcases hbehind with hbehind | ⟨fraction, hbehind⟩
  · have hsplit : splitPoint s.toList = (wholeDigits s, none) := by
      rw [← hparts, hbehind, List.append_nil, splitPoint_of_no_point hwhole.no_point]
    rw [hsplit, hbehind, List.append_nil]
  · have hsplit : splitPoint s.toList = (wholeDigits s, some fraction) := by
      rw [← hparts, hbehind, splitPoint_append hwhole.no_point]
    rw [hsplit, hbehind]

/-- The whole part of a literal, and what stands behind it. -/
theorem parts_numberLiteral (h : IsNumeral s) :
    wholeDigits (numberLiteral s) = trimZeros (wholeDigits s) ∧
      (numberLiteral s).toList.dropWhile Char.isDigit = s.toList.dropWhile Char.isDigit := by
  rw [wholeDigits, toList_numberLiteral h]
  exact takeWhile_dropWhile_append (isDigits_trimZeros h.parts.1.2).2
    (head?_dropWhile_isDigit s.toList)

theorem fractionDigits_numberLiteral (h : IsNumeral s) :
    fractionDigits (numberLiteral s) = fractionDigits s :=
  congrArg List.tail (parts_numberLiteral h).2

/-- **The literal of a number denotes the same rational.** -/
theorem decimalValue_numberLiteral (h : IsNumeral s) :
    decimalValue (numberLiteral s) = decimalValue s := by
  rw [decimalValue, fractionDigits_numberLiteral h, (parts_numberLiteral h).1,
    ofDigitChars_trimZeros]
  rfl

/-- The literal of a literal is that literal. -/
theorem numberLiteral_numberLiteral (h : IsNumeral s) :
    numberLiteral (numberLiteral s) = numberLiteral s := by
  obtain ⟨hwhole, hbehind⟩ := parts_numberLiteral h
  apply String.toList_injective
  rw [toList_numberLiteral (isNumeral_numberLiteral h), hwhole, hbehind, trimZeros_trimZeros,
    toList_numberLiteral h]

end Code

/-! ## Numbers as tokens -/

/-- A text that is one token is read as that token. -/
theorem tokenize_alone {t : Token} (h : t.Alone) (hline : t.line = 1) :
    tokenize t.text = .ok [t] := by
  obtain ⟨d, ds, htext, hd⟩ := h.cons
  have hfirst := h
  rw [Token.Alone, htext] at hfirst
  have htoken : (⟨t.kind, String.ofList ((d :: ds).take (ds.length + 1)), 1⟩ : Token) = t := by
    rw [List.take_of_length_le (by simp), ← htext, String.ofList_toList, ← hline]
  have hend : Tape.scan 1 ds.length ds = ⟨[], .complete 1⟩ := by
    have happend := scan_append 1 ds []
    rwa [List.append_nil] at happend
  unfold tokenize Tape.ofString
  rw [htext, scan_token (firstGap?_eq_none hd) hfirst, List.length_cons, Nat.add_sub_cancel, hend,
    htoken]
  rfl

/-- **A text is a numeral if and only if it is read as one number.** -/
theorem isNumeral_iff_tokenize {s : String} :
    IsNumeral s ↔ ∃ line, tokenize s = .ok [⟨.number, s, line⟩] := by
  constructor
  · intro h
    have halone : (⟨.number, s, 1⟩ : Token).Alone := firstToken?_numeral h
    exact ⟨1, tokenize_alone halone rfl⟩
  · rintro ⟨line, h⟩
    obtain ⟨end', htape⟩ := tape_of_tokenize h
    have hmem : (⟨.number, s, line⟩ : Token) ∈ (Tape.ofString s).tokens := by
      rw [htape]
      exact List.mem_singleton_self _
    exact isNumeral_of_mem hmem rfl

/-- **What is a number is one everywhere.**  Records admit a text as a number if and only if it
is read from source as a number and nothing else.  Then its literal in generated code is a
number too, denotes the same rational with the same digits behind the point, has no zero in
front of another digit, and is its own literal. -/
theorem numerals_agree (s : String) :
    (Record.isNumber s = true ↔ ∃ line, tokenize s = .ok [⟨.number, s, line⟩]) ∧
      (Record.isNumber s = true →
        let literal := Code.numberLiteral s
        Record.isNumber literal = true ∧ decimalValue literal = decimalValue s ∧
          fractionDigits literal = fractionDigits s ∧
          (wholeDigits literal = ['0'] ∨ (wholeDigits literal).head? ≠ some '0') ∧
          Code.numberLiteral literal = literal) := by
  rw [isNumber_iff]
  refine ⟨isNumeral_iff_tokenize, fun h => ?_⟩
  refine ⟨(isNumber_iff _).mpr (Code.isNumeral_numberLiteral h), Code.decimalValue_numberLiteral h,
    Code.fractionDigits_numberLiteral h, ?_, Code.numberLiteral_numberLiteral h⟩
  rw [(Code.parts_numberLiteral h).1]
  refine (Code.trimZeros_cases (wholeDigits s)).imp_right ?_
  rintro ⟨d, rest, hd, htrim⟩ hhead
  rw [htrim] at hhead
  exact hd (Option.some.inj hhead)

/-- Zeros in front and behind. -/
theorem numerals_agree_zeros :
    Record.isNumber "007.50" = true ∧ Code.numberLiteral "007.50" = "7.50" ∧
      decimalValue "7.50" = decimalValue "007.50" ∧ decimalValue "007.50" = 15 / 2 ∧
      ∃ line, tokenize "007.50" = .ok [⟨.number, "007.50", line⟩] := by
  have hnumber : Record.isNumber "007.50" = true := by decide
  have hliteral : Code.numberLiteral "007.50" = "7.50" := by decide
  obtain ⟨htoken, hsame⟩ := numerals_agree "007.50"
  obtain ⟨-, hvalue, -⟩ := hsame hnumber
  rw [hliteral] at hvalue
  refine ⟨hnumber, hliteral, hvalue, ?_, htoken.mp hnumber⟩
  have hwhole : Nat.ofDigitChars 10 (wholeDigits "007.50") 0 = 7 := by decide
  have hfraction : fractionDigits "007.50" = ['5', '0'] := by decide
  have hdigits : Nat.ofDigitChars 10 ['5', '0'] 0 = 50 := by decide
  rw [decimalValue, hwhole, hfraction, hdigits]
  norm_num

end MathScript
