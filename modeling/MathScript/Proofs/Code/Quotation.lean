import MathScript.Code.Emit

/-!
# Strings stay inside their literals

How Python reads a string literal in double quotes, with the escapes that code generation
makes use of, and why no string of a program can end its literal early: whatever a character
is, what is written for it stands for that character alone.

* `readContents`, `readLiteral`: **Python's reading of a literal**, and what is left behind it.
* `closingQuote?`: the first quote that no backslash escapes.
* `Spelling`: a character may be written as it is, behind a backslash, or by its code point.
* `literal_is_closed`: **a string literal is read back as its string**, whatever follows it.
-/

namespace MathScript.Code

/-! ## Reading literals -/

/-- What a backslash and one character behind it stand for. -/
def shortEscape? : Char → Option Char
  | '\\' => some '\\'
  | '"' => some '"'
  | 'n' => some '\n'
  | 'r' => some '\r'
  | 't' => some '\t'
  | _ => none

/-- The character with a code point of four hexadecimal digits. -/
def codePoint? (a b c d : Char) : Option Char := do
  let n := (((← Text.hexValue? a) * 16 + (← Text.hexValue? b)) * 16 + (← Text.hexValue? c)) * 16 +
    (← Text.hexValue? d)
  if n.isValidChar then some (Char.ofNat n) else none

/-- Reads the contents of a literal up to its closing quote, and gives back what is left behind
the quote.  A literal does not go on over the end of a line.  Python knows more escapes; they
are not read here. -/
def readContents : List Char → Option (List Char × List Char)
  | [] => none
  | '"' :: cs => some ([], cs)
  | '\\' :: 'u' :: a :: b :: c :: d :: cs => do
    let first ← codePoint? a b c d
    let (contents, rest) ← readContents cs
    return (first :: contents, rest)
  | '\\' :: e :: cs => do
    let first ← shortEscape? e
    let (contents, rest) ← readContents cs
    return (first :: contents, rest)
  | c :: cs =>
    if c = '\\' ∨ c = '\n' ∨ c = '\r' then none
    else do
      let (contents, rest) ← readContents cs
      return (c :: contents, rest)

/-- Reads a literal from its opening quote on. -/
def readLiteral : List Char → Option (List Char × List Char)
  | '"' :: cs => readContents cs
  | _ => none

/-- The place of the first quote that is not escaped.  A backslash escapes the one character
behind it. -/
def closingQuote? : List Char → Option Nat
  | [] => none
  | '"' :: _ => some 0
  | '\\' :: _ :: cs => (closingQuote? cs).map (· + 2)
  | _ :: cs => (closingQuote? cs).map (· + 1)

/-! ## What is written for a character -/

/-- A character that may stand in a literal as it is. -/
structure IsPlain (c : Char) : Prop where
  ne_backslash : c ≠ '\\'
  ne_quote : c ≠ '"'
  not_control : Text.isControl c = false

theorem isPlain_hexDigit (n : Nat) : IsPlain (Text.hexDigit n) := by
  have digits : ∀ d : Fin 16, Nat.digitChar d ≠ '\\' ∧ Nat.digitChar d ≠ '"' ∧
      Text.isControl (Nat.digitChar d) = false := by decide
  obtain ⟨hbackslash, hquote, hcontrol⟩ := digits ⟨n % 16, Nat.mod_lt n (by decide)⟩
  exact ⟨hbackslash, hquote, hcontrol⟩

theorem codePoint?_hex4 {c : Char} (h : c.toNat < 65536) :
    codePoint? (Text.hexDigit (c.toNat / 4096)) (Text.hexDigit (c.toNat / 256))
      (Text.hexDigit (c.toNat / 16)) (Text.hexDigit c.toNat) = some c := by
  have hdigits : ((c.toNat / 4096 % 16 * 16 + c.toNat / 256 % 16) * 16 + c.toNat / 16 % 16) * 16 +
      c.toNat % 16 = c.toNat := by omega
  have hvalid : c.toNat.isValidChar := c.valid
  simp only [codePoint?, Text.hexValue?_hexDigit, Option.bind_eq_bind, Option.bind_some, hdigits]
  rw [if_pos hvalid, Char.ofNat_toNat]

/-- What may be written for a character. -/
inductive Spelling (c : Char) : List Char → Prop where
  | plain : IsPlain c → Spelling c [c]
  | short {e : Char} : shortEscape? e = some c → Text.isControl e = false → Spelling c ['\\', e]
  | long {i j k l : Char} : codePoint? i j k l = some c → (∀ d ∈ [i, j, k, l], IsPlain d) →
      Spelling c ['\\', 'u', i, j, k, l]

/-- **What is written for a character is a spelling of it.** -/
theorem spelling_escapeChar (c : Char) : Spelling c (escapeChar c) := by
  unfold escapeChar
  split
  · next h =>
    subst h
    exact .short rfl rfl
  split
  · next h =>
    subst h
    exact .short rfl rfl
  split
  · next h =>
    subst h
    exact .short rfl rfl
  split
  · next h =>
    subst h
    exact .short rfl rfl
  split
  · next h =>
    subst h
    exact .short rfl rfl
  split
  · next hcontrol =>
    have hlow : c.toNat < 65536 := by
      simp only [Text.isControl, Bool.or_eq_true, Bool.and_eq_true, decide_eq_true_eq] at hcontrol
      omega
    refine .long (codePoint?_hex4 hlow) ?_
    simp only [List.forall_mem_cons]
    exact ⟨isPlain_hexDigit _, isPlain_hexDigit _, isPlain_hexDigit _, isPlain_hexDigit _, by simp⟩
  · next hbackslash hquote _ _ _ hcontrol =>
    exact .plain ⟨hbackslash, hquote, eq_false_of_ne_true hcontrol⟩

namespace Spelling

variable {c : Char} {cs : List Char}

theorem not_control (h : Spelling c cs) : ∀ d ∈ cs, Text.isControl d = false := by
  cases h with
  | plain hc => simpa using hc.not_control
  | short _ he => simpa using ⟨by decide, he⟩
  | long _ hdigits =>
    refine List.forall_mem_cons.mpr ⟨by decide, List.forall_mem_cons.mpr ⟨by decide, ?_⟩⟩
    exact fun d hd => (hdigits d hd).not_control

/-- A plain character is read as itself. -/
theorem readContents_plain (hc : IsPlain c) (rest : List Char) :
    readContents (c :: rest) = (readContents rest).map fun r => (c :: r.1, r.2) := by
  have hline : ¬ (c = '\\' ∨ c = '\n' ∨ c = '\r') := by
    rintro (rfl | rfl | rfl)
    · exact hc.ne_backslash rfl
    · exact absurd hc.not_control (by decide)
    · exact absurd hc.not_control (by decide)
  rw [readContents]
  · rw [if_neg hline]
    cases readContents rest <;> rfl
  · exact hc.ne_quote
  · exact fun _ _ _ _ _ h _ => hc.ne_backslash h
  · exact fun _ _ h _ => hc.ne_backslash h

/-- **A spelling is read as its character**, and the reading goes on behind it. -/
theorem readContents_append (h : Spelling c cs) (rest : List Char) :
    readContents (cs ++ rest) = (readContents rest).map fun r => (c :: r.1, r.2) := by
  cases h with
  | plain hc => exact readContents_plain hc rest
  | @short e he _ =>
    have hu : e ≠ 'u' := by
      rintro rfl
      cases he
    show readContents ('\\' :: e :: rest) = _
    rw [readContents, he]
    · cases readContents rest <;> rfl
    · exact fun _ _ _ _ _ h _ => hu h
  | @long i j k l hpoint _ =>
    show readContents ('\\' :: 'u' :: i :: j :: k :: l :: rest) = _
    rw [readContents, hpoint]
    cases readContents rest <;> rfl

theorem closingQuote?_plain (hc : IsPlain c) (rest : List Char) :
    closingQuote? (c :: rest) = (closingQuote? rest).map (· + 1) := by
  rw [closingQuote?]
  · exact hc.ne_quote
  · exact fun _ _ h _ => hc.ne_backslash h

/-- **No quote of a spelling closes the literal.** -/
theorem closingQuote?_append (h : Spelling c cs) (rest : List Char) :
    closingQuote? (cs ++ rest) = (closingQuote? rest).map (· + cs.length) := by
  cases h with
  | plain hc => exact closingQuote?_plain hc rest
  | short _ _ => rfl
  | @long i j k l _ hdigits =>
    simp only [List.forall_mem_cons] at hdigits
    obtain ⟨hi, hj, hk, hl, -⟩ := hdigits
    show (closingQuote? (i :: j :: k :: l :: rest)).map (· + 2) = _
    rw [closingQuote?_plain hi, closingQuote?_plain hj, closingQuote?_plain hk,
      closingQuote?_plain hl]
    simp only [Option.map_map]
    rfl

end Spelling

/-! ## Whole literals -/

/-- What is written between the quotes. -/
def contents (cs : List Char) : List Char :=
  cs.flatMap escapeChar

theorem not_control_contents {cs : List Char} : ∀ c ∈ contents cs, Text.isControl c = false := by
  intro c hc
  obtain ⟨d, -, hd⟩ := List.mem_flatMap.mp hc
  exact (spelling_escapeChar d).not_control c hd

theorem readContents_contents (cs rest : List Char) :
    readContents (contents cs ++ '"' :: rest) = some (cs, rest) := by
  induction cs with
  | nil => rfl
  | cons c cs ih =>
    have hrest : contents (c :: cs) ++ '"' :: rest =
        escapeChar c ++ (contents cs ++ '"' :: rest) := List.append_assoc _ _ _
    rw [hrest, (spelling_escapeChar c).readContents_append, ih]
    rfl

theorem closingQuote?_contents (cs rest : List Char) :
    closingQuote? (contents cs ++ '"' :: rest) = some (contents cs).length := by
  induction cs with
  | nil => rfl
  | cons c cs ih =>
    have hrest : contents (c :: cs) ++ '"' :: rest =
        escapeChar c ++ (contents cs ++ '"' :: rest) := List.append_assoc _ _ _
    rw [hrest, (spelling_escapeChar c).closingQuote?_append, ih, Option.map_some, contents, contents,
      List.flatMap_cons, List.length_append, Nat.add_comm]

theorem toList_stringLiteral (s : String) :
    (stringLiteral s).toList = '"' :: (contents s.toList ++ ['"']) := by
  rw [stringLiteral, String.toList_ofList]
  rfl

/-- **No string gets out of its literal.**  A literal stands in quotes and has no control
character in it, the first quote behind the opening one that is not escaped is its last
character, and Python reads the string itself.  So it does in generated code, where it gives
back whatever text stands behind the string. -/
theorem literal_is_closed (s : String) :
    ∃ inside, (stringLiteral s).toList = '"' :: (inside ++ ['"']) ∧
      (∀ c ∈ (stringLiteral s).toList, Text.isControl c = false) ∧
      (∀ rest, closingQuote? (inside ++ '"' :: rest) = some inside.length) ∧
      readLiteral (stringLiteral s).toList = some (s.toList, []) ∧
      ∀ (t : NameTable) (rest : List Char),
        readLiteral (((Expr.text s).emit t).1.toList ++ rest) = some (s.toList, rest) := by
  have hread : ∀ rest, readLiteral ((stringLiteral s).toList ++ rest) = some (s.toList, rest) := by
    intro rest
    rw [toList_stringLiteral, List.cons_append, List.append_assoc]
    exact readContents_contents s.toList rest
  refine ⟨contents s.toList, toList_stringLiteral s, ?_, closingQuote?_contents s.toList, ?_, ?_⟩
  · rw [toList_stringLiteral]
    simp only [List.forall_mem_cons, List.forall_mem_append, List.not_mem_nil]
    exact ⟨by decide, not_control_contents, by decide, by simp⟩
  · simpa using hread []
  · exact fun _ rest => hread rest

/-- A string that ends with a backslash, in front of more code. -/
example : readLiteral ((stringLiteral "\u0085a\\").toList ++ "\")".toList) =
    some ("\u0085a\\".toList, "\")".toList) := by decide

end MathScript.Code
