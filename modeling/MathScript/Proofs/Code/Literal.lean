import MathScript.Proofs.Code.Quotation
import MathScript.Proofs.Program.Shape

/-!
# Literals and slots in generated code

What code generation writes for the leaves of a program can be told apart, also
with a rest behind it.

* `run_inj`: **a run of characters is determined by what ends it**.
* `stringChars_inj`: so is a string literal, by its closing quote.
* `numberLiteral_eq`: a number literal is the number without its superfluous zeros.
* `slotName_injective`: the names of slots are distinct.
-/

namespace MathScript

/-- A run of characters with `p`, in front of a rest that starts with none. -/
theorem takeWhile_dropWhile_append {p : Char → Bool} {as bs : List Char}
    (has : ∀ c ∈ as, p c = true) (hbs : ∀ c ∈ bs.head?, p c = false) :
    (as ++ bs).takeWhile p = as ∧ (as ++ bs).dropWhile p = bs := by
  rw [List.takeWhile_append_of_pos has, List.dropWhile_append_of_pos has]
  cases bs with
  | nil => exact ⟨List.append_nil _, rfl⟩
  | cons b bs =>
    have hb : ¬ p b = true := by simp [hbs b rfl]
    rw [List.takeWhile_cons_of_neg hb, List.dropWhile_cons_of_neg hb, List.append_nil]
    exact ⟨rfl, rfl⟩

/-- A run of characters with `p`, up to a rest that starts with none, is
determined. -/
theorem run_inj {p : Char → Bool} {as bs r s : List Char} (h : as ++ r = bs ++ s)
    (has : ∀ c ∈ as, p c = true) (hbs : ∀ c ∈ bs, p c = true)
    (hr : ∀ c ∈ r.head?, p c = false) (hs : ∀ c ∈ s.head?, p c = false) : as = bs ∧ r = s := by
  obtain ⟨htake, hdrop⟩ := takeWhile_dropWhile_append has hr
  obtain ⟨htake', hdrop'⟩ := takeWhile_dropWhile_append hbs hs
  rw [h] at htake hdrop
  exact ⟨htake.symm.trans htake', hdrop.symm.trans hdrop'⟩

/-! ## Strings -/

namespace Code

/-- **A string literal is determined by its closing quote.** -/
theorem stringChars_inj {cs ds r s : List Char} (h : stringChars cs ++ r = stringChars ds ++ s) :
    cs = ds ∧ r = s := by
  have hcontents : contents cs ++ '"' :: r = contents ds ++ '"' :: s := by
    simpa [stringChars, contents] using h
  have hread := congrArg readContents hcontents
  rw [readContents_contents, readContents_contents] at hread
  simpa using hread

/-! ## Numbers -/

/-- Without the zeros in front of another digit. -/
def dropZeros : List Char → List Char
  | '0' :: d :: cs => if d.isDigit then dropZeros (d :: cs) else '0' :: d :: cs
  | cs => cs

/-- The number without the superfluous zeros in front of its whole part. -/
def trimmed (w : String) : String :=
  String.ofList (dropZeros w.toList)

theorem trimZeros_zero (cs : List Char) : trimZeros ('0' :: cs) = trimZeros cs := by
  rw [trimZeros, trimZeros, List.dropWhile_cons_of_pos (by decide)]

theorem trimZeros_of_ne {c : Char} (h : c ≠ '0') (cs : List Char) :
    trimZeros (c :: cs) = c :: cs := by
  rw [trimZeros, List.dropWhile_cons_of_neg (by simpa using h)]

theorem isDigits_trimZeros {cs : List Char} (h : ∀ c ∈ cs, c.isDigit = true) :
    IsDigits (trimZeros cs) := by
  induction cs with
  | nil => exact (by decide : IsDigits ['0'])
  | cons c cs ih =>
    by_cases hc : c = '0'
    · subst hc
      rw [trimZeros_zero]
      exact ih fun d hd => h d (List.mem_cons_of_mem _ hd)
    · rw [trimZeros_of_ne hc]
      exact ⟨List.cons_ne_nil _ _, h⟩

/-- Zeros in front of a digit are the zeros in front of the whole part, as long as
one digit stays. -/
theorem dropZeros_append {rest : List Char} (hrest : ∀ c ∈ rest.head?, c.isDigit = false) :
    ∀ {cs : List Char}, IsDigits cs → dropZeros (cs ++ rest) = trimZeros cs ++ rest
  | [], h => absurd rfl h.1
  | c :: cs, h => by
    by_cases hc : c = '0'
    · subst hc
      rw [trimZeros_zero]
      cases cs with
      | nil =>
        cases rest with
        | nil => rfl
        | cons d rest =>
          show dropZeros ('0' :: d :: rest) = _
          rw [dropZeros, if_neg (by simp [hrest d rfl])]
          rfl
      | cons d cs =>
        obtain ⟨_, hd⟩ := List.forall_mem_cons.mp h.2
        show dropZeros ('0' :: d :: (cs ++ rest)) = _
        rw [dropZeros, if_pos (hd d List.mem_cons_self)]
        exact dropZeros_append hrest ⟨List.cons_ne_nil _ _, hd⟩
    · rw [trimZeros_of_ne hc, List.cons_append, dropZeros]
      rintro d ds he
      exact absurd (List.cons.inj he).1 hc

/-- **A number literal is the number without its superfluous zeros.** -/
theorem numberLiteral_eq {w : String} (h : IsNumeral w) : numberLiteral w = trimmed w := by
  rw [numberLiteral, trimmed, numberChars]
  obtain ⟨whole, hw, he | ⟨fraction, _, he⟩⟩ := h
  · have hdrop : dropZeros (whole ++ []) = trimZeros whole ++ [] :=
      dropZeros_append (by simp) hw
    rw [List.append_nil, List.append_nil] at hdrop
    rw [he, splitPoint_of_no_point hw.no_point, hdrop]
  · rw [he, splitPoint_append hw.no_point, dropZeros_append (by simp) hw]

theorem isNumeral_numberLiteral {w : String} (h : IsNumeral w) : IsNumeral (numberLiteral w) := by
  obtain ⟨whole, hw, he | ⟨fraction, hf, he⟩⟩ := h
  · refine ⟨_, isDigits_trimZeros hw.2, Or.inl ?_⟩
    rw [numberLiteral, String.toList_ofList, numberChars, he, splitPoint_of_no_point hw.no_point]
  · refine ⟨_, isDigits_trimZeros hw.2, Or.inr ⟨fraction, hf, ?_⟩⟩
    rw [numberLiteral, String.toList_ofList, numberChars, he, splitPoint_append hw.no_point]

end Code

/-! ## Slots -/

theorem toList_slotName (k : Nat) : (slotName k).toList = '_' :: Nat.toDigits 10 k := by
  rw [slotName, String.toList_append]
  exact congrArg _ Nat.toList_repr

/-- **The names of slots are distinct.** -/
theorem slotName_injective : Function.Injective slotName := by
  intro j k h
  have hlist := congrArg String.toList h
  rw [toList_slotName, toList_slotName] at hlist
  have hdigits := congrArg (Nat.ofDigitChars 10 · 0) (List.cons.inj hlist).2
  simpa [Nat.ofDigitChars_toDigits] using hdigits

/-- The name of a slot. -/
def IsSlot (n : String) : Prop :=
  ∃ k, n = slotName k

theorem IsSlot.toList {n : String} (h : IsSlot n) : ∃ c cs, n.toList = '_' :: c :: cs ∧
    ∀ d ∈ c :: cs, d.isDigit = true := by
  obtain ⟨k, rfl⟩ := h
  obtain ⟨c, cs, hcs⟩ := List.exists_cons_of_ne_nil (Nat.toDigits_ne_nil (n := k) (b := 10))
  refine ⟨c, cs, by rw [toList_slotName, hcs], fun d hd => ?_⟩
  exact Nat.isDigit_of_mem_toDigits (by decide) (by decide) (hcs ▸ hd)

end MathScript
