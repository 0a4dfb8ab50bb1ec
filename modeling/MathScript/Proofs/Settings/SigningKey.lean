import MathScript.Proofs.Bytes.Sextet
import MathScript.Settings.Basic

/-!
# Keys and their texts

* `trimChars_eq_iff`: trimming takes off the blanks around a text, and nothing else.
* `ofBase64_eq_ok`: **a key is read from its own text, with any blanks around it, and
  from nothing else**.
* `key_texts_are_canonical`: a key and its text determine each other, and a text that is not a
  key's is base64 of another number of bytes or no base64.
-/

namespace MathScript

/-! ## Blanks around a text -/

namespace Text

/-- No blanks stand in front or behind. -/
structure IsTrimmed (cs : List Char) : Prop where
  head : ∀ c ∈ cs.head?, isBlank c = false
  last : ∀ c ∈ cs.getLast?, isBlank c = false

theorem IsTrimmed.of_forall {cs : List Char} (h : ∀ c ∈ cs, isBlank c = false) :
    IsTrimmed cs :=
  ⟨fun c hc => h c (List.mem_of_mem_head? hc), fun c hc => h c (List.mem_of_mem_getLast? hc)⟩

theorem dropWhile_blanks {front cs : List Char} (hfront : ∀ c ∈ front, isBlank c = true)
    (hcs : ∀ c ∈ cs.head?, isBlank c = false) : (front ++ cs).dropWhile isBlank = cs := by
  rw [List.dropWhile_append_of_pos hfront]
  cases cs with
  | nil => rfl
  | cons c cs => rw [List.dropWhile_cons_of_neg (by simp [hcs c rfl])]

/-- **Trimming takes off the blanks around a text, and nothing else.** -/
theorem trimChars_eq_iff {cs ds : List Char} (hds : IsTrimmed ds) :
    trimChars cs = ds ↔ ∃ front back, (∀ c ∈ front ++ back, isBlank c = true) ∧
      cs = front ++ ds ++ back := by
  constructor
  · rintro rfl
    refine ⟨cs.takeWhile isBlank, ((cs.dropWhile isBlank).reverse.takeWhile isBlank).reverse, ?_, ?_⟩
    · intro c hc
      rcases List.mem_append.mp hc with hc | hc
      · exact List.mem_takeWhile_imp hc
      · exact List.mem_takeWhile_imp (List.mem_reverse.mp hc)
    · rw [trimChars, List.append_assoc, ← List.reverse_append, List.takeWhile_append_dropWhile,
        List.reverse_reverse, List.takeWhile_append_dropWhile]
  · rintro ⟨front, back, hblank, rfl⟩
    obtain ⟨hfront, hback⟩ := List.forall_mem_append.mp hblank
    cases ds with
    | nil =>
      rw [trimChars, List.append_nil, List.dropWhile_eq_nil_iff.mpr hblank]
      rfl
    | cons d ds =>
      have hbehind : ∀ c ∈ back.reverse, isBlank c = true := fun c hc =>
        hback c (List.mem_reverse.mp hc)
      have hlast : ∀ c ∈ (d :: ds).reverse.head?, isBlank c = false := by
        rw [List.head?_reverse]
        exact hds.last
      rw [trimChars, List.append_assoc, dropWhile_blanks hfront (by simpa using hds.head d rfl),
        List.reverse_append, dropWhile_blanks hbehind hlast, List.reverse_reverse]

theorem trim_eq_iff {s t : String} (ht : IsTrimmed t.toList) :
    trim s = t ↔ ∃ front back, (∀ c ∈ front ++ back, isBlank c = true) ∧
      s.toList = front ++ t.toList ++ back := by
  rw [← trimChars_eq_iff ht, trim, ← String.toList_inj, String.toList_ofList]

end Text

namespace Base64

/-- Symbols and padding are no blanks. -/
theorem IsTextOf.isTrimmed {cs : List Char} {bs : Bytes} (h : IsTextOf cs bs) :
    Text.IsTrimmed cs := by
  have symbols : ∀ v : Fin 64, Text.isBlank (alphabet.getD v '=') = false := by decide +kernel
  obtain ⟨sextets, zeros, pads, -, -, -, -, rfl⟩ := h
  refine .of_forall fun c hc => ?_
  rcases List.mem_append.mp hc with hc | hc
  · obtain ⟨v, -, rfl⟩ := List.mem_map.mp hc
    exact symbols v
  · rw [List.eq_of_mem_replicate hc]
    decide

end Base64

/-! ## Keys -/

namespace SigningKey

theorem ofBytes_eq_ok {bs : Bytes} {k : SigningKey} : ofBytes bs = .ok k ↔ bs = k.bytes := by
  unfold ofBytes
  constructor
  · intro h
    split at h
    · cases h
      rfl
    · cases h
  · rintro rfl
    rw [dif_pos k.length_bytes]

/-- **A key is read from its own text, with any blanks around it, and from nothing
else.** -/
theorem ofBase64_eq_ok {text : String} {k : SigningKey} :
    ofBase64 text = .ok k ↔ Text.trim text = k.toBase64 := by
  rw [toBase64, ← Base64.decode_eq_ok, ofBase64]
  cases Base64.decode (Bytes.ofString (Text.trim text)) with
  | error e => simp
  | ok bs => simp [ofBytes_eq_ok]

theorem isTextOf_toBase64 (k : SigningKey) : Base64.IsTextOf k.toBase64.toList k.bytes :=
  Base64.isTextOf_iff.mpr rfl

theorem trim_toBase64 (k : SigningKey) : Text.trim k.toBase64 = k.toBase64 :=
  (Text.trim_eq_iff k.isTextOf_toBase64.isTrimmed).mpr ⟨[], [], by simp, by simp⟩

theorem toBase64_injective : Function.Injective toBase64 := by
  intro k l h
  have hread : ofBase64 k.toBase64 = .ok l := ofBase64_eq_ok.mpr (k.trim_toBase64.trans h)
  rw [ofBase64_eq_ok.mpr k.trim_toBase64] at hread
  exact Except.ok.inj hread

/-- Base64 of another number of bytes is no key. -/
theorem ofBase64_of_length {text : String} {bs : Bytes} (h : Text.trim text = Base64.encode bs)
    (hlen : bs.length ≠ size) : ofBase64 text = .error (.invalidKeyLength bs.length) := by
  rw [ofBase64, Base64.decode_eq_ok.mpr h]
  exact dif_neg hlen

/-- What is no base64 is no key. -/
theorem ofBase64_of_not_base64 {text : String} (h : ∀ bs, Text.trim text ≠ Base64.encode bs) :
    ∃ e, ofBase64 text = .error (.invalidBase64 e) := by
  rw [ofBase64]
  cases hdecode : Base64.decode (Bytes.ofString (Text.trim text)) with
  | error e => exact ⟨e, rfl⟩
  | ok bs => exact absurd (Base64.decode_eq_ok.mp hdecode) (h bs)

end SigningKey

theorem Settings.key?_withKey (s : Settings) (k : SigningKey) :
    (s.withKey k).key? = .ok (some k) := by
  show (SigningKey.ofBase64 k.toBase64).map some = _
  rw [SigningKey.ofBase64_eq_ok.mpr k.trim_toBase64]
  rfl

/-- **A key and its text determine each other.**  A key is read from its text, with any blanks
around it, and from no other text; its text is base64 of its bytes.  No two keys have the same
text, and settings give back the key that was put into them.  A text that is base64 of another
number of bytes, with blanks around it or not, is refused for that number, and any text that is
no base64 is refused as such. -/
theorem key_texts_are_canonical :
    (∀ (text : String) (k : SigningKey),
      SigningKey.ofBase64 text = .ok k ↔ Text.trim text = k.toBase64) ∧
    (∀ (text : String) (k : SigningKey), Text.trim text = k.toBase64 ↔
      ∃ front back, (∀ c ∈ front ++ back, Text.isBlank c = true) ∧
        text.toList = front ++ k.toBase64.toList ++ back) ∧
    (∀ k : SigningKey, k.bytes.length = 32 ∧ Base64.IsTextOf k.toBase64.toList k.bytes) ∧
    (∀ k l : SigningKey, k.toBase64 = l.toBase64 → k = l) ∧
    (∀ (s : Settings) (k : SigningKey), (s.withKey k).key? = .ok (some k)) ∧
    (∀ text bs, Base64.IsTextOf (Text.trim text).toList bs → bs.length ≠ 32 →
      SigningKey.ofBase64 text = .error (.invalidKeyLength bs.length)) ∧
    ∀ text, (∀ bs, ¬ Base64.IsTextOf (Text.trim text).toList bs) →
      ∃ e, SigningKey.ofBase64 text = .error (.invalidBase64 e) := by
  refine ⟨fun text k => SigningKey.ofBase64_eq_ok, fun text k => ?_,
    fun k => ⟨k.length_bytes, k.isTextOf_toBase64⟩, fun k l h => SigningKey.toBase64_injective h,
    Settings.key?_withKey, fun text bs h hlen => ?_, fun text h => ?_⟩
  · exact Text.trim_eq_iff k.isTextOf_toBase64.isTrimmed
  · exact SigningKey.ofBase64_of_length (Base64.isTextOf_iff.mp h) hlen
  · refine SigningKey.ofBase64_of_not_base64 fun bs hbs => ?_
    exact h bs (Base64.isTextOf_iff.mpr hbs)

/-- Base64 of five bytes with a line break behind it, the same with a low bit set that belongs
to no byte, and two keys that differ in one bit. -/
theorem key_texts_are_canonical_five :
    SigningKey.ofBase64 "c2hvcnQ=\n" = .error (.invalidKeyLength 5) ∧
      (∃ e, SigningKey.ofBase64 "c2hvcnR=" = .error (.invalidBase64 e)) ∧
      SigningKey.toBase64 ⟨List.replicate 31 0 ++ [1], rfl⟩ ≠
        SigningKey.toBase64 ⟨List.replicate 32 0, rfl⟩ := by
  obtain ⟨-, -, -, hinjective, -, hlength, hinvalid⟩ := key_texts_are_canonical
  refine ⟨?_, ?_, fun h => ?_⟩
  · have htext : Text.trim "c2hvcnQ=\n" = Base64.encode [115, 104, 111, 114, 116] := by
      decide +kernel
    exact hlength _ _ (Base64.isTextOf_iff.mpr htext) (by decide)
  · refine hinvalid _ fun bs hbs => ?_
    have hread : Base64.decode (Bytes.ofString (Text.trim "c2hvcnR=")) = .ok bs :=
      Base64.decode_eq_ok.mpr (Base64.isTextOf_iff.mp hbs)
    have hrefused : Base64.decode (Bytes.ofString (Text.trim "c2hvcnR=")) =
        .error (.lastSymbol 82 6) := by decide +kernel
    rw [hrefused] at hread
    cases hread
  · exact absurd (congrArg SigningKey.bytes (hinjective _ _ h)) (by decide)

end MathScript
