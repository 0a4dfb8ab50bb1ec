import MathScript.Proofs.Bytes.Base64

/-!
# Base64 by its bits

What base64 is, said without the groups of three bytes: the bits of the bytes are cut into
sixes, zeros fill up the last six, each six has its symbol of the alphabet, and the symbols are
filled up to a multiple of four.

* `IsTextOf`: **a text is base64 of some bytes**.
* `isTextOf_iff`: bytes have one such text, the one that is written for them.
-/

namespace MathScript.Base64

/-- The symbols in the order of what they stand for. -/
def alphabet : List Char :=
  "ABCDEFGHIJKLMNOPQRSTUVWXYZabcdefghijklmnopqrstuvwxyz0123456789+/".toList

/-- The lowest bits of a natural, the highest first. -/
def bits : (width : Nat) → Nat → List Bool
  | 0, _ => []
  | width + 1, n => bits width (n / 2) ++ [n % 2 == 1]

/-- Base64 of some bytes.  Neither the zeros nor the padding may be left out or be more than it
takes. -/
def IsTextOf (text : List Char) (bs : Bytes) : Prop :=
  ∃ (sextets : List (Fin 64)) (zeros pads : Nat), zeros < 6 ∧ pads < 4 ∧
    sextets.flatMap (fun v => bits 6 v.val) =
      bs.flatMap (fun b => bits 8 b.toNat) ++ List.replicate zeros false ∧
    (sextets.length + pads) % 4 = 0 ∧
    text = sextets.map (fun v => alphabet.getD v.val '=') ++ List.replicate pads '='

/-! ## Bits -/

@[simp] theorem length_bits (width n : Nat) : (bits width n).length = width := by
  induction width generalizing n with
  | zero => rfl
  | succ width ih => rw [bits, List.length_append, ih, List.length_singleton]

/-- The bits of two naturals side by side. -/
theorem bits_append (m x : Nat) {n y : Nat} (h : y < 2 ^ n) :
    bits (m + n) (x * 2 ^ n + y) = bits m x ++ bits n y := by
  induction n generalizing y with
  | zero =>
    obtain rfl : y = 0 := by simpa using h
    rw [Nat.pow_zero, Nat.mul_one, bits, List.append_nil, Nat.add_zero, Nat.add_zero]
  | succ n ih =>
    have hpow : x * 2 ^ (n + 1) = 2 * (x * 2 ^ n) := by rw [Nat.pow_succ]; ring
    have hdiv : (x * 2 ^ (n + 1) + y) / 2 = x * 2 ^ n + y / 2 := by omega
    have hmod : (x * 2 ^ (n + 1) + y) % 2 = y % 2 := by omega
    have hy : y / 2 < 2 ^ n := by
      rw [Nat.pow_succ] at h
      omega
    rw [← Nat.add_assoc, bits, hdiv, hmod, ih hy, List.append_assoc]
    rfl

/-- The upper and the lower bits of a natural. -/
theorem bits_split (m n x : Nat) : bits (m + n) x = bits m (x / 2 ^ n) ++ bits n (x % 2 ^ n) := by
  rw [← bits_append m _ (Nat.mod_lt x (Nat.two_pow_pos n)), Nat.mul_comm, Nat.div_add_mod]

theorem bits_zero (width : Nat) : bits width 0 = List.replicate width false := by
  induction width with
  | zero => rfl
  | succ width ih => rw [bits, Nat.zero_div, ih, List.replicate_succ']; rfl

/-- A natural with zeros behind it. -/
theorem bits_shift (m n x : Nat) :
    bits (m + n) (x * 2 ^ n) = bits m x ++ List.replicate n false := by
  rw [← bits_zero, ← bits_append m x (Nat.two_pow_pos n), Nat.add_zero]

theorem bits_injective {width x y : Nat} (hx : x < 2 ^ width) (hy : y < 2 ^ width)
    (h : bits width x = bits width y) : x = y := by
  induction width generalizing x y with
  | zero =>
    rw [Nat.pow_zero] at hx hy
    omega
  | succ width ih =>
    obtain ⟨hhigh, hlow⟩ := List.append_inj h (by simp)
    rw [Nat.pow_succ] at hx hy
    have hhalf : x / 2 = y / 2 := ih (by omega) (by omega) hhigh
    have hodd : (x % 2 == 1) = (y % 2 == 1) := List.singleton_inj.mp hlow
    rw [beq_eq_beq] at hodd
    omega

theorem flatMap_bits_injective {vs ws : List (Fin 64)}
    (h : vs.flatMap (fun v => bits 6 v.val) = ws.flatMap (fun v => bits 6 v.val)) : vs = ws := by
  induction vs generalizing ws with
  | nil =>
    cases ws with
    | nil => rfl
    | cons w ws => exact absurd (congrArg List.length h.symm) (by simp)
  | cons v vs ih =>
    cases ws with
    | nil => exact absurd (congrArg List.length h) (by simp)
    | cons w ws =>
      obtain ⟨hv, hvs⟩ := List.append_inj h (by simp)
      rw [Fin.ext (bits_injective v.isLt w.isLt hv), ih hvs]

theorem length_flatMap_bits {α : Type} (width : Nat) (f : α → Nat) (as : List α) :
    (as.flatMap fun a => bits width (f a)).length = width * as.length := by
  induction as with
  | nil => rfl
  | cons a as ih => rw [List.flatMap_cons, List.length_append, length_bits, ih, List.length_cons]; ring

/-! ## The text of some bytes -/

theorem symbol_eq {n : Nat} (h : n < 64) : symbol n = alphabet.getD n '=' := by
  have symbols : ∀ v : Fin 64, symbol v = alphabet.getD v '=' := by decide +kernel
  exact symbols ⟨n, h⟩

/-- The groups in front are whole. -/
theorem IsTextOf.cons {cs : List Char} {bs : Bytes} (a b c : UInt8) (h : IsTextOf cs bs) :
    IsTextOf (symbol (a.toNat / 4) :: symbol (a.toNat % 4 * 16 + b.toNat / 16) ::
      symbol (b.toNat % 16 * 4 + c.toNat / 64) :: symbol (c.toNat % 64) :: cs)
      (a :: b :: c :: bs) := by
  obtain ⟨sextets, zeros, pads, hzeros, hpads, hbits, hfour, rfl⟩ := h
  have ha := a.toNat_lt
  have hb := b.toNat_lt
  have hc := c.toNat_lt
  refine ⟨⟨a.toNat / 4, by omega⟩ :: ⟨a.toNat % 4 * 16 + b.toNat / 16, by omega⟩ ::
    ⟨b.toNat % 16 * 4 + c.toNat / 64, by omega⟩ :: ⟨c.toNat % 64, by omega⟩ :: sextets,
    zeros, pads, hzeros, hpads, ?_, ?_, ?_⟩
  · simp only [List.flatMap_cons, hbits]
    rw [bits_split 6 2 a.toNat, bits_split 4 4 b.toNat, bits_split 2 6 c.toNat]
    have h₁ : bits 6 (a.toNat % 4 * 16 + b.toNat / 16) =
        bits 2 (a.toNat % 4) ++ bits 4 (b.toNat / 16) := bits_append 2 (n := 4) _ (by omega)
    have h₂ : bits 6 (b.toNat % 16 * 4 + c.toNat / 64) =
        bits 4 (b.toNat % 16) ++ bits 2 (c.toNat / 64) := bits_append 4 (n := 2) _ (by omega)
    rw [h₁, h₂]
    simp only [List.append_assoc, Nat.reducePow]
  · simp only [List.length_cons]
    omega
  · rw [symbol_eq (by omega), symbol_eq (by omega), symbol_eq (by omega), symbol_eq (by omega)]
    rfl

/-- **What is written for some bytes is base64 of them.** -/
theorem isTextOf_encodeChars (bs : Bytes) : IsTextOf (encodeChars bs) bs := by
  induction bs using encodeChars.induct with
  | case1 => exact ⟨[], 0, 0, by decide, by decide, rfl, rfl, rfl⟩
  | case2 a =>
    have ha := a.toNat_lt
    refine ⟨[⟨a.toNat / 4, by omega⟩, ⟨a.toNat % 4 * 16, by omega⟩], 4, 2, by decide, by decide,
      ?_, by simp, ?_⟩
    · have hlow : bits 6 (a.toNat % 4 * 16) = bits 2 (a.toNat % 4) ++ List.replicate 4 false :=
        bits_shift 2 4 _
      simp only [List.flatMap_cons, List.flatMap_nil, List.append_nil]
      rw [bits_split 6 2 a.toNat, hlow]
      simp only [List.append_assoc, Nat.reducePow]
    · rw [encodeChars, symbol_eq (by omega), symbol_eq (by omega)]
      rfl
  | case3 a b =>
    have ha := a.toNat_lt
    have hb := b.toNat_lt
    refine ⟨[⟨a.toNat / 4, by omega⟩, ⟨a.toNat % 4 * 16 + b.toNat / 16, by omega⟩,
      ⟨b.toNat % 16 * 4, by omega⟩], 2, 1, by decide, by decide, ?_, by simp, ?_⟩
    · have hmid : bits 6 (a.toNat % 4 * 16 + b.toNat / 16) =
          bits 2 (a.toNat % 4) ++ bits 4 (b.toNat / 16) := bits_append 2 (n := 4) _ (by omega)
      have hlow : bits 6 (b.toNat % 16 * 4) = bits 4 (b.toNat % 16) ++ List.replicate 2 false :=
        bits_shift 4 2 _
      simp only [List.flatMap_cons, List.flatMap_nil, List.append_nil]
      rw [bits_split 6 2 a.toNat, bits_split 4 4 b.toNat, hmid, hlow]
      simp only [List.append_assoc, Nat.reducePow]
    · rw [encodeChars, symbol_eq (by omega), symbol_eq (by omega), symbol_eq (by omega)]
      rfl
  | case4 a b c bs ih => exact ih.cons a b c

/-- Bytes have one text: their number says how many zeros and how much padding there is. -/
theorem IsTextOf.unique {cs ds : List Char} {bs : Bytes} (h : IsTextOf cs bs)
    (h' : IsTextOf ds bs) : cs = ds := by
  obtain ⟨vs, zeros, pads, hzeros, hpads, hbits, hfour, rfl⟩ := h
  obtain ⟨ws, zeros', pads', hzeros', hpads', hbits', hfour', rfl⟩ := h'
  have hlen := congrArg List.length hbits
  have hlen' := congrArg List.length hbits'
  rw [length_flatMap_bits, List.length_append, length_flatMap_bits, List.length_replicate]
    at hlen hlen'
  obtain rfl : zeros = zeros' := by omega
  obtain rfl : vs = ws := flatMap_bits_injective (hbits.trans hbits'.symm)
  obtain rfl : pads = pads' := by omega
  rfl

/-- **The only base64 of some bytes is what is written for them.** -/
theorem isTextOf_iff {text : String} {bs : Bytes} :
    IsTextOf text.toList bs ↔ text = encode bs := by
  have hown : IsTextOf (encode bs).toList bs := by
    rw [encode, String.toList_ofList]
    exact isTextOf_encodeChars bs
  constructor
  · exact fun h => String.toList_injective (h.unique hown)
  · rintro rfl
    exact hown

end MathScript.Base64
