import Mathlib
import MathScript.Bytes.Utf8

/-!
# Naturals and texts as bytes

Both forms are one to one: bytes of a given number are the little-endian form of
exactly one natural below the power of 256, and bytes are the UTF-8 form of at
most one text.

* `toNat_ofNat`, `ofNat_toNat`: the two ways for naturals.
* `Utf8.decode_eq_ok`: **a text is read from its UTF-8 form and from nothing else**.
* `Bytes.ofString_ofList`: in ASCII, characters and bytes are the same.
-/

namespace MathScript
namespace Bytes

/-! ## Naturals -/

theorem toNat_lt (bs : Bytes) : toNat bs < 256 ^ bs.length := by
  induction bs with
  | nil => decide
  | cons b bs ih =>
    have hb := b.toNat_lt
    rw [toNat, List.length_cons, Nat.pow_succ]
    omega

theorem toNat_ofNat {width n : Nat} (h : n < 256 ^ width) : toNat (ofNat width n) = n := by
  induction width generalizing n with
  | zero =>
    have hn : n = 0 := by simpa using h
    rw [hn]
    rfl
  | succ width ih =>
    have hn : n / 256 < 256 ^ width := Nat.div_lt_of_lt_mul (by rwa [Nat.mul_comm])
    rw [ofNat, toNat, ih hn, UInt8.toNat_ofNat']
    exact Nat.mod_add_div n 256

theorem ofNat_toNat (bs : Bytes) : ofNat bs.length (toNat bs) = bs := by
  induction bs with
  | nil => rfl
  | cons b bs ih =>
    have hb := b.toNat_lt
    have hlow : UInt8.ofNat (b.toNat + 256 * toNat bs) = b := by
      apply UInt8.toNat_inj.mp
      rw [UInt8.toNat_ofNat']
      omega
    have hhigh : (b.toNat + 256 * toNat bs) / 256 = toNat bs := by omega
    rw [toNat, List.length_cons, ofNat, hlow, hhigh, ih]

/-- Bytes of a given number are the form of the natural they are read as. -/
theorem eq_ofNat_iff {width n : Nat} {bs : Bytes} :
    bs.length = width ∧ toNat bs = n ↔ n < 256 ^ width ∧ bs = ofNat width n := by
  constructor
  · rintro ⟨rfl, rfl⟩
    exact ⟨toNat_lt bs, (ofNat_toNat bs).symm⟩
  · rintro ⟨hn, rfl⟩
    exact ⟨length_ofNat width n, toNat_ofNat hn⟩

end Bytes

/-! ## Texts -/

namespace Utf8

theorem fromUTF8?_eq_some {b : ByteArray} {s : String} :
    String.fromUTF8? b = some s ↔ b = s.toUTF8 := by
  unfold String.fromUTF8?
  constructor
  · intro h
    split at h
    · next hv =>
      rw [← Option.some.inj h]
      rfl
    · cases h
  · rintro rfl
    rw [String.toUTF8_eq_toByteArray, dif_pos s.isValidUTF8]
    rfl

/-- **A text is read from its UTF-8 form and from nothing else.** -/
theorem decode_eq_ok {bs : Bytes} {s : String} : decode bs = .ok s ↔ bs = Bytes.ofString s := by
  have harray : (⟨bs.toArray⟩ : ByteArray) = s.toUTF8 ↔ bs = Bytes.ofString s := by
    constructor
    · intro h
      rw [Bytes.ofString, ← h]
    · rintro rfl
      rfl
  rw [← harray, ← fromUTF8?_eq_some, decode]
  cases String.fromUTF8? ⟨bs.toArray⟩ with
  | none => simp
  | some t => simp

end Utf8

namespace Bytes

theorem ofString_injective {s t : String} (h : ofString s = ofString t) : s = t := by
  have hs : Utf8.decode (ofString s) = .ok s := Utf8.decode_eq_ok.mpr rfl
  rw [h, Utf8.decode_eq_ok.mpr rfl] at hs
  exact (Except.ok.inj hs).symm

/-- A character of ASCII is one byte. -/
theorem ofString_ofList {cs : List Char} (h : ∀ c ∈ cs, c.toNat < 128) :
    ofString (String.ofList cs) = cs.map fun c => UInt8.ofNat c.toNat := by
  rw [ofString, String.toUTF8_eq_toByteArray, String.toByteArray_ofList, List.utf8Encode,
    List.toList_data_toByteArray]
  induction cs with
  | nil => rfl
  | cons c cs ih =>
    obtain ⟨hc, hcs⟩ := List.forall_mem_cons.mp h
    have hbyte : String.utf8EncodeChar c = [UInt8.ofNat c.toNat] :=
      if_pos (Nat.le_of_lt_succ hc)
    rw [List.flatMap_cons, hbyte, ih hcs]
    rfl

end Bytes
end MathScript
