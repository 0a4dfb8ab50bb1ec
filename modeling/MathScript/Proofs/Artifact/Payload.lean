import MathScript.Executable
import MathScript.Proofs.Bytes.Encoding
import MathScript.Proofs.Result

/-!
# Payloads

Each step of the decoding takes from the front of a byte string exactly what the
layout puts there, so that decoding is undone by the layout and undoes it.

* `takeText_eq_ok`: a text is taken where its form stands in front.
* `decode_eq_ok`: **the layout of an executable is the one payload of it**.
* `payload_one_to_one`: encoding and decoding undo each other.
-/

namespace MathScript.Executable

/-! ## Taking from the front -/

/-- `n` bytes are taken where there are so many. -/
theorem take_eq_ok {n : Nat} {short : Corruption} {bs front rest : Bytes} :
    take n short bs = .ok (front, rest) ↔ front.length = n ∧ bs = front ++ rest := by
  unfold take
  constructor
  · intro h
    split at h
    · next hn =>
      cases h
      exact ⟨List.length_take_of_le hn, (List.take_append_drop n bs).symm⟩
    · cases h
  · rintro ⟨rfl, rfl⟩
    rw [if_pos (by simp), List.take_left, List.drop_left]

theorem take_eq_error {n : Nat} {short cause : Corruption} {bs : Bytes} :
    take n short bs = .error cause ↔ bs.length < n ∧ cause = short := by
  unfold take
  split
  · next hn => simp [Nat.not_lt.mpr hn]
  · next hn => simp [Nat.lt_of_not_le hn, eq_comm]

/-- An integer is taken where its form stands in front. -/
theorem takeNat_eq_ok {width n : Nat} {bs rest : Bytes} :
    takeNat width bs = .ok (n, rest) ↔ n < 256 ^ width ∧ bs = Bytes.ofNat width n ++ rest := by
  unfold takeNat
  rw [bind_eq_ok]
  constructor
  · rintro ⟨⟨digits, rest'⟩, htake, h⟩
    cases h
    obtain ⟨hlen, rfl⟩ := take_eq_ok.mp htake
    obtain ⟨hn, hdigits⟩ := Bytes.eq_ofNat_iff.mp ⟨hlen, rfl⟩
    exact ⟨hn, congrArg (· ++ rest) hdigits⟩
  · rintro ⟨hn, rfl⟩
    refine ⟨(Bytes.ofNat width n, rest), take_eq_ok.mpr ⟨Bytes.length_ofNat width n, rfl⟩, ?_⟩
    show Except.ok (Bytes.toNat (Bytes.ofNat width n), rest) = _
    rw [Bytes.toNat_ofNat hn]

/-- The length of the text fits into the field in front of it. -/
def Fits (s : String) : Prop :=
  (Bytes.ofString s).length < 256 ^ 8

/-- **A text is taken where its form stands in front.** -/
theorem takeText_eq_ok {s : String} {bs rest : Bytes} :
    takeText bs = .ok (s, rest) ↔ Fits s ∧ bs = textBytes s ++ rest := by
  unfold takeText
  rw [bind_eq_ok]
  constructor
  · rintro ⟨⟨length, behind⟩, hlength, hbehind⟩
    obtain ⟨⟨text, rest'⟩, htext, hread⟩ := bind_eq_ok.mp hbehind
    obtain ⟨hlt, rfl⟩ := takeNat_eq_ok.mp hlength
    obtain ⟨rfl, rfl⟩ := take_eq_ok.mp htext
    dsimp only at hread
    split at hread
    · next t hdecode =>
      cases hread
      obtain rfl := Utf8.decode_eq_ok.mp hdecode
      exact ⟨hlt, (List.append_assoc _ _ _).symm⟩
    · cases hread
  · rintro ⟨hfits, rfl⟩
    refine ⟨((Bytes.ofString s).length, Bytes.ofString s ++ rest),
      takeNat_eq_ok.mpr ⟨hfits, List.append_assoc _ _ _⟩, ?_⟩
    rw [bind_eq_ok]
    refine ⟨(Bytes.ofString s, rest), take_eq_ok.mpr ⟨rfl, rfl⟩, ?_⟩
    dsimp only
    rw [Utf8.decode_eq_ok.mpr rfl]
    rfl

/-! ## Whole payloads -/

/-- What is made of a header and an executable in front of `rest`. -/
def judge (found : Bytes) (foundVersion : Nat) (e : Executable) (rest : Bytes) :
    Except Corruption Executable :=
  if !rest.isEmpty then .error .trailing
  else if found ≠ magic then .error .wrongMagic
  else if foundVersion ≠ version then .error (.unsupportedVersion foundVersion)
  else .ok e

theorem decode_eq (bs : Bytes) :
    decode bs = take magic.length .endOfBytes bs >>= fun found => takeNat 2 found.2 >>=
      fun foundVersion => takeText foundVersion.2 >>= fun filename => takeText filename.2 >>=
      fun code => judge found.1 foundVersion.1 ⟨filename.1, code.1⟩ code.2 :=
  rfl

theorem judge_eq_ok {found rest : Bytes} {foundVersion : Nat} {e e' : Executable} :
    judge found foundVersion e rest = .ok e' ↔
      rest = [] ∧ found = magic ∧ foundVersion = version ∧ e = e' := by
  unfold judge
  split
  · next h => simp_all
  · next h =>
    split
    · next h' => simp [h']
    · next h' =>
      split
      · next hv => simp [hv]
      · next hv => simp_all

/-- **The layout of an executable is the one payload of it.** -/
theorem decode_eq_ok {bs : Bytes} {e : Executable} :
    decode bs = .ok e ↔ Fits e.filename ∧ Fits e.code ∧ bs = e.layout := by
  rw [decode_eq]
  constructor
  · intro h
    obtain ⟨⟨found, behind⟩, hfound, h₁⟩ := bind_eq_ok.mp h
    obtain ⟨⟨foundVersion, texts⟩, hversion, h₂⟩ := bind_eq_ok.mp h₁
    obtain ⟨⟨filename, last⟩, hfilename, h₃⟩ := bind_eq_ok.mp h₂
    obtain ⟨⟨code, rest⟩, hcode, h₄⟩ := bind_eq_ok.mp h₃
    -- from the last step to the first, each says what the bytes before it were
    obtain ⟨rfl, rfl, rfl, rfl⟩ := judge_eq_ok.mp h₄
    obtain ⟨-, rfl⟩ := take_eq_ok.mp hfound
    obtain ⟨-, rfl⟩ := takeNat_eq_ok.mp hversion
    obtain ⟨hf, rfl⟩ := takeText_eq_ok.mp hfilename
    obtain ⟨hc, rfl⟩ := takeText_eq_ok.mp hcode
    exact ⟨hf, hc, by simp [layout]⟩
  · rintro ⟨hf, hc, rfl⟩
    have hcode : takeText (textBytes e.code) = .ok (e.code, []) :=
      takeText_eq_ok.mpr ⟨hc, (List.append_nil _).symm⟩
    rw [bind_eq_ok]
    refine ⟨_, take_eq_ok.mpr ⟨rfl, by rw [layout, List.append_assoc, List.append_assoc]⟩, ?_⟩
    rw [bind_eq_ok]
    refine ⟨_, takeNat_eq_ok.mpr ⟨by decide, rfl⟩, ?_⟩
    rw [bind_eq_ok]
    refine ⟨_, takeText_eq_ok.mpr ⟨hf, rfl⟩, ?_⟩
    rw [bind_eq_ok]
    exact ⟨_, hcode, judge_eq_ok.mpr ⟨rfl, rfl, rfl, rfl⟩⟩

/-! ## Encodings -/

theorem length_layout (e : Executable) : e.layout.length =
    22 + (Bytes.ofString e.filename).length + (Bytes.ofString e.code).length := by
  simp only [layout, textBytes, List.length_append, Bytes.length_ofNat, magic, List.length_cons,
    List.length_nil]
  omega

theorem fits_of_le {e : Executable} (h : e.layout.length ≤ maxPayload) :
    Fits e.filename ∧ Fits e.code := by
  rw [length_layout, maxPayload] at h
  unfold Fits
  omega

theorem encode_eq_ok {e : Executable} {bs : Bytes} :
    e.encode = .ok bs ↔ bs = e.layout ∧ bs.length ≤ maxPayload := by
  unfold encode
  split
  · next h =>
    constructor
    · intro he
      cases he
      exact ⟨rfl, h⟩
    · rintro ⟨rfl, -⟩
      rfl
  · next h =>
    constructor
    · intro he
      cases he
    · rintro ⟨rfl, hle⟩
      exact absurd hle h

/-- What was laid out is decoded. -/
theorem decode_layout {e : Executable} (h : e.layout.length ≤ maxPayload) :
    decode e.layout = .ok e :=
  decode_eq_ok.mpr ⟨(fits_of_le h).1, (fits_of_le h).2, rfl⟩

/-! ## Lengths that are not there -/

theorem takeText_of_short {n : Nat} {rest : Bytes} (hn : n < 256 ^ 8) (h : rest.length < n) :
    takeText (Bytes.ofNat 8 n ++ rest) = .error .endOfText :=
  bind_eq_error.mpr (.inr ⟨(n, rest), takeNat_eq_ok.mpr ⟨hn, rfl⟩,
    bind_eq_error.mpr (.inl (take_eq_error.mpr ⟨h, rfl⟩))⟩)

/-- Behind the header the texts are taken, whatever stands in it. -/
theorem decode_header_append {header bs : Bytes} (h : header.length = 6) :
    decode (header ++ bs) = takeText bs >>= fun filename => takeText filename.2 >>=
      fun code => judge (header.take 4) (Bytes.toNat (header.drop 4)) ⟨filename.1, code.1⟩
        code.2 := by
  have hfound : take magic.length .endOfBytes (header ++ bs) =
      .ok (header.take 4, header.drop 4 ++ bs) :=
    take_eq_ok.mpr ⟨by simp [magic, h], by rw [← List.append_assoc, List.take_append_drop]⟩
  have hversion : takeNat 2 (header.drop 4 ++ bs) = .ok (Bytes.toNat (header.drop 4), bs) := by
    obtain ⟨hlt, hdigits⟩ := Bytes.eq_ofNat_iff.mp
      ⟨(show (header.drop 4).length = 2 by simp [h]), rfl⟩
    exact takeNat_eq_ok.mpr ⟨hlt, congrArg (· ++ bs) hdigits⟩
  rw [decode_eq, hfound]
  show takeNat 2 (header.drop 4 ++ bs) >>= _ = _
  rw [hversion]
  rfl

/-- **Encoding and decoding undo each other.**  What fits into the size limit is
encoded, and decoded as what it was.  Among the byte strings within the limit the
payload of an executable is the one that is decoded as it: the magic bytes, the
version, and the two texts behind their lengths.  All others are refused, among
them those that end before a length is reached, however large that is. -/
theorem payload_one_to_one :
    (∀ e : Executable, e.layout.length ≤ maxPayload →
      ∃ bs, e.encode = .ok bs ∧ decode bs = .ok e) ∧
    (∀ bs : Bytes, bs.length ≤ maxPayload →
      (∀ e, decode bs = .ok e ↔ e.encode = .ok bs) ∧
      (∀ e, decode bs = .ok e ↔
        bs = [0x4D, 0x4C, 0x42, 0x43] ++ [1, 0] ++ textBytes e.filename ++ textBytes e.code) ∧
      ((∀ e : Executable, e.encode ≠ .ok bs) → ∃ cause, decode bs = .error cause)) ∧
    ∀ (header rest : Bytes) (n : Nat), header.length = 6 → rest.length < n → n < 2 ^ 64 →
      decode (header ++ Bytes.ofNat 8 n ++ rest) = .error .endOfText ∧
      ∀ name, Fits name →
        decode (header ++ textBytes name ++ Bytes.ofNat 8 n ++ rest) = .error .endOfText := by
  refine ⟨fun e he => ?_, fun bs hbs => ?_, fun header rest n hheader hrest hn => ?_⟩
  · exact ⟨e.layout, encode_eq_ok.mpr ⟨rfl, he⟩, decode_layout he⟩
  · have hdecode : ∀ e, decode bs = .ok e ↔ bs = e.layout := by
      intro e
      rw [decode_eq_ok]
      constructor
      · exact fun h => h.2.2
      · -- within the size limit no text is too long for its length field
        rintro rfl
        exact ⟨(fits_of_le hbs).1, (fits_of_le hbs).2, rfl⟩
    have hencode : ∀ e, decode bs = .ok e ↔ e.encode = .ok bs := by
      intro e
      rw [hdecode, encode_eq_ok, and_iff_left hbs]
    refine ⟨hencode, hdecode, fun hnone => ?_⟩
    cases h : decode bs with
    | ok e => exact absurd ((hencode e).mp h) (hnone e)
    | error cause => exact ⟨cause, rfl⟩
  · have hshort := takeText_of_short hn hrest
    refine ⟨?_, fun name hname => ?_⟩
    · rw [List.append_assoc, decode_header_append hheader]
      exact bind_eq_error.mpr (.inl hshort)
    · rw [List.append_assoc, List.append_assoc, decode_header_append hheader]
      refine bind_eq_error.mpr (.inr ⟨_, takeText_eq_ok.mpr ⟨hname, rfl⟩, ?_⟩)
      exact bind_eq_error.mpr (.inl hshort)

/-- A name outside ASCII, its bytes, and a length of all ones. -/
theorem payload_one_to_one_accented :
    let bs : Bytes :=
      [0x4D, 0x4C, 0x42, 0x43, 1, 0, 2, 0, 0, 0, 0, 0, 0, 0, 0xC3, 0xA9, 0, 0, 0, 0, 0, 0, 0, 0]
    (∃ bs, encode ⟨"é", ""⟩ = .ok bs ∧ decode bs = .ok ⟨"é", ""⟩) ∧
      bs.length ≤ maxPayload ∧ decode bs = .ok ⟨"é", ""⟩ ∧
      decode (magic ++ [1, 0] ++ Bytes.ofNat 8 (2 ^ 64 - 1) ++ [0xC3]) = .error .endOfText := by
  intro bs
  have hbs : bs.length ≤ maxPayload := by decide
  refine ⟨payload_one_to_one.1 _ (by decide), hbs, ?_, ?_⟩
  · exact ((payload_one_to_one.2.1 bs hbs).2.1 ⟨"é", ""⟩).mpr (by decide)
  · exact (payload_one_to_one.2.2 (magic ++ [1, 0]) [0xC3] (2 ^ 64 - 1) rfl (by decide)
      (by decide)).1

end MathScript.Executable
