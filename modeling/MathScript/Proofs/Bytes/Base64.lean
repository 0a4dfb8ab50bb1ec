import Mathlib
import MathScript.Bytes.Base64
import MathScript.Proofs.Bytes.Encoding
import MathScript.Proofs.Result

/-!
# Base64 is canonical

Three bytes and four symbols are two groupings of the same 24 bits, and what is left
over at the end is filled up in one way only.  So a text is base64 of at most one byte
string, and a byte string has one text.

* `value?_eq_some`: a symbol stands for its six bits and nothing else does.
* `decodeLast_eq_ok`, `decodeGroups_eq_ok`: the last group, and all groups.
* `decode_eq_ok`: **bytes are read from their own text and from no other**.
-/

namespace MathScript.Base64

variable {start : Nat} {bs group : Bytes}

/-! ## Symbols -/

/-- The byte of the symbol for six bits. -/
def symbolByte (n : Nat) : UInt8 :=
  UInt8.ofNat (symbol n).toNat

theorem value?_symbolByte {n : Nat} (h : n < 64) : value? (symbolByte n) = some n := by
  have symbols : ∀ n : Fin 64, value? (symbolByte n) = some n.val := by decide
  exact symbols ⟨n, h⟩

/-- **A symbol stands for its six bits, and nothing else does.** -/
theorem value?_eq_some {b : UInt8} {n : Nat} :
    value? b = some n ↔ n < 64 ∧ b = symbolByte n := by
  constructor
  · have bytes : ∀ m : Fin 256, ∀ n ∈ value? (UInt8.ofNat m.val),
        n < 64 ∧ UInt8.ofNat m.val = symbolByte n := by decide +kernel
    intro h
    have hb := bytes ⟨b.toNat, b.toNat_lt⟩ n
    simp only [UInt8.ofNat_toNat] at hb
    exact hb h
  · rintro ⟨h, rfl⟩
    exact value?_symbolByte h

theorem symbolByte_ne_padByte {n : Nat} (h : n < 64) : symbolByte n ≠ padByte := by
  intro he
  have hpad := value?_symbolByte h
  rw [he] at hpad
  cases hpad

/-! ## Groups -/

/-- The bytes of the text of some bytes. -/
def form (bs : Bytes) : Bytes :=
  (encodeChars bs).map fun c => UInt8.ofNat c.toNat

@[simp] theorem form_nil : form [] = [] := rfl

theorem form_one (a : UInt8) :
    form [a] = [symbolByte (a.toNat / 4), symbolByte (a.toNat % 4 * 16), padByte, padByte] := rfl

theorem form_two (a b : UInt8) : form [a, b] =
    [symbolByte (a.toNat / 4), symbolByte (a.toNat % 4 * 16 + b.toNat / 16),
      symbolByte (b.toNat % 16 * 4), padByte] := rfl

theorem form_three (a b c : UInt8) (bs : Bytes) : form (a :: b :: c :: bs) =
    symbolByte (a.toNat / 4) :: symbolByte (a.toNat % 4 * 16 + b.toNat / 16) ::
      symbolByte (b.toNat % 16 * 4 + c.toNat / 64) :: symbolByte (c.toNat % 64) :: form bs := rfl

theorem toNat_ofNat_of_lt {n : Nat} (h : n < 256) : (UInt8.ofNat n).toNat = n := by
  rw [UInt8.toNat_ofNat']
  exact Nat.mod_eq_of_lt h

/-- Three bytes are read from their symbols. -/
theorem threeBytes_regroup (a b c : UInt8) :
    threeBytes (a.toNat / 4) (a.toNat % 4 * 16 + b.toNat / 16) (b.toNat % 16 * 4 + c.toNat / 64)
      (c.toNat % 64) = [a, b, c] := by
  have ha := a.toNat_lt
  have hb := b.toNat_lt
  have hc := c.toNat_lt
  simp only [threeBytes, List.cons.injEq, and_true, ← UInt8.toNat_inj, UInt8.toNat_ofNat']
  omega

/-- The symbols of three bytes that were read from four symbols. -/
theorem form_threeBytes {v w x y : Nat} (hv : v < 64) (hw : w < 64) (hx : x < 64) (hy : y < 64)
    (bs : Bytes) : form (threeBytes v w x y ++ bs) =
      symbolByte v :: symbolByte w :: symbolByte x :: symbolByte y :: form bs := by
  rw [threeBytes, List.cons_append, List.cons_append, List.cons_append, List.nil_append, form_three,
    toNat_ofNat_of_lt (by omega), toNat_ofNat_of_lt (by omega), toNat_ofNat_of_lt (by omega)]
  have h₁ : (v * 4 + w / 16) / 4 = v := by omega
  have h₂ : (v * 4 + w / 16) % 4 * 16 + (w % 16 * 16 + x / 4) / 16 = w := by omega
  have h₃ : (w % 16 * 16 + x / 4) % 16 * 4 + (x % 4 * 64 + y) / 64 = x := by omega
  have h₄ : (x % 4 * 64 + y) % 64 = y := by omega
  rw [h₁, h₂, h₃, h₄]

/-! ## The last group -/

/-- The last group is symbols and then padding. -/
theorem lastSymbols_eq_ok {position : Nat} {symbols : List (UInt8 × Nat)} {pads : Nat}
    (h : lastSymbols start position group = .ok (symbols, pads)) :
    group = symbols.map Prod.fst ++ List.replicate pads padByte ∧
      ∀ s ∈ symbols, ∃ v < 64, s.1 = symbolByte v := by
  induction group generalizing position symbols pads with
  | nil =>
    cases h
    exact ⟨rfl, by simp⟩
  | cons b group ih =>
    rw [lastSymbols] at h
    split at h
    · next hb =>
      split at h
      · cases h
      · split at h
        · next hall =>
          cases h
          refine ⟨?_, by simp⟩
          rw [List.map_nil, List.nil_append, Nat.add_comm, List.replicate_succ, hb]
          refine congrArg (padByte :: ·) (List.eq_replicate_iff.mpr ⟨rfl, fun c hc => ?_⟩)
          exact beq_iff_eq.mp (List.all_eq_true.mp hall c hc)
        · cases h
    · split at h
      · cases h
      · next v hv =>
        obtain ⟨⟨symbols', pads'⟩, hrest, hpair⟩ := bind_eq_ok.mp h
        cases hpair
        obtain ⟨rfl, hsymbols⟩ := ih hrest
        refine ⟨rfl, List.forall_mem_cons.mpr ⟨?_, hsymbols⟩⟩
        exact ⟨v, value?_eq_some.mp hv⟩

/-- The bytes of the symbols of the last group with padding behind them. -/
def joinLast (start : Nat) (symbols : List (UInt8 × Nat)) (pads : Nat) :
    Except Base64Error Bytes :=
  if symbols.length < 2 then .error (.length (start + symbols.length))
  else if symbols.length + pads ≠ 4 then .error .padding
  else
    match symbols.map fun s => ((value? s.1).getD 0, s) with
    | [(v, _), (w, last)] =>
      if w % 16 ≠ 0 then .error (.lastSymbol last.1 last.2)
      else .ok [UInt8.ofNat (v * 4 + w / 16)]
    | [(v, _), (w, _), (x, last)] =>
      if x % 4 ≠ 0 then .error (.lastSymbol last.1 last.2)
      else .ok [UInt8.ofNat (v * 4 + w / 16), UInt8.ofNat (w % 16 * 16 + x / 4)]
    | [(v, _), (w, _), (x, _), (y, _)] => .ok (threeBytes v w x y)
    | _ => .error .padding

theorem decodeLast_eq (start : Nat) (group : Bytes) :
    decodeLast start group = lastSymbols start 0 group >>= fun r => joinLast start r.1 r.2 := by
  unfold decodeLast joinLast
  refine congrArg (lastSymbols start 0 group >>= ·) (funext fun r => ?_)
  obtain ⟨symbols, pads⟩ := r
  dsimp only
  split
  · rfl
  split
  · rfl
  · rcases symbols with _ | ⟨s, _ | ⟨t, _ | ⟨u, _ | ⟨v, _ | ⟨w, symbols⟩⟩⟩⟩⟩
    · rfl
    · rfl
    · simp only [List.map_cons, List.map_nil]
      split <;> rfl
    · simp only [List.map_cons, List.map_nil]
      split <;> rfl
    · rfl
    · rfl

/-- One byte that was read from two symbols. -/
theorem form_one_regroup {v w : Nat} (hv : v < 64) (hw : w < 64) (hlow : w % 16 = 0) :
    form [UInt8.ofNat (v * 4 + w / 16)] = [symbolByte v, symbolByte w, padByte, padByte] := by
  rw [form_one, toNat_ofNat_of_lt (by omega)]
  have h₁ : (v * 4 + w / 16) / 4 = v := by omega
  have h₂ : (v * 4 + w / 16) % 4 * 16 = w := by omega
  rw [h₁, h₂]

/-- Two bytes that were read from three symbols. -/
theorem form_two_regroup {v w x : Nat} (hv : v < 64) (hw : w < 64) (hx : x < 64)
    (hlow : x % 4 = 0) :
    form [UInt8.ofNat (v * 4 + w / 16), UInt8.ofNat (w % 16 * 16 + x / 4)] =
      [symbolByte v, symbolByte w, symbolByte x, padByte] := by
  rw [form_two, toNat_ofNat_of_lt (by omega), toNat_ofNat_of_lt (by omega)]
  have h₁ : (v * 4 + w / 16) / 4 = v := by omega
  have h₂ : (v * 4 + w / 16) % 4 * 16 + (w % 16 * 16 + x / 4) / 16 = w := by omega
  have h₃ : (w % 16 * 16 + x / 4) % 16 * 4 = x := by omega
  rw [h₁, h₂, h₃]

section Symbols

variable {v w x y : Nat} (hv : v < 64) (hw : w < 64) (hx : x < 64) (hy : y < 64) (i j k l : Nat)
include hv hw

theorem joinLast_two : joinLast start [(symbolByte v, i), (symbolByte w, j)] 2 =
    if w % 16 ≠ 0 then .error (.lastSymbol (symbolByte w) j)
    else .ok [UInt8.ofNat (v * 4 + w / 16)] := by
  simp [joinLast, value?_symbolByte hv, value?_symbolByte hw]

include hx

theorem joinLast_three :
    joinLast start [(symbolByte v, i), (symbolByte w, j), (symbolByte x, k)] 1 =
      if x % 4 ≠ 0 then .error (.lastSymbol (symbolByte x) k)
      else .ok [UInt8.ofNat (v * 4 + w / 16), UInt8.ofNat (w % 16 * 16 + x / 4)] := by
  simp [joinLast, value?_symbolByte hv, value?_symbolByte hw, value?_symbolByte hx]

include hy

theorem joinLast_four :
    joinLast start [(symbolByte v, i), (symbolByte w, j), (symbolByte x, k), (symbolByte y, l)] 0 =
      .ok (threeBytes v w x y) := by
  simp [joinLast, value?_symbolByte hv, value?_symbolByte hw, value?_symbolByte hx,
    value?_symbolByte hy]

end Symbols

/-- What is made of the last group has its symbols and its padding as its text. -/
theorem joinLast_eq_ok {symbols : List (UInt8 × Nat)} {pads : Nat}
    (hs : ∀ s ∈ symbols, ∃ v < 64, s.1 = symbolByte v)
    (h : joinLast start symbols pads = .ok bs) :
    symbols.map Prod.fst ++ List.replicate pads padByte = form bs ∧ 0 < bs.length ∧
      bs.length ≤ 3 := by
  have hfew : ¬ symbols.length < 2 := fun hlt => by simp [joinLast, hlt] at h
  have hfour : symbols.length + pads = 4 := by
    by_contra hne
    simp [joinLast, hfew, hne] at h
  rcases symbols with _ | ⟨⟨s, i⟩, _ | ⟨⟨t, j⟩, _ | ⟨⟨u, k⟩, _ | ⟨⟨r, l⟩, _ | ⟨q, symbols⟩⟩⟩⟩⟩
  · simp at hfew
  · simp at hfew
  · simp only [List.forall_mem_cons] at hs
    obtain ⟨⟨v, hv, rfl⟩, ⟨w, hw, rfl⟩, -⟩ := hs
    obtain rfl : pads = 2 := by simpa [Nat.add_comm] using hfour
    rw [joinLast_two hv hw] at h
    split at h
    · cases h
    · cases h
      exact ⟨(form_one_regroup hv hw (by omega)).symm, by simp, by simp⟩
  · simp only [List.forall_mem_cons] at hs
    obtain ⟨⟨v, hv, rfl⟩, ⟨w, hw, rfl⟩, ⟨x, hx, rfl⟩, -⟩ := hs
    obtain rfl : pads = 1 := by simpa [Nat.add_comm] using hfour
    rw [joinLast_three hv hw hx] at h
    split at h
    · cases h
    · cases h
      exact ⟨(form_two_regroup hv hw hx (by omega)).symm, by simp, by simp⟩
  · simp only [List.forall_mem_cons] at hs
    obtain ⟨⟨v, hv, rfl⟩, ⟨w, hw, rfl⟩, ⟨x, hx, rfl⟩, ⟨y, hy, rfl⟩, -⟩ := hs
    obtain rfl : pads = 0 := by simpa using hfour
    rw [joinLast_four hv hw hx hy] at h
    cases h
    exact ⟨(form_threeBytes hv hw hx hy []).symm, by simp [threeBytes], by simp [threeBytes]⟩
  · simp only [List.length_cons] at hfour
    omega

theorem lastSymbols_symbol {position n : Nat} (h : n < 64) (rest : Bytes) :
    lastSymbols start position (symbolByte n :: rest) =
      lastSymbols start (position + 1) rest >>= fun r =>
        .ok ((symbolByte n, start + position) :: r.1, r.2) := by
  rw [lastSymbols, if_neg (symbolByte_ne_padByte h), value?_symbolByte h]
  rfl

/-- **The last group is that of one, two or three bytes.** -/
theorem decodeLast_eq_ok :
    decodeLast start group = .ok bs ↔ group = form bs ∧ 0 < bs.length ∧ bs.length ≤ 3 := by
  rw [decodeLast_eq]
  constructor
  · intro h
    obtain ⟨⟨symbols, pads⟩, hlast, hjoin⟩ := bind_eq_ok.mp h
    obtain ⟨hgroup, hsymbols⟩ := lastSymbols_eq_ok hlast
    obtain ⟨hform, hlen⟩ := joinLast_eq_ok hsymbols hjoin
    exact ⟨hgroup.trans hform, hlen⟩
  · rintro ⟨rfl, hpos, hle⟩
    rcases bs with _ | ⟨a, _ | ⟨b, _ | ⟨c, _ | ⟨d, bs⟩⟩⟩⟩
    · cases hpos
    · have ha := a.toNat_lt
      have h₁ : a.toNat / 4 < 64 := by omega
      have h₂ : a.toNat % 4 * 16 < 64 := by omega
      rw [form_one, lastSymbols_symbol h₁, lastSymbols_symbol h₂]
      show joinLast start [(symbolByte _, _), (symbolByte _, _)] 2 = _
      rw [joinLast_two h₁ h₂, if_neg (by omega)]
      refine congrArg Except.ok (congrArg (· :: []) ?_)
      rw [← UInt8.toNat_inj, toNat_ofNat_of_lt (by omega)]
      omega
    · have ha := a.toNat_lt
      have hb := b.toNat_lt
      have h₁ : a.toNat / 4 < 64 := by omega
      have h₂ : a.toNat % 4 * 16 + b.toNat / 16 < 64 := by omega
      have h₃ : b.toNat % 16 * 4 < 64 := by omega
      rw [form_two, lastSymbols_symbol h₁, lastSymbols_symbol h₂, lastSymbols_symbol h₃]
      show joinLast start [(symbolByte _, _), (symbolByte _, _), (symbolByte _, _)] 1 = _
      rw [joinLast_three h₁ h₂ h₃, if_neg (by omega)]
      simp only [Except.ok.injEq, List.cons.injEq, and_true, ← UInt8.toNat_inj, UInt8.toNat_ofNat']
      omega
    · have ha := a.toNat_lt
      have hb := b.toNat_lt
      have h₁ : a.toNat / 4 < 64 := by omega
      have h₂ : a.toNat % 4 * 16 + b.toNat / 16 < 64 := by omega
      have h₃ : b.toNat % 16 * 4 + c.toNat / 64 < 64 := by
        have hc := c.toNat_lt
        omega
      have h₄ : c.toNat % 64 < 64 := by omega
      rw [form_three, form_nil, lastSymbols_symbol h₁, lastSymbols_symbol h₂,
        lastSymbols_symbol h₃, lastSymbols_symbol h₄]
      show joinLast start
        [(symbolByte _, _), (symbolByte _, _), (symbolByte _, _), (symbolByte _, _)] 0 = _
      rw [joinLast_four h₁ h₂ h₃ h₄, threeBytes_regroup]
    · simp only [List.length_cons] at hle
      omega

/-! ## All groups -/

theorem valueAt_eq_ok {b : UInt8} {n : Nat} :
    valueAt b start = .ok n ↔ n < 64 ∧ b = symbolByte n := by
  rw [← value?_eq_some, valueAt]
  cases value? b <;> simp

theorem form_ne_nil (h : bs ≠ []) : form bs ≠ [] := by
  rcases bs with _ | ⟨a, _ | ⟨b, _ | ⟨c, bs⟩⟩⟩
  · exact absurd rfl h
  · simp [form_one]
  · simp [form_two]
  · simp [form_three]

theorem decodeGroups_last (h : group ≠ []) (hlen : group.length ≤ 4) :
    decodeGroups start group = decodeLast start group := by
  rcases group with _ | ⟨a, _ | ⟨b, _ | ⟨c, _ | ⟨d, _ | ⟨e, rest⟩⟩⟩⟩⟩
  · exact absurd rfl h
  · rfl
  · rfl
  · rfl
  · rfl
  · simp only [List.length_cons] at hlen
    omega

/-- **Groups are read from the text of their bytes and from no other.** -/
theorem decodeGroups_eq_ok : decodeGroups start group = .ok bs ↔ group = form bs := by
  constructor
  · intro h
    induction start, group using decodeGroups.induct generalizing bs with
    | case1 =>
      cases h
      rfl
    | case2 start a b c d e rest ih =>
      obtain ⟨v, ha, h₁⟩ := bind_eq_ok.mp h
      obtain ⟨w, hb, h₂⟩ := bind_eq_ok.mp h₁
      obtain ⟨x, hc, h₃⟩ := bind_eq_ok.mp h₂
      obtain ⟨y, hd, h₄⟩ := bind_eq_ok.mp h₃
      obtain ⟨behind, hbehind, h₅⟩ := bind_eq_ok.mp h₄
      obtain ⟨hv, rfl⟩ := valueAt_eq_ok.mp ha
      obtain ⟨hw, rfl⟩ := valueAt_eq_ok.mp hb
      obtain ⟨hx, rfl⟩ := valueAt_eq_ok.mp hc
      obtain ⟨hy, rfl⟩ := valueAt_eq_ok.mp hd
      cases h₅
      rw [form_threeBytes hv hw hx hy, ← ih hbehind]
    | case3 start group hnil hlong =>
      have hlast : decodeLast start group = .ok bs := by
        rwa [decodeGroups] at h
        · exact hnil
        · exact hlong
      exact (decodeLast_eq_ok.mp hlast).1
  · rintro rfl
    induction bs using encodeChars.induct generalizing start with
    | case1 => rfl
    | case2 a =>
      rw [decodeGroups_last (form_ne_nil (by simp)) (by simp [form_one]), decodeLast_eq_ok]
      exact ⟨rfl, by simp, by simp⟩
    | case3 a b =>
      rw [decodeGroups_last (form_ne_nil (by simp)) (by simp [form_two]), decodeLast_eq_ok]
      exact ⟨rfl, by simp, by simp⟩
    | case4 a b c rest ih =>
      cases hrest : form rest with
      | nil =>
        obtain rfl : rest = [] := by
          by_contra hne
          exact form_ne_nil hne hrest
        rw [decodeGroups_last (form_ne_nil (by simp)) (by simp [form_three]), decodeLast_eq_ok]
        exact ⟨rfl, by simp, by simp⟩
      | cons e behind =>
        have ha := a.toNat_lt
        have hb := b.toNat_lt
        have hc := c.toNat_lt
        have hrec : decodeGroups (start + 4) (e :: behind) = .ok rest := hrest ▸ ih
        rw [form_three, hrest, decodeGroups, valueAt_eq_ok.mpr ⟨by omega, rfl⟩,
          valueAt_eq_ok.mpr ⟨by omega, rfl⟩, valueAt_eq_ok.mpr ⟨by omega, rfl⟩,
          valueAt_eq_ok.mpr ⟨by omega, rfl⟩, hrec]
        show Except.ok (threeBytes _ _ _ _ ++ rest) = _
        rw [threeBytes_regroup]
        rfl

/-! ## Texts -/

/-- A text is made of whole groups. -/
theorem length_form (bs : Bytes) : (form bs).length % 4 = 0 := by
  induction bs using encodeChars.induct with
  | case1 => rfl
  | case2 a => simp [form_one]
  | case3 a b => simp [form_two]
  | case4 a b c rest ih =>
    rw [form_three]
    simp only [List.length_cons]
    omega

theorem toNat_symbol_lt (n : Nat) : (symbol n).toNat < 128 := by
  by_cases h : n < 64
  · have symbols : ∀ n : Fin 64, (symbol n).toNat < 128 := by decide
    exact symbols ⟨n, h⟩
  · unfold symbol
    rw [if_neg (by omega), if_neg (by omega), if_neg (by omega), if_neg (by omega)]
    decide

theorem toNat_lt_of_mem_encodeChars {c : Char} (h : c ∈ encodeChars bs) : c.toNat < 128 := by
  induction bs using encodeChars.induct with
  | case1 => cases h
  | case2 a =>
    simp only [encodeChars, List.mem_cons, List.not_mem_nil, or_false] at h
    rcases h with rfl | rfl | rfl | rfl
    · exact toNat_symbol_lt _
    · exact toNat_symbol_lt _
    · decide
    · decide
  | case3 a b =>
    simp only [encodeChars, List.mem_cons, List.not_mem_nil, or_false] at h
    rcases h with rfl | rfl | rfl | rfl
    · exact toNat_symbol_lt _
    · exact toNat_symbol_lt _
    · exact toNat_symbol_lt _
    · decide
  | case4 a b c rest ih =>
    simp only [encodeChars, List.mem_cons] at h
    rcases h with rfl | rfl | rfl | rfl | h
    · exact toNat_symbol_lt _
    · exact toNat_symbol_lt _
    · exact toNat_symbol_lt _
    · exact toNat_symbol_lt _
    · exact ih h

theorem ofString_encode (bs : Bytes) : Bytes.ofString (encode bs) = form bs :=
  Bytes.ofString_ofList fun _ h => toNat_lt_of_mem_encodeChars h

/-- **Bytes are read from their own text and from no other.** -/
theorem decode_eq_ok {text : String} :
    decode (Bytes.ofString text) = .ok bs ↔ text = encode bs := by
  have hgroups : decode (Bytes.ofString text) = .ok bs ↔
      decodeGroups 0 (Bytes.ofString text) = .ok bs := by
    unfold decode
    constructor
    · intro h
      split at h
      · cases h
      · exact h
    · intro h
      -- whole groups leave no byte by itself
      have hwhole : (Bytes.ofString text).length % 4 = 0 := by
        rw [decodeGroups_eq_ok.mp h]
        exact length_form bs
      rw [strayByte?, if_neg (by omega)]
      exact h
  rw [hgroups, decodeGroups_eq_ok, ← ofString_encode]
  exact ⟨fun h => Bytes.ofString_injective h, congrArg Bytes.ofString⟩

end MathScript.Base64
