import MathScript.Proofs.Artifact.Opening
import MathScript.Proofs.Grammar.Interruption

/-!
# From one compiler to another

What a compiler packs, every compiler can be handed.  How much it makes of it depends
on its key alone: the executable is the one that was packed, and the verification says
how the keys relate.

* `compile_eq`: compiling is reading and packing.
* `pack_eq_ok`: whatever fits into a payload is packed as that payload, signed.
* `compile_then_unpack`: **what one compiler packs, another opens as what it was**.
-/

namespace MathScript
namespace Compiler

variable {c d : Compiler} {p : Program}

/-! ## Compiling -/

/-- An error of a reading that is not called off lies in the source. -/
theorem ofParseError_of_ne {e : ParseError} (h : ∀ reason, e ≠ .interrupted reason) :
    CompileError.ofParseError e = .source e ∧ (CompileError.source e).blamesSource = true := by
  cases e with
  | interrupted reason => exact absurd rfl (h reason)
  | _ => exact ⟨rfl, rfl⟩

/-- **Compiling is reading and packing.** -/
theorem compile_eq (c : Compiler) (source : String) :
    c.compile source = match parse source with
      | .ok r => c.pack r.program
      | .error e => .error (.source e) := by
  unfold compile compileUnder parse parseUnder
  cases hread : Grammar.read .never (Tape.ofString source) with
  | error e =>
    exact congrArg Except.error
      (ofParseError_of_ne (Grammar.ne_interrupted_of_read_never hread)).1
  | ok r => rfl

/-- The executable that a compiler makes of a program. -/
def executable (c : Compiler) (p : Program) : Executable :=
  ⟨c.filename, p.code⟩

theorem pack_eq_ok (h : (c.executable p).layout.length ≤ Executable.maxPayload) :
    c.pack p = .ok ((c.executable p).layout ++ c.key.sign (c.executable p).layout) := by
  have hencode : (c.executable p).encode = .ok (c.executable p).layout :=
    Executable.encode_eq_ok.mpr ⟨rfl, h⟩
  unfold executable at hencode ⊢
  rw [pack, hencode]

theorem pack_error {e : CompileError} (h : c.pack p = .error e) : e.blamesSource = false := by
  unfold pack at h
  split at h
  · cases h
  · cases h
    rfl

/-- **A source is at fault exactly where it is not read.** -/
theorem compile_blamesSource_iff (c : Compiler) (source : String) :
    (∃ e, c.compile source = .error e ∧ e.blamesSource = true) ↔
      ∃ e, parse source = .error e := by
  rw [compile_eq]
  cases hparse : parse source with
  | ok r =>
    constructor
    · rintro ⟨e, hpack, he⟩
      rw [pack_error hpack] at he
      cases he
    · rintro ⟨e, h⟩
      cases h
  | error e =>
    have hcalm := ofParseError_of_ne (ne_interrupted_of_parse hparse)
    exact ⟨fun _ => ⟨e, rfl⟩, fun _ => ⟨.source e, rfl, hcalm.2⟩⟩

/-! ## Opening what another compiler packed -/

/-- What each compiler makes of an artifact that was packed for `e` under the key `k`. -/
structure Delivers (k : SigningKey) (e : Executable) (artifact : Bytes) : Prop where
  /-- With the same key the executable is opened, and its signature trusted. -/
  sameKey : ∀ d : Compiler, d.provisioned = true → d.key = k →
    d.unpack artifact false = .ok ⟨e, .verified⟩
  /-- Without a key of its own a compiler refuses it, or opens it on request. -/
  noKey : ∀ d : Compiler, d.provisioned = false →
    d.unpack artifact false = .error (.unverified .missingKey) ∧
      d.unpack artifact true = .ok ⟨e, .skipped .missingKey⟩
  /-- With another key it is opened on request, and its signature trusted only if the
  two keys happen to sign it alike. -/
  otherKey : ∀ d : Compiler, d.provisioned = true → d.key ≠ k →
    d.unpack artifact true = .ok ⟨e, if d.key.sign e.layout = k.sign e.layout then .verified
      else .skipped .mismatch⟩

/-- A signed payload is opened by what is made of its signature. -/
theorem unpack_signed {e : Executable} (h : e.layout.length ≤ Executable.maxPayload)
    (d : Compiler) (k : SigningKey) (lenient : Bool) :
    d.unpack (e.layout ++ k.sign e.layout) lenient =
      letPass lenient (d.verification e.layout (k.sign e.layout)) (.ok e) := by
  rw [unpack_append (length_sign k e.layout), Executable.decode_layout h]

theorem delivers_signed {e : Executable} (h : e.layout.length ≤ Executable.maxPayload)
    (k : SigningKey) : Delivers k e (e.layout ++ k.sign e.layout) where
  sameKey d hd hk := by
    rw [unpack_signed h, verification_eq_ite hd, hk, if_pos rfl]
    rfl
  noKey d hd := by
    rw [unpack_signed h, unpack_signed h, verification_eq_missingKey hd]
    exact ⟨rfl, rfl⟩
  otherKey d hd _ := by
    rw [unpack_signed h, verification_eq_ite hd]
    by_cases hsign : k.sign e.layout = d.key.sign e.layout
    · rw [if_pos hsign, if_pos hsign.symm]
      rfl
    · rw [if_neg hsign, if_neg (Ne.symm hsign)]
      rfl

end Compiler

/-- **What one compiler packs, another opens as what it was.**  A source that is read
as a program is compiled, if the executable fits into a payload; so is any program.
What other compilers make of the artifact depends on their keys alone.  A compilation
blames the source exactly where it is not read. -/
theorem compile_then_unpack (c : Compiler) :
    (∀ source p t, parse source = .ok ⟨p, t⟩ →
      (c.executable p).layout.length ≤ Executable.maxPayload →
      ∃ a, c.compile source = .ok a ∧ Compiler.Delivers c.key ⟨c.filename, p.code⟩ a) ∧
    (∀ p : Program, (c.executable p).layout.length ≤ Executable.maxPayload →
      ∃ a, c.pack p = .ok a ∧ Compiler.Delivers c.key ⟨c.filename, p.code⟩ a) ∧
    ∀ source, (∃ e, c.compile source = .error e ∧ e.blamesSource = true) ↔
      ∃ e, parse source = .error e := by
  have hpack : ∀ p : Program, (c.executable p).layout.length ≤ Executable.maxPayload →
      ∃ a, c.pack p = .ok a ∧ Compiler.Delivers c.key ⟨c.filename, p.code⟩ a := fun p hp =>
    ⟨_, Compiler.pack_eq_ok hp, Compiler.delivers_signed hp c.key⟩
  refine ⟨fun source p t hparse hp => ?_, hpack, c.compile_blamesSource_iff⟩
  rw [c.compile_eq, hparse]
  exact hpack p hp

/-- An artifact under one key, handed to a compiler with the same key and another
name, to one with another key, and to one without a key of its own. -/
theorem compile_then_unpack_greeting :
    let key : SigningKey := ⟨List.replicate 32 7, rfl⟩
    let other : SigningKey := ⟨List.replicate 32 8, rfl⟩
    let e : Executable := ⟨defaultFilename, Program.code ⟨[.print [.text "é"]]⟩⟩
    ∃ a, (Compiler.ofKey key).compile "PRINT \"é\";" = .ok a ∧
      (⟨key, true, "name.ms", true⟩ : Compiler).unpack a false = .ok ⟨e, .verified⟩ ∧
      (Compiler.ofKey other).unpack a true = .ok ⟨e, .skipped .mismatch⟩ ∧
      (Compiler.ephemeral key).unpack a false = .error (.unverified .missingKey) := by
  intro key other e
  have hparse : parse "PRINT \"é\";" = .ok ⟨⟨[.print [.text "é"]]⟩, NameTable.fresh⟩ := by cbv
  have hfits : e.layout.length ≤ Executable.maxPayload := by decide +kernel
  have hsign : other.sign e.layout ≠ key.sign e.layout := by decide +kernel
  obtain ⟨a, ha, hopens⟩ :
      ∃ a, (Compiler.ofKey key).compile "PRINT \"é\";" = .ok a ∧ Compiler.Delivers key e a :=
    (compile_then_unpack (Compiler.ofKey key)).1 _ _ _ hparse hfits
  have hother : (Compiler.ofKey other).unpack a true =
      .ok ⟨e, if other.sign e.layout = key.sign e.layout then .verified else .skipped .mismatch⟩ :=
    hopens.otherKey _ rfl (by decide)
  rw [if_neg hsign] at hother
  exact ⟨a, ha, hopens.sameKey _ rfl rfl, hother, (hopens.noKey _ rfl).1⟩

end MathScript
