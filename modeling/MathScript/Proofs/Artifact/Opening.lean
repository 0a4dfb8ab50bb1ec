import MathScript.Artifact
import MathScript.Proofs.Artifact.Payload

/-!
# Opening artifacts

An artifact is a payload with a signature of fixed length behind it, so every byte
string that is long enough is an artifact in exactly one way.  What is made of it
depends on the payload, on what the compiler makes of the signature, and on whether
an untrusted signature is let pass.

* `unpack_append`: **opening an artifact by its two parts**.
* `unpack_strict_eq_ok`: an artifact is opened strictly if and only if the signature
  behind its payload is that of the payload, and the payload is sound.
* `tamper_evident`: whatever else is opened strictly has a payload of its own with
  that payload's signature.
-/

namespace MathScript
namespace Compiler

variable {c : Compiler} {payload signature artifact : Bytes} {lenient : Bool}

/-! ## Signatures -/

@[simp] theorem length_sign (k : SigningKey) (payload : Bytes) :
    (k.sign payload).length = signatureSize :=
  Sha256.length_authenticate k.bytes payload

theorem verify_iff {k : SigningKey} :
    k.verify payload signature = true ↔ signature = k.sign payload := by
  rw [SigningKey.verify, beq_iff_eq, eq_comm]

theorem verification_eq_missingKey (h : c.provisioned = false) :
    c.verification payload signature = .skipped .missingKey := by
  rw [verification, h]
  rfl

theorem verification_eq_ite (h : c.provisioned = true) :
    c.verification payload signature =
      if signature = c.key.sign payload then .verified else .skipped .mismatch := by
  simp only [verification, h, Bool.not_true, Bool.false_eq_true, if_false, verify_iff]

theorem verification_eq_verified :
    c.verification payload signature = .verified ↔
      c.provisioned = true ∧ signature = c.key.sign payload := by
  cases h : c.provisioned with
  | false => simp [verification_eq_missingKey h]
  | true => simp [verification_eq_ite h]

/-! ## The two parts of an artifact -/

/-- A payload that was decoded, with what is known of its signature, as far as that
is let pass. -/
def letPass (lenient : Bool) (v : Verification) (decoded : Except Corruption Executable) :
    Except CompileError Unpacked :=
  match v, lenient with
  | .skipped reason, false => .error (.unverified reason)
  | _, _ =>
    match decoded with
    | .ok e => .ok ⟨e, v⟩
    | .error cause => .error (.corrupt cause)

theorem unpack_of_short (h : artifact.length < signatureSize) :
    c.unpack artifact lenient = .error (.corrupt (.shorterThanSignature artifact.length)) := by
  rw [unpack, if_pos h]

/-- **Opening an artifact by its two parts.** -/
theorem unpack_append (h : signature.length = signatureSize) :
    c.unpack (payload ++ signature) lenient =
      letPass lenient (c.verification payload signature) (Executable.decode payload) := by
  have hlong : ¬ (payload ++ signature).length < signatureSize := by
    rw [List.length_append]
    omega
  have hsplit : (payload ++ signature).length - signatureSize = payload.length := by
    rw [List.length_append]
    omega
  simp only [unpack, if_neg hlong, hsplit, List.take_left, List.drop_left]
  cases c.verification payload signature <;> cases lenient <;> rfl

theorem exists_append (h : signatureSize ≤ artifact.length) :
    ∃ payload signature, artifact = payload ++ signature ∧ signature.length = signatureSize := by
  refine ⟨artifact.take (artifact.length - signatureSize),
    artifact.drop (artifact.length - signatureSize), (List.take_append_drop _ _).symm, ?_⟩
  rw [List.length_drop]
  omega

/-! ## Strictly opened artifacts -/

theorem letPass_strict_eq_ok {v : Verification} {decoded : Except Corruption Executable}
    {o : Unpacked} :
    letPass false v decoded = .ok o ↔ v = .verified ∧ decoded = .ok o.executable ∧
      o.verification = .verified := by
  obtain ⟨e, w⟩ := o
  cases v with
  | skipped reason => simp [letPass]
  | verified =>
    cases decoded with
    | error cause => simp [letPass]
    | ok e' => simp [letPass, eq_comm]

/-- **An artifact is opened strictly if and only if the signature behind its payload
is that of the payload, and the payload is sound.** -/
theorem unpack_strict_eq_ok {o : Unpacked} :
    c.unpack artifact false = .ok o ↔ c.provisioned = true ∧ o.verification = .verified ∧
      ∃ payload, artifact = payload ++ c.key.sign payload ∧
        Executable.decode payload = .ok o.executable := by
  constructor
  · intro h
    by_cases hlong : signatureSize ≤ artifact.length
    · obtain ⟨payload, signature, rfl, hlen⟩ := exists_append hlong
      rw [unpack_append hlen, letPass_strict_eq_ok, verification_eq_verified] at h
      obtain ⟨⟨hc, rfl⟩, hdecode, hverified⟩ := h
      exact ⟨hc, hverified, payload, rfl, hdecode⟩
    · rw [unpack_of_short (Nat.lt_of_not_le hlong)] at h
      cases h
  · rintro ⟨hc, hverified, payload, rfl, hdecode⟩
    rw [unpack_append (length_sign c.key payload), letPass_strict_eq_ok, verification_eq_verified]
    exact ⟨⟨hc, rfl⟩, hdecode, hverified⟩

/-- A signature that is not the payload's is refused. -/
theorem unpack_strict_of_ne (hc : c.provisioned = true) (hlen : signature.length = signatureSize)
    (hne : signature ≠ c.key.sign payload) :
    c.unpack (payload ++ signature) false = .error (.unverified .mismatch) := by
  rw [unpack_append hlen, verification_eq_ite hc, if_neg hne]
  rfl

end Compiler

/-- **Artifacts show tampering.**  An artifact that is opened strictly is a payload
with its HMAC behind it.  Any other byte string is refused for its signature or for
being too short, unless it is another payload with its own HMAC behind it.  So no
other last 32 bytes are let pass, and no other payload with another HMAC under the
old signature. -/
theorem tamper_evident {c : Compiler} (hc : c.provisioned = true) {a : Bytes} {o : Unpacked}
    (ha : c.unpack a false = .ok o) :
    ∃ p, a = p ++ Sha256.authenticate c.key.bytes p ∧ Executable.decode p = .ok o.executable ∧
      (∀ b, b ≠ a → c.unpack b false ≠ .error (.unverified .mismatch) →
        (∀ n, c.unpack b false ≠ .error (.corrupt (.shorterThanSignature n))) →
        ∃ p', p' ≠ p ∧ b = p' ++ Sha256.authenticate c.key.bytes p' ∧
          (Sha256.authenticate c.key.bytes p').length = 32) ∧
      (∀ s, s.length = 32 → p ++ s ≠ a →
        c.unpack (p ++ s) false = .error (.unverified .mismatch)) ∧
      ∀ p', Sha256.authenticate c.key.bytes p' ≠ Sha256.authenticate c.key.bytes p →
        c.unpack (p' ++ Sha256.authenticate c.key.bytes p) false =
          .error (.unverified .mismatch) := by
  obtain ⟨-, -, p, rfl, hdecode⟩ := Compiler.unpack_strict_eq_ok.mp ha
  refine ⟨p, rfl, hdecode, fun b hb hmismatch hshort => ?_, fun s hs hne => ?_, fun p' hne => ?_⟩
  · by_cases hlong : Compiler.signatureSize ≤ b.length
    · -- `b` may be cut elsewhere than `a`, so its payload is only known by the 32 bytes behind it
      obtain ⟨p', s, rfl, hs⟩ := Compiler.exists_append hlong
      obtain rfl : s = c.key.sign p' := Decidable.byContradiction fun hne =>
        hmismatch (Compiler.unpack_strict_of_ne hc hs hne)
      refine ⟨p', ?_, rfl, Sha256.length_authenticate _ _⟩
      rintro rfl
      exact hb rfl
    · exact absurd (Compiler.unpack_of_short (Nat.lt_of_not_le hlong)) (hshort b.length)
  · exact Compiler.unpack_strict_of_ne hc hs fun h => hne (h ▸ rfl)
  · exact Compiler.unpack_strict_of_ne hc (Compiler.length_sign c.key p) hne.symm

/-- A signature of zeros in place of the right one. -/
theorem tamper_evident_zeros :
    let c := Compiler.ofKey ⟨List.replicate 32 7, rfl⟩
    let e : Executable := ⟨"é.ms", "_p(1)"⟩
    c.unpack (e.layout ++ c.key.sign e.layout) false = .ok ⟨e, .verified⟩ ∧
      c.unpack (e.layout ++ List.replicate 32 0) false = .error (.unverified .mismatch) := by
  intro c e
  have ha : c.unpack (e.layout ++ c.key.sign e.layout) false = .ok ⟨e, .verified⟩ :=
    Compiler.unpack_strict_eq_ok.mpr ⟨rfl, rfl, e.layout, rfl,
      Executable.decode_layout (by decide)⟩
  obtain ⟨p, hp, -, -, hzeros, -⟩ := tamper_evident rfl ha
  have hlen : (c.key.sign e.layout).length = (Sha256.authenticate c.key.bytes p).length := by
    rw [Compiler.length_sign, Sha256.length_authenticate, Compiler.signatureSize]
  obtain ⟨rfl, -⟩ := List.append_inj' hp hlen
  exact ⟨ha, hzeros _ rfl (by decide +kernel)⟩

end MathScript
