import MathScript.Proofs.Artifact.Opening

/-!
# What leniency changes

Opening an artifact asks two questions that have nothing to do with each other: what
the artifact holds, which is the same for every compiler, and whether its signature is
in doubt.  Strictly, a doubt is the end; leniently, it is noted beside what is opened.

* `unpack_lenient_eq`: leniently, the answers to both are put side by side.
* `unpack_strict_eq`: **opening strictly is opening leniently behind the question of
  doubt**.
* `leniency_relaxes_trust_alone`: what the two ways of opening have in common.
-/

namespace MathScript
namespace Compiler

variable {c : Compiler} {artifact : Bytes} {lenient : Bool}

/-! ## The two questions -/

/-- What an artifact holds in front of its signature. -/
def contents (artifact : Bytes) : Except Corruption Executable :=
  if artifact.length < signatureSize then .error (.shorterThanSignature artifact.length)
  else Executable.decode (artifact.take (artifact.length - signatureSize))

/-- Why the signature of an artifact is not trusted, if it has a signature that is
not. -/
def doubt? (c : Compiler) (artifact : Bytes) : Option Distrust :=
  if artifact.length < signatureSize then none
  else
    let split := artifact.length - signatureSize
    match c.verification (artifact.take split) (artifact.drop split) with
    | .verified => none
    | .skipped reason => some reason

/-- What is noted of a signature, by the doubt about it. -/
def noted : Option Distrust → Verification
  | none => .verified
  | some reason => .skipped reason

@[simp] theorem noted_eq_verified {doubt : Option Distrust} :
    noted doubt = .verified ↔ doubt = none := by
  cases doubt <;> simp [noted]

@[simp] theorem noted_eq_skipped {doubt : Option Distrust} {reason : Distrust} :
    noted doubt = .skipped reason ↔ doubt = some reason := by
  cases doubt <;> simp [noted]

/-- Without a key of its own a compiler doubts every artifact that holds something. -/
theorem doubt?_eq_missingKey (hc : c.provisioned = false) {e : Executable}
    (h : contents artifact = .ok e) : c.doubt? artifact = some .missingKey := by
  unfold contents at h
  unfold doubt?
  split at h
  · cases h
  · next hlong =>
    rw [if_neg hlong]
    dsimp only
    rw [verification_eq_missingKey hc]

/-! ## The two ways of opening -/

/-- **Leniently, what an artifact holds is given with the doubt about it.** -/
theorem unpack_lenient_eq (c : Compiler) (artifact : Bytes) :
    c.unpack artifact true = match contents artifact with
      | .ok e => .ok ⟨e, noted (c.doubt? artifact)⟩
      | .error cause => .error (.corrupt cause) := by
  unfold unpack contents doubt?
  split
  · rfl
  · dsimp only
    cases c.verification _ _ <;> cases Executable.decode _ <;> rfl

/-- **Opening strictly is opening leniently behind the question of doubt.** -/
theorem unpack_strict_eq (c : Compiler) (artifact : Bytes) :
    c.unpack artifact false = match c.doubt? artifact with
      | some reason => .error (.unverified reason)
      | none => c.unpack artifact true := by
  unfold unpack doubt?
  split
  · rfl
  · dsimp only
    cases c.verification _ _ <;> rfl

theorem unpack_lenient_eq_ok {o : Unpacked} :
    c.unpack artifact true = .ok o ↔
      contents artifact = .ok o.executable ∧ o.verification = noted (c.doubt? artifact) := by
  obtain ⟨e, v⟩ := o
  rw [unpack_lenient_eq]
  cases contents artifact with
  | error cause => simp
  | ok e' => simp [eq_comm]

theorem unpack_lenient_eq_error {e : CompileError} :
    c.unpack artifact true = .error e ↔
      ∃ cause, contents artifact = .error cause ∧ e = .corrupt cause := by
  rw [unpack_lenient_eq]
  cases contents artifact with
  | error cause => simp [eq_comm]
  | ok e' => simp

theorem unpack_strict_eq_ok_iff_lenient {o : Unpacked} :
    c.unpack artifact false = .ok o ↔
      c.doubt? artifact = none ∧ c.unpack artifact true = .ok o := by
  rw [unpack_strict_eq]
  cases c.doubt? artifact <;> simp

theorem unpack_strict_eq_error {e : CompileError} :
    c.unpack artifact false = .error e ↔
      (∃ reason, c.doubt? artifact = some reason ∧ e = .unverified reason) ∨
        c.doubt? artifact = none ∧ c.unpack artifact true = .error e := by
  rw [unpack_strict_eq]
  cases c.doubt? artifact with
  | none => simp
  | some reason => simp [eq_comm]

/-- Whatever is in the way of opening an artifact lies in the artifact. -/
theorem blamesArtifact_of_unpack {e : CompileError} (h : c.unpack artifact lenient = .error e) :
    e.blamesArtifact = true ∧ e.blamesSource = false := by
  have hlenient : ∀ {e}, c.unpack artifact true = .error e →
      e.blamesArtifact = true ∧ e.blamesSource = false := by
    intro e h
    obtain ⟨cause, -, rfl⟩ := unpack_lenient_eq_error.mp h
    exact ⟨rfl, rfl⟩
  cases lenient with
  | true => exact hlenient h
  | false =>
    rcases unpack_strict_eq_error.mp h with ⟨reason, -, rfl⟩ | ⟨-, h⟩
    · exact ⟨rfl, rfl⟩
    · exact hlenient h

/-- Without a key of its own a compiler trusts no signature. -/
theorem verification_eq_of_unpack (hc : c.provisioned = false) {o : Unpacked}
    (h : c.unpack artifact lenient = .ok o) : o.verification = .skipped .missingKey := by
  have hlenient : c.unpack artifact true = .ok o := by
    cases lenient with
    | true => exact h
    | false => exact (unpack_strict_eq_ok_iff_lenient.mp h).2
  obtain ⟨hcontents, hv⟩ := unpack_lenient_eq_ok.mp hlenient
  rw [hv, noted_eq_skipped]
  exact doubt?_eq_missingKey hc hcontents

end Compiler

/-- **Leniency relaxes trust and nothing else.**  What is opened strictly is opened
leniently all the same, and trusted.  What is opened leniently is marked as trusted if
and only if it is opened strictly too, and marked with a reason if and only if it is
refused strictly for that reason.  Leniently nothing is refused for its signature, and
what is corrupt is refused strictly too, as just as corrupt or for its signature.  A
compiler without a key of its own trusts nothing, not even what it signed itself.  Every
failure lies in the artifact and none in the source. -/
theorem leniency_relaxes_trust_alone (c : Compiler) (a : Bytes) :
    (∀ o, c.unpack a false = .ok o → c.unpack a true = .ok o ∧ o.verification = .verified) ∧
    (∀ o, c.unpack a true = .ok o →
      (o.verification = .verified ↔ ∃ o', c.unpack a false = .ok o') ∧
      ∀ reason, o.verification = .skipped reason ↔
        c.unpack a false = .error (.unverified reason)) ∧
    (∀ reason, c.unpack a true ≠ .error (.unverified reason)) ∧
    (∀ cause, c.unpack a true = .error (.corrupt cause) →
      c.unpack a false = .error (.corrupt cause) ∨
        ∃ reason, c.unpack a false = .error (.unverified reason)) ∧
    (c.provisioned = false →
      (∀ lenient o, c.unpack a lenient = .ok o → o.verification ≠ .verified) ∧
      ∀ p e, Executable.decode p = .ok e →
        c.unpack (p ++ c.key.sign p) true = .ok ⟨e, .skipped .missingKey⟩) ∧
    ∀ lenient e, c.unpack a lenient = .error e →
      e.blamesArtifact = true ∧ e.blamesSource = false := by
  refine ⟨fun o h => ?_, fun o h => ?_, fun reason h => ?_, fun cause h => ?_,
    fun hc => ⟨fun lenient o h hv => ?_, fun p e hp => ?_⟩,
    fun lenient e h => Compiler.blamesArtifact_of_unpack h⟩
  · obtain ⟨hdoubt, hlenient⟩ := Compiler.unpack_strict_eq_ok_iff_lenient.mp h
    refine ⟨hlenient, ?_⟩
    rw [(Compiler.unpack_lenient_eq_ok.mp hlenient).2, Compiler.noted_eq_verified]
    exact hdoubt
  · obtain ⟨-, hv⟩ := Compiler.unpack_lenient_eq_ok.mp h
    rw [hv, Compiler.unpack_strict_eq]
    -- without a doubt both ways open it, and with one the strict way names the doubt
    cases c.doubt? a with
    | none => simp [h]
    | some reason => simp
  · obtain ⟨cause, -, he⟩ := Compiler.unpack_lenient_eq_error.mp h
    cases he
  · rw [Compiler.unpack_strict_eq]
    cases c.doubt? a with
    | none => exact .inl h
    | some reason => exact .inr ⟨reason, rfl⟩
  · rw [Compiler.verification_eq_of_unpack hc h] at hv
    cases hv
  · rw [Compiler.unpack_append (Compiler.length_sign c.key p),
      Compiler.verification_eq_missingKey hc, hp]
    rfl

/-- A compiler without a key of its own, and what it signed itself. -/
theorem leniency_relaxes_trust_alone_ephemeral :
    let c := Compiler.ephemeral ⟨List.replicate 32 7, rfl⟩
    let e : Executable := ⟨"é.ms", "_p(1)"⟩
    let a := e.layout ++ c.key.sign e.layout
    c.unpack a true = .ok ⟨e, .skipped .missingKey⟩ ∧
      c.unpack a false = .error (.unverified .missingKey) := by
  intro c e a
  have hunpack : c.unpack a true = .ok ⟨e, .skipped .missingKey⟩ :=
    ((leniency_relaxes_trust_alone c a).2.2.2.2.1 rfl).2 e.layout e
      (Executable.decode_layout (by decide))
  exact ⟨hunpack, (((leniency_relaxes_trust_alone c a).2.1 _ hunpack).2 _).mp rfl⟩

end MathScript
