import MathScript.Proofs.Artifact.Opening
import MathScript.Proofs.Settings.SigningKey

/-!
# From settings to trust

What has to be set for an artifact to be opened.  A compiler that settings describe has
a key of its own if and only if they hold one, and a key that cannot be read is an
error; so nothing that is set is passed over in silence.

* `ofSettings_of_key`, `ofSettings_of_no_key`: the compiler that settings describe.
* `no_silent_downgrade`: **what is opened by default was signed with the key that is
  set, or the flag for untrusted signatures is set**.
-/

namespace MathScript

/-! ## Settings -/

namespace Settings

variable {lookup : String → Option String} {text : String}

theorem isBlank_eq_false : isBlank text = false ↔ ∃ c ∈ text.toList, Text.isBlank c = false := by
  rw [isBlank, List.all_eq_false]
  simp

/-- The key is that of the variable, unless it is blank. -/
theorem signingKey_ofVariables : (ofVariables lookup).signingKey = some text ↔
    lookup keyVariable = some text ∧ isBlank text = false := by
  rw [ofVariables, Option.filter_eq_some_iff]
  simp

/-- The flag is set where its variable says yes. -/
theorem acceptUnverified_ofVariables : (ofVariables lookup).acceptUnverified = true ↔
    ∃ flag, lookup unverifiedVariable = some flag ∧
      Text.asciiLower (Text.trim flag) ∈ ["1", "true", "yes", "on"] := by
  simp only [ofVariables]
  cases lookup unverifiedVariable <;> simp [isYes]

end Settings

/-! ## Compilers -/

namespace Compiler

variable {passing : SigningKey} {s : Settings} {c : Compiler}

theorem ofSettings_of_key {text : String} (h : s.signingKey = some text) :
    ofSettings passing s = match SigningKey.ofBase64 text with
      | .ok key => .ok ⟨key, true, s.filename, s.acceptUnverified⟩
      | .error e => .error (.settings e) := by
  unfold ofSettings Settings.key?
  rw [h]
  dsimp only
  cases SigningKey.ofBase64 text <;> rfl

theorem ofSettings_of_no_key (h : s.signingKey = none) :
    ofSettings passing s = .ok ⟨passing, false, s.filename, s.acceptUnverified⟩ := by
  unfold ofSettings Settings.key?
  rw [h]
  rfl

/-- A compiler has a key of its own if and only if the settings hold its text. -/
theorem provisioned_of_ofSettings (h : ofSettings passing s = .ok c) :
    c.acceptUnverified = s.acceptUnverified ∧ (c.provisioned = true →
      ∃ text, s.signingKey = some text ∧ Text.trim text = c.key.toBase64) := by
  cases hkey : s.signingKey with
  | none =>
    rw [ofSettings_of_no_key hkey] at h
    cases h
    exact ⟨rfl, fun hp => by cases hp⟩
  | some text =>
    rw [ofSettings_of_key hkey] at h
    split at h
    · next key hread =>
      cases h
      exact ⟨rfl, fun _ => ⟨text, rfl, SigningKey.ofBase64_eq_ok.mp hread⟩⟩
    · cases h

/-- Without the flag, what is opened by default was signed with the compiler's own
key. -/
theorem signed_of_unpackByDefault (hflag : c.acceptUnverified = false) {a : Bytes} {o : Unpacked}
    (h : c.unpackByDefault a = .ok o) : c.provisioned = true ∧ o.verification = .verified ∧
      ∃ payload, a = payload ++ c.key.sign payload := by
  rw [unpackByDefault, hflag] at h
  obtain ⟨hc, hv, payload, ha, -⟩ := unpack_strict_eq_ok.mp h
  exact ⟨hc, hv, payload, ha⟩

end Compiler

/-- **No silent downgrade.**  Where the variable of the key holds anything but blanks,
the compiler has the very key that is written there as its own, or there is no compiler
but an error of the settings, and then no key is written there.  What such a compiler
opens by default is trusted, with the HMAC of its payload under the key that is set; or
the variable of the flag says yes. -/
theorem no_silent_downgrade (passing : SigningKey) (lookup : String → Option String) :
    (∀ text, lookup Settings.keyVariable = some text →
      (∃ ch ∈ text.toList, Text.isBlank ch = false) →
      (∃ c, Compiler.ofSettings passing (Settings.ofVariables lookup) = .ok c ∧
        c.provisioned = true ∧ Text.trim text = c.key.toBase64) ∨
      (∃ e, Compiler.ofSettings passing (Settings.ofVariables lookup) = .error (.settings e)) ∧
        ∀ k : SigningKey, Text.trim text ≠ k.toBase64) ∧
    ∀ c, Compiler.ofSettings passing (Settings.ofVariables lookup) = .ok c →
      ∀ a o, c.unpackByDefault a = .ok o →
        (o.verification = .verified ∧ ∃ text payload, lookup Settings.keyVariable = some text ∧
          Text.trim text = c.key.toBase64 ∧
          a = payload ++ Sha256.authenticate c.key.bytes payload) ∨
        ∃ flag, lookup Settings.unverifiedVariable = some flag ∧
          Text.asciiLower (Text.trim flag) ∈ ["1", "true", "yes", "on"] := by
  refine ⟨fun text htext hblank => ?_, fun c hc a o ho => ?_⟩
  · have hset : (Settings.ofVariables lookup).signingKey = some text :=
      Settings.signingKey_ofVariables.mpr ⟨htext, Settings.isBlank_eq_false.mpr hblank⟩
    rw [Compiler.ofSettings_of_key hset]
    cases hread : SigningKey.ofBase64 text with
    | ok k => exact .inl ⟨_, rfl, rfl, SigningKey.ofBase64_eq_ok.mp hread⟩
    | error e =>
      refine .inr ⟨⟨e, rfl⟩, fun k hk => ?_⟩
      rw [SigningKey.ofBase64_eq_ok.mpr hk] at hread
      cases hread
  · obtain ⟨hflag, hkey⟩ := Compiler.provisioned_of_ofSettings hc
    cases haccept : c.acceptUnverified with
    | true => exact .inr (Settings.acceptUnverified_ofVariables.mp (hflag.symm.trans haccept))
    | false =>
      obtain ⟨hp, hv, payload, ha⟩ := Compiler.signed_of_unpackByDefault haccept ho
      obtain ⟨text, hset, htext⟩ := hkey hp
      exact .inl ⟨hv, text, payload, (Settings.signingKey_ofVariables.mp hset).1, htext, ha⟩

/-- A key with blanks around it and no flag: an executable with zeros for its signature
is not opened. -/
theorem no_silent_downgrade_zeros (passing : SigningKey) :
    let text := " AAAAAAAAAAAAAAAAAAAAAAAAAAAAAAAAAAAAAAAAAAA=\n"
    let lookup := fun name => if name = Settings.keyVariable then some text else none
    let e : Executable := ⟨"é.ms", "_p(1)"⟩
    ∃ c, Compiler.ofSettings passing (Settings.ofVariables lookup) = .ok c ∧
      c.key.bytes = List.replicate 32 0 ∧
      ∀ o, c.unpackByDefault (e.layout ++ List.replicate 32 0) ≠ .ok o := by
  intro text lookup e
  let zeros : SigningKey := ⟨List.replicate 32 0, rfl⟩
  have htrim : Text.trim text = zeros.toBase64 := by decide +kernel
  obtain ⟨hcompiler, hopens⟩ := no_silent_downgrade passing lookup
  rcases hcompiler text rfl ⟨'A', by decide, by decide⟩ with ⟨c, hc, -, hk⟩ | ⟨-, hno⟩
  · have hkey : c.key = zeros := by
      have hread := SigningKey.ofBase64_eq_ok.mpr hk
      rw [SigningKey.ofBase64_eq_ok.mpr htrim] at hread
      exact (Except.ok.inj hread).symm
    refine ⟨c, hc, by rw [hkey], fun o ho => ?_⟩
    rcases hopens c hc _ o ho with ⟨-, _, payload, -, -, ha⟩ | ⟨flag, hflag, -⟩
    · rw [hkey] at ha
      obtain ⟨rfl, hsign⟩ := List.append_inj' ha (Sha256.length_authenticate _ _).symm
      exact absurd hsign (by decide +kernel)
    · cases hflag
  · exact absurd htrim (hno zeros)

end MathScript
