import MathScript.Execution
import MathScript.Proofs.Artifact.Delivery

/-!
# What a host is handed

A run takes the long way round: the source is compiled, signed with a passing key, opened
again without a question about the signature, decoded, and only then handed to a host.
Nothing of that is seen from outside.

* `prepare_of_fits`: **what is handed over is the code of the program**, under the default
  name, whatever the passing key.
* `execute_of_ok`, `execute_of_error`: a run is one call of the host, or none.
* `execute_runs_code`: **a run is the host's run of the generated code**.
-/

namespace MathScript

/-! ## The way to the host -/

variable {passing : SigningKey} {source : String} {p : Program} {t : NameTable}

/-- What a program is run as. -/
def Program.prepared (p : Program) : Executable :=
  ⟨defaultFilename, p.code⟩

theorem Compiler.pack_eq_error {c : Compiler}
    (h : Executable.maxPayload < (c.executable p).layout.length) :
    c.pack p = .error (.encode .tooLarge) := by
  have hencode : (c.executable p).encode = .error .tooLarge := if_neg (Nat.not_le_of_lt h)
  unfold executable at hencode
  rw [pack, hencode]

theorem prepare_eq (passing : SigningKey) (source : String) :
    prepare passing source =
      (Compiler.ephemeral passing).compile source >>= fun artifact =>
        (Compiler.ephemeral passing).unpack artifact true >>= fun opened =>
          .ok opened.executable := rfl

/-- **What is handed over is the code of the program**, under the default name.  The passing
key does not show. -/
theorem prepare_of_fits (hparse : parse source = .ok ⟨p, t⟩)
    (hfits : p.prepared.layout.length ≤ Executable.maxPayload) :
    prepare passing source = .ok p.prepared := by
  have hcompile : (Compiler.ephemeral passing).compile source =
      .ok (p.prepared.layout ++ passing.sign p.prepared.layout) := by
    rw [Compiler.compile_eq, hparse]
    exact Compiler.pack_eq_ok hfits
  -- a compiler without a key of its own doubts even what it signed, and opens it on request
  have hopen := ((Compiler.delivers_signed hfits passing).noKey (.ephemeral passing) rfl).2
  rw [prepare_eq, hcompile]
  show (Compiler.ephemeral passing).unpack _ true >>= _ = _
  rw [hopen]
  rfl

theorem prepare_of_large (hparse : parse source = .ok ⟨p, t⟩)
    (hlarge : Executable.maxPayload < p.prepared.layout.length) :
    prepare passing source = .error (.encode .tooLarge) := by
  have hcompile : (Compiler.ephemeral passing).compile source = .error (.encode .tooLarge) := by
    rw [Compiler.compile_eq, hparse]
    exact Compiler.pack_eq_error hlarge
  rw [prepare_eq, hcompile]
  rfl

theorem prepare_of_error {e : ParseError} (hparse : parse source = .error e) :
    prepare passing source = .error (.source e) := by
  rw [prepare_eq, Compiler.compile_eq, hparse]
  rfl

/-! ## The call of the host -/

section Calls

variable {m : Type → Type} [Monad m] [LawfulMonad m] (host : Host m)

/-- **A prepared run is one call of the host**, whatever effects the host has. -/
theorem execute_of_ok {e : Executable} (h : prepare passing source = .ok e) :
    execute passing host source = (fun answer => answer.bind RunOutput.outcome) <$> host e := by
  unfold execute
  rw [h]
  exact bind_pure_comp _ _

omit [LawfulMonad m] in
/-- Where nothing could be prepared, the host is not called. -/
theorem execute_of_error {e : CompileError} (h : prepare passing source = .error e) :
    execute passing host source = pure (.error e) := by
  unfold execute
  rw [h]

end Calls

/-- The host that answers by `run` and keeps a list of what it is handed. -/
def recording (run : Executable → Except CompileError RunOutput) :
    Host (StateM (List Executable)) := fun e => do
  modify (· ++ [e])
  return run e

/-- What becomes of the answer of a host. -/
structure Relays (answer result : Except CompileError RunOutput) : Prop where
  /-- An error of the host stays what it is. -/
  error : ∀ e, answer = .error e → result = .error e
  /-- A run that does not succeed is an error with the text of its error stream. -/
  failure : ∀ o, answer = .ok o → o.success = false → result = .error (.runtime o.stderr)
  /-- Any other run stays what it is. -/
  success : ∀ o, answer = .ok o → o.success = true → result = .ok o

theorem relays_outcome (answer : Except CompileError RunOutput) :
    Relays answer (answer.bind RunOutput.outcome) where
  error := by
    rintro e rfl
    rfl
  failure := by
    rintro o rfl ho
    show o.outcome = _
    rw [RunOutput.outcome, ho]
    rfl
  success := by
    rintro o rfl ho
    show o.outcome = _
    rw [RunOutput.outcome, if_pos ho]

/-- **A run is the host's run of the generated code.**  If the source is read as a program
whose executable fits into a payload, the host is called once, on the code of the program
under the default name, and its answer decides the outcome.  Otherwise the host is not
called: a program that is too large is not encoded, and what is not read as a program fails
as it does in every compiler. -/
theorem execute_runs_code (passing : SigningKey) (source : String)
    (run : Executable → Except CompileError RunOutput) (calls : List Executable) :
    let ran := (execute passing (recording run) source).run calls
    (∀ p t, parse source = .ok ⟨p, t⟩ →
      let e : Executable := ⟨defaultFilename, p.code⟩
      (e.layout.length ≤ Executable.maxPayload → ran.2 = calls ++ [e] ∧ Relays (run e) ran.1) ∧
      (Executable.maxPayload < e.layout.length → ran = (.error (.encode .tooLarge), calls))) ∧
    ∀ e, parse source = .error e → ran = (.error (.source e), calls) ∧
      ∀ c : Compiler, c.compile source = .error (.source e) := by
  intro ran
  have hok : ∀ e, prepare passing source = .ok e →
      ran = ((run e).bind RunOutput.outcome, calls ++ [e]) := fun e h =>
    congrArg (StateT.run · calls) (execute_of_ok (recording run) h)
  have herror : ∀ e, prepare passing source = .error e → ran = (.error e, calls) := fun e h =>
    congrArg (StateT.run · calls) (execute_of_error (recording run) h)
  refine ⟨fun p t hparse => ⟨fun hfits => ?_, fun hlarge => ?_⟩, fun e hparse => ⟨?_, fun c => ?_⟩⟩
  · rw [hok _ (prepare_of_fits hparse hfits)]
    exact ⟨rfl, relays_outcome _⟩
  · exact herror _ (prepare_of_large hparse hlarge)
  · exact herror _ (prepare_of_error hparse)
  · rw [c.compile_eq, hparse]

set_option maxRecDepth 2000 in
/-- A host that fails, handed a greeting, and then a program that is none. -/
theorem execute_runs_code_greeting :
    let passing : SigningKey := ⟨List.replicate 32 7, rfl⟩
    let e : Executable := ⟨defaultFilename, Program.code ⟨[.print [.text "é"]]⟩⟩
    let host := recording fun _ => .ok ⟨"", "Traceback", false⟩
    (execute passing host "PRINT \"é\";").run [] = (.error (.runtime "Traceback"), [e]) ∧
      (execute passing host "PRINT g;").run [e] =
        (.error (.source (.undefinedName "g" 1)), [e]) := by
  intro passing e host
  have hparse : parse "PRINT \"é\";" = .ok ⟨⟨[.print [.text "é"]]⟩, NameTable.fresh⟩ := by cbv
  have hname : parse "PRINT g;" = .error (.undefinedName "g" 1) := by cbv
  have hfits : e.layout.length ≤ Executable.maxPayload := by decide +kernel
  obtain ⟨hgreeting, -⟩ := execute_runs_code passing "PRINT \"é\";"
    (fun _ => .ok ⟨"", "Traceback", false⟩) []
  obtain ⟨hcalls, hrelays⟩ := (hgreeting _ _ hparse).1 hfits
  obtain ⟨-, hfails⟩ := execute_runs_code passing "PRINT g;"
    (fun _ => .ok ⟨"", "Traceback", false⟩) [e]
  exact ⟨Prod.ext (hrelays.failure _ rfl rfl) hcalls, (hfails _ hname).1⟩

end MathScript
