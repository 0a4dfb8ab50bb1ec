import MathScript.Artifact

/-!
# Running programs

A host runs executables.  `execute` compiles a source text, opens the artifact
again without asking for a signature, and hands it to the host; a run that does
not succeed is an error with what the run wrote to its error stream.
-/

namespace MathScript

/-- What a run left behind. -/
structure RunOutput where
  stdout : String
  stderr : String
  success : Bool
deriving DecidableEq, Repr, Inhabited

/-- Something that runs executables, with effects in `m`. -/
abbrev Host (m : Type → Type) := Executable → m (Except CompileError RunOutput)

/-- The executable a source text runs as, on a passing key. -/
def prepare (passing : SigningKey) (source : String) : Except CompileError Executable := do
  let compiler := Compiler.ephemeral passing
  let opened ← compiler.unpack (← compiler.compile source) true
  return opened.executable

/-- The outcome of a run, given what it left behind. -/
def RunOutput.outcome (output : RunOutput) : Except CompileError RunOutput :=
  if output.success then .ok output else .error (.runtime output.stderr)

/-- Compiles a source text and runs it.  Where it does not compile, nothing runs. -/
def execute {m : Type → Type} [Monad m] (passing : SigningKey) (host : Host m)
    (source : String) : m (Except CompileError RunOutput) :=
  match prepare passing source with
  | .error e => pure (.error e)
  | .ok executable => do return (← host executable).bind RunOutput.outcome

end MathScript
