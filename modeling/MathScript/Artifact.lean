import MathScript.Code.Emit
import MathScript.Executable
import MathScript.Grammar.Statement
import MathScript.Settings.Basic

/-!
# Artifacts

A compiler turns source text into artifacts and opens artifacts again.  An
artifact is the payload of an executable followed by the signature of that
payload.

A compiler without a key of its own signs with a passing one, which no other
process knows, and so trusts no signature at all.  An artifact without a trusted
signature is refused, or opened with a note of the reason where the caller asks
for that; whether its payload is sound is a separate question, asked after the
signature.
-/

namespace MathScript

/-- Why a signature is not trusted. -/
inductive Distrust where
  /-- The compiler has no key of its own. -/
  | missingKey
  /-- The signature is not the payload's under the compiler's key. -/
  | mismatch
deriving DecidableEq, Repr, Inhabited

def Distrust.message : Distrust → String
  | missingKey => "no signing key found"
  | mismatch => "signature verification failed"

/-- What can go wrong on the way from source to artifact to a run. -/
inductive CompileError where
  /-- The source is no program. -/
  | source (e : ParseError)
  | interrupted (reason : Interrupted)
  | unverified (reason : Distrust)
  | corrupt (cause : Corruption)
  | encode (e : EncodeError)
  | settings (e : SettingsError)
  | io (text : String)
  /-- A run failed, with this text on its error stream. -/
  | runtime (text : String)
deriving DecidableEq, Repr, Inhabited

namespace CompileError

def message : CompileError → String
  | source e => "Parse error: " ++ e.message
  | interrupted reason => "Compilation interrupted: " ++ reason.message
  | unverified reason => "Unsafe decompilation refused: " ++ reason.message
  | corrupt cause => "Bytecode cannot be decompiled due to data corruption: " ++ cause.message
  | encode e => "Cannot encode executable: " ++ e.message
  | settings e => "Configuration error: " ++ e.message
  | io text => "IO error: " ++ text
  | runtime text => "Runtime error: " ++ text

/-- A reading that was called off is an interruption, and any other failure of a
reading lies in the source. -/
def ofParseError : ParseError → CompileError
  | .interrupted reason => interrupted reason
  | e => source e

/-- The program text is at fault. -/
def blamesSource : CompileError → Bool
  | source (.interrupted _) => false
  | source _ => true
  | _ => false

/-- The artifact is at fault. -/
def blamesArtifact : CompileError → Bool
  | unverified _ | corrupt _ => true
  | _ => false

/-- Why the signature was not trusted, if that is the error. -/
def distrust? : CompileError → Option Distrust
  | unverified reason => some reason
  | _ => none

end CompileError

/-- What is known of an opened artifact's signature. -/
inductive Verification where
  | verified
  /-- Unpacked on request, without a trusted signature. -/
  | skipped (reason : Distrust)
deriving DecidableEq, Repr, Inhabited

/-- An opened artifact. -/
structure Unpacked where
  executable : Executable
  verification : Verification
deriving DecidableEq, Repr

def Unpacked.isVerified (o : Unpacked) : Bool :=
  o.verification = .verified

/-- What signs and opens artifacts. -/
structure Compiler where
  key : SigningKey
  /-- Whether the key was given; otherwise it is a passing one. -/
  provisioned : Bool
  /-- The name recorded in executables. -/
  filename : String
  /-- Whether `unpackByDefault` opens artifacts without a trusted signature. -/
  acceptUnverified : Bool
deriving DecidableEq

namespace Compiler

/-- The length of a signature in bytes. -/
def signatureSize : Nat := Sha256.digestSize

/-- A compiler with a key of its own. -/
def ofKey (key : SigningKey) : Compiler :=
  ⟨key, true, defaultFilename, false⟩

/-- A compiler without one, on a passing key. -/
def ephemeral (passing : SigningKey) : Compiler :=
  ⟨passing, false, defaultFilename, false⟩

/-- The compiler that settings describe; without a key in them it runs on the
passing one. -/
def ofSettings (passing : SigningKey) (s : Settings) : Except CompileError Compiler :=
  match s.key? with
  | .error e => .error (.settings e)
  | .ok key? =>
    let base := match key? with
      | some key => ofKey key
      | none => ephemeral passing
    .ok { base with filename := s.filename, acceptUnverified := s.acceptUnverified }

/-- The artifact of a program. -/
def pack (c : Compiler) (p : Program) : Except CompileError Bytes :=
  match Executable.encode ⟨c.filename, p.code⟩ with
  | .ok payload => .ok (payload ++ c.key.sign payload)
  | .error e => .error (.encode e)

/-- The artifact of a source text.  The interrupt is asked before every statement
and once more when the program has been read. -/
def compileUnder (c : Compiler) (interrupt : Interrupt) (source : String) :
    Except CompileError Bytes :=
  match Grammar.read interrupt (Tape.ofString source) with
  | .error e => .error (.ofParseError e)
  | .ok (program, cursor) =>
    match interrupt.check cursor.checks with
    | some reason => .error (.interrupted reason)
    | none => c.pack program

/-- The artifact of a source text. -/
def compile (c : Compiler) (source : String) : Except CompileError Bytes :=
  c.compileUnder .never source

/-- What a compiler makes of a signature. -/
def verification (c : Compiler) (payload signature : Bytes) : Verification :=
  if !c.provisioned then .skipped .missingKey
  else if c.key.verify payload signature then .verified
  else .skipped .mismatch

/-- Opens an artifact; with `lenient`, also one without a trusted signature. -/
def unpack (c : Compiler) (artifact : Bytes) (lenient : Bool) :
    Except CompileError Unpacked :=
  if artifact.length < signatureSize then
    .error (.corrupt (.shorterThanSignature artifact.length))
  else
    let split := artifact.length - signatureSize
    let payload := artifact.take split
    let verification := c.verification payload (artifact.drop split)
    let decoded : Except CompileError Unpacked :=
      match Executable.decode payload with
      | .ok e => .ok ⟨e, verification⟩
      | .error cause => .error (.corrupt cause)
    match verification with
    | .verified => decoded
    | .skipped reason => if lenient then decoded else .error (.unverified reason)

/-- Opens an artifact as the compiler was set up to. -/
def unpackByDefault (c : Compiler) (artifact : Bytes) : Except CompileError Unpacked :=
  c.unpack artifact c.acceptUnverified

end Compiler
end MathScript
