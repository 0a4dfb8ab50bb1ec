import MathScript.Bytes.Sha256
import MathScript.Bytes.Utf8

/-!
# Executables

Generated code with the name it was compiled under, and its payload: four magic
bytes, a version of two bytes, and the two texts, each behind its length in eight
bytes, all integers little-endian, nothing behind.  A payload is decoded to its
end before its magic bytes and its version are looked at.
-/

namespace MathScript

/-- A compiled program. -/
structure Executable where
  /-- The name the program was compiled under. -/
  filename : String
  /-- The generated code. -/
  code : String
deriving DecidableEq, Repr, Inhabited

/-- Why bytes are no payload, or no artifact. -/
inductive Corruption where
  /-- An artifact without room for its signature. -/
  | shorterThanSignature (length : Nat)
  /-- The bytes end inside an integer. -/
  | endOfBytes
  /-- The bytes end inside a text. -/
  | endOfText
  | notUtf8 (e : Utf8Error)
  | trailing
  | wrongMagic
  | unsupportedVersion (version : Nat)
deriving DecidableEq, Repr, Inhabited

def Corruption.message : Corruption → String
  | shorterThanSignature n =>
    "artifact is " ++ toString n ++ " bytes, shorter than its " ++
      toString Sha256.digestSize ++ " byte signature"
  | endOfBytes => "io error: unexpected end of file"
  | endOfText => "io error: "
  | notUtf8 e => "string is not valid utf8: " ++ e.message
  | trailing => "Slice had bytes remaining after deserialization"
  | wrongMagic => "not a MathLang executable"
  | unsupportedVersion v => "unsupported format version " ++ toString v

/-- A payload would exceed the size limit. -/
inductive EncodeError where
  | tooLarge
deriving DecidableEq, Repr, Inhabited

def EncodeError.message : EncodeError → String
  | tooLarge => "the size limit has been reached"

namespace Executable

/-- The first bytes of every payload. -/
def magic : Bytes := [0x4D, 0x4C, 0x42, 0x43]

/-- The version of the format. -/
def version : Nat := 1

/-- The most bytes a payload may have. -/
def maxPayload : Nat := 64 * 1024 * 1024

/-- A text behind its length. -/
def textBytes (s : String) : Bytes :=
  let bs := Bytes.ofString s
  Bytes.ofNat 8 bs.length ++ bs

/-- The bytes of the payload, however many. -/
def layout (e : Executable) : Bytes :=
  magic ++ Bytes.ofNat 2 version ++ textBytes e.filename ++ textBytes e.code

/-- The payload of an executable. -/
def encode (e : Executable) : Except EncodeError Bytes :=
  if e.layout.length ≤ maxPayload then .ok e.layout else .error .tooLarge

/-- Takes `n` bytes off the front. -/
def take (n : Nat) (short : Corruption) (bs : Bytes) : Except Corruption (Bytes × Bytes) :=
  if n ≤ bs.length then .ok (bs.take n, bs.drop n) else .error short

/-- Takes an integer of `width` bytes off the front. -/
def takeNat (width : Nat) (bs : Bytes) : Except Corruption (Nat × Bytes) := do
  let (digits, rest) ← take width .endOfBytes bs
  return (Bytes.toNat digits, rest)

/-- Takes a text behind its length off the front. -/
def takeText (bs : Bytes) : Except Corruption (String × Bytes) := do
  let (length, rest) ← takeNat 8 bs
  let (text, rest) ← take length .endOfText rest
  match Utf8.decode text with
  | .ok s => return (s, rest)
  | .error e => throw (.notUtf8 e)

/-- The executable a payload holds. -/
def decode (bs : Bytes) : Except Corruption Executable := do
  let (found, rest) ← take magic.length .endOfBytes bs
  let (foundVersion, rest) ← takeNat 2 rest
  let (filename, rest) ← takeText rest
  let (code, rest) ← takeText rest
  if !rest.isEmpty then throw .trailing
  if found ≠ magic then throw .wrongMagic
  if foundVersion ≠ version then throw (.unsupportedVersion foundVersion)
  return ⟨filename, code⟩

/-- The SHA-256 of the code, in hexadecimal digits. -/
def fingerprint (e : Executable) : String :=
  Bytes.hex (Sha256.hash (Bytes.ofString e.code))

end Executable
end MathScript
