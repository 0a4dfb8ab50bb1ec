import MathScript.Bytes.Base64
import MathScript.Bytes.Sha256
import MathScript.Text.Blank

/-!
# Signing keys

A key is 32 bytes, and its text is their base64.  A signature is the
HMAC-SHA256 of what is signed.
-/

namespace MathScript

/-- What can be wrong with settings. -/
inductive SettingsError where
  | invalidBase64 (e : Base64Error)
  | invalidKeyLength (found : Nat)
  /-- A file that is not there, or is not text. -/
  | unreadable (path : String)
  /-- A text that is no YAML, or does not describe settings. -/
  | notSettings
deriving DecidableEq, Repr, Inhabited

namespace SigningKey

/-- The length of a key in bytes. -/
def size : Nat := 32

end SigningKey

def SettingsError.message : SettingsError → String
  | invalidBase64 e => "Signing key is not valid base64: " ++ e.message
  | invalidKeyLength n =>
    "Signing key must be " ++ toString SigningKey.size ++ " bytes, got " ++ toString n
  | unreadable path => "Cannot read config file " ++ path
  | notSettings => "Invalid config YAML"

/-- A key for signing. -/
structure SigningKey where
  bytes : Bytes
  length_bytes : bytes.length = SigningKey.size
deriving DecidableEq

namespace SigningKey

/-- The key with these bytes. -/
def ofBytes (bs : Bytes) : Except SettingsError SigningKey :=
  if h : bs.length = size then .ok ⟨bs, h⟩ else .error (.invalidKeyLength bs.length)

/-- The key written in base64, blanks around it ignored. -/
def ofBase64 (text : String) : Except SettingsError SigningKey :=
  match Base64.decode (Bytes.ofString (Text.trim text)) with
  | .ok bs => ofBytes bs
  | .error e => .error (.invalidBase64 e)

/-- The base64 text of a key. -/
def toBase64 (k : SigningKey) : String :=
  Base64.encode k.bytes

/-- What is shown of a key where it should not be revealed. -/
def redacted (_ : SigningKey) : String :=
  "SigningKey([REDACTED])"

/-- The signature of some bytes. -/
def sign (k : SigningKey) (payload : Bytes) : Bytes :=
  Sha256.authenticate k.bytes payload

/-- Whether this is the signature of some bytes. -/
def verify (k : SigningKey) (payload signature : Bytes) : Bool :=
  k.sign payload == signature

end SigningKey
end MathScript
