import MathScript.Settings.SigningKey

/-!
# Settings

What a compiler can be told from outside, and how it is read from variables.  A
key is kept as the text it was given as and decoded when it is asked for, so
that a bad key is an error of its own and never the same as no key.
-/

namespace MathScript

/-- The settings of a compiler. -/
structure Settings where
  /-- The signing key in base64, if there is one. -/
  signingKey : Option String
  /-- Whether artifacts without a trusted signature are opened. -/
  acceptUnverified : Bool
  /-- The name recorded in executables. -/
  filename : String
deriving DecidableEq, Repr, Inhabited

/-- The name recorded where none is given. -/
def defaultFilename : String := "<mathlang>"

namespace Settings

/-- The settings of a compiler that is told nothing. -/
def standard : Settings := ⟨none, false, defaultFilename⟩

/-- The variable that holds the signing key. -/
def keyVariable : String := "MATHLANG_SIGNING_KEY"

/-- The variable that holds the flag for artifacts without a trusted signature. -/
def unverifiedVariable : String := "MATHLANG_UNSAFE"

/-- Whether a text means yes. -/
def isYes (text : String) : Bool :=
  ["1", "true", "yes", "on"].contains (Text.asciiLower (Text.trim text))

/-- Whether a text is blank. -/
def isBlank (text : String) : Bool :=
  text.toList.all Text.isBlank

/-- Reads settings from variables.  A blank key is no key. -/
def ofVariables (lookup : String → Option String) : Settings where
  signingKey := (lookup keyVariable).filter fun s => !isBlank s
  acceptUnverified := ((lookup unverifiedVariable).map isYes).getD false
  filename := defaultFilename

/-- The signing key itself, if there is one. -/
def key? (s : Settings) : Except SettingsError (Option SigningKey) :=
  match s.signingKey with
  | none => .ok none
  | some text => (SigningKey.ofBase64 text).map some

/-- The settings with this key. -/
def withKey (s : Settings) (k : SigningKey) : Settings :=
  { s with signingKey := some k.toBase64 }

end Settings
end MathScript
