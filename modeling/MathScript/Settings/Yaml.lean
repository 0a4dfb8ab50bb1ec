import MathScript.Settings.Basic
import MathScript.Yaml.Document

/-!
# Settings in YAML

A mapping of settings by their names.  A text without content means the standard
settings.  Each setting is read by its own rule: a flag takes the plain words for
true and false, a key may be null, and a file name is the text of any scalar.
Keys that name no setting are passed over, and a setting given twice is an error.
-/

namespace MathScript.Settings

open Yaml (Document Node)

/-- Takes an entry over into settings. -/
def applyEntry (s : Settings) (entry : String × Node) : Option Settings :=
  match entry.1 with
  | "signing_key" => (entry.2.optionalText?).map fun key => { s with signingKey := key }
  | "unsafe_decompile" => (entry.2.flag?).map fun b => { s with acceptUnverified := b }
  | "target_filename" => (entry.2.text?).map fun name => { s with filename := name }
  | _ => some s

/-- The names of the settings. -/
def settingNames : List String :=
  ["signing_key", "unsafe_decompile", "target_filename"]

/-- The settings that some entries give, each at most once. -/
def ofEntries? (entries : List (String × Node)) : Option Settings :=
  if settingNames.all fun name => entries.countP (·.1 == name) ≤ 1 then
    entries.foldlM applyEntry standard
  else none

/-- An entry with the values that its key and its value stand for; a key is a
scalar. -/
def keyed? (d : Document) (entry : Node × Node) : Option (String × Node) := do
  let key ← (← d.resolve entry.1).text?
  return (key, ← d.resolve entry.2)

/-- The settings of a document. -/
def ofDocument? (d : Document) : Option Settings :=
  match d.root with
  | .mapping entries => do ofEntries? (← entries.mapM (keyed? d))
  | root => if root.isEmpty then some standard else none

/-- The settings that a text describes. -/
def ofYamlText? (text : String) : Option Settings := do
  match ← Yaml.readDocument text with
  | some d => ofDocument? d
  | none => return standard

/-- Reads settings from YAML. -/
def ofYaml (text : String) : Except SettingsError Settings :=
  match ofYamlText? text with
  | some s => .ok s
  | none => .error .notSettings

end MathScript.Settings
