/-!
# Tokens of YAML

The pieces a document consists of once its layout has been made explicit: where
block collections start and end, and which values are keys.
-/

namespace MathScript.Yaml

/-- How a scalar is written. -/
inductive ScalarStyle where
  | plain
  | quoted
  /-- Behind `|`. -/
  | literal
  /-- Behind `>`. -/
  | folded
deriving DecidableEq, Repr, Inhabited

/-- A token. -/
inductive Token where
  | versionDirective (major minor : Nat)
  /-- `handle` stands for `expansion` in the tags of the document. -/
  | tagDirective (handle expansion : List Char)
  | documentStart | documentEnd | streamEnd
  | blockSequenceStart | blockMappingStart | blockEnd
  | flowSequenceStart | flowSequenceEnd | flowMappingStart | flowMappingEnd
  | blockEntry | flowEntry | key | value
  | alias (name : List Char)
  | anchor (name : List Char)
  | tag (handle suffix : List Char)
  | scalar (style : ScalarStyle) (text : List Char)
deriving DecidableEq, Repr, Inhabited

end MathScript.Yaml
