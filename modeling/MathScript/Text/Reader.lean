/-!
# Readers

The type that the readers of JSON and YAML share.
-/

namespace MathScript.Text

/-- Reads something at the start of a text and gives back the rest. -/
abbrev Reader (α : Type) := List Char → Option (α × List Char)

end MathScript.Text
