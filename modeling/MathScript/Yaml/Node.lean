import MathScript.Yaml.Token

/-!
# Nodes of YAML

The values of a document, and what a scalar can be taken for.  A scalar is null or
a truth value only where it is plain or its tag asks for that; its text it always
has.
-/

namespace MathScript.Yaml

/-- A value; of a sequence nothing else is kept. -/
inductive Node where
  | scalar (style : ScalarStyle) (tag : Option (List Char)) (text : List Char)
  | sequence
  | mapping (entries : List (Node × Node))
  /-- The value with this anchor. -/
  | alias (number : Nat)
deriving Repr, Inhabited

/-- A document: its value, and the values with anchors by the numbers of these,
the latest first. -/
structure Document where
  root : Node
  anchored : List (Nat × Node)
deriving Repr, Inhabited

namespace Node

/-- A value that is not written at all. -/
def empty : Node := .scalar .plain none []

/-- Whether this is a plain scalar without text. -/
def isEmpty : Node → Bool
  | scalar .plain _ [] => true
  | _ => false

/-- The tags of null and of truth values. -/
def nullTag : List Char := "tag:yaml.org,2002:null".toList
def boolTag : List Char := "tag:yaml.org,2002:bool".toList

/-- Whether a text is written for null. -/
def isNullText (text : List Char) : Bool :=
  [['~'], ['n', 'u', 'l', 'l'], ['N', 'u', 'l', 'l'], ['N', 'U', 'L', 'L']].contains text

/-- The text of a scalar. -/
def text? : Node → Option String
  | scalar _ _ text => some (String.ofList text)
  | _ => none

/-- The text of a scalar that may be null.  Under the tag of null it has to be. -/
def optionalText? : Node → Option (Option String)
  | scalar .plain none text =>
    some (if text.isEmpty || isNullText text then none else some (String.ofList text))
  | scalar .plain (some tag) text =>
    if tag = nullTag then if isNullText text then some none else none
    else some (some (String.ofList text))
  | scalar _ _ text => some (some (String.ofList text))
  | _ => none

/-- The truth value that a text is written for. -/
def flagOfText? (text : List Char) : Option Bool :=
  match String.ofList text with
  | "true" | "True" | "TRUE" => some true
  | "false" | "False" | "FALSE" => some false
  | _ => none

/-- The truth value of a plain scalar, or of a literal one under that tag. -/
def flag? : Node → Option Bool
  | scalar .plain _ text => flagOfText? text
  | scalar .literal (some tag) text => if tag = boolTag then flagOfText? text else none
  | _ => none

end Node

/-- The value that a node stands for. -/
def Document.resolve (d : Document) : Node → Option Node
  | .alias number => d.anchored.lookup number
  | n => some n

end MathScript.Yaml
