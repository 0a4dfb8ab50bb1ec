import MathScript.Yaml.Layout
import MathScript.Yaml.Node

/-!
# Documents of YAML

The grammar over tokens.  A text holds one document or none; a second one is
refused, and so is a text that fails anywhere behind its document.

Anchors are numbered in the order in which they are met, by how many different
names came before.  A name that is given again gets a new number, and where two
anchors come to share a number the later one has it.
-/

namespace MathScript.Yaml

/-- How far the tokens of a document have been read. -/
structure Reading where
  tokens : List Token
  /-- What the handles of tags stand for. -/
  handles : List (List Char × List Char)
  /-- The numbers of the anchors by name, the latest first. -/
  numbers : List (List Char × Nat)
  anchored : List (Nat × Node)

/-- A part of the reading of a document. -/
abbrev Part (α : Type) := StateT Reading Option α

namespace Part

/-- The next token. -/
def peek : Part Token := do
  return (← get).tokens.headD .streamEnd

/-- Passes the next token. -/
def skip : Part Unit :=
  modify fun r => { r with tokens := r.tokens.drop 1 }

/-- Passes a token if it is the next one, and says whether it was. -/
def skipIf (t : Token) : Part Bool := do
  let found := (← peek) = t
  if found then skip
  return found

/-- Passes a token, and fails if it is not the next one. -/
def expect (t : Token) : Part Unit := do
  guard (← skipIf t)

/-- What stands in front of a value. -/
structure Properties where
  anchor : Option (List Char)
  tag : Option (List Char)

/-- Gives an anchor its number and its value, the inside of a collection left
out. -/
def register (p : Properties) (shallow : Node) : Part Unit :=
  match p.anchor with
  | none => return
  | some name =>
    modify fun r =>
      let number := (r.numbers.map (·.1)).eraseDups.length
      { r with numbers := (name, number) :: r.numbers,
               anchored := (number, shallow) :: r.anchored }

/-- A tag in full. -/
def expandTag (handle suffix : List Char) : Part (List Char) := do
  if handle.isEmpty then return suffix
  else return (← (← get).handles.lookup handle) ++ suffix

/-- An anchor, if one is next. -/
def anchor? : Part (Option (List Char)) := do
  match ← peek with
  | .anchor name =>
    skip
    return some name
  | _ => return none

/-- A tag, if one is next. -/
def tag? : Part (Option (List Char)) := do
  match ← peek with
  | .tag handle suffix =>
    skip
    return some (← expandTag handle suffix)
  | _ => return none

/-- An anchor and a tag, in either order, if they are there. -/
def properties : Part Properties := do
  match ← anchor? with
  | some name => return ⟨some name, ← tag?⟩
  | none =>
    match ← tag? with
    | some tag => return ⟨← anchor?, some tag⟩
    | none => return ⟨none, none⟩

/-- A value, unless a token is next in front of which none is written. -/
def unless? (value : Part Node) (ends : List Token) : Part Node := do
  if ends.contains (← peek) then return .empty else value

/-- The entries of a block sequence behind its start.  The tokens `ahead` when a
loop starts outlast it; so it is with the loops below. -/
def blockSequence (value : Part Node) : (ahead : List Token) → Part Unit
  | [] => failure
  | _ :: ahead => do
    if ← skipIf .blockEntry then
      let _ ← unless? value [.blockEntry, .blockEnd]
      blockSequence value ahead
    else expect .blockEnd

/-- The entries of a block sequence that is not indented, as far as there are
more. -/
def plainSequence (value : Part Node) : (ahead : List Token) → Part Unit
  | [] => failure
  | _ :: ahead => do
    if ← skipIf .blockEntry then
      let _ ← unless? value [.blockEntry, .key, .value, .blockEnd]
      plainSequence value ahead

/-- The entries of a block mapping behind its start. -/
def blockMapping (value : Part Node) : (ahead : List Token) → Part (List (Node × Node))
  | [] => failure
  | _ :: ahead => do
    if ← skipIf .key then
      let k ← unless? value [.key, .value, .blockEnd]
      let v ←
        if ← skipIf .value then unless? value [.key, .value, .blockEnd] else pure .empty
      return (k, v) :: (← blockMapping value ahead)
    else
      expect .blockEnd
      return []

/-- A pair of a key and a value that is an entry of a flow sequence, behind the
token for the key.  Where the key is not written, the token in its place is passed
as well. -/
def flowPair (value : Part Node) : Part Unit := do
  if [Token.value, .flowEntry, .flowSequenceEnd].contains (← peek) then skip
  else let _ ← value
  if ← skipIf .value then
    let _ ← unless? value [.flowEntry, .flowSequenceEnd]

/-- The entries of a flow sequence behind its start, or behind `first` entries. -/
def flowSequence (value : Part Node) : (ahead : List Token) → (first : Bool) → Part Unit
  | [], _ => failure
  | _ :: ahead, first => do
    if ← skipIf .flowSequenceEnd then return
    unless first do expect .flowEntry
    if ← skipIf .flowSequenceEnd then return
    if ← skipIf .key then flowPair value
    else let _ ← value
    flowSequence value ahead false

/-- The entries of a flow mapping behind its start, or behind its first entries. -/
def flowMapping (value : Part Node) :
    (ahead : List Token) → (first : Bool) → Part (List (Node × Node))
  | [], _ => failure
  | _ :: ahead, first => do
    if ← skipIf .flowMappingEnd then return []
    unless first do expect .flowEntry
    if ← skipIf .flowMappingEnd then return []
    let ends := [Token.value, .flowEntry, .flowMappingEnd]
    let entry ←
      if ← skipIf .key then
        let k ← unless? value ends
        let v ←
          if ← skipIf .value then unless? value [.flowEntry, .flowMappingEnd] else pure .empty
        pure (k, v)
      else pure (← value, .empty)
    return entry :: (← flowMapping value ahead false)

/-- What kinds of value may stand in a place. -/
inductive Place where
  /-- In a flow collection. -/
  | flow
  /-- In a block sequence, or as a whole document. -/
  | block
  /-- In a block mapping, where a sequence need not be indented. -/
  | entry
deriving DecidableEq

/-- An alias. -/
def aliased (name : List Char) : Part Node := do
  skip
  return .alias (← (← get).numbers.lookup name)

/-- A value, in which at most `n` collections nest. -/
def node : (n : Nat) → Place → Part Node
  | 0, _ => failure
  | n + 1, place => do
    match ← peek with
    | .alias name => aliased name
    | _ =>
      let p ← properties
      let ahead := (← get).tokens
      match ← peek with
      | .scalar style text =>
        skip
        register p (.scalar style p.tag text)
        return .scalar style p.tag text
      | .flowSequenceStart =>
        register p .sequence
        skip
        flowSequence (node n .flow) ahead true
        return .sequence
      | .flowMappingStart =>
        register p (.mapping [])
        skip
        return .mapping (← flowMapping (node n .flow) ahead true)
      | .blockSequenceStart =>
        guard (place != .flow)
        register p .sequence
        skip
        blockSequence (node n .block) ahead
        return .sequence
      | .blockMappingStart =>
        guard (place != .flow)
        register p (.mapping [])
        skip
        return .mapping (← blockMapping (node n .entry) ahead)
      | .blockEntry =>
        if place = .entry then
          register p .sequence
          plainSequence (node n .block) ahead
          return .sequence
        else absent p
      | _ => absent p
where
  /-- A value of which only its anchor or its tag is written. -/
  absent (p : Properties) : Part Node := do
    guard (p.anchor.isSome || p.tag.isSome)
    register p (.scalar .plain p.tag [])
    return .scalar .plain p.tag []

/-- The directives in front of a document, the first version found so far given.
Each handle is declared once. -/
def directives : (ahead : List Token) → (versioned : Bool) → Part Unit
  | [], _ => return
  | _ :: ahead, versioned => do
    match ← peek with
    | .versionDirective major minor =>
      guard (!versioned && major = 1 && (minor = 1 || minor = 2))
      skip
      directives ahead true
    | .tagDirective handle expansion =>
      let r ← get
      guard (r.handles.lookup handle).isNone
      set { r with handles := (handle, expansion) :: r.handles }
      skip
      directives ahead versioned
    | _ => return

/-- What the handles stand for that no directive declares. -/
def standardHandles : List (List Char × List Char) :=
  [(['!'], ['!']), (['!', '!'], "tag:yaml.org,2002:".toList)]

/-- The tokens that begin a document explicitly. -/
def startsExplicitly : Token → Bool
  | .versionDirective .. | .tagDirective .. | .documentStart => true
  | _ => false

/-- The value of a document. -/
def content (depth : Nat) : Part Node := do
  if startsExplicitly (← peek) then
    directives (← get).tokens false
    modify fun r => { r with handles := r.handles ++ standardHandles }
    expect .documentStart
    let t ← peek
    if startsExplicitly t || t = .documentEnd || t = .streamEnd then return .empty
    else node depth .block
  else
    modify fun r => { r with handles := standardHandles }
    node depth .block

/-- Markers of a document's end. -/
def endMarkers : (ahead : List Token) → Part Unit
  | [] => return
  | _ :: ahead => do if ← skipIf .documentEnd then endMarkers ahead

/-- The one document there is, if there is one. -/
def document? : Part (Option Document) := do
  let all := (← get).tokens
  if ← skipIf .streamEnd then return none
  let root ← content all.length
  endMarkers all
  expect .streamEnd
  return some ⟨root, (← get).anchored⟩

end Part

/-- The document that a text holds, `none` inside if it holds none. -/
def readDocument (text : String) : Option (Option Document) := do
  let tokens ← tokens? text
  let (document, _) ← (Part.document?).run ⟨tokens, [], [], []⟩
  return document

end MathScript.Yaml
