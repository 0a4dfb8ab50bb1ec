import MathScript.Yaml.BlockText
import MathScript.Yaml.Plain
import MathScript.Yaml.Property
import MathScript.Yaml.Quoted

/-!
# The layout of a document

A document as its tokens.  Indentation opens and closes block collections, and a
colon makes a key of the value in front of it, so the reading remembers where such
a value began and puts the tokens for a key and for the start of a mapping in
front of it afterwards.

A value can become a key only on its own line and within `maxKeyLength` bytes.
Where the indentation asks for a key, a value that becomes none is an error.
-/

namespace MathScript.Yaml

/-- The furthest a colon may stand from the start of its key, in bytes. -/
def maxKeyLength : Nat := 1024

/-- The start of a value that may turn out to be a key. -/
structure Candidate where
  /-- How many tokens stand in front of it. -/
  position : Nat
  line : Nat
  column : Nat
  bytes : Nat
  /-- Nothing but a key may stand there. -/
  required : Bool
deriving DecidableEq, Repr

/-- How far the layout of a document has been read. -/
structure Layout where
  spot : Spot
  /-- The columns of the open block collections, innermost first. -/
  indents : List Nat
  /-- The candidate in the innermost flow collection, or outside all of them. -/
  candidate : Option Candidate
  /-- The candidates further out, one for each open flow collection. -/
  outer : List (Option Candidate)
  /-- A candidate may begin here. -/
  keyAllowed : Bool
  /-- The tokens, newest first. -/
  tokens : List Token
  count : Nat

namespace Layout

/-- The layout in front of a text. -/
def ofText (text : List Char) : Layout :=
  ⟨.ofText text, [], none, [], true, [], 0⟩

/-- Whether a flow collection is open. -/
def inFlow (l : Layout) : Bool := !l.outer.isEmpty

/-- The first column to the right of the innermost block collection's. -/
def floor (l : Layout) : Nat :=
  match l.indents with
  | [] => 0
  | column :: _ => column + 1

/-- Puts a token behind the first `position` ones. -/
def insert (l : Layout) (position : Nat) (t : Token) : Layout :=
  let newer := l.count - position
  { l with tokens := l.tokens.take newer ++ t :: l.tokens.drop newer, count := l.count + 1 }

/-- Puts a token behind all others. -/
def push (l : Layout) (t : Token) : Layout :=
  { l with tokens := t :: l.tokens, count := l.count + 1 }

/-- Opens a block collection at a column to the right of the others', its start
behind the first `position` tokens. -/
def openBlock (l : Layout) (column position : Nat) (start : Token) : Layout :=
  if !l.inFlow && l.floor ≤ column then
    { l.insert position start with indents := column :: l.indents }
  else l

/-- Closes the block collections that `p` holds of, given their columns. -/
def closeBlocks (l : Layout) (p : Nat → Bool) : Layout :=
  if l.inFlow then l
  else
    let closed := l.indents.takeWhile p
    { closed.foldl (fun l _ => l.push .blockEnd) l with indents := l.indents.drop closed.length }

/-- Whether a candidate is too far back to become a key. -/
def isStale (l : Layout) (c : Candidate) : Bool :=
  c.line < l.spot.line || c.bytes + maxKeyLength < l.spot.bytes

/-- Drops a candidate unless it has to become a key. -/
def drop : Option Candidate → Option (Option Candidate)
  | some c => if c.required then none else some none
  | none => some none

/-- Drops a candidate that is too far back. -/
def dropIfStale (l : Layout) (c : Option Candidate) : Option (Option Candidate) :=
  if c.any l.isStale then drop c else some c

end Layout

/-- A part of the reading of a layout. -/
abbrev LayoutStep := StateT Layout Option Unit

namespace LayoutStep

/-- Passes `n` characters and puts a token for them. -/
def take (n : Nat) (t : Token) : LayoutStep :=
  modify fun l => { l.push t with spot := l.spot.advance n }

/-- Puts a token for what was read up to `spot`. -/
def put (t : Token) (spot : Spot) : LayoutStep :=
  modify fun l => { l.push t with spot }

/-- Says whether a candidate may begin next. -/
def allowKey (allowed : Bool) : LayoutStep :=
  modify fun l => { l with keyAllowed := allowed }

/-- Gives up the innermost candidate. -/
def dropCandidate : LayoutStep := do
  let l ← get
  let candidate ← Layout.drop l.candidate
  set { l with candidate }

/-- Gives up the candidates that are too far back. -/
def dropStale : LayoutStep := do
  let l ← get
  let candidate ← l.dropIfStale l.candidate
  let outer ← (l.outer.mapM l.dropIfStale : Option (List (Option Candidate)))
  set { l with candidate, outer }

/-- Notes that a value begins here, where it may become a key. -/
def noteCandidate : LayoutStep := do
  if (← get).keyAllowed then
    dropCandidate
    modify fun l =>
      let required := !l.inFlow && l.indents.head? = some l.spot.column
      { l with candidate := some ⟨l.count, l.spot.line, l.spot.column, l.spot.bytes, required⟩ }

/-- Passes white space, line breaks and comments.  Outside flow collections a tab
is white space only where no key may begin, and a line break lets one begin.  The
text of the place drives the loop, as `ahead`. -/
def passBetween (flow : Bool) :
    (ahead : List Char) → (keyAllowed comment : Bool) → Spot → Bool × Spot
  | [], keyAllowed, _, s => (keyAllowed, s)
  | c :: ahead, keyAllowed, comment, s =>
    if isBreak c then passBetween flow ahead (keyAllowed || !flow) false s.next
    else if comment || c = '#' then passBetween flow ahead keyAllowed true s.next
    else if c = ' ' || (c = '\t' && (flow || !keyAllowed)) ||
        (c = byteOrderMark && s.column = 0) then
      passBetween flow ahead keyAllowed false s.next
    else (keyAllowed, s)

/-- Moves to the next token. -/
def toToken : LayoutStep :=
  modify fun l =>
    let (keyAllowed, spot) := passBetween l.inFlow l.spot.rest l.keyAllowed false l.spot
    { l with keyAllowed, spot }

/-- Leaves all block collections. -/
def leaveBlocks : LayoutStep := do
  modify fun l => l.closeBlocks fun _ => true
  dropCandidate
  allowKey false

/-- A directive, with its line. -/
def directive : LayoutStep := do
  leaveBlocks
  let l ← get
  let (t, rest) ← readDirective (l.spot.rest.drop 1)
  let spot := ((l.spot.moveTo rest).skipWhile isWhite).skipComment
  guard (atLineEnd spot.rest)
  put t spot.next

/-- A marker of a document. -/
def marker (t : Token) : LayoutStep := do
  leaveBlocks
  take 3 t

/-- The start of a flow collection. -/
def openFlow (t : Token) : LayoutStep := do
  noteCandidate
  modify fun l => { l with candidate := none, outer := l.candidate :: l.outer }
  allowKey true
  take 1 t

/-- The end of a flow collection; a bracket that closes none is left to the
grammar. -/
def closeFlow (t : Token) : LayoutStep := do
  dropCandidate
  modify fun l =>
    match l.outer with
    | candidate :: outer => { l with candidate, outer }
    | [] => l
  allowKey false
  take 1 t

/-- A comma between the entries of a flow collection. -/
def flowEntry : LayoutStep := do
  dropCandidate
  allowKey true
  take 1 .flowEntry

/-- Opens a block collection here, where a key may begin. -/
def openBlockHere (start : Token) : LayoutStep := do
  let l ← get
  unless l.inFlow do
    guard l.keyAllowed
    set (l.openBlock l.spot.column l.count start)

/-- A dash in front of an entry of a block sequence. -/
def blockEntry : LayoutStep := do
  openBlockHere .blockSequenceStart
  dropCandidate
  allowKey true
  take 1 .blockEntry

/-- A question mark in front of a key. -/
def explicitKey : LayoutStep := do
  openBlockHere .blockMappingStart
  dropCandidate
  allowKey !(← get).inFlow
  take 1 .key

/-- A colon in front of a value.  It makes a key of the candidate, if there is
one. -/
def value : LayoutStep := do
  let l ← get
  match l.candidate with
  | some c =>
    let l := (l.insert c.position .key).openBlock c.column c.position .blockMappingStart
    set { l with candidate := none }
    allowKey false
  | none =>
    openBlockHere .blockMappingStart
    allowKey !l.inFlow
  take 1 .value

/-- An anchor or an alias. -/
def anchor (t : List Char → Token) : LayoutStep := do
  noteCandidate
  allowKey false
  let spot := (← get).spot
  let (name, rest) ← readAnchorName (spot.rest.drop 1)
  put (t name) (spot.moveTo rest)

/-- A tag. -/
def tag : LayoutStep := do
  noteCandidate
  allowKey false
  let l ← get
  let (t, rest) ← readTag l.spot.rest
  guard (atGap rest || (l.inFlow && atChar (· == ',') rest))
  put t (l.spot.moveTo rest)

/-- A block scalar. -/
def blockScalar (style : ScalarStyle) : LayoutStep := do
  dropCandidate
  allowKey true
  let l ← get
  let (text, spot) ← readBlockText (style = .folded) l.floor l.spot
  put (.scalar style text) spot

/-- A quoted scalar. -/
def quoted (double : Bool) : LayoutStep := do
  noteCandidate
  allowKey false
  let (text, spot) ← readQuoted double (← get).spot
  put (.scalar .quoted text) spot

/-- A plain scalar.  A key may begin behind it if a line break does. -/
def plain : LayoutStep := do
  noteCandidate
  let l ← get
  guard (startsPlain l.inFlow l.spot.rest)
  let r ← readPlain l.inFlow l.floor l.spot
  allowKey r.broken
  put (.scalar .plain r.text) r.spot

/-- A token that begins with `c`, in front of `rest`. -/
def token (c : Char) (rest : List Char) (flow : Bool) : LayoutStep :=
  match c with
  | '[' => openFlow .flowSequenceStart
  | '\x7b' => openFlow .flowMappingStart
  | ']' => closeFlow .flowSequenceEnd
  | '\x7d' => closeFlow .flowMappingEnd
  | ',' => flowEntry
  | '-' => if atGap rest then blockEntry else plain
  | '?' => if flow || atGap rest then explicitKey else plain
  | ':' => if flow || atGap rest then value else plain
  | '*' => anchor .alias
  | '&' => anchor .anchor
  | '!' => tag
  | '|' => if flow then failure else blockScalar .literal
  | '>' => if flow then failure else blockScalar .folded
  | '\x27' => quoted false
  | '"' => quoted true
  | _ => plain

/-- The next token, or the end: whether there was a token. -/
def next : StateT Layout Option Bool := do
  toToken
  dropStale
  modify fun l => l.closeBlocks (l.spot.column < ·)
  let l ← get
  match l.spot.rest with
  | [] =>
    leaveBlocks
    modify (·.push .streamEnd)
    return false
  | c :: rest =>
    if c = '%' && l.spot.column = 0 then directive
    else if l.spot.atStartMarker then marker .documentStart
    else if l.spot.atEndMarker then marker .documentEnd
    else token c rest l.inFlow
    return true

/-- All tokens.  Each but the end takes a character, so the text, as `ahead`,
outlasts the loop. -/
def all : (ahead : List Char) → LayoutStep
  | [] => do guard !(← next)
  | _ :: ahead => do if ← next then all ahead

end LayoutStep

/-- The tokens of a document, in order. -/
def tokens? (text : String) : Option (List Token) :=
  let cs := text.toList
  if cs.all isPrintable then
    let cs := unifyBreaks cs
    ((LayoutStep.all cs).run (.ofText cs)).map fun r => r.2.tokens.reverse
  else none

end MathScript.Yaml
