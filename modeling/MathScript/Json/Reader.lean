import MathScript.Json.Numeral
import MathScript.Text.Hex
import MathScript.Text.Reader

/-!
# Reading JSON

Strict JSON and nothing else: white space is space, tab, line feed and carriage
return; strings hold no raw control characters, and surrogates come in pairs;
nothing follows the value.  A reader opens at most `maxContainers` containers
inside one another.
-/

namespace MathScript.Json

open Text (Reader hexValue?)

/-- The most containers that may nest. -/
def maxContainers : Nat := 127

def isSpace (c : Char) : Bool :=
  c == ' ' || c == '\t' || c == '\n' || c == '\r'

def skipSpace (cs : List Char) : List Char :=
  cs.dropWhile isSpace

/-- Four hexadecimal digits. -/
def readUnit : Reader Nat
  | a :: b :: c :: d :: cs => do
    let high := (← hexValue? a) * 16 + (← hexValue? b)
    let low := (← hexValue? c) * 16 + (← hexValue? d)
    return (high * 256 + low, cs)
  | _ => none

/-- The character a letter stands for behind a backslash. -/
def escape? : Char → Option Char
  | '"' => some '"'
  | '\\' => some '\\'
  | '/' => some '/'
  | 'b' => some '\x08'
  | 'f' => some '\x0c'
  | 'n' => some '\n'
  | 'r' => some '\r'
  | 't' => some '\t'
  | _ => none

/-- The character behind `\u`: one unit, or two that are a pair of surrogates. -/
def readCodePoint (cs : List Char) : Option (Char × List Char) := do
  let (high, cs) ← readUnit cs
  if 0xDC00 ≤ high && high ≤ 0xDFFF then none
  else if 0xD800 ≤ high && high ≤ 0xDBFF then
    match cs with
    | '\\' :: 'u' :: cs => do
      let (low, cs) ← readUnit cs
      if 0xDC00 ≤ low && low ≤ 0xDFFF then
        return (Char.ofNat (0x10000 + (high - 0xD800) * 0x400 + (low - 0xDC00)), cs)
      else none
    | _ => none
  else return (Char.ofNat high, cs)

/-- One character of a string. -/
def readChar : Reader Char
  | '\\' :: 'u' :: cs => readCodePoint cs
  | '\\' :: c :: cs => (escape? c).map fun e => (e, cs)
  | '\\' :: [] => none
  | c :: cs => if c.toNat < 0x20 then none else some (c, cs)
  | [] => none

/-- The characters of a string, up to the closing quote.  Each of them takes a
character of the text, so the text itself, as `ahead`, outlasts the loop; so it is
with the loops below. -/
def readChars : (ahead : List Char) → Reader (List Char)
  | [], _ => none
  | _ :: _, '"' :: cs => some ([], cs)
  | _ :: ahead, cs => do
    let (c, cs) ← readChar cs
    let (more, cs) ← readChars ahead cs
    return (c :: more, cs)

/-- The rest of a string behind its opening quote. -/
def readStringRest (cs : List Char) : Option (String × List Char) :=
  (readChars cs cs).map fun r => (String.ofList r.1, r.2)

/-- A number. -/
def readNumber (cs : List Char) : Option (Json × List Char) := do
  let (numeral, cs) ← Numeral.read cs
  return (.number (← numeral.number?), cs)

/-- A value that is no container. -/
def readScalar : Reader Json
  | 'n' :: 'u' :: 'l' :: 'l' :: cs => some (.null, cs)
  | 't' :: 'r' :: 'u' :: 'e' :: cs => some (.bool true, cs)
  | 'f' :: 'a' :: 'l' :: 's' :: 'e' :: cs => some (.bool false, cs)
  | '"' :: cs => (readStringRest cs).map fun r => (.string r.1, r.2)
  | cs => readNumber cs

/-- The items of an array, up to the closing bracket. -/
def readItems (value : Reader Json) : (ahead : List Char) → Reader (List Json)
  | [], _ => none
  | _ :: ahead, cs => do
    let (v, cs) ← value cs
    match skipSpace cs with
    | ',' :: cs => do
      let (more, cs) ← readItems value ahead cs
      return (v :: more, cs)
    | ']' :: cs => return ([v], cs)
    | _ => none

/-- The rest of an array behind its opening bracket. -/
def readArrayRest (value : Reader Json) (cs : List Char) : Option (Json × List Char) :=
  match skipSpace cs with
  | ']' :: cs => some (.array [], cs)
  | cs => (readItems value cs cs).map fun r => (.array r.1, r.2)

/-- One field: a key, a colon and a value. -/
def readField (value : Reader Json) (cs : List Char) :
    Option ((String × Json) × List Char) :=
  match skipSpace cs with
  | '"' :: cs => do
    let (key, cs) ← readStringRest cs
    match skipSpace cs with
    | ':' :: cs => do
      let (v, cs) ← value cs
      return ((key, v), cs)
    | _ => none
  | _ => none

/-- The fields of an object, up to the closing brace. -/
def readFields (value : Reader Json) : (ahead : List Char) → Reader (List (String × Json))
  | [], _ => none
  | _ :: ahead, cs => do
    let (f, cs) ← readField value cs
    match skipSpace cs with
    | ',' :: cs => do
      let (more, cs) ← readFields value ahead cs
      return (f :: more, cs)
    | '\x7d' :: cs => return ([f], cs)
    | _ => none

/-- The rest of an object behind its opening brace. -/
def readObjectRest (value : Reader Json) (cs : List Char) : Option (Json × List Char) :=
  match skipSpace cs with
  | '\x7d' :: cs => some (.ofFields [], cs)
  | cs => (readFields value cs cs).map fun r => (.ofFields r.1, r.2)

/-- A value in which at most `n` containers nest, behind any white space. -/
def readValue : (n : Nat) → Reader Json
  | 0, cs => readScalar (skipSpace cs)
  | n + 1, cs =>
    match skipSpace cs with
    | '[' :: cs => readArrayRest (readValue n) cs
    | '\x7b' :: cs => readObjectRest (readValue n) cs
    | cs => readScalar cs

/-- The value a text holds, if it is JSON. -/
def ofString? (text : String) : Option Json :=
  match readValue maxContainers text.toList with
  | some (v, rest) => if (skipSpace rest).isEmpty then some v else none
  | none => none

end MathScript.Json
