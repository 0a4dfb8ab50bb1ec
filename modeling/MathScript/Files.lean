import MathScript.Artifact

/-!
# Files

Compiling from files and to files.  Files are read and written as a whole.  A folder
knows what the file at each place holds, and which place a path leads to, if a file
can stand there: paths may name several folders, start anywhere, and meet at one file.
What paths lead to does not change by reading and writing files.

An action that fails leaves the folder as it found it: the one write of an action
is the last thing it does.
-/

namespace MathScript

/-- Files, as they are seen from where paths start. -/
structure Folder where
  /-- The place that a path leads to. -/
  locate? : String → Option String
  /-- What the file at a place holds. -/
  contents? : String → Option Bytes

namespace Folder

/-- The most bytes in the name of a file, and in a path. -/
def maxNameSize : Nat := 255
def maxPathSize : Nat := 4095

/-- Whether a text can be the name of a file. -/
def isName (cs : List Char) : Bool :=
  !cs.isEmpty && cs != ['.'] && cs != ['.', '.'] && !cs.contains '\x00' &&
    (String.ofList cs).utf8ByteSize ≤ maxNameSize

/-- What stands between the slashes of a path. -/
def segments : List Char → List (List Char)
  | [] => [[]]
  | c :: cs =>
    match segments cs with
    | [] => [[c]]
    | first :: more => if c = '/' then [] :: first :: more else (c :: first) :: more

/-- Where a path leads in a folder that has no folders in it, if no path leads out of it.
In front of a name a dot leads to the folder itself, and slashes in a row count as one;
behind the name nothing may stand. -/
def locateInside? (path : String) : Option String :=
  let cs := path.toList
  if cs.head? = some '/' || path.utf8ByteSize > maxPathSize then none
  else
    match (segments cs).dropWhile fun segment => segment.isEmpty || segment = ['.'] with
    | [name] => if isName name then some (String.ofList name) else none
    | _ => none

/-- A folder with nothing in it, which no path leads out of. -/
def empty : Folder := ⟨locateInside?, fun _ => none⟩

/-- Puts contents at a place, over any that are there. -/
def put (folder : Folder) (place : String) (bytes : Bytes) : Folder :=
  { folder with contents? := fun p => if p = place then some bytes else folder.contents? p }

end Folder

/-- What can go wrong with files.  Where the fault lies with a compilation, the
path is that of the file that was compiled or opened, if there was one. -/
inductive FileError where
  | readSource (path : String)
  | readArtifact (path : String)
  | write (path : String)
  | build (path : Option String) (cause : CompileError)
  | unpack (path : Option String) (cause : CompileError)
deriving DecidableEq, Repr, Inhabited

namespace FileError

/-- The outermost text of an error. -/
def message : FileError → String
  | readSource path => "Failed to read source " ++ path
  | readArtifact path => "Failed to read artifact " ++ path
  | write path => "Failed to write " ++ path
  | build (some path) _ => "Failed to compile " ++ path
  | unpack (some path) _ => "Failed to decompile " ++ path
  | build none cause | unpack none cause => cause.message

/-- The compile error underneath, if there is one. -/
def cause? : FileError → Option CompileError
  | build _ cause | unpack _ cause => some cause
  | _ => none

end FileError

/-- What is done in a folder: it fails or gives a result, and in both cases
leaves a folder behind. -/
abbrev FileAction (α : Type) := ExceptT FileError (StateM Folder) α

namespace Folder

/-- Reads a file. -/
def read (path : String) (failure : FileError) : FileAction Bytes := do
  let folder ← get
  match (folder.locate? path).bind folder.contents? with
  | some bytes => return bytes
  | none => throw failure

/-- Reads a file that holds text. -/
def readText (path : String) (failure : FileError) : FileAction String := do
  match Utf8.decode (← read path failure) with
  | .ok text => return text
  | .error _ => throw failure

/-- Writes a file. -/
def write (path : String) (bytes : Bytes) : FileAction Unit := do
  match (← get).locate? path with
  | some place => modify fun folder => folder.put place bytes
  | none => throw (.write path)

end Folder

namespace Compiler

/-- Takes the result of a compilation over into an action. -/
def liftError {α : Type} (wrapped : CompileError → FileError) :
    Except CompileError α → FileAction α
  | .ok a => return a
  | .error e => throw (wrapped e)

/-- Compiles a source text. -/
def buildText (c : Compiler) (source : String) : FileAction Bytes :=
  liftError (.build none) (c.compile source)

/-- Compiles a source text into a file. -/
def buildTextInto (c : Compiler) (source target : String) : FileAction Unit := do
  Folder.write target (← c.buildText source)

/-- Compiles a file. -/
def buildFile (c : Compiler) (path : String) : FileAction Bytes := do
  let source ← Folder.readText path (.readSource path)
  liftError (.build (some path)) (c.compile source)

/-- Compiles a file into a file. -/
def buildFileInto (c : Compiler) (path target : String) : FileAction Unit := do
  Folder.write target (← c.buildFile path)

/-- Opens an artifact. -/
def openBytes (c : Compiler) (artifact : Bytes) (lenient : Bool) :
    FileAction Executable := do
  return (← liftError (.unpack none) (c.unpack artifact lenient)).executable

/-- Opens an artifact and writes its code into a file. -/
def openBytesInto (c : Compiler) (artifact : Bytes) (target : String)
    (lenient : Bool) : FileAction Unit := do
  Folder.write target (Bytes.ofString (← c.openBytes artifact lenient).code)

/-- Opens an artifact file. -/
def openFile (c : Compiler) (path : String) (lenient : Bool) :
    FileAction Executable := do
  let artifact ← Folder.read path (.readArtifact path)
  return (← liftError (.unpack (some path)) (c.unpack artifact lenient)).executable

/-- Opens an artifact file and writes its code into a file. -/
def openFileInto (c : Compiler) (path target : String) (lenient : Bool) :
    FileAction Unit := do
  Folder.write target (Bytes.ofString (← c.openFile path lenient).code)

end Compiler
end MathScript
