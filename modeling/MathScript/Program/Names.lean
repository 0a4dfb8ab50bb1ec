import MathScript.Program.Basic

/-!
# Name tables

The declared names of a program in order of declaration.  A name's place in the
table is its slot, and slots never change: declaring a name that is there
already leaves the table alone, declaring a new one appends it.  Slot 0 of a
fresh table is the free variable.
-/

namespace MathScript

/-- The variable every program starts with. -/
def freeVariable : String := "x"

/-- Names in the order of their slots. -/
structure NameTable where
  names : List String
deriving DecidableEq, Repr

/-- What the generated code calls the name in a slot. -/
def slotName (slot : Nat) : String :=
  "_" ++ toString slot

namespace NameTable

/-- The table that holds the free variable alone. -/
def fresh : NameTable := ⟨[freeVariable]⟩

instance : Inhabited NameTable := ⟨fresh⟩

def size (t : NameTable) : Nat := t.names.length

def isEmpty (t : NameTable) : Bool := t.names.isEmpty

/-- The place of a name. -/
def slot? (t : NameTable) (name : String) : Option Nat :=
  t.names.idxOf? name

def contains (t : NameTable) (name : String) : Bool :=
  t.names.contains name

/-- Adds a name unless it is there. -/
def declare (t : NameTable) (name : String) : NameTable :=
  if t.contains name then t else ⟨t.names ++ [name]⟩

/-- The slot a name has once it is declared. -/
def declareSlot (t : NameTable) (name : String) : Nat :=
  (t.slot? name).getD t.size

/-- What the generated code calls a declared name. -/
def codeName? (t : NameTable) (name : String) : Option String :=
  (t.slot? name).map slotName

/-- What the generated code calls the names, in slot order. -/
def codeNames (t : NameTable) : List String :=
  (List.range t.size).map slotName

end NameTable
end MathScript
