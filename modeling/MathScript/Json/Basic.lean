import MathScript.Number.Binary64

/-!
# JSON values

An object keeps its fields in the order of their keys, compared character by
character, and each key once; `ofFields` puts any list of fields into that form,
the last of several fields with one key winning.
-/

namespace MathScript

/-- A number: an integer, or the nearest double to what was written, with its
sign kept apart so that there is a negative zero. -/
inductive JsonNumber where
  | integer (n : Int)
  | double (negative : Bool) (magnitude : Binary64)
deriving DecidableEq, Repr, Inhabited

/-- A JSON value. -/
inductive Json where
  | null
  | bool (b : Bool)
  | number (n : JsonNumber)
  | string (s : String)
  | array (items : List Json)
  | object (fields : List (String × Json))
deriving Repr, Inhabited

namespace Json

/-- Puts a field in its place, over any field with the same key. -/
def insertField (key : String) (value : Json) :
    List (String × Json) → List (String × Json)
  | [] => [(key, value)]
  | (k, v) :: rest =>
    if key = k then (key, value) :: rest
    else if key < k then (key, value) :: (k, v) :: rest
    else (k, v) :: insertField key value rest

/-- The object with these fields. -/
def ofFields (fields : List (String × Json)) : Json :=
  .object (fields.foldl (fun sorted f => insertField f.1 f.2 sorted) [])

/-- The value of a field. -/
def field? (fields : List (String × Json)) (key : String) : Option Json :=
  fields.lookup key

mutual

/-- How many containers nest at most, the value itself included. -/
def nesting : Json → Nat
  | .array items => 1 + itemsNesting items
  | .object fields => 1 + fieldsNesting fields
  | _ => 0
termination_by structural j => j

def itemsNesting : List Json → Nat
  | [] => 0
  | j :: js => max j.nesting (itemsNesting js)
termination_by structural js => js

def fieldsNesting : List (String × Json) → Nat
  | [] => 0
  | f :: fs => max (fieldNesting f) (fieldsNesting fs)
termination_by structural fs => fs

def fieldNesting : String × Json → Nat
  | (_, j) => j.nesting
termination_by structural f => f

end

end Json
end MathScript
