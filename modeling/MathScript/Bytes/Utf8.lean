import MathScript.Bytes.Basic

/-!
# Reading UTF-8

A byte string is the UTF-8 form of at most one text.  Where it is of none, the
error tells how many bytes in front are in order, and how many of the next ones
could still begin a character, or that the string ends inside one.
-/

namespace MathScript

/-- Where a byte string stops being UTF-8. -/
structure Utf8Error where
  /-- The length of the longest part in front that is UTF-8. -/
  index : Nat
  /-- How many bytes from there are in error; `none` if the string ends inside a
  character. -/
  length? : Option Nat
deriving DecidableEq, Repr, Inhabited

def Utf8Error.message (e : Utf8Error) : String :=
  match e.length? with
  | some n => "invalid utf-8 sequence of " ++ toString n ++ " bytes from index " ++
      toString e.index
  | none => "incomplete utf-8 byte sequence from index " ++ toString e.index

namespace Utf8

/-- The ranges, ends included, of the bytes behind the first byte of a
character. -/
def tails? (first : UInt8) : Option (List (UInt8 × UInt8)) :=
  if first ≤ 0x7F then some []
  else if 0xC2 ≤ first && first ≤ 0xDF then some [(0x80, 0xBF)]
  else if first == 0xE0 then some [(0xA0, 0xBF), (0x80, 0xBF)]
  else if first == 0xED then some [(0x80, 0x9F), (0x80, 0xBF)]
  else if 0xE1 ≤ first && first ≤ 0xEF then some [(0x80, 0xBF), (0x80, 0xBF)]
  else if first == 0xF0 then some [(0x90, 0xBF), (0x80, 0xBF), (0x80, 0xBF)]
  else if 0xF1 ≤ first && first ≤ 0xF3 then some [(0x80, 0xBF), (0x80, 0xBF), (0x80, 0xBF)]
  else if first == 0xF4 then some [(0x80, 0x8F), (0x80, 0xBF), (0x80, 0xBF)]
  else none

/-- How the bytes behind a first byte meet its ranges. -/
inductive Match where
  | whole
  /-- This many of them are in order, and the next is not. -/
  | broken (good : Nat)
  /-- The string ends first. -/
  | cut

/-- Compares bytes with ranges, after `good` that were in order. -/
def meet (good : Nat) : List (UInt8 × UInt8) → Bytes → Match
  | [], _ => .whole
  | _ :: _, [] => .cut
  | r :: rs, b :: bs => if r.1 ≤ b && b ≤ r.2 then meet (good + 1) rs bs else .broken good

/-- The first error from `index` on, after `pending` bytes of a character that
is in order. -/
def errorFrom (index : Nat) : (pending : Nat) → Bytes → Utf8Error
  | _, [] => ⟨index, none⟩
  | pending + 1, _ :: bs => errorFrom (index + 1) pending bs
  | 0, b :: bs =>
    match tails? b with
    | none => ⟨index, some 1⟩
    | some ranges =>
      match meet 1 ranges bs with
      | .whole => errorFrom (index + 1) ranges.length bs
      | .broken good => ⟨index, some good⟩
      | .cut => ⟨index, none⟩

/-- The text a byte string is the UTF-8 form of. -/
def decode (bs : Bytes) : Except Utf8Error String :=
  match String.fromUTF8? ⟨bs.toArray⟩ with
  | some s => .ok s
  | none => .error (errorFrom 0 0 bs)

end Utf8
end MathScript
