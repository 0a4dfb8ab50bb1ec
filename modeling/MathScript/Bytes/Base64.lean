import MathScript.Bytes.Basic

/-!
# Base64

The standard alphabet with padding.  Each byte string has one form: padding has
to be written, and the bits that a last symbol has left over have to be zero.
-/

namespace MathScript

/-- Why a text is not base64.  Symbols are named by their bytes and places by
their offsets. -/
inductive Base64Error where
  | symbol (byte : UInt8) (offset : Nat)
  | length (n : Nat)
  | padding
  | lastSymbol (byte : UInt8) (offset : Nat)
deriving DecidableEq, Repr, Inhabited

def Base64Error.message : Base64Error → String
  | symbol byte offset =>
    "Invalid symbol " ++ toString byte.toNat ++ ", offset " ++ toString offset ++ "."
  | length n => "Invalid input length: " ++ toString n
  | padding => "Invalid padding"
  | lastSymbol byte offset =>
    "Invalid last symbol " ++ toString byte.toNat ++ ", offset " ++ toString offset ++ "."

namespace Base64

/-- The symbol for six bits. -/
def symbol (n : Nat) : Char :=
  if n < 26 then Char.ofNat ('A'.toNat + n)
  else if n < 52 then Char.ofNat ('a'.toNat + (n - 26))
  else if n < 62 then Char.ofNat ('0'.toNat + (n - 52))
  else if n = 62 then '+'
  else '/'

/-- The six bits a symbol stands for. -/
def value? (byte : UInt8) : Option Nat :=
  let n := byte.toNat
  if 65 ≤ n && n ≤ 90 then some (n - 65)
  else if 97 ≤ n && n ≤ 122 then some (n - 97 + 26)
  else if 48 ≤ n && n ≤ 57 then some (n - 48 + 52)
  else if n = 43 then some 62
  else if n = 47 then some 63
  else none

/-- The byte of the padding character. -/
def padByte : UInt8 := 61

/-- The symbols for some bytes. -/
def encodeChars : Bytes → List Char
  | [] => []
  | [a] => [symbol (a.toNat / 4), symbol (a.toNat % 4 * 16), '=', '=']
  | [a, b] =>
    [symbol (a.toNat / 4), symbol (a.toNat % 4 * 16 + b.toNat / 16),
      symbol (b.toNat % 16 * 4), '=']
  | a :: b :: c :: rest =>
    symbol (a.toNat / 4) :: symbol (a.toNat % 4 * 16 + b.toNat / 16) ::
      symbol (b.toNat % 16 * 4 + c.toNat / 64) :: symbol (c.toNat % 64) :: encodeChars rest

/-- The base64 text of some bytes. -/
def encode (bs : Bytes) : String :=
  String.ofList (encodeChars bs)

/-- The bits of the symbol at `offset`. -/
def valueAt (byte : UInt8) (offset : Nat) : Except Base64Error Nat :=
  match value? byte with
  | some v => .ok v
  | none => .error (.symbol byte offset)

/-- The three bytes of four symbols. -/
def threeBytes (v w x y : Nat) : Bytes :=
  [UInt8.ofNat (v * 4 + w / 16), UInt8.ofNat (w % 16 * 16 + x / 4), UInt8.ofNat (x % 4 * 64 + y)]

/-- The symbols of the last group, each with its offset, and the number of
padding characters behind them.  Padding stands third or fourth, and nothing but
padding follows it. -/
def lastSymbols (start : Nat) : (position : Nat) → Bytes →
    Except Base64Error (List (UInt8 × Nat) × Nat)
  | _, [] => .ok ([], 0)
  | position, b :: bs =>
    if b = padByte then
      if position < 2 then .error (.symbol padByte (start + position))
      else if bs.all (· == padByte) then .ok ([], 1 + bs.length)
      else .error (.symbol padByte (start + position))
    else
      match value? b with
      | none => .error (.symbol b (start + position))
      | some _ => do
        let (symbols, pads) ← lastSymbols start (position + 1) bs
        return ((b, start + position) :: symbols, pads)

/-- The bytes of the last group, which starts at offset `start`. -/
def decodeLast (start : Nat) (group : Bytes) : Except Base64Error Bytes := do
  let (symbols, pads) ← lastSymbols start 0 group
  if symbols.length < 2 then throw (.length (start + symbols.length))
  if symbols.length + pads ≠ 4 then throw .padding
  match symbols.map fun s => ((value? s.1).getD 0, s) with
  | [(v, _), (w, last)] =>
    if w % 16 ≠ 0 then throw (.lastSymbol last.1 last.2)
    return [UInt8.ofNat (v * 4 + w / 16)]
  | [(v, _), (w, _), (x, last)] =>
    if x % 4 ≠ 0 then throw (.lastSymbol last.1 last.2)
    return [UInt8.ofNat (v * 4 + w / 16), UInt8.ofNat (w % 16 * 16 + x / 4)]
  | [(v, _), (w, _), (x, _), (y, _)] => return threeBytes v w x y
  | _ => throw .padding

/-- The bytes of groups of four symbols, the first at offset `start`. -/
def decodeGroups (start : Nat) : Bytes → Except Base64Error Bytes
  | [] => .ok []
  | a :: b :: c :: d :: e :: rest => do
    let v ← valueAt a start
    let w ← valueAt b (start + 1)
    let x ← valueAt c (start + 2)
    let y ← valueAt d (start + 3)
    return threeBytes v w x y ++ (← decodeGroups (start + 4) (e :: rest))
  | group => decodeLast start group

/-- The byte of a group by itself, if it is no symbol and no padding. -/
def strayByte? (bs : Bytes) : Option UInt8 :=
  if bs.length % 4 = 1 then
    bs.getLast?.filter fun b => b != padByte && (value? b).isNone
  else none

/-- Reads base64.  A byte that stands alone in the last group and is no symbol
is reported before anything else. -/
def decode (bs : Bytes) : Except Base64Error Bytes :=
  match strayByte? bs with
  | some b => .error (.symbol b (bs.length - 1))
  | none => decodeGroups 0 bs

end Base64
end MathScript
