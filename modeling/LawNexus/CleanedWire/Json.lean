import LawNexus.CleanedWire.Exact
import LawNexus.SourcePackage.Wire

/-!
# Rendered values

The canonical compact writer of `cleaned_wire`, and its decoder of string literals.
-/

namespace LawNexus.CleanedWire

open JsonText Loops
open SourcePackage (hexDigit)

/-! ## The writer -/

/-- `Json`, with its two kinds of number as one. -/
inductive Json where
  | null
  | bool (flag : Bool)
  | number (number : Nat)
  | str (text : List Char)
  | arr (items : List Json)
  | obj (entries : List (String × Json))

/-- `{:04x}` -/
def hex4 (n : Nat) : List Char := [n / 4096 % 16, n / 256 % 16, n / 16 % 16, n % 16].map hexDigit

def escape (ch : Char) : List Char :=
  if ch = '\x22' then ['\x5c', '\x22']
  else if ch = '\x5c' then ['\x5c', '\x5c']
  else if ch = '\x08' then ['\x5c', 'b']
  else if ch = '\x0c' then ['\x5c', 'f']
  else if ch = '\n' then ['\x5c', 'n']
  else if ch = '\r' then ['\x5c', 'r']
  else if ch = '\t' then ['\x5c', 't']
  else if ch.toNat < 32 then '\x5c' :: 'u' :: hex4 ch.toNat
  else [ch]

def escaped (text : List Char) : List Char := text.flatMap escape

def writeJsonString (text : List Char) : List Char := '\x22' :: (escaped text ++ ['\x22'])

def entryText (entry : String × List Char) : List Char :=
  writeJsonString entry.1.toList ++ ':' :: entry.2

mutual

def renderCompact : Json → List Char
  | .null => ['n', 'u', 'l', 'l']
  | .bool flag => if flag then ['t', 'r', 'u', 'e'] else ['f', 'a', 'l', 's', 'e']
  | .number number => Nat.toDigits 10 number
  | .str text => writeJsonString text
  | .arr items => '[' :: (separated (renderItems items) ++ [']'])
  | .obj entries =>
    '\x7b' :: (separated ((sortBy (·.1) (renderEntries entries)).map entryText) ++ ['\x7d'])

def renderItems : List Json → List (List Char)
  | [] => []
  | item :: items => renderCompact item :: renderItems items

/-- The sort by keys comes behind: it looks at no value. -/
def renderEntries : List (String × Json) → List (String × List Char)
  | [] => []
  | (key, value) :: entries => (key, renderCompact value) :: renderEntries entries

end

/-! ## The decoder -/

def shortEscape (ch : Char) : Option Char :=
  if ch = '\x22' then some '\x22'
  else if ch = '\x5c' then some '\x5c'
  else if ch = '/' then some '/'
  else if ch = 'b' then some '\x08'
  else if ch = 'f' then some '\x0c'
  else if ch = 'n' then some '\n'
  else if ch = 'r' then some '\r'
  else if ch = 't' then some '\t'
  else none

/-- `to_digit(16)` -/
def toDigit16 (ch : Char) : Option Nat :=
  if '0' ≤ ch ∧ ch ≤ '9' then some (ch.toNat - 48)
  else if 'a' ≤ ch ∧ ch ≤ 'f' then some (ch.toNat - 87)
  else if 'A' ≤ ch ∧ ch ≤ 'F' then some (ch.toNat - 55)
  else none

/-- `char::from_u32` -/
def fromU32 (code : Nat) : Option Char :=
  if code.isValidChar then some (Char.ofNat code) else none

def unicodeEscape (digits : List Char) : Option Char :=
  (digits.foldlM (fun code digit => (toDigit16 digit).map (code * 16 + ·)) 0).bind fromU32

def unescapeLoop : List Char → Option (List Char)
  | [] => some []
  | ch :: rest =>
    if ch ≠ '\x5c' then (unescapeLoop rest).map (ch :: ·)
    else
      match rest with
      | [] => none
      | ch :: rest =>
        if ch = 'u' then
          match rest with
          | a :: b :: c :: d :: rest =>
            (unicodeEscape [a, b, c, d]).bind fun ch => (unescapeLoop rest).map (ch :: ·)
          | _ => none
        else (shortEscape ch).bind fun ch => (unescapeLoop rest).map (ch :: ·)

def unescapeJsonString (raw : List Char) : Option (List Char) :=
  if raw.head? = some '\x22' ∧ raw.tail.getLast? = some '\x22' then unescapeLoop raw.tail.dropLast
  else none

end LawNexus.CleanedWire
