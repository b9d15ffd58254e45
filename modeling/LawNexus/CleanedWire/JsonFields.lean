import LawNexus.Utf8

/-!
# The scan of a line

`JsonFields` of `cleaned_wire`. The cursor is what is left of the bytes, each byte as a character.
-/

namespace LawNexus.CleanedWire

inductive WireErrorKind where
  | unknownKind
deriving DecidableEq, Repr

structure WireError where
  kind : WireErrorKind
  detail : String
deriving DecidableEq, Repr

/-- How a scan ends without a result. -/
inductive Halt where
  | refused (error : WireError)
  | panicked
  | endless
deriving DecidableEq, Repr

abbrev Scan (α : Type) := Except Halt α

def jsonValueError {α : Type} (detail : String) : Scan α := .error (.refused ⟨.unknownKind, detail⟩)

def isJsonWs (byte : Char) : Bool := byte = ' ' || byte = '\t' || byte = '\n' || byte = '\r'

def skipWs (rest : List Char) : List Char := rest.dropWhile isJsonWs

def MAX_JSON_DEPTH : Nat := 64

/-! ## Strings, literals and numbers -/

def isAsciiHexdigit (byte : Char) : Bool :=
  ('0' ≤ byte && byte ≤ '9') || ('a' ≤ byte && byte ≤ 'f') || ('A' ≤ byte && byte ≤ 'F')

def isShortEscape (byte : Char) : Bool :=
  byte = '\x22' || byte = '\x5c' || byte = '/' || byte = 'b' || byte = 'f' || byte = 'n' ||
    byte = 'r' || byte = 't'

/-- Where the loop of a string stands: at a character of it, behind a backslash, or at a digit of
a `\u` escape with `left` more to come. -/
inductive StringState where
  | body
  | escape
  | digit (left : Nat)
deriving DecidableEq, Repr

def StringState.behindDigit : Nat → StringState
  | 0 => .body
  | left + 1 => .digit left

def stringLoop : StringState → List Char → Scan (List Char)
  | .body, [] => jsonValueError "unterminated JSON string"
  | .escape, [] => jsonValueError "unterminated JSON escape"
  | .digit _, [] => jsonValueError "truncated \\u escape"
  | .body, byte :: rest =>
    if byte = '\x22' then .ok rest
    else if byte = '\x5c' then stringLoop .escape rest
    else if byte.toNat < 32 then jsonValueError "unescaped control character in JSON string"
    else stringLoop .body rest
  | .escape, escape :: rest =>
    if isShortEscape escape then stringLoop .body rest
    else if escape = 'u' then stringLoop (.digit 3) rest
    else jsonValueError "invalid JSON string escape"
  | .digit left, digit :: rest =>
    if isAsciiHexdigit digit then stringLoop (.behindDigit left) rest
    else jsonValueError "invalid \\u escape"

def scanJsonString (rest : List Char) : Scan (List Char) := stringLoop .body rest.tail

def scanJsonLiteral (literal rest : List Char) : Scan (List Char) :=
  if rest.take literal.length = literal then .ok (rest.drop literal.length)
  else jsonValueError "invalid JSON literal"

def atDigit (rest : List Char) : Bool := rest.head?.any Char.isDigit

def skipDigits (rest : List Char) : List Char := rest.dropWhile Char.isDigit

def skipOne (bytes rest : List Char) : List Char :=
  if rest.head?.any bytes.contains then rest.tail else rest

def scanInt (rest : List Char) : Scan (List Char) :=
  if !atDigit rest then jsonValueError "invalid JSON number"
  else if rest.head? = some '0' then
    if atDigit rest.tail then jsonValueError "JSON number has a leading zero" else .ok rest.tail
  else .ok (skipDigits rest)

def scanFraction (rest : List Char) : Scan (List Char) :=
  if rest.head? = some '.' then
    if !atDigit rest.tail then jsonValueError "JSON fraction has no digits"
    else .ok (skipDigits rest.tail)
  else .ok rest

def scanExponent (rest : List Char) : Scan (List Char) :=
  if rest.head? = some 'e' ∨ rest.head? = some 'E' then
    let rest := skipOne ['+', '-'] rest.tail
    if !atDigit rest then jsonValueError "JSON exponent has no digits" else .ok (skipDigits rest)
  else .ok rest

def scanJsonNumber (rest : List Char) : Scan (List Char) := do
  let rest ← scanInt (skipOne ['-'] rest)
  let rest ← scanFraction rest
  scanExponent rest

/-! ## Arrays and objects -/

/-- The line that a scan runs over: more turns than a loop can take, and the slice between two
cursors, where there is one. -/
structure Source where
  turns : Nat
  cut : List Char → List Char → Option (List Char)

def Source.slice (source : Source) (start stop : List Char) : Scan (List Char) :=
  match source.cut start stop with
  | some part => .ok part
  | none => .error .panicked

/-- `raw`, with its slices `&raw[start..stop]` by offsets in bytes. -/
def Source.ofRaw (raw : List Char) : Source where
  turns := Utf8.byteLen raw + 1
  cut start stop :=
    Utf8.slice raw (Utf8.byteLen raw - start.length) (Utf8.byteLen raw - stop.length)

/-- A key, and what is left behind its closing quote. -/
def scanKey (source : Source) (start : List Char) : Scan (List Char × List Char) := do
  let stop ← scanJsonString start
  let key ← source.slice start.tail ('\x22' :: stop)
  .ok (key, stop)

def arrayLoop (scan : List Char → Scan (List Char)) : Nat → List Char → Scan (List Char)
  | 0, _ => .error .endless
  | turns + 1, rest => do
    let rest ← scan rest
    let rest := skipWs rest
    if rest.head? = some ',' then
      let rest := skipWs rest.tail
      if rest.head? = some ']' then jsonValueError "trailing comma in JSON array"
      else arrayLoop scan turns rest
    else if rest.head? = some ']' then .ok rest.tail
    else jsonValueError "malformed JSON array separator"

/-- `scan` scans the values one level below. -/
def scanJsonArray (source : Source) (scan : List Char → Scan (List Char)) (rest : List Char) :
    Scan (List Char) :=
  let rest := skipWs rest.tail
  if rest.head? = some ']' then .ok rest.tail else arrayLoop scan source.turns rest

def objectLoop (source : Source) (scan : List Char → Scan (List Char)) :
    Nat → List (List Char) → List Char → Scan (List Char)
  | 0, _, _ => .error .endless
  | turns + 1, keys, rest =>
    let start := skipWs rest
    if start.head? ≠ some '\x22' then jsonValueError "object key is not a JSON string"
    else do
      let (key, stop) ← scanKey source start
      if key ∈ keys then jsonValueError "duplicate object key"
      else
        let rest := skipWs stop
        if rest.head? ≠ some ':' then jsonValueError "object member has no colon"
        else
          let rest ← scan rest.tail
          let rest := skipWs rest
          if rest.head? = some ',' then
            let rest := skipWs rest.tail
            if rest.head? = some '\x7d' then jsonValueError "trailing comma in JSON object"
            else objectLoop source scan turns (keys ++ [key]) rest
          else if rest.head? = some '\x7d' then .ok rest.tail
          else jsonValueError "malformed JSON object separator"

def scanJsonObject (source : Source) (scan : List Char → Scan (List Char)) (rest : List Char) :
    Scan (List Char) :=
  let rest := skipWs rest.tail
  if rest.head? = some '\x7d' then .ok rest.tail else objectLoop source scan source.turns [] rest

/-- A value at depth `MAX_JSON_DEPTH + 1 - levels`. -/
def scanValue (source : Source) : Nat → List Char → Scan (List Char)
  | 0, _ => jsonValueError "JSON nesting exceeds the supported depth"
  | levels + 1, rest =>
    let rest := skipWs rest
    match rest.head? with
    | none => jsonValueError "missing JSON value"
    | some byte =>
      if byte = '\x22' then scanJsonString rest
      else if byte = '\x7b' then scanJsonObject source (scanValue source levels) rest
      else if byte = '[' then scanJsonArray source (scanValue source levels) rest
      else if byte = 't' then scanJsonLiteral ['t', 'r', 'u', 'e'] rest
      else if byte = 'f' then scanJsonLiteral ['f', 'a', 'l', 's', 'e'] rest
      else if byte = 'n' then scanJsonLiteral ['n', 'u', 'l', 'l'] rest
      else if byte = '-' ∨ byte.isDigit then scanJsonNumber rest
      else jsonValueError "unrecognized JSON value"

/-! ## The fields of a line -/

structure JsonFields where
  entries : List (List Char × List Char)
deriving DecidableEq, Repr

def fieldsLoop (source : Source) : Nat → List (List Char × List Char) → List Char →
    Scan (List (List Char × List Char) × List Char)
  | 0, _, _ => .error .endless
  | turns + 1, entries, rest =>
    let start := skipWs rest
    match start.head? with
    | none => jsonValueError "unterminated JSON object"
    | some byte =>
      if byte = '\x7d' then .ok (entries, start.tail)
      else if byte ≠ '\x22' then jsonValueError "object key is not a JSON string"
      else do
        let (key, stop) ← scanKey source start
        let rest := skipWs stop
        if rest.head? ≠ some ':' then jsonValueError "object member has no colon"
        else
          let valueStart := skipWs rest.tail
          let rest ← scanValue source (MAX_JSON_DEPTH + 1) valueStart
          let value ← source.slice valueStart rest
          if entries.any (·.1 = key) then
            jsonValueError ("duplicate object key " ++ String.ofList key)
          else
            let entries := entries ++ [(key, value)]
            let rest := skipWs rest
            match rest.head? with
            | none => jsonValueError "unterminated JSON object"
            | some byte =>
              if byte = ',' then fieldsLoop source turns entries rest.tail
              else if byte = '\x7d' then .ok (entries, rest.tail)
              else jsonValueError "malformed object separator"

/-- The scan of a line from its first byte. -/
def parseFrom (source : Source) (bytes : List Char) : Scan JsonFields := do
  let rest := skipWs bytes
  if rest.head? ≠ some '\x7b' then jsonValueError "line is not a JSON object"
  else
    let (entries, rest) ← fieldsLoop source source.turns [] rest.tail
    if skipWs rest ≠ [] then jsonValueError "trailing bytes after the JSON object"
    else .ok ⟨entries⟩

def JsonFields.parse (raw : List Char) : Scan JsonFields :=
  parseFrom (.ofRaw raw) (Utf8.byteChars raw)

end LawNexus.CleanedWire
