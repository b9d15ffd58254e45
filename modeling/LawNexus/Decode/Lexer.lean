import LawNexus.Loops
import LawNexus.Texts
import LawNexus.Utf8

/-!
# The lexer

`lex` of `ln-decode`, over byte offsets as the source has them. A slice off a char boundary and
an empty span are panics. The tables behind `char::is_alphabetic` and `char::to_lowercase` are
parameters.
-/

namespace LawNexus.Decode

open Utf8

/-- What ends the process instead of a value. -/
inductive Panic where
  | charBoundary
  | emptySpan
  | outOfBounds
  | unwrap
deriving DecidableEq, Repr

inductive TokenKind where
  | Word
  | Abbrev
  | HierNum
  | Date
  | DocNo
  | EnumMarker
  | LawCode
  | Punct
  | Space
deriving DecidableEq, Repr

def TokenKind.asStr : TokenKind → String
  | .Word => "Word"
  | .Abbrev => "Abbrev"
  | .HierNum => "HierNum"
  | .Date => "Date"
  | .DocNo => "DocNo"
  | .EnumMarker => "EnumMarker"
  | .LawCode => "LawCode"
  | .Punct => "Punct"
  | .Space => "Space"

/-- A half-open range of bytes: `try_new` refuses an empty one. -/
structure TextSpan where
  start : Nat
  stop : Nat
  nonempty : start < stop
deriving DecidableEq, Repr

/-- The canonical ids of the abbreviation lexicon. -/
def NPA_ABBREV_IDS : List String :=
  ["st", "stst", "ch", "p", "pp", "podp", "abz", "gl", "razd", "pril", "prim", "red", "izm",
    "utv", "sm", "sr", "g"]

structure AbbrevId where
  asStr : String
  canonical : asStr ∈ NPA_ABBREV_IDS
deriving DecidableEq, Repr

structure NpaToken where
  kind : TokenKind
  span : TextSpan
  abbrevId : Option AbbrevId
deriving DecidableEq, Repr

/-- An entry that the lexicon's parser accepts. -/
structure AbbrevEntry where
  id : AbbrevId
  lexeme : List Char
  nonempty : lexeme ≠ []

/-- The Unicode tables of the standard library, for a character and for a text. -/
structure CharTables where
  isAlphabetic : Char → Bool
  toLowercase : Char → List Char
  strToLowercase : List Char → List Char

/-- What the scanners read besides the text: the tables and the parsed lexicon. -/
structure Lexicon where
  tables : CharTables
  parsed : List AbbrevEntry

/-- Longest first, the order of the catalog among entries of one length. -/
def Lexicon.abbrevLexicon (lexicon : Lexicon) : List AbbrevEntry :=
  Loops.sortBy (fun entry => OrderDual.toDual (byteLen entry.lexeme)) lexicon.parsed

/-! ## Slices -/

def orPanic {α : Type} : Option α → Except Panic α
  | some a => .ok a
  | none => .error .charBoundary

@[simp] theorem orPanic_some {α : Type} (a : α) : orPanic (some a) = .ok a := rfl

def NpaToken.lexeme (src : List Char) (token : NpaToken) : Except Panic (List Char) :=
  orPanic (slice src token.span.start token.span.stop)

/-! ## Scanners -/

def isAsciiDigit (b : UInt8) : Bool := 48 ≤ b.toNat && b.toNat ≤ 57

/-- The end of the run of digits. -/
def skipDigits (src : List UInt8) (pos : Nat) : Nat :=
  pos + ((src.drop pos).takeWhile isAsciiDigit).length

def scanWhile (src : List Char) (start : Nat) (pred : Char → Bool) : Except Panic Nat := do
  let rest ← orPanic (sliceFrom src start)
  .ok (start + byteLen (rest.takeWhile pred))

def foldEq (tables : CharTables) (a b : Char) : Bool :=
  tables.toLowercase a = tables.toLowercase b

/-- The characters of a lexeme fold one by one onto those of the text. -/
def foldMatches (tables : CharTables) : List Char → List Char → Bool
  | [], [] => true
  | c :: text, l :: lexeme => foldEq tables c l && foldMatches tables text lexeme
  | _, _ => false

def lexemeMatches (tables : CharTables) (src : List Char) (start : Nat) (lexeme : List Char) :
    Except Panic Bool := do
  if (lexeme.filter tables.isAlphabetic).length < 2 then
    let rest ← orPanic (sliceFrom src start)
    .ok (lexeme.isPrefixOf rest)
  else
    let stop := start + byteLen lexeme
    if stop > byteLen src || !isCharBoundary src stop then .ok false
    else
      let text ← orPanic (slice src start stop)
      .ok (foldMatches tables text lexeme)

/-- The first entry of the lexicon that matches. -/
def findAbbrev (tables : CharTables) (src : List Char) (start : Nat) :
    List AbbrevEntry → Except Panic (Option (Nat × AbbrevId))
  | [] => .ok none
  | entry :: rest => do
    if ← lexemeMatches tables src start entry.lexeme then
      .ok (some (start + byteLen entry.lexeme, entry.id))
    else findAbbrev tables src start rest

def scanAbbrev (lexicon : Lexicon) (src : List Char) (start : Nat) :
    Except Panic (Option (Nat × AbbrevId)) := do
  let before ← orPanic (sliceTo src start)
  if before.getLast?.any lexicon.tables.isAlphabetic then .ok none
  else findAbbrev lexicon.tables src start lexicon.abbrevLexicon

def scanDate (src : List Char) (start : Nat) : Option Nat :=
  let stop := start + 10
  let digit (k : Nat) : Bool := (bytes src)[start + k]?.any isAsciiDigit
  let dot (k : Nat) : Bool := (bytes src)[start + k]? = some 46
  let value (k : Nat) : Nat := ((bytes src).getD (start + k) 48).toNat - 48
  if stop > (bytes src).length then none
  else if !(digit 0 && digit 1 && dot 2 && digit 3 && digit 4 && dot 5 && digit 6 && digit 7 &&
      digit 8 && digit 9) then none
  else
    let day := value 0 * 10 + value 1
    let month := value 3 * 10 + value 4
    if 1 ≤ day && day ≤ 31 && 1 ≤ month && month ≤ 12 then some stop else none

theorem le_skipDigits (src : List UInt8) (pos : Nat) : pos ≤ skipDigits src pos :=
  Nat.le_add_right _ _

/-- The loop over the dotted groups: a dot counts with a digit after it. -/
def scanHierGroups (src : List UInt8) (pos : Nat) (stop : Option Nat) : Option Nat :=
  if src[pos]? = some 46 then
    if h : src[pos + 1]?.any isAsciiDigit then
      let next := skipDigits src (pos + 2)
      scanHierGroups src next (some next)
    else stop
  else stop
termination_by src.length - pos
decreasing_by
  have hlt : pos + 1 < src.length := by
    by_contra hge
    rw [List.getElem?_eq_none (Nat.le_of_not_lt hge)] at h
    exact nomatch h
  have := le_skipDigits src (pos + 2)
  omega

def scanHierNum (src : List Char) (start : Nat) : Option Nat :=
  let pos := skipDigits (bytes src) start
  if pos = start then none else scanHierGroups (bytes src) pos none

/-- The first suffix that ends the alphabetic run. -/
def findSuffix (tables : CharTables) (src : List Char) (afterHyphen : Nat) :
    List (List Char) → Except Panic (Option Nat)
  | [] => .ok none
  | suffix :: rest => do
    let stop := afterHyphen + byteLen suffix
    let text ← orPanic (sliceFrom src afterHyphen)
    if suffix.isPrefixOf text then
      let next ← orPanic (sliceFrom src stop)
      if next.head?.any tables.isAlphabetic then findSuffix tables src afterHyphen rest
      else .ok (some stop)
    else findSuffix tables src afterHyphen rest

def scanDocNo (tables : CharTables) (src : List Char) (start : Nat) :
    Except Panic (Option Nat) :=
  let pos := skipDigits (bytes src) start
  if pos = start || (bytes src)[pos]? ≠ some 45 then .ok none
  else findSuffix tables src (pos + 1) [['Ф', 'З'], ['Ф', 'К', 'З']]

def scanEnumMarkerDigits (src : List Char) (start : Nat) : Option Nat :=
  if start ≠ 0 then none
  else
    let pos := skipDigits (bytes src) start
    if pos = start then none
    else if (bytes src)[pos]? = some 46 || (bytes src)[pos]? = some 41 then some (pos + 1)
    else none

def isLowerCyrillic (c : Char) : Bool := ('а' ≤ c && c ≤ 'я') || c == 'ё'

def scanEnumMarkerLetter (src : List Char) (start : Nat) : Option Nat :=
  if start ≠ 0 then none
  else
    match src with
    | [] => none
    | letter :: _ =>
      if !isLowerCyrillic letter then none
      else
        let afterLetter := start + letter.utf8Size
        if (bytes src)[afterLetter]? = some 41 then some (afterLetter + 1) else none

def isLawCode (run : List Char) : Bool := run = ['Ф', 'З'] || run = ['Ф', 'К', 'З']

def quotedEnumLetterEnd (src : List Char) (start : Nat) : Except Panic (Option Nat) :=
  if (bytes src)[start]? ≠ some 34 then .ok none
  else do
    let rest ← orPanic (sliceFrom src (start + 1))
    match rest with
    | [] => .ok none
    | letter :: _ =>
      if !isLowerCyrillic letter then .ok none
      else
        let afterLetter := start + 1 + letter.utf8Size
        .ok (if (bytes src)[afterLetter]? = some 34 then some afterLetter else none)

/-! ## The loop -/

/-- What a turn of the loop finds: the kind, the abbreviation and the end. -/
abbrev Found := TokenKind × Option AbbrevId × Nat

def scanAlphabetic (lexicon : Lexicon) (src : List Char) (pos : Nat) : Except Panic Found := do
  match ← scanAbbrev lexicon src pos with
  | some (stop, id) => .ok (.Abbrev, some id, stop)
  | none =>
    match scanEnumMarkerLetter src pos with
    | some stop => .ok (.EnumMarker, none, stop)
    | none => do
      let stop ← scanWhile src pos lexicon.tables.isAlphabetic
      let run ← orPanic (slice src pos stop)
      .ok (if isLawCode run then .LawCode else .Word, none, stop)

def scanDigits (tables : CharTables) (src : List Char) (pos : Nat) : Except Panic Found :=
  match scanDate src pos with
  | some stop => .ok (.Date, none, stop)
  | none =>
    match scanHierNum src pos with
    | some stop => .ok (.HierNum, none, stop)
    | none => do
      match ← scanDocNo tables src pos with
      | some stop => .ok (.DocNo, none, stop)
      | none =>
        match scanEnumMarkerDigits src pos with
        | some stop => .ok (.EnumMarker, none, stop)
        | none => do .ok (.Word, none, ← scanWhile src pos Char.isDigit)

/-- The cascade on the first character of the rest. -/
def scanToken (lexicon : Lexicon) (src : List Char) (pos : Nat) (c : Char) :
    Except Panic Found :=
  if Texts.isWhitespace c then do
    .ok (.Space, none, ← scanWhile src pos Texts.isWhitespace)
  else if lexicon.tables.isAlphabetic c then scanAlphabetic lexicon src pos
  else if c.isDigit then scanDigits lexicon.tables src pos
  else do
    let punct (c : Char) : Bool :=
      !Texts.isWhitespace c && !lexicon.tables.isAlphabetic c && !c.isDigit
    .ok (.Punct, none, ← scanWhile src pos punct)

/-- The tokens of a turn and the offset after them: every turn advances. -/
structure Turn (pos : Nat) where
  tokens : List NpaToken
  next : Nat
  advances : pos < next

/-- The end of the letter, where a quote opens a quoted subpoint label. -/
def quotedLabel (src : List Char) (pos : Nat) (c : Char) : Except Panic (Option Nat) :=
  if c = '"' then quotedEnumLetterEnd src pos else .ok none

/-- The quote and the letter of a quoted subpoint label, the closing quote left over. -/
def quotedTurn (pos letterEnd : Nat) : Except Panic (Turn pos) :=
  if h : pos + 1 < letterEnd then
    .ok ⟨[⟨.Punct, ⟨pos, pos + 1, Nat.lt_succ_self pos⟩, none⟩,
      ⟨.EnumMarker, ⟨pos + 1, letterEnd, h⟩, none⟩], letterEnd, Nat.lt_of_succ_lt h⟩
  else .error .emptySpan

def foundTurn (pos : Nat) (found : Found) : Except Panic (Turn pos) :=
  if h : pos < found.2.2 then
    .ok ⟨[⟨found.1, ⟨pos, found.2.2, h⟩, found.2.1⟩], found.2.2, h⟩
  else .error .emptySpan

/-- One turn of the loop, nothing at the end of the text. -/
def lexTurn (lexicon : Lexicon) (src : List Char) (pos : Nat) :
    Except Panic (Option (Turn pos)) := do
  let rest ← orPanic (sliceFrom src pos)
  match rest with
  | [] => .ok none
  | c :: _ =>
    match ← quotedLabel src pos c with
    | some letterEnd => (quotedTurn pos letterEnd).map some
    | none => do
      let found ← scanToken lexicon src pos c
      (foundTurn pos found).map some

def lexFrom (lexicon : Lexicon) (src : List Char) (pos : Nat) : Except Panic (List NpaToken) :=
  if pos < byteLen src then
    match lexTurn lexicon src pos with
    | .error p => .error p
    | .ok none => .ok []
    | .ok (some turn) => (lexFrom lexicon src turn.next).map (turn.tokens ++ ·)
  else .ok []
termination_by byteLen src - pos
decreasing_by
  have := turn.advances
  omega

def lex (lexicon : Lexicon) (src : List Char) : Except Panic (List NpaToken) :=
  lexFrom lexicon src 0

end LawNexus.Decode
