import Mathlib.Data.List.Basic

/-!
# JSON texts

The grammar of RFC 8259 over characters, with a bound on how deep values nest. The key of a member
is its text between the quotes.
-/

namespace LawNexus.JsonText

/-! ## Blanks -/

def isBlank (c : Char) : Bool := c = ' ' || c = '\t' || c = '\n' || c = '\r'

def Blank (t : List Char) : Prop := ∀ c ∈ t, isBlank c = true

theorem blank_nil : Blank [] := nofun

theorem Blank.append {t u : List Char} (ht : Blank t) (hu : Blank u) : Blank (t ++ u) :=
  List.forall_mem_append.mpr ⟨ht, hu⟩

theorem blank_takeWhile (t : List Char) : Blank (t.takeWhile isBlank) :=
  List.all_eq_true.mp List.all_takeWhile

/-- The text begins with no blank. -/
def Inked (t : List Char) : Prop := ∀ c ∈ t.head?, isBlank c = false

theorem dropWhile_blank {w t : List Char} (hw : Blank w) (ht : Inked t) :
    (w ++ t).dropWhile isBlank = t := by
  rw [List.dropWhile_append_of_pos hw]
  cases t with
  | nil => rfl
  | cons c t => exact List.dropWhile_cons_of_neg (by simp [ht c rfl])

/-! ## Strings -/

def isHex (c : Char) : Bool :=
  ('0' ≤ c && c ≤ '9') || ('a' ≤ c && c ≤ 'f') || ('A' ≤ c && c ≤ 'F')

/-- The characters that stand behind a backslash, but for the `u`. -/
def shortEscapes : List Char := ['\x22', '\x5c', '/', 'b', 'f', 'n', 'r', 't']

/-- What stands between the quotes of a string. -/
inductive IsStringBody : List Char → Prop
  | nil : IsStringBody []
  | plain {c : Char} {t : List Char} : 32 ≤ c.toNat → c ≠ '\x22' → c ≠ '\x5c' →
    IsStringBody t → IsStringBody (c :: t)
  | short {c : Char} {t : List Char} : c ∈ shortEscapes →
    IsStringBody t → IsStringBody ('\x5c' :: c :: t)
  | unicode {digits t : List Char} : digits.length = 4 → (∀ c ∈ digits, isHex c = true) →
    IsStringBody t → IsStringBody ('\x5c' :: 'u' :: (digits ++ t))

/-! ## Numbers -/

def Digits (t : List Char) : Prop := t ≠ [] ∧ ∀ c ∈ t, c.isDigit = true

def IsInt (t : List Char) : Prop := t = ['0'] ∨ (Digits t ∧ t.head? ≠ some '0')

def IsFraction (t : List Char) : Prop := t = [] ∨ ∃ digits, Digits digits ∧ t = '.' :: digits

def IsExponent (t : List Char) : Prop :=
  t = [] ∨ ∃ e sign digits, (e = 'e' ∨ e = 'E') ∧ (sign = [] ∨ sign = ['+'] ∨ sign = ['-']) ∧
    Digits digits ∧ t = e :: (sign ++ digits)

def IsNumber (t : List Char) : Prop :=
  ∃ sign int fraction exponent, (sign = [] ∨ sign = ['-']) ∧ IsInt int ∧ IsFraction fraction ∧
    IsExponent exponent ∧ t = sign ++ (int ++ (fraction ++ exponent))

/-! ## Values -/

/-- A value in an array, with the blanks around it. -/
structure Item where
  before : List Char
  value : List Char
  after : List Char

def Item.text (item : Item) : List Char := item.before ++ (item.value ++ item.after)

def Item.Spaced (item : Item) : Prop := Blank item.before ∧ Blank item.after

/-- A member of an object, with the blanks around its key, its colon and its value. -/
structure Member where
  before : List Char
  key : List Char
  middle : List Char
  pad : List Char
  value : List Char
  after : List Char

namespace Member

def text (m : Member) : List Char :=
  m.before ++ '\x22' :: (m.key ++ '\x22' :: (m.middle ++ ':' :: (m.pad ++ (m.value ++ m.after))))

def entry (m : Member) : List Char × List Char := (m.key, m.value)

structure Spaced (m : Member) : Prop where
  before : Blank m.before
  key : IsStringBody m.key
  middle : Blank m.middle
  pad : Blank m.pad
  after : Blank m.after

end Member

/-- Parts with a comma between each two of them. -/
def separated (parts : List (List Char)) : List Char := [','].intercalate parts

/-- A value in which values nest at most `room` deep. -/
inductive IsValue : Nat → List Char → Prop
  | literal {room : Nat} {t : List Char} :
    t ∈ [['t', 'r', 'u', 'e'], ['f', 'a', 'l', 's', 'e'], ['n', 'u', 'l', 'l']] → IsValue room t
  | string {room : Nat} {body : List Char} : IsStringBody body →
    IsValue room ('\x22' :: (body ++ ['\x22']))
  | number {room : Nat} {t : List Char} : IsNumber t → IsValue room t
  | emptyArray {room : Nat} {w : List Char} : Blank w → IsValue room ('[' :: (w ++ [']']))
  | array {room : Nat} {items : List Item} : items ≠ [] → (∀ i ∈ items, i.Spaced) →
    (∀ i ∈ items, IsValue room i.value) →
    IsValue (room + 1) ('[' :: (separated (items.map Item.text) ++ [']']))
  | emptyObject {room : Nat} {w : List Char} : Blank w →
    IsValue room ('\x7b' :: (w ++ ['\x7d']))
  | object {room : Nat} {members : List Member} : members ≠ [] → (∀ m ∈ members, m.Spaced) →
    (members.map (·.key)).Nodup → (∀ m ∈ members, IsValue room m.value) →
    IsValue (room + 1) ('\x7b' :: (separated (members.map Member.text) ++ ['\x7d']))

/-! ## Whole texts -/

/-- Members that an object may have. -/
structure AreMembers (room : Nat) (members : List Member) : Prop where
  spaced : ∀ m ∈ members, m.Spaced
  distinct : (members.map (·.key)).Nodup
  values : ∀ m ∈ members, IsValue room m.value

/-- The text is one object with these members, and blanks around it. -/
def IsObject (room : Nat) (text : List Char) (members : List Member) : Prop :=
  AreMembers room members ∧ ∃ before pad after, Blank before ∧ Blank pad ∧ Blank after ∧
    text = before ++ '\x7b' :: (pad ++ (separated (members.map Member.text) ++ '\x7d' :: after))

/-- The text is one object with a comma behind its last member, and blanks around it. -/
def HasTrailingComma (room : Nat) (text : List Char) : Prop :=
  ∃ members, members ≠ [] ∧ AreMembers room members ∧ ∃ before pad after, Blank before ∧
    Blank pad ∧ Blank after ∧ text = before ++ '\x7b' ::
      (separated (members.map Member.text) ++ ',' :: (pad ++ '\x7d' :: after))

theorem separated_singleton (part : List Char) : separated [part] = part :=
  List.intercalate_singleton

theorem separated_cons {parts : List (List Char)} (h : parts ≠ []) (part : List Char) :
    separated (part :: parts) = part ++ ',' :: separated parts := by
  obtain ⟨next, more, rfl⟩ := List.exists_cons_of_ne_nil h
  rw [separated, List.intercalate_cons_cons, List.append_assoc]
  rfl

end LawNexus.JsonText
