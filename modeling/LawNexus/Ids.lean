import Mathlib.Data.String.Basic
import Mathlib.Order.Lattice

/-!
# Identifiers

The checked texts of `ln-temporal`: what `parse_id` and `parse_component_concept_id`
accept. An id value carries the proof that its parser accepted its text, so a bad id
cannot be built.
-/

namespace LawNexus

/-- The length limit of every id, in bytes. -/
def maxIdLen : Nat := 64

structure IdError where
  kind : String
  reason : String
deriving DecidableEq, Repr

def isIdChar (c : Char) : Bool :=
  c.isAlphanum || c == '-' || c == '_' || c == ':' || c == '.'

/-! ## The ids of the `id_type!` macro -/

def parseId (kind value : String) (maxLen : Nat) : Except IdError String :=
  if value.isEmpty then .error ⟨kind, "empty"⟩
  else if value.utf8ByteSize > maxLen then .error ⟨kind, "too long"⟩
  else if !value.toList.all isIdChar then .error ⟨kind, "unsupported character"⟩
  else .ok value

theorem parseId_ok {kind value id : String} {maxLen : Nat}
    (h : parseId kind value maxLen = .ok id) : id = value := by
  unfold parseId at h
  split_ifs at h
  exact (Except.ok.inj h).symm

/-- A newtype of the `id_type!` macro, named by its kind. -/
structure CheckedId (kind : String) where
  asStr : String
  accepted : parseId kind asStr maxIdLen = .ok asStr
deriving DecidableEq, Repr

theorem CheckedId.asStr_injective {kind : String} : Function.Injective (@CheckedId.asStr kind) := by
  rintro ⟨a, ha⟩ ⟨b, hb⟩ h
  cases h
  rfl

def CheckedId.parse (kind value : String) : Except IdError (CheckedId kind) :=
  match h : parseId kind value maxIdLen with
  | .error e => .error e
  | .ok id => .ok ⟨id, parseId_ok h ▸ h⟩

/-- The text of an id parses back to it. -/
theorem CheckedId.parse_asStr {kind : String} (id : CheckedId kind) :
    CheckedId.parse kind id.asStr = .ok id := by
  unfold CheckedId.parse
  split
  · rename_i e h
    rw [id.accepted] at h
    exact absurd h (by simp)
  · rename_i text h
    obtain rfl := parseId_ok h
    rfl

theorem CheckedId.asStr_of_parse {kind value : String} {id : CheckedId kind}
    (h : CheckedId.parse kind value = .ok id) : value = id.asStr := by
  unfold CheckedId.parse at h
  split at h
  · exact absurd h (by simp)
  · rename_i text htext
    obtain rfl := Except.ok.inj h
    exact (parseId_ok htext).symm

theorem CheckedId.not_isEmpty {kind : String} (id : CheckedId kind) :
    id.asStr.isEmpty = false := by
  have hok := id.accepted
  unfold parseId at hok
  split_ifs at hok with hempty
  simpa using hempty

theorem CheckedId.isIdChar_of_mem {kind : String} (id : CheckedId kind) {c : Char}
    (h : c ∈ id.asStr.toList) : isIdChar c = true := by
  have hok := id.accepted
  unfold parseId at hok
  split_ifs at hok with hempty hlong hchars
  simp only [Bool.not_eq_true', Bool.not_eq_false, List.all_eq_true] at hchars
  exact hchars c h

abbrev AmendingActId := CheckedId "amending act id"
abbrev IndustrialOpId := CheckedId "industrial op id"
abbrev CanonRecordId := CheckedId "canon record id"

/-! ## Component concepts -/

/-- The only id with a slash in it, and then with a name on each side of the slash. -/
def parseComponentConceptId (value : String) : Except IdError String :=
  if value.isEmpty then .error ⟨"component concept id", "empty"⟩
  else if value.utf8ByteSize > maxIdLen then .error ⟨"component concept id", "too long"⟩
  else if !value.toList.all (fun c => isIdChar c || c == '/') then
    .error ⟨"component concept id", "unsupported character"⟩
  else if (value.toList.splitOn '/').any List.isEmpty then
    .error ⟨"component concept id", "empty path segment"⟩
  else .ok value

theorem parseComponentConceptId_ok {value id : String}
    (h : parseComponentConceptId value = .ok id) : id = value := by
  unfold parseComponentConceptId at h
  split_ifs at h
  exact (Except.ok.inj h).symm

structure ComponentConceptId where
  asStr : String
  accepted : parseComponentConceptId asStr = .ok asStr
deriving Repr

namespace ComponentConceptId

def parse (value : String) : Except IdError ComponentConceptId :=
  match h : parseComponentConceptId value with
  | .error e => .error e
  | .ok id => .ok ⟨id, parseComponentConceptId_ok h ▸ h⟩

@[ext] theorem ext {a b : ComponentConceptId} (h : a.asStr = b.asStr) : a = b := by
  cases a; cases b; cases h; rfl

theorem asStr_injective : Function.Injective asStr := fun _ _ => ext

/-- The ids themselves have no order in the source: every sort there is by `as_str`. -/
instance : LinearOrder ComponentConceptId := LinearOrder.lift' asStr asStr_injective

instance : @LawfulBEq ComponentConceptId instBEqOfDecidableEq := inferInstance

/-- The text of an id parses back to it, so the `expect` of `build_node` cannot fail. -/
theorem parse_asStr (c : ComponentConceptId) : parse c.asStr = .ok c := by
  unfold parse
  split
  · rename_i e h
    rw [c.accepted] at h
    exact absurd h (by simp)
  · rename_i id h
    obtain rfl := parseComponentConceptId_ok h
    rfl

theorem parse_eq_ok_iff {value : String} {c : ComponentConceptId} :
    parse value = .ok c ↔ value = c.asStr := by
  constructor
  · intro h
    unfold parse at h
    split at h
    · exact absurd h (by simp)
    · rename_i id hid
      obtain rfl := Except.ok.inj h
      exact (parseComponentConceptId_ok hid).symm
  · rintro rfl
    exact parse_asStr c

theorem not_isEmpty (c : ComponentConceptId) : c.asStr.isEmpty = false := by
  have hok := c.accepted
  unfold parseComponentConceptId at hok
  split_ifs at hok with hempty
  simpa using hempty

theorem isIdChar_or_slash (c : ComponentConceptId) {x : Char} (h : x ∈ c.asStr.toList) :
    isIdChar x = true ∨ x = '/' := by
  have hok := c.accepted
  unfold parseComponentConceptId at hok
  split_ifs at hok with hempty hlong hchars
  simp only [Bool.not_eq_true', Bool.not_eq_false, List.all_eq_true, Bool.or_eq_true,
    beq_iff_eq] at hchars
  exact hchars x h

end ComponentConceptId

/-! ### Some ids -/

namespace Sample

def statute : ComponentConceptId := ⟨"cc:statute", rfl⟩
def chapter : ComponentConceptId := ⟨"cc:chapter", rfl⟩
def article : ComponentConceptId := ⟨"cc:chapter/article-1", rfl⟩

def act : AmendingActId := ⟨"act:1", rfl⟩

theorem statute_ne_chapter : statute ≠ chapter := by decide
theorem chapter_ne_statute : chapter ≠ statute := statute_ne_chapter.symm
theorem chapter_ne_article : chapter ≠ article := by decide
theorem statute_ne_article : statute ≠ article := by decide

end Sample

end LawNexus
