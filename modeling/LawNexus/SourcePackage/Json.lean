import LawNexus.SourcePackage.Verify

/-!
# Records as JSON

What `Serialize` makes of the records, and the scan of a line that refuses a repeated key.
-/

namespace LawNexus.SourcePackage

/-- A value of `serde_json`. A number is kept as it is written. -/
inductive Json where
  | null
  | bool (value : Bool)
  | number (text : String)
  | string (text : List Char)
  | array (items : List Json)
  | object (entries : List (String × Json))

namespace Json

def get (key : String) : Json → Option Json
  | .object entries => (entries.find? (·.1 = key)).map (·.2)
  | _ => none

def asStr : Json → Option (List Char)
  | .string text => some text
  | _ => none

def str (text : String) : Json := .string text.toList

def num (n : Nat) : Json := .number (toString n)

def nullable {α : Type} (f : α → Json) (value : Option α) : Json := value.elim .null f

end Json

/-! ## Serialize -/

open Json

def BTreeMap.serialize (m : BTreeMap) : Json := .object (m.entries.map fun e => (e.1, str e.2))

def Limits.serialize (limits : Limits) : Json := .object [
  ("max_input_bytes", num limits.maxInputBytes),
  ("max_package_bytes", num limits.maxPackageBytes),
  ("max_line_bytes", num limits.maxLineBytes),
  ("max_depth", num limits.maxDepth),
  ("max_nodes", num limits.maxNodes),
  ("max_text_fragments", num limits.maxTextFragments),
  ("max_text_bytes", num limits.maxTextBytes),
  ("max_records", num limits.maxRecords),
  ("max_attrs_per_element", num limits.maxAttrsPerElement)]

def Policies.serialize (policies : Policies) : Json := .object [
  ("text_scope", str policies.textScope),
  ("document_level_text", str policies.documentLevelText),
  ("directive_records", str policies.directiveRecords),
  ("cdata_boundaries", str policies.cdataBoundaries),
  ("entity_scope", str policies.entityScope),
  ("binary_payloads", str policies.binaryPayloads),
  ("unknown_elements", str policies.unknownElements),
  ("namespaces", str policies.namespaces),
  ("xml_space", str policies.xmlSpace),
  ("raw_xml_lexical_form", str policies.rawXmlLexicalForm),
  ("memory_model", str policies.memoryModel),
  ("authenticity", str policies.authenticity)]

def SourceRef.serialize (source : SourceRef) : Json := .object [
  ("sha256", str source.sha256),
  ("bytes", num source.bytes)]

def Manifest.serialize (manifest : Manifest) : Json := .object [
  ("kind", str manifest.kind),
  ("schema", str manifest.schema),
  ("version", num manifest.version),
  ("model", str manifest.model),
  ("profile", str manifest.profile),
  ("capability", str manifest.capability),
  ("capture_policy", str manifest.capturePolicy),
  ("source", manifest.source.serialize),
  ("limits", manifest.limits.serialize),
  ("policies", manifest.policies.serialize),
  ("non_authoritative", .bool manifest.nonAuthoritative)]

def ElementRecord.serialize (element : ElementRecord) : Json := .object [
  ("kind", str element.kind),
  ("schema", str element.schema),
  ("id", str element.id),
  ("parent", nullable str element.parent),
  ("child_index", nullable num element.childIndex),
  ("depth", num element.depth),
  ("clark_tag", str element.clarkTag),
  ("attrs", element.attrs.serialize),
  ("namespace_declarations", element.namespaceDeclarations.serialize),
  ("xml_space_declared", nullable .bool element.xmlSpaceDeclared),
  ("xml_space_effective", .bool element.xmlSpaceEffective),
  ("text_ref", nullable str element.textRef),
  ("tail_ref", nullable str element.tailRef)]

def TextRecord.serialize (text : TextRecord) : Json := .object [
  ("kind", str text.kind),
  ("schema", str text.schema),
  ("id", str text.id),
  ("owner", str text.owner),
  ("slot", str text.slot.asStr),
  ("value", .string text.value),
  ("chars", num text.chars),
  ("bytes", num text.bytes)]

def Record.serialize : Record → Json
  | .element record => record.serialize
  | .text record => record.serialize

def Counts.serialize (counts : Counts) : Json := .object [
  ("elements", num counts.elements),
  ("text_fragments", num counts.textFragments),
  ("text_chars", num counts.textChars),
  ("text_bytes", num counts.textBytes),
  ("namespace_declarations", num counts.namespaceDeclarations),
  ("records", num counts.records)]

def CaptureStatus.serialize : CaptureStatus → Json
  | .complete => str "complete"

/-- A member that is left out where there is no value. -/
def skipNone (key : String) (value : Option String) : List (String × Json) :=
  value.toList.map fun text => (key, str text)

def Footer.serialize (footer : Footer) : Json := .object <|
  [("kind", str footer.kind),
    ("schema", str footer.schema),
    ("version", num footer.version),
    ("capture_status", footer.captureStatus.serialize),
    ("completion_basis", str footer.completionBasis),
    ("source_sha256", str footer.sourceSha256),
    ("counts", footer.counts.serialize)] ++
  skipNone "records_seal_hash" footer.recordsSealHash ++
  skipNone "manifest_hash" footer.manifestHash ++
  [("non_authoritative", .bool footer.nonAuthoritative)]

/-! ## The scan for repeated keys -/

/-- What the tokenizer hands to a visitor. At `broken` it gives up. -/
inductive Token where
  | scalar
  | arrayStart
  | arrayEnd
  | objectStart
  | key (name : String)
  | objectEnd
  | broken (detail : String)
deriving DecidableEq, Repr

inductive ScanError where
  | duplicateKey
  | malformed (detail : String)
deriving DecidableEq, Repr

/-- The visitor: for each open object the keys that it has seen. -/
def strictScan : List (List String) → List Token → Except ScanError Unit
  | _, [] => .ok ()
  | _, .broken detail :: _ => .error (.malformed detail)
  | open_, .objectStart :: rest => strictScan ([] :: open_) rest
  | seen :: open_, .key name :: rest =>
    if name ∈ seen then .error .duplicateKey else strictScan ((name :: seen) :: open_) rest
  | _ :: open_, .objectEnd :: rest => strictScan open_ rest
  | open_, _ :: rest => strictScan open_ rest

mutual

def Json.tokens : Json → List Token
  | .null => [.scalar]
  | .bool _ => [.scalar]
  | .number _ => [.scalar]
  | .string _ => [.scalar]
  | .array items => .arrayStart :: itemTokens items
  | .object entries => .objectStart :: entryTokens entries

def itemTokens : List Json → List Token
  | [] => [.arrayEnd]
  | item :: rest => item.tokens ++ itemTokens rest

def entryTokens : List (String × Json) → List Token
  | [] => [.objectEnd]
  | (key, value) :: rest => .key key :: (value.tokens ++ entryTokens rest)

end

/-! ## What comes from `serde_json` -/

/-- The parts of `serde_json` that the package uses; an error is its category, line and column. -/
structure SerdeJson where
  toString : Json → Except String (List Char)
  tokens : List Char → List Token
  fromStr : List Char → Except String Json
  manifest : Json → Except String Manifest
  element : Json → Except String ElementRecord
  text : Json → Except String TextRecord
  footer : Json → Except String Footer

variable (serde : SerdeJson)

def canonicalJson (value : Json) : Except SourcePackageError (List Char) :=
  match serde.toString value with
  | .error detail => fail .serialization detail
  | .ok line => .ok line

def serializeRecord (record : Record) : Except SourcePackageError (List Char) :=
  canonicalJson serde record.serialize

def strictValue (line : List Char) (lineNumber : Nat) : Except SourcePackageError Json :=
  match strictScan [] (serde.tokens line) with
  | .error .duplicateKey => fail .duplicateJsonKey s!"line {lineNumber}: duplicate JSON key"
  | .error (.malformed detail) => fail .jsonSyntax s!"line {lineNumber}: {detail}"
  | .ok () =>
    match serde.fromStr line with
    | .error detail => fail .jsonSyntax s!"line {lineNumber}: {detail}"
    | .ok value => .ok value

def fromValueTyped {α : Type} (decoded : Except String α) (line : Nat) :
    Except SourcePackageError α :=
  match decoded with
  | .error detail => fail .typeMismatch s!"line {line}: {detail}"
  | .ok a => .ok a

/-- `value.get("kind").and_then(Value::as_str)` -/
def kindOf (value : Json) : Option String := ((value.get "kind").bind asStr).map String.ofList

def parseRecord (value : Json) (line : Nat) : Except SourcePackageError Record :=
  match kindOf value with
  | none => fail .typeMismatch s!"line {line}: missing kind"
  | some kind =>
    if kind = "element" then (fromValueTyped (serde.element value) line).map .element
    else if kind = "text" then (fromValueTyped (serde.text value) line).map .text
    else fail .unknownKind s!"line {line}: unknown record kind"

/-! ## Keys of printed records -/

/-- No object has a key twice. -/
inductive Json.Distinct : Json → Prop
  | null : Distinct .null
  | bool (value : Bool) : Distinct (.bool value)
  | number (text : String) : Distinct (.number text)
  | string (text : List Char) : Distinct (.string text)
  | array {items : List Json} : (∀ item ∈ items, Distinct item) → Distinct (.array items)
  | object {entries : List (String × Json)} : (entries.map (·.1)).Nodup →
      (∀ entry ∈ entries, Distinct entry.2) → Distinct (.object entries)

theorem strictScan_tokens {value : Json} (h : value.Distinct) (seen : List (List String))
    (rest : List Token) : strictScan seen (value.tokens ++ rest) = strictScan seen rest := by
  induction h generalizing seen rest with
  | null => cases seen <;> rfl
  | bool value => cases seen <;> rfl
  | number text => cases seen <;> rfl
  | string text => cases seen <;> rfl
  | @array items hitems ih =>
    have hscan : strictScan seen (itemTokens items ++ rest) = strictScan seen rest := by
      induction items with
      | nil => cases seen <;> rfl
      | cons item items ih' =>
        rw [itemTokens, List.append_assoc, ih item List.mem_cons_self]
        exact ih' (fun i hi => hitems i (List.mem_cons_of_mem item hi))
          (fun i hi => ih i (List.mem_cons_of_mem item hi))
    rw [Json.tokens, List.cons_append, ← hscan]
    cases seen <;> rfl
  | @object entries hkeys hentries ih =>
    have hscan : ∀ keys : List String, (∀ e ∈ entries, e.1 ∉ keys) →
        strictScan (keys :: seen) (entryTokens entries ++ rest) = strictScan seen rest := by
      induction entries with
      | nil => exact fun keys _ => rfl
      | cons e entries ih' =>
        intro keys hfresh
        obtain ⟨hkey, hkeys⟩ := List.nodup_cons.mp hkeys
        rw [entryTokens, List.cons_append, strictScan, if_neg (hfresh e List.mem_cons_self),
          List.append_assoc, ih e List.mem_cons_self]
        refine ih' hkeys (fun e' he' => hentries e' (List.mem_cons_of_mem e he'))
          (fun e' he' => ih e' (List.mem_cons_of_mem e he')) (e.1 :: keys) fun e' he' => ?_
        have hmem : e'.1 ∈ entries.map (·.1) := List.mem_map_of_mem he'
        rw [List.mem_cons, not_or]
        exact ⟨fun heq => hkey (by rwa [heq] at hmem), hfresh e' (List.mem_cons_of_mem e he')⟩
    rw [Json.tokens, List.cons_append, strictScan]
    exact hscan [] fun _ _ => List.not_mem_nil

attribute [simp] Json.Distinct.null Json.Distinct.bool Json.Distinct.number Json.Distinct.string

@[simp] theorem distinct_str (text : String) : (str text).Distinct := .string _

@[simp] theorem distinct_num (n : Nat) : (num n).Distinct := .number _

theorem distinct_nullable {α : Type} {f : α → Json} (h : ∀ a, (f a).Distinct) (value : Option α) :
    (nullable f value).Distinct := by
  cases value with
  | none => exact .null
  | some a => exact h a

@[simp] theorem BTreeMap.distinct_serialize (m : BTreeMap) : m.serialize.Distinct := by
  refine .object ?_ ?_
  · have hkeys : (m.entries.map (·.1)).Nodup :=
      (List.pairwise_map.mpr m.ascending).imp fun hlt => hlt.ne
    rwa [List.map_map]
  · rintro _ he
    obtain ⟨entry, -, rfl⟩ := List.mem_map.mp he
    exact distinct_str _

@[simp] theorem Limits.distinct_serialize (limits : Limits) : limits.serialize.Distinct :=
  .object (by simp) (by simp)

@[simp] theorem Policies.distinct_serialize (policies : Policies) : policies.serialize.Distinct :=
  .object (by simp) (by simp)

@[simp] theorem SourceRef.distinct_serialize (source : SourceRef) : source.serialize.Distinct :=
  .object (by simp) (by simp)

@[simp] theorem Counts.distinct_serialize (counts : Counts) : counts.serialize.Distinct :=
  .object (by simp) (by simp)

theorem Manifest.distinct_serialize (manifest : Manifest) : manifest.serialize.Distinct :=
  .object (by simp) (by simp)

theorem Record.distinct_serialize (record : Record) : record.serialize.Distinct := by
  cases record with
  | element record =>
    exact .object (by simp) (by simp [distinct_nullable])
  | text record => exact .object (by simp) (by simp)

theorem Footer.distinct_serialize (footer : Footer) : footer.serialize.Distinct := by
  refine .object ?_ ?_
  · cases footer.recordsSealHash <;> cases footer.manifestHash <;> simp [skipNone]
  · cases footer.recordsSealHash <;> cases footer.manifestHash <;>
      simp [skipNone, CaptureStatus.serialize]

end LawNexus.SourcePackage
