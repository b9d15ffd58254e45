import LawNexus.Ordinals
import LawNexus.Utf8

/-!
# Tokens of a block

The tokenizer of `ln-temporal/src/semantic_scope.rs` and the starts of the statements.
-/

namespace LawNexus.Semantic

open Utf8 Ordinals

/-- The tables of `char` that are not ASCII. -/
structure Unicode where
  isAlphanumeric : Char → Bool
  toLowercase : Char → List Char

structure Token where
  start : Nat
  stop : Nat
  statement : Nat
deriving DecidableEq, Repr

/-- `rest` is the text after the character. -/
def isStatementTerminator (rest : List Char) (character previous : Char) : Bool :=
  if character ∈ ['!', '?', ';', '…', '\n', '\r'] then true
  else if character = '.' then !(previous.isDigit && rest.head?.any Char.isDigit)
  else false

/-- The first character of a text ends no statement. -/
def terminated (previous : Option Char) (character : Char) (rest : List Char) : Bool :=
  previous.any (isStatementTerminator rest character)

/-- One more statement for a terminator. -/
def advance (previous : Option Char) (character : Char) (rest : List Char) : Nat :=
  if terminated previous character rest then 1 else 0

section

variable (unicode : Unicode)

def takePending (pending : Option (Nat × Nat)) (statement : Nat) : List Token :=
  pending.toList.map fun (start, stop) => ⟨start, stop, statement⟩

/-- The loop of `tokenize` from an index on. -/
def tokensFrom (index statement : Nat) (previous : Option Char) (pending : Option (Nat × Nat)) :
    List Char → List Token
  | [] => takePending pending statement
  | character :: rest =>
    let stop := index + character.utf8Size
    if unicode.isAlphanumeric character then
      let start := (pending.map (·.1)).getD index
      tokensFrom stop statement (some character) (some (start, stop)) rest
    else
      takePending pending statement ++
        tokensFrom stop (statement + advance previous character rest) (some character) none rest

def tokenize (text : List Char) : List Token := tokensFrom unicode 0 0 none none text

end

def statementStarts (tokens : List Token) : List Nat := starts (tokens.map (·.statement))

/-! ## Statements do not go back -/

variable {unicode : Unicode}

@[simp] theorem takePending_none (statement : Nat) : takePending none statement = [] := rfl

@[simp] theorem takePending_some (span : Nat × Nat) (statement : Nat) :
    takePending (some span) statement = [⟨span.1, span.2, statement⟩] := rfl

theorem statement_takePending {pending : Option (Nat × Nat)} {statement : Nat} {token : Token}
    (h : token ∈ takePending pending statement) : token.statement = statement := by
  obtain ⟨span, -, rfl⟩ := List.mem_map.mp h
  rfl

theorem le_statement {index statement : Nat} {previous : Option Char}
    {pending : Option (Nat × Nat)} {text : List Char} :
    ∀ token ∈ tokensFrom unicode index statement previous pending text,
      statement ≤ token.statement := by
  induction text generalizing index statement previous pending with
  | nil => exact fun token h => Nat.le_of_eq (statement_takePending h).symm
  | cons character rest ih =>
    intro token h
    rw [tokensFrom] at h
    dsimp only at h
    split_ifs at h
    · exact ih token h
    · rcases List.mem_append.mp h with h | h
      · exact Nat.le_of_eq (statement_takePending h).symm
      · exact Nat.le_trans (Nat.le_add_right ..) (ih token h)

theorem pairwise_takePending (pending : Option (Nat × Nat)) (statement : Nat) :
    (takePending pending statement).Pairwise fun a b => a.statement ≤ b.statement := by
  cases pending with
  | none => exact List.Pairwise.nil
  | some span => exact List.pairwise_singleton _ _

theorem sorted_statements {index statement : Nat} {previous : Option Char}
    {pending : Option (Nat × Nat)} {text : List Char} :
    ((tokensFrom unicode index statement previous pending text).map (·.statement)).Pairwise
      (· ≤ ·) := by
  rw [List.pairwise_map]
  induction text generalizing index statement previous pending with
  | nil => exact pairwise_takePending pending statement
  | cons character rest ih =>
    rw [tokensFrom]
    dsimp only
    split_ifs
    · exact ih
    · refine List.pairwise_append.mpr ⟨pairwise_takePending .., ih, fun a ha b hb => ?_⟩
      rw [statement_takePending ha]
      exact Nat.le_trans (Nat.le_add_right ..) (le_statement b hb)

theorem statement_located_iff (text : List Char) :
    Located ((tokenize unicode text).map (·.statement)) ↔
      Gapless 0 ((tokenize unicode text).map (·.statement)) :=
  located_iff sorted_statements

/-! ## Tokens are words -/

variable (unicode) in
/-- A non-empty word of the text, so that its slice never panics. -/
def IsWord (text : List Char) (token : Token) : Prop :=
  ∃ word, slice text token.start token.stop = some word ∧ word ≠ [] ∧
    ∀ c ∈ word, unicode.isAlphanumeric c = true

theorem isWord_pending {before word rest : List Char} {statement : Nat} (hne : word ≠ [])
    (hword : ∀ c ∈ word, unicode.isAlphanumeric c = true) :
    ∀ token ∈ takePending (some (byteLen before, byteLen (before ++ word))) statement,
      IsWord unicode (before ++ word ++ rest) token := by
  intro token h
  rw [List.mem_singleton.mp h]
  refine ⟨word, ?_, hne, hword⟩
  rw [byteLen_append, List.append_assoc]
  exact slice_append before word rest

theorem isWord_tokensFrom (rest : List Char) :
    (∀ {before word : List Char} {statement : Nat} {previous : Option Char}, word ≠ [] →
      (∀ c ∈ word, unicode.isAlphanumeric c = true) →
      ∀ token ∈ tokensFrom unicode (byteLen (before ++ word)) statement previous
        (some (byteLen before, byteLen (before ++ word))) rest,
        IsWord unicode (before ++ word ++ rest) token) ∧
    (∀ {before : List Char} {statement : Nat} {previous : Option Char},
      ∀ token ∈ tokensFrom unicode (byteLen before) statement previous none rest,
        IsWord unicode (before ++ rest) token) := by
  induction rest with
  | nil => exact ⟨fun hne hword => isWord_pending hne hword, fun _ h => by cases h⟩
  | cons c rest ih =>
    obtain ⟨ihword, ihgap⟩ := ih
    have hnext : ∀ before : List Char,
        byteLen before + c.utf8Size = byteLen (before ++ [c]) := fun before => by simp
    have hcons : ∀ before : List Char, before ++ c :: rest = before ++ [c] ++ rest :=
      fun before => by simp
    refine ⟨fun {before word statement previous} hne hword token h => ?_,
      fun {before statement previous} token h => ?_⟩
    · rw [tokensFrom] at h
      dsimp only at h
      split_ifs at h with hc
      · rw [hnext, List.append_assoc] at h
        rw [hcons, List.append_assoc before]
        refine ihword (by simp) (fun d hd => ?_) token h
        rcases List.mem_append.mp hd with hd | hd
        · exact hword d hd
        · rw [List.mem_singleton.mp hd]
          exact hc
      · rcases List.mem_append.mp h with h | h
        · exact isWord_pending hne hword token h
        · rw [hnext] at h
          rw [hcons]
          exact ihgap token h
    · rw [tokensFrom] at h
      dsimp only at h
      split_ifs at h with hc
      · rw [hnext] at h
        rw [hcons]
        exact ihword (List.cons_ne_nil _ _) (List.forall_mem_singleton.mpr hc) token h
      · rw [takePending_none, List.nil_append, hnext] at h
        rw [hcons]
        exact ihgap token h

theorem isWord_of_mem {text : List Char} {token : Token} (h : token ∈ tokenize unicode text) :
    IsWord unicode text token := by
  have hword : token ∈ tokensFrom unicode (byteLen []) 0 none none text := h
  exact (isWord_tokensFrom text).2 token hword

/-! ## Terminators between two tokens -/

variable (unicode)

/-- The terminators in front of the first token of a text. -/
def leadingTerminators (previous : Option Char) : List Char → Nat
  | [] => 0
  | character :: rest =>
    if unicode.isAlphanumeric character then 0
    else advance previous character rest + leadingTerminators (some character) rest

def HasToken (text : List Char) : Prop := ∃ c ∈ text, unicode.isAlphanumeric c = true

/-- After each token of the text at most one terminator, if there is one more token. -/
def SingleBetween (text : List Char) : Prop :=
  ∀ character rest, character :: rest <:+ text → unicode.isAlphanumeric character = true →
    HasToken unicode rest → leadingTerminators unicode (some character) rest ≤ 1

/-- No statement of the text is empty: a terminator stands behind a token, and there is only one
between two of them. -/
structure Separated (text : List Char) : Prop where
  leading : HasToken unicode text → leadingTerminators unicode none text = 0
  between : SingleBetween unicode text

variable {unicode}

theorem singleBetween_nil : SingleBetween unicode [] := fun _ _ h => by
  cases List.suffix_nil.mp h

theorem singleBetween_cons {c : Char} {text : List Char} :
    SingleBetween unicode (c :: text) ↔
      (unicode.isAlphanumeric c = true → HasToken unicode text →
        leadingTerminators unicode (some c) text ≤ 1) ∧ SingleBetween unicode text := by
  constructor
  · exact fun h => ⟨h c text List.suffix_rfl,
      fun character rest hsuffix => h character rest (hsuffix.trans (List.suffix_cons c text))⟩
  · rintro ⟨hhead, htail⟩ character rest hsuffix
    rcases List.suffix_cons_iff.mp hsuffix with heq | hsuffix
    · cases heq
      exact hhead
    · exact htail character rest hsuffix

theorem hasToken_cons {c : Char} {text : List Char} :
    HasToken unicode (c :: text) ↔ unicode.isAlphanumeric c = true ∨ HasToken unicode text := by
  simp only [HasToken, List.mem_cons, exists_eq_or_imp]

/-- The statements of the tokens from an index on, within a word and outside of one. -/
theorem gapless_tokensFrom (text : List Char) :
    (∀ {index statement n : Nat} {c : Char} {span : Nat × Nat}, n ≤ statement + 1 →
      unicode.isAlphanumeric c = true →
      (Gapless n ((tokensFrom unicode index statement (some c) (some span) text).map
        (·.statement)) ↔ statement ≤ n ∧ SingleBetween unicode (c :: text))) ∧
    (∀ {index statement n : Nat} {previous : Option Char}, n ≤ statement + 1 →
      (Gapless n ((tokensFrom unicode index statement previous none text).map (·.statement)) ↔
        (HasToken unicode text → statement + leadingTerminators unicode previous text ≤ n) ∧
          SingleBetween unicode text)) := by
  induction text with
  | nil =>
    refine ⟨fun {index statement n c span} hn hc => ?_, fun hn => ?_⟩
    · rw [tokensFrom, takePending_some, List.map_singleton, gapless_cons (fun _ h => by cases h) hn, singleBetween_cons]
      refine and_congr_right fun _ => ⟨fun _ => ⟨fun _ hrest => ?_, singleBetween_nil⟩,
        fun _ => gapless_nil _⟩
      obtain ⟨_, hin, -⟩ := hrest
      cases hin
    · refine ⟨fun _ => ⟨fun hrest => ?_, singleBetween_nil⟩, fun _ => gapless_nil _⟩
      obtain ⟨_, hin, -⟩ := hrest
      cases hin
  | cons d text ih =>
    obtain ⟨ihword, ihgap⟩ := ih
    refine ⟨fun {index statement n c span} hn hc => ?_,
      fun {index statement n previous} hn => ?_⟩
    · rw [tokensFrom, singleBetween_cons, hasToken_cons, leadingTerminators]
      dsimp only
      split_ifs with hd
      · rw [ihword hn hd]
        simp
      · rw [takePending_some, List.singleton_append, List.map_cons, gapless_cons ?_ hn, ihgap (by omega), singleBetween_cons]
        · simp only [hd, hc, false_or, forall_const, false_imp_iff, true_and, Bool.false_eq_true]
          refine and_congr_right fun _ => and_congr_left fun _ => imp_congr_right fun _ => ?_
          omega
        · intro k hk
          obtain ⟨token, htoken, rfl⟩ := List.mem_map.mp hk
          exact Nat.le_trans (Nat.le_add_right ..) (le_statement token htoken)
    · rw [tokensFrom, hasToken_cons, leadingTerminators]
      dsimp only
      split_ifs with hd
      · rw [ihword hn hd]
        simp [hd]
      · rw [takePending_none, List.nil_append, ihgap (by omega), singleBetween_cons]
        simp only [hd, false_or, false_imp_iff, true_and, Bool.false_eq_true]
        refine and_congr_left fun _ => imp_congr_right fun _ => ?_
        omega

/-- The statements of the tokens have no gap if and only if none of them is empty. -/
theorem gapless_tokenize (text : List Char) :
    Gapless 0 ((tokenize unicode text).map (·.statement)) ↔ Separated unicode text := by
  rw [tokenize, (gapless_tokensFrom text).2 (Nat.zero_le _), Nat.zero_add]
  exact ⟨fun ⟨hleading, hbetween⟩ => ⟨fun h => Nat.le_zero.mp (hleading h), hbetween⟩,
    fun h => ⟨fun htoken => Nat.le_of_eq (h.leading htoken), h.between⟩⟩

end LawNexus.Semantic
