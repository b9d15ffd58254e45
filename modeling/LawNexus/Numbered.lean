import LawNexus.Ids
import LawNexus.Texts
import LawNexus.Utf8

/-!
# Numbered ids

Ids that the code makes from a name and a 64-bit number: the `expect` on such an id cannot fail.
-/

namespace LawNexus

theorem byteLen_of_isDigit {text : List Char} (h : ∀ c ∈ text, c.isDigit = true) :
    Utf8.byteLen text = text.length := by
  induction text with
  | nil => rfl
  | cons c rest ih =>
    rw [List.forall_mem_cons] at h
    have hsize : c.utf8Size = 1 := by
      rw [Char.utf8Size_eq_one_iff]
      have hdigit := h.1
      simp only [Char.isDigit, Bool.and_eq_true, decide_eq_true_eq] at hdigit
      exact UInt32.le_trans hdigit.2 (by decide)
    rw [Utf8.byteLen_cons, hsize, ih h.2, List.length_cons, Nat.add_comm]

/-- A 64-bit number takes 20 bytes at most. -/
theorem byteLen_repr_le (n : UInt64) : Utf8.byteLen (Nat.repr n.toNat).toList ≤ 20 := by
  rw [byteLen_of_isDigit fun c hc => Texts.isDigit_of_mem_repr hc, String.length_toList]
  exact (Nat.length_repr_le_iff (by decide)).mpr (lt_trans n.toNat_lt (by decide))

/-- A name that leaves room for the number is an id with any number behind it. -/
theorem parseId_numbered {kind name : String} (hname : parseId kind name 44 = .ok name) (n : UInt64) :
    parseId kind (name ++ Nat.repr n.toNat) maxIdLen = .ok (name ++ Nat.repr n.toNat) := by
  unfold parseId at hname
  split_ifs at hname with hempty hlong hchars
  rw [not_lt] at hlong
  simp only [Bool.not_eq_true', Bool.not_eq_false] at hchars
  have hsize : (name ++ Nat.repr n.toNat).utf8ByteSize ≤ maxIdLen := by
    rw [String.utf8ByteSize_append, ← Utf8.byteLen_toList (Nat.repr n.toNat)]
    exact Nat.add_le_add hlong (byteLen_repr_le n)
  have hall : (name ++ Nat.repr n.toNat).toList.all isIdChar = true := by
    rw [String.toList_append, List.all_append, hchars, Bool.true_and, List.all_eq_true]
    intro c hc
    simp [isIdChar, Char.isAlphanum, Texts.isDigit_of_mem_repr hc]
  have hnonempty : (name ++ Nat.repr n.toNat).isEmpty = false := by
    rw [Bool.eq_false_iff, Ne, String.isEmpty_iff, String.append_eq_empty_iff]
    exact fun h => hempty (String.isEmpty_iff.mpr h.1)
  rw [parseId, hnonempty, if_neg (by decide), if_neg (not_lt.mpr hsize), hall]
  rfl

def CheckedId.numbered {kind : String} (name : String) (hname : parseId kind name 44 = .ok name)
    (n : UInt64) : CheckedId kind :=
  ⟨name ++ Nat.repr n.toNat, parseId_numbered hname n⟩

theorem CheckedId.numbered_inj {kind name : String} {hname : parseId kind name 44 = .ok name}
    {m n : UInt64} : CheckedId.numbered name hname m = CheckedId.numbered name hname n ↔ m = n := by
  rw [numbered, numbered, CheckedId.mk.injEq, Texts.append_repr_inj, UInt64.toNat_inj]

end LawNexus
