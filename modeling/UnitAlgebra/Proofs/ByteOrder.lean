/-
The order of names. Names are compared character by character, and
stored as bytes. Both orders are the same (`bytes_lt_iff`).

One direction is enough, since both orders are total: a lesser name has
lesser bytes. Up to the first character that differs the bytes agree
(`append_lt_append_left`). The encoding of a lesser character is less in
its first byte that differs, whatever follows (`encode_append_lt`),
because longer encodings begin with greater bytes, and those of one
length hold the digits of the code point to base 64, highest first.
-/
import Mathlib.Data.List.Lex
import Mathlib.Data.String.Basic
import Mathlib.Data.UInt

namespace UnitAlgebra.Text

/-- The bytes of a text. -/
def bytes (text : String) : List UInt8 := text.toByteArray.data.toList

/-- A text is encoded character by character. -/
theorem bytes_eq_flatMap (text : String) :
    bytes text = text.toList.flatMap String.utf8EncodeChar := by
  unfold bytes
  rw [← String.utf8Encode_toList, List.utf8Encode,
    List.toList_data_toByteArray]

/-- The order of two lists by their first bytes, as numbers. -/
theorem ofNat_cons_lt_ofNat_cons {m n : Nat} {s t : List UInt8}
    (hm : m < 256) (hn : n < 256) :
    UInt8.ofNat m :: s < UInt8.ofNat n :: t ↔ m < n ∨ m = n ∧ s < t := by
  rw [List.cons_lt_cons_iff, UInt8.lt_iff_toNat_lt, ← UInt8.toNat_inj,
    UInt8.toNat_ofNat', UInt8.toNat_ofNat', Nat.mod_eq_of_lt hm,
    Nat.mod_eq_of_lt hn]

/-- The lesser of two characters has the lesser bytes, whatever comes
after them. -/
theorem encode_append_lt {c d : Char} (h : c < d) (s t : List UInt8) :
    String.utf8EncodeChar c ++ s < String.utf8EncodeChar d ++ t := by
  have hval : c.val.toNat < d.val.toNat := h
  have hvalid : d.val.toNat < 1114112 := by
    rcases d.valid with hlow | hhigh
    · omega
    · exact hhigh.2
  -- six bits go into each byte after the first
  have hthird : ∀ n : Nat, n / 4096 = n / 64 / 64 := by omega
  have hfourth : ∀ n : Nat, n / 262144 = n / 64 / 64 / 64 := by omega
  unfold String.utf8EncodeChar
  simp only [hthird, hfourth]
  -- one case for each two lengths, and what follows is less or not
  by_cases hst : s < t <;> repeat' split
  all_goals
    simp (disch := omega) only [List.cons_append, List.nil_append,
      ofNat_cons_lt_ofNat_cons, hst, and_true, and_false, or_false]
    omega

/-- What stands before two lists of bytes does not change their order. -/
theorem append_lt_append_left {s t : List UInt8} (h : s < t)
    (before : List UInt8) : before ++ s < before ++ t := by
  induction before with
  | nil => exact h
  | cons b before ih => exact List.cons_lt_cons_iff.2 (.inr ⟨rfl, ih⟩)

/-- The first character that differs decides, and the bytes before it
are the same. -/
theorem flatMap_encode_lt {l m : List Char} (h : l < m) :
    l.flatMap String.utf8EncodeChar < m.flatMap String.utf8EncodeChar := by
  induction l generalizing m with
  | nil =>
    cases m with
    | nil => exact absurd h (List.lt_irrefl [])
    | cons d m =>
      rw [List.flatMap_cons]
      cases hd : String.utf8EncodeChar d with
      | nil => exact absurd hd String.utf8EncodeChar_ne_nil
      | cons b rest => exact List.nil_lt_cons b _
  | cons c l ih =>
    cases m with
    | nil => exact absurd h (List.not_lt_nil _)
    | cons d m =>
      rw [List.flatMap_cons, List.flatMap_cons]
      rcases List.cons_lt_cons_iff.1 h with hlt | ⟨rfl, hrest⟩
      · exact encode_append_lt hlt _ _
      · exact append_lt_append_left (ih hrest) _

/-- Names are in order exactly when their bytes are. -/
theorem bytes_lt_iff (a b : String) : bytes a < bytes b ↔ a < b := by
  have hmono : ∀ {a b : String}, a < b → bytes a < bytes b := by
    intro a b h
    rw [bytes_eq_flatMap, bytes_eq_flatMap]
    exact flatMap_encode_lt h
  refine ⟨fun h => ?_, hmono⟩
  refine String.not_le.1 fun hle => ?_
  by_cases heq : a = b
  · exact List.lt_irrefl _ (heq ▸ h)
  · refine List.lt_asymm h (hmono ?_)
    exact String.not_le.1 fun hge => heq (String.le_antisymm hge hle)

end UnitAlgebra.Text
