/-
Sets of spellings. Where several symbols begin a text, the longest one
is meant, so spellings are kept longest first (by encoded length), in
text order among equals. The arrangement depends on the set alone: the
order and repetition in which spellings arrive leave no trace.
-/
namespace UnitAlgebra.Text

/-- Longer spellings come first, equally long ones in text order. -/
def longerFirst (a b : String) : Bool :=
  b.utf8ByteSize < a.utf8ByteSize
    || (a.utf8ByteSize = b.utf8ByteSize && a ≤ b)

/-- The nonempty spellings of a list, each once, longest first. -/
def longestFirst (spellings : List String) : List String :=
  (spellings.filter (· ≠ "")).eraseDups.mergeSort longerFirst

/-- Arranging loses no spelling but the empty one. -/
theorem mem_longestFirst {spelling : String} {spellings : List String} :
    spelling ∈ longestFirst spellings ↔
      spelling ∈ spellings ∧ spelling ≠ "" := by
  unfold longestFirst
  rw [List.mem_mergeSort, List.mem_eraseDups, List.mem_filter,
    decide_eq_true_iff]

/-- The same for two sets, each arranged by itself. -/
theorem mem_longestFirst_append {spelling : String}
    {spellings spellings' : List String} :
    spelling ∈ longestFirst spellings ++ longestFirst spellings' ↔
      spelling ∈ spellings ++ spellings' ∧ spelling ≠ "" := by
  rw [List.mem_append, mem_longestFirst, mem_longestFirst, ← or_and_right,
    List.mem_append]

end UnitAlgebra.Text
