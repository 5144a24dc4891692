/-!
Tables of code point ranges. The entries of a table are sorted and disjoint, so a binary search
finds the only one that can hold a given code point.
-/

namespace PagePress.Text

section

variable {α : Type} (first last : α → Nat) (table : Array α) (n : Nat)

/-- Looks for the entry that holds `n` at the positions from `lo` up to, but not with, `hi`. -/
def findRangeFrom? (lo hi : Nat) : Option α :=
  if lo < hi then
    let mid := (lo + hi) / 2
    match table[mid]? with
    | none => none
    | some entry =>
      if n < first entry then findRangeFrom? lo mid
      else if last entry < n then findRangeFrom? (mid + 1) hi
      else some entry
  else none
termination_by hi - lo

/-- The entry of a sorted table whose range holds `n`. -/
def findRange? : Option α := findRangeFrom? first last table n 0 table.size

end

/-- Some range of a sorted table holds `n`. -/
def covers (table : Array (Nat × Nat)) (n : Nat) : Bool :=
  (findRange? Prod.fst Prod.snd table n).isSome

end PagePress.Text
