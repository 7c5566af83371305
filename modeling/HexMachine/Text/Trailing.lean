/-!
# Trailing marks

Removing one mark from the end of a list. Line ends are cut this way twice: a carriage return as a
byte before its newline, and as a character at the end of a text.
-/

namespace HexMachine.Text

/-- The list without its last element if that is `mark`, and unchanged otherwise. One occurrence is
removed, not a run of them. -/
def dropTrailing {α : Type} [DecidableEq α] (mark : α) (l : List α) : List α :=
  if l.getLast? = some mark then l.dropLast else l

theorem dropTrailing_concat {α : Type} [DecidableEq α] (mark : α) (l : List α) :
    dropTrailing mark (l ++ [mark]) = l := by
  simp [dropTrailing]

/-- A list that does not end in the mark is kept. -/
theorem dropTrailing_of_ne {α : Type} [DecidableEq α] {mark : α} {l : List α}
    (h : l.getLast? ≠ some mark) : dropTrailing mark l = l := by
  simp [dropTrailing, h]

end HexMachine.Text
