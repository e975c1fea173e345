import Jarsmith.Bytes.Field

/-!
# Extra fields

The extra field of a member is a sequence of records: an identifier and a size of two bytes each,
and then as many bytes. Up to three bytes may be left at the end.
-/

namespace Jarsmith.Archive.Extra

/-- The identifier of the record that holds sizes and offsets beyond four bytes. -/
abbrev largeId : Nat := 1

/-- The extra field without the records of large archives, which are written anew where they are
needed. Bytes at the end that are no record are dropped; a record that is cut short is kept as far
as it goes. -/
def dropLarge : Bytes → Bytes
  | a :: b :: c :: d :: rest =>
    let size := Bytes.little [c, d]
    let tail := dropLarge (rest.drop size)
    if Bytes.little [a, b] = largeId then tail else a :: b :: c :: d :: rest.take size ++ tail
  | _ => []
termination_by bytes => bytes.length
decreasing_by simp only [List.length_cons, List.length_drop]; omega

end Jarsmith.Archive.Extra
