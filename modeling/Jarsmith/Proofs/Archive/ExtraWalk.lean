import Jarsmith.Proofs.Archive.Extra

/-!
# Walking over an extra field

`Extra.dropLarge` takes one record after another off a field. Told with a place in the field
(`Extra.Walk`), every step goes on by the size that the field itself gives, which may lead beyond
its end. A walk ends all the same, since a record takes four bytes at least, and what it has kept by
then is what `dropLarge` gives (`Extra.exists_ends`).

A second walk over what was left finds the same records again, and none to leave out
(`Extra.dropLarge_dropLarge`). A record that is cut short does no harm: it is the last one, so that
nothing is put after it that it could take in.
-/

namespace Jarsmith.Archive.Extra

variable {extra rest : Bytes} {a b c d : UInt8} {position : Nat}

/-! ### Again over what is left -/

theorem dropLarge_cons : dropLarge (a :: b :: c :: d :: rest) =
    if Bytes.little [a, b] = largeId then dropLarge (rest.drop (Bytes.little [c, d]))
    else a :: b :: c :: d :: rest.take (Bytes.little [c, d]) ++
      dropLarge (rest.drop (Bytes.little [c, d])) := by
  rw [dropLarge]

theorem dropLarge_nil : dropLarge [] = [] := dropLarge_of_length_le (Nat.zero_le 3)

/-- Nothing is left to leave out. -/
theorem dropLarge_dropLarge (extra : Bytes) : dropLarge (dropLarge extra) = dropLarge extra := by
  fun_induction dropLarge extra with
  | case1 a b c d rest size tail hid ih => exact ih
  | case2 a b c d rest size tail hid ih =>
    -- after a record that is cut short nothing is left, so its size takes in nothing new
    have hcut : (rest.take size ++ tail).take size = rest.take size ∧
        (rest.take size ++ tail).drop size = tail := by
      by_cases hsize : size ≤ rest.length
      · have hlength : (rest.take size).length = size := List.length_take_of_le hsize
        exact ⟨List.take_left' hlength, List.drop_left' hlength⟩
      · have htail : tail = [] := by
          show dropLarge (rest.drop size) = []
          rw [List.drop_eq_nil_of_le (by omega), dropLarge_nil]
        rw [htail, List.append_nil, List.take_take, Nat.min_self]
        exact ⟨rfl, List.drop_eq_nil_of_le (List.length_take_le _ _)⟩
    obtain ⟨htake, hdrop⟩ := hcut
    show dropLarge (a :: b :: c :: d :: (rest.take size ++ tail)) = _
    rw [dropLarge_cons, if_neg hid, htake, hdrop, ih]
  | case3 => exact dropLarge_nil

/-! ### The place in the field -/

/-- Where a walk over a field is, and what it has kept of it. -/
structure Walk where
  position : Nat
  kept : List Bytes

namespace Walk

/-- A walk that begins. -/
def start : Walk := ⟨0, []⟩

/-- The walk after one more record, if four bytes are left for its beginning. -/
def next? (w : Walk) (extra : Bytes) : Option Walk :=
  if w.position + 4 ≤ extra.length then
    let size := Bytes.littleAt extra (w.position + 2) 2
    some {
      position := w.position + 4 + size
      kept :=
        if Bytes.littleAt extra w.position 2 = largeId then w.kept
        else w.kept ++ [Bytes.slice extra w.position (4 + size)] }
  else none

/-- After `n` more records the walk is over and has kept `result`. -/
inductive Ends (extra : Bytes) : Walk → (n : Nat) → (result : Bytes) → Prop
  | stop {w : Walk} : w.next? extra = none → Ends extra w 0 w.kept.flatten
  | more {n : Nat} {w w' : Walk} {result : Bytes} : w.next? extra = some w' →
      Ends extra w' n result → Ends extra w (n + 1) result

end Walk

/-- At a place with a record, that record is kept or not, and the rest is what follows it. -/
theorem dropLarge_drop (h : position + 4 ≤ extra.length) :
    dropLarge (extra.drop position) =
      (if Bytes.littleAt extra position 2 = largeId then []
        else Bytes.slice extra position (4 + Bytes.littleAt extra (position + 2) 2)) ++
      dropLarge (extra.drop (position + 4 + Bytes.littleAt extra (position + 2) 2)) := by
  have hlength : 4 ≤ (extra.drop position).length := by
    rw [List.length_drop]
    omega
  have hdrop (n : Nat) : extra.drop (position + n) = (extra.drop position).drop n :=
    List.drop_drop.symm
  unfold Bytes.littleAt Bytes.slice
  rw [Nat.add_assoc, hdrop, hdrop]
  generalize extra.drop position = field at hlength ⊢
  rcases field with _ | ⟨a, _ | ⟨b, _ | ⟨c, _ | ⟨d, rest⟩⟩⟩⟩
  iterate 4 simp at hlength
  have hid : (a :: b :: c :: d :: rest).take 2 = [a, b] := rfl
  have hsize : ((a :: b :: c :: d :: rest).drop 2).take 2 = [c, d] := rfl
  rw [hid, hsize, dropLarge_cons, Nat.add_comm 4]
  split
  · rfl
  · rfl

namespace Walk

variable {w w' : Walk}

/-- A step goes on by four bytes at least, and does not change what is kept in the end: what was
kept before, and what `dropLarge` leaves of the rest. -/
theorem next?_eq_some (h : w.next? extra = some w') :
    w.position + 4 ≤ extra.length ∧ w.position + 4 ≤ w'.position ∧
      w'.kept.flatten ++ dropLarge (extra.drop w'.position) =
        w.kept.flatten ++ dropLarge (extra.drop w.position) := by
  unfold next? at h
  split at h
  · next hroom =>
    obtain rfl := Option.some.inj h
    refine ⟨hroom, Nat.le_add_right _ _, ?_⟩
    rw [dropLarge_drop hroom]
    by_cases hid : Bytes.littleAt extra w.position 2 = largeId
    · simp only [if_pos hid, List.nil_append]
    · simp only [if_neg hid, List.flatten_append, List.flatten_singleton, List.append_assoc]
  · simp at h

/-- Where no step can be made, nothing is left to keep. -/
theorem dropLarge_of_next?_eq_none (h : w.next? extra = none) :
    dropLarge (extra.drop w.position) = [] := by
  unfold next? at h
  split at h
  · simp at h
  · refine dropLarge_of_length_le ?_
    rw [List.length_drop]
    omega

/-- A walk ends after no more records than there is room for, and has then kept what `dropLarge`
leaves of the rest of the field. -/
theorem exists_ends (extra : Bytes) (w : Walk) :
    ∃ n, 4 * n ≤ extra.length - w.position ∧
      w.Ends extra n (w.kept.flatten ++ dropLarge (extra.drop w.position)) := by
  cases hnext : w.next? extra with
  | none =>
    refine ⟨0, Nat.zero_le _, ?_⟩
    rw [dropLarge_of_next?_eq_none hnext, List.append_nil]
    exact .stop hnext
  | some w' =>
    obtain ⟨hroom, hon, hkept⟩ := next?_eq_some hnext
    obtain ⟨n, hn, hends⟩ := exists_ends extra w'
    refine ⟨n + 1, by omega, .more hnext ?_⟩
    rwa [← hkept]
termination_by extra.length - w.position

end Walk

/-! ### What is left -/

/-- **What is left of an extra field.** A walk over any field ends, and keeps what `dropLarge`
gives. A second one changes nothing, and nothing gets longer. Of records with up to three bytes
after them it keeps, byte for byte and in their order, those that are not of large archives; and a
member is read from the directory only if its field is made so. -/
theorem dropLarge_leaves (extra : Bytes) :
    (∃ n, 4 * n ≤ extra.length ∧ Walk.start.Ends extra n (dropLarge extra)) ∧
    dropLarge (dropLarge extra) = dropLarge extra ∧
    (dropLarge extra).length ≤ extra.length ∧
    (∀ (records : List Record) (tail : Bytes), tail.length ≤ 3 →
      extra = records.flatMap Record.bytes ++ tail →
      dropLarge extra = (records.filter (·.id ≠ largeId)).flatMap Record.bytes) ∧
    ∀ extent extent' : Extent, extent.ofExtra extra = .ok extent' → WellFormed extra := by
  obtain ⟨n, hn, hends⟩ := Walk.exists_ends extra .start
  refine ⟨⟨n, hn, hends⟩, dropLarge_dropLarge extra, length_dropLarge_le extra, ?_, ?_⟩
  · rintro records tail htail rfl
    exact dropLarge_records records htail
  · intro extent extent' h
    exact Extent.wellFormed_of_ofExtra h

namespace Sample

/-- Two records of large archives next to each other, then one of times, and a third. -/
def records : List Record := [
  ⟨largeId, [1, 2, 3, 4, 5, 6, 7, 8], by decide, by decide⟩, ⟨largeId, [], by decide, by decide⟩,
  ⟨0x5455, [3, 9], by decide, by decide⟩, ⟨largeId, [0, 0], by decide, by decide⟩]

/-- The records with a byte after them that begins no further one. -/
def field : Bytes := records.flatMap Record.bytes ++ [0x2A]

end Sample

/-- A field that is read, with a size from its first record, and of which one record stays. -/
theorem dropLarge_leaves_of_mixed :
    ([0x2A] : Bytes).length ≤ 3 ∧ dropLarge Sample.field = [0x55, 0x54, 2, 0, 3, 9] ∧
      (∃ extent', Extent.ofExtra ⟨0xFFFFFFFF, 5, 6⟩ Sample.field = .ok extent') ∧
      WellFormed Sample.field := by
  have hread : (Extent.ofExtra ⟨0xFFFFFFFF, 5, 6⟩ Sample.field).isOk = true := by decide +kernel
  obtain ⟨-, -, -, hrecords, hreads⟩ := dropLarge_leaves Sample.field
  cases hextent : Extent.ofExtra ⟨0xFFFFFFFF, 5, 6⟩ Sample.field with
  | error e => simp [hextent, Except.isOk, Except.toBool] at hread
  | ok extent' =>
    refine ⟨by decide, ?_, ⟨extent', rfl⟩, hreads _ _ hextent⟩
    rw [hrecords Sample.records [0x2A] (by decide) rfl]
    decide

end Jarsmith.Archive.Extra
