import Jarsmith.Archive.Contents
import Jarsmith.Proofs.Result

/-!
# What keeps archives from being read

Some archives cannot be read although nothing in them is malformed (`Error.isMalformed`). Such an
archive cannot be opened only because of the version that an entry asks for, or because a name that
should be in UTF-8 is not (`ofBytes_failsOnly`). What keeps the data of a member from being read is
told by `Member.Obstacle`, and `Member.contents_failsOnly` says that there is nothing else.
-/

namespace Jarsmith.Archive

/-! ### The directory -/

/-- The archive is malformed, or asks for a version that is not supported, or has a name that should
be in UTF-8 and is not. -/
def Error.IsOfDirectory (x : Error) : Prop :=
  x.isMalformed = true ∨ x = .badUtf8 ∨ ∃ tenths, x = .laterVersion tenths

theorem decodeName_failsOnly (flags : Nat) (bytes : Bytes) :
    (decodeName flags bytes).FailsOnly fun x =>
      x = .badUtf8 ∧ hasBit flags utf8Flag = true ∧ Utf8.decode bytes = none := by
  unfold decodeName
  refine .ite (fun hflag => ?_) fun _ => .ok _
  split
  · exact .ok _
  · next hnone => exact .error ⟨rfl, hflag, hnone⟩

theorem Extent.enlarge_failsOnly (extent : Extent) (record : Bytes) :
    (extent.enlarge record).FailsOnly (·.isMalformed = true) := by
  have hvalue (field : Text) (record : Bytes) :
      (largeValue field record).FailsOnly (·.isMalformed = true) :=
    .ite (fun _ => .error rfl) fun _ => .ok _
  unfold enlarge
  -- one step for each of the three values that may be replaced
  refine .ite (fun _ => .bind (hvalue _ _) fun _ _ => ?_) fun _ => ?_
  all_goals refine .ite (fun _ => .bind (hvalue _ _) fun _ _ => ?_) fun _ => ?_
  all_goals exact .ite (fun _ => .bind (hvalue _ _) fun _ _ => .ok _) fun _ => .ok _

theorem Extent.ofExtra_failsOnly (extent : Extent) (extra : Bytes) :
    (extent.ofExtra extra).FailsOnly (·.isMalformed = true) := by
  fun_induction Extent.ofExtra extent extra with
  | case1 => exact .error rfl
  | case2 _ _ _ _ _ _ _ _ _ _ ih => exact .bind (enlarge_failsOnly _ _) fun extent _ => ih extent
  | case3 _ _ _ _ _ _ _ _ _ _ ih => exact ih
  | case4 => exact .ok _

theorem readEntry_failsOnly (shift : Int) (bytes : Bytes) :
    (readEntry shift bytes).FailsOnly (·.IsOfDirectory) := by
  unfold readEntry
  refine .guard (fun _ => .inl rfl) fun _ => .guard (fun _ => .inl rfl) fun _ => ?_
  refine .bind ((decodeName_failsOnly _ _).mono fun _ hx => .inr (.inl hx.1)) fun _ _ => ?_
  refine .guard (fun _ => .inr (.inr ⟨_, rfl⟩)) fun _ => ?_
  exact .bind ((Extent.ofExtra_failsOnly _ _).mono fun _ hx => .inl hx) fun _ _ => .ok _

theorem readEntries_failsOnly (shift : Int) (fuel : Nat) (bytes : Bytes) :
    (readEntries shift fuel bytes).FailsOnly (·.IsOfDirectory) := by
  induction fuel generalizing bytes with
  | zero => exact .ok _
  | succ fuel ih =>
    cases bytes with
    | nil => exact .ok _
    | cons b bytes =>
      exact .bind (readEntry_failsOnly _ _) fun _ _ => .bind (ih _) fun _ _ => .ok _

theorem EndRecord.find_failsOnly (bytes : Bytes) :
    (EndRecord.find bytes).FailsOnly (·.isMalformed = true) := by
  unfold find
  split
  · exact .error rfl
  · unfold enlarge
    refine .ite (fun _ => .ok _) fun _ => .ite (fun _ => .error rfl) fun _ => ?_
    exact .ite (fun _ => .error rfl) fun _ => .ite (fun _ => .ok _) fun _ => .ok _

/-- Where an archive cannot be opened, it is malformed, or it is one of the two other reasons. -/
theorem ofBytes_failsOnly (bytes : Bytes) : (ofBytes bytes).FailsOnly (·.IsOfDirectory) := by
  unfold ofBytes
  refine .bind ((EndRecord.find_failsOnly _).mono fun _ hx => .inl hx) fun _ _ => ?_
  refine .guard (fun _ => .inl rfl) fun _ => ?_
  exact .bind (readEntries_failsOnly _ _ _) fun _ _ => .ok _

/-! ### Members -/

/-- What keeps the data of a member from being read though it is not malformed, and the error that
tells of it. -/
inductive Member.Obstacle (m : Member) (bytes : Bytes) : Error → Prop where
  | hugeOffset (h : wordEnd ≤ m.offset) : Obstacle m bytes .hugeOffset
  | unreachableOffset (h : m.offset < 0 ∨ greatestOffset < m.offset) :
    Obstacle m bytes .unreachableOffset
  | patchedData (h : hasBit m.flags 0x20 = true) : Obstacle m bytes .patchedData
  | strongEncryption (h : hasBit m.flags 0x40 = true) : Obstacle m bytes .strongEncryption
  /-- The name in the header of the member should be in UTF-8 and is not. -/
  | badUtf8 {header : Bytes} (hheader : header = bytes.drop m.offset.toNat)
    (hflag : hasBit (Bytes.littleAt header 6 2) utf8Flag = true)
    (h : Utf8.decode (Bytes.slice header headerSize (Bytes.littleAt header 26 2)) = none) :
    Obstacle m bytes .badUtf8
  | encrypted (h : hasBit m.flags 1 = true) : Obstacle m bytes (.encrypted m.name)
  /-- The stored bytes that are there are no stream. -/
  | badStream {place : Nat} (hmethod : m.method = deflatedMethod)
    (h : Deflate.inflate (Bytes.slice bytes place m.compressedSize) = none) :
    Obstacle m bytes .badStream
  /-- The file ends before the stored bytes do. -/
  | missingData {place : Nat}
    (h : (Bytes.slice bytes place m.compressedSize).length < m.compressedSize) :
    Obstacle m bytes .missingData

variable {m : Member} {bytes : Bytes}

theorem Member.dataPlace_failsOnly (m : Member) (bytes : Bytes) :
    (m.dataPlace bytes).FailsOnly fun x => x.isMalformed = true ∨ m.Obstacle bytes x := by
  unfold dataPlace
  refine .guard (fun h => .inr (.hugeOffset h)) fun _ => ?_
  refine .guard (fun h => .inr (.unreachableOffset h)) fun _ => ?_
  refine .guard (fun _ => .inl rfl) fun _ => .guard (fun _ => .inl rfl) fun _ => ?_
  refine .guard (fun h => .inr (.patchedData h)) fun _ => ?_
  refine .guard (fun h => .inr (.strongEncryption h)) fun _ => ?_
  refine .bind ((decodeName_failsOnly _ _).mono ?_) fun _ _ =>
    .guard (fun _ => .inl rfl) fun _ => .ok _
  rintro _ ⟨rfl, hflag, hnone⟩
  exact .inr (.badUtf8 rfl hflag hnone)

theorem unpack_failsOnly (place : Nat) :
    (unpack m.method m.compressedSize m.size (Bytes.slice bytes place m.compressedSize)).FailsOnly
      (m.Obstacle bytes) := by
  unfold unpack
  refine .guard (fun h => .missingData h.1) fun _ => .bind ?_ fun _ _ => ?_
  · unfold decompress
    refine .ite (fun hmethod => ?_) fun _ => .ok _
    split
    · exact .ok _
    · next hnone => exact .error (.badStream hmethod hnone)
  · exact .guard (fun h => .missingData h.1) fun _ => .ok _

/-- Where the data of a member cannot be read, something is malformed, or there is an obstacle. -/
theorem Member.contents_failsOnly (m : Member) (bytes : Bytes) :
    (m.contents bytes).FailsOnly fun x => x.isMalformed = true ∨ m.Obstacle bytes x := by
  unfold contents
  refine .bind (m.dataPlace_failsOnly bytes) fun place _ => .guard (fun _ => .inl rfl) fun _ => ?_
  refine .guard (fun h => .inr (.encrypted h)) fun _ => ?_
  refine .bind ((unpack_failsOnly _).mono fun _ hx => .inr hx) fun _ _ => ?_
  exact .ite (fun _ => .ok _) fun _ => .error (.inl rfl)

end Jarsmith.Archive
