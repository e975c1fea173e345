import Jarsmith.Archive.Contents
import Jarsmith.Archive.Encode
import Jarsmith.Proofs.Bytes.Field

/-!
# Where the parts of an archive are found

An archive without a comment ends with its end record, and if no locator stands before it, the
directory is where the record says (`ofBytes_append`). The entries of the directory are read one by
one (`Raw.readEntries_entry_append`), and the data of a member behind its header
(`Raw.contents_header`). A `Raw` holds what header and entry say, with the name as bytes in the code
that the flags tell, so that the layout is that of any archive and not only of those that are
written here.
-/

namespace Jarsmith

namespace Bytes

/-- What stands between two parts is found by their lengths. -/
theorem slice_append {front middle rest : Bytes} {offset count : Nat}
    (hoffset : front.length = offset) (hcount : middle.length = count) :
    slice (front ++ (middle ++ rest)) offset count = middle := by
  rw [slice, List.drop_left' hoffset, List.take_left' hcount]

/-- A number is read where it was written. -/
theorem littleAt_eq (bytes : Bytes) (offset width : Nat) {n : Nat} (hn : n < Nat.pow 256 width)
    (h : slice bytes offset width = ofLittle width n) : littleAt bytes offset width = n := by
  rw [littleAt, h, little_ofLittle hn]

end Bytes

namespace Archive

variable {front : Bytes} {count size offset : Nat}

/-! ### The end record -/

theorem length_endRecord (count size offset : Nat) :
    (endRecord count size offset).length = endSize := rfl

theorem endPlace?_append (front : Bytes) (count size offset : Nat) :
    endPlace? (front ++ endRecord count size offset) = some front.length := by
  have hlength : (front ++ endRecord count size offset).length = front.length + endSize := by
    rw [List.length_append, length_endRecord]
  have hlast : (front ++ endRecord count size offset).drop front.length =
      endRecord count size offset := List.drop_left
  have hmark : (endMark.isPrefixOf (endRecord count size offset) &&
      Bytes.littleAt (endRecord count size offset) 20 2 == 0) = true := rfl
  unfold endPlace?
  dsimp only
  rw [hlength, if_neg (by omega), Nat.add_sub_cancel, hlast, if_pos hmark]

theorem EndRecord.at_append (hsize : size < 0x100000000) (hoffset : offset < 0x100000000) :
    EndRecord.at (front ++ endRecord count size offset) front.length =
      ⟨size, offset, front.length, []⟩ := by
  have hfield := Bytes.littleAt_eq (endRecord count size offset)
  unfold EndRecord.at
  dsimp only
  rw [List.drop_left, hfield 12 4 hsize rfl, hfield 16 4 hoffset rfl]
  rfl

/-- The end record is found where no locator stands before it. -/
theorem EndRecord.find_append (hsize : size < 0x100000000) (hoffset : offset < 0x100000000)
    (hmark : locatorMark.isPrefixOf (front.drop (front.length - locatorSize)) = false) :
    EndRecord.find (front ++ endRecord count size offset) =
      .ok ⟨size, offset, front.length, []⟩ := by
  unfold EndRecord.find
  rw [endPlace?_append]
  dsimp only
  rw [EndRecord.at_append hsize hoffset, EndRecord.enlarge]
  refine if_pos ?_
  by_cases hshort : front.length < locatorSize
  · exact .inl hshort
  · right
    have hslice : Bytes.slice (front ++ endRecord count size offset) (front.length - locatorSize)
        locatorSize = front.drop (front.length - locatorSize) := by
      rw [Bytes.slice, List.drop_append_of_le_length (by omega), List.take_left']
      rw [List.length_drop]
      omega
    rw [hslice, hmark]
    rfl

/-- The members of an archive are read from what stands before its end record. -/
theorem ofBytes_append {bodies directory : Bytes} (hsize : directory.length < 0x100000000)
    (hoffset : bodies.length < 0x100000000)
    (hmark : locatorMark.isPrefixOf ((bodies ++ directory).drop
      ((bodies ++ directory).length - locatorSize)) = false) :
    ofBytes (bodies ++ directory ++ endRecord count directory.length bodies.length) =
      (readEntries 0 directory.length directory).map fun members =>
        ⟨setLimits bodies.length members, []⟩ := by
  have hentries : Bytes.slice (bodies ++ directory ++
      endRecord count directory.length bodies.length) bodies.length directory.length =
      directory := by
    rw [List.append_assoc]
    exact Bytes.slice_append rfl rfl
  have hshift : (((bodies ++ directory).length : Nat) : Int) - (directory.length : Int) -
      (bodies.length : Int) = 0 := by
    rw [List.length_append]
    omega
  unfold ofBytes
  rw [EndRecord.find_append hsize hoffset hmark]
  simp only [bind, Except.bind]
  rw [hshift, Int.add_zero, if_neg (by omega), Int.toNat_natCast, hentries]
  cases readEntries 0 directory.length directory <;> rfl

/-! ### Members -/

/-- Numbers one after another, each in a width of its own. -/
def fieldBytes (fields : List (Nat × Nat)) : Bytes := fields.flatMap fun f => Bytes.ofLittle f.1 f.2

/-- What the header of a member and its entry in the directory say. -/
structure Raw where
  system : Nat
  flags : Nat
  method : Nat
  time : Nat
  date : Nat
  checksum : Nat
  compressedSize : Nat
  size : Nat
  internal : Nat
  external : Nat
  name : Bytes
  extra : Bytes
  comment : Bytes

namespace Raw

/-- The fields that header and entry share, with their widths. -/
def shared (r : Raw) : List (Nat × Nat) :=
  [(2, writtenVersion), (2, r.flags), (2, r.method), (2, r.time), (2, r.date), (4, r.checksum),
    (4, r.compressedSize), (4, r.size), (2, r.name.length), (2, r.extra.length)]

/-- The fields of the entry of a member whose header is at `offset`. -/
def entryFields (r : Raw) (offset : Nat) : List (Nat × Nat) :=
  (1, writtenVersion) :: (1, r.system) :: r.shared ++
    [(2, r.comment.length), (2, 0), (2, r.internal), (4, r.external), (4, offset)]

/-- The header of the member. -/
def header (r : Raw) : Bytes := headerMark ++ fieldBytes r.shared ++ (r.name ++ r.extra)

/-- The entry of the member, whose header is at `offset`. -/
def entry (r : Raw) (offset : Nat) : Bytes :=
  entryMark ++ fieldBytes (r.entryFields offset) ++ (r.name ++ (r.extra ++ r.comment))

/-- Every field is wide enough for its value. -/
structure Fits (r : Raw) : Prop where
  system : r.system < 0x100
  flags : r.flags < 0x10000
  method : r.method < 0x10000
  time : r.time < 0x10000
  date : r.date < 0x10000
  checksum : r.checksum < 0x100000000
  compressedSize : r.compressedSize < 0x100000000
  size : r.size < 0x100000000
  internal : r.internal < 0x10000
  external : r.external < 0x100000000
  name : r.name.length < 0x10000
  extra : r.extra.length < 0x10000
  comment : r.comment.length < 0x10000

/-- The member as it is read, but for its limit. -/
def member (r : Raw) (fullName : Text) (offset : Nat) : Member where
  name := fullName.takeWhile (· ≠ 0)
  method := r.method
  date := r.date
  time := r.time
  comment := r.comment
  extra := r.extra
  system := r.system
  internal := r.internal
  external := r.external
  fullName := fullName
  flags := r.flags
  checksum := r.checksum
  compressedSize := r.compressedSize
  size := r.size
  offset := offset
  limit := 0

variable {r : Raw} {fullName : Text}

theorem length_entry (r : Raw) (offset : Nat) : (r.entry offset).length =
    entrySize + (r.name.length + (r.extra.length + r.comment.length)) := by
  have hfields : (entryMark ++ fieldBytes (r.entryFields offset)).length = entrySize := rfl
  rw [entry, List.length_append, hfields, List.length_append, List.length_append]

/-- The entry that a member has in the directory is read. -/
theorem readEntry_entry (h : r.Fits) (hoffset : offset < 0x100000000)
    (hname : decodeName r.flags r.name = .ok fullName)
    (hextra : Extent.ofExtra ⟨r.size, r.compressedSize, offset⟩ r.extra =
      .ok ⟨r.size, r.compressedSize, offset⟩) (rest : Bytes) :
    readEntry 0 (r.entry offset ++ rest) = .ok (r.member fullName offset, rest) := by
  have hfield := Bytes.littleAt_eq (r.entry offset ++ rest)
  -- the texts follow one after another behind the fields
  have htexts : r.entry offset ++ rest = (entryMark ++ fieldBytes (r.entryFields offset)) ++
      (r.name ++ (r.extra ++ (r.comment ++ rest))) := by
    simp only [entry, List.append_assoc]
  have hfront : (entryMark ++ fieldBytes (r.entryFields offset)).length = entrySize := rfl
  have hlength : ¬ (r.entry offset ++ rest).length < entrySize := by
    rw [htexts, List.length_append, hfront]
    omega
  have hnameBytes : Bytes.slice (r.entry offset ++ rest) entrySize r.name.length = r.name := by
    rw [htexts]
    exact Bytes.slice_append hfront rfl
  have hextraBytes : Bytes.slice (r.entry offset ++ rest) (entrySize + r.name.length)
      r.extra.length = r.extra := by
    rw [htexts, ← List.append_assoc]
    exact Bytes.slice_append (by rw [List.length_append, hfront]) rfl
  have hcommentBytes : Bytes.slice (r.entry offset ++ rest)
      (entrySize + r.name.length + r.extra.length) r.comment.length = r.comment := by
    rw [htexts, ← List.append_assoc, ← List.append_assoc]
    exact Bytes.slice_append (by rw [List.length_append, List.length_append, hfront]) rfl
  have hrest : (r.entry offset ++ rest).drop (entrySize + r.name.length + r.extra.length +
      r.comment.length) = rest := by
    rw [htexts, ← List.append_assoc, ← List.append_assoc, ← List.append_assoc]
    exact List.drop_left' (by simp only [List.length_append, hfront])
  have hversion := hfield 6 1 (show writtenVersion < Nat.pow 256 1 by decide) rfl
  unfold readEntry
  simp only [hfield 5 1 h.system rfl, hversion, hfield 8 2 h.flags rfl,
    hfield 10 2 h.method rfl, hfield 12 2 h.time rfl, hfield 14 2 h.date rfl,
    hfield 16 4 h.checksum rfl, hfield 20 4 h.compressedSize rfl, hfield 24 4 h.size rfl,
    hfield 28 2 h.name rfl, hfield 30 2 h.extra rfl, hfield 32 2 h.comment rfl,
    hfield 36 2 h.internal rfl, hfield 38 4 h.external rfl, hfield 42 4 hoffset rfl]
  rw [if_neg hlength, hnameBytes, hextraBytes, hcommentBytes, hrest, hname, hextra]
  rfl

/-- The directory is read entry by entry. -/
theorem readEntries_entry_append (h : r.Fits) (hoffset : offset < 0x100000000)
    (hname : decodeName r.flags r.name = .ok fullName)
    (hextra : Extent.ofExtra ⟨r.size, r.compressedSize, offset⟩ r.extra =
      .ok ⟨r.size, r.compressedSize, offset⟩) (fuel : Nat) (rest : Bytes) :
    readEntries 0 (fuel + 1) (r.entry offset ++ rest) =
      (readEntries 0 fuel rest).map (r.member fullName offset :: ·) := by
  obtain ⟨b, bytes, hcons⟩ : ∃ b bytes, r.entry offset ++ rest = b :: bytes := ⟨_, _, rfl⟩
  have hentry := readEntry_entry h hoffset hname hextra rest
  rw [hcons] at hentry ⊢
  show (readEntry 0 (b :: bytes) >>= fun p => readEntries 0 fuel p.2 >>= fun ms =>
    pure (p.1 :: ms)) = _
  rw [hentry]
  show (readEntries 0 fuel rest >>= fun ms => pure (r.member fullName offset :: ms)) = _
  cases readEntries 0 fuel rest <;> rfl

theorem length_header (r : Raw) :
    r.header.length = headerSize + (r.name.length + r.extra.length) := by
  have hfields : (headerMark ++ fieldBytes r.shared).length = headerSize := rfl
  rw [header, List.length_append, hfields, List.length_append]

/-- The data of a member are looked for behind its header. -/
theorem dataPlace_header {m : Member} {front : Bytes} (h : r.Fits)
    (hoffset : m.offset = front.length) (hfront : front.length < 0x100000000)
    (hflags : m.flags = r.flags) (hpatched : hasBit r.flags 0x20 = false)
    (hstrong : hasBit r.flags 0x40 = false) (hname : decodeName r.flags r.name = .ok m.fullName)
    (rest : Bytes) :
    m.dataPlace (front ++ (r.header ++ rest)) = .ok (front.length + r.header.length : Nat) := by
  have hfield := Bytes.littleAt_eq (r.header ++ rest)
  have htexts : r.header ++ rest = (headerMark ++ fieldBytes r.shared) ++
      (r.name ++ (r.extra ++ rest)) := by
    simp only [header, List.append_assoc]
  have hfields : (headerMark ++ fieldBytes r.shared).length = headerSize := rfl
  have hnameBytes : Bytes.slice (r.header ++ rest) headerSize r.name.length = r.name := by
    rw [htexts]
    exact Bytes.slice_append hfields rfl
  have hextraBytes : Bytes.slice (r.header ++ rest) (headerSize + r.name.length)
      r.extra.length = r.extra := by
    rw [htexts, ← List.append_assoc]
    exact Bytes.slice_append (by rw [List.length_append, hfields]) rfl
  have hheader : (front ++ (r.header ++ rest)).drop m.offset.toNat = r.header ++ rest := by
    rw [hoffset, Int.toNat_natCast, List.drop_left]
  have hlength : ¬ ((r.header ++ rest).take headerSize).length < headerSize := by
    rw [List.length_take, List.length_append, length_header]
    omega
  unfold Member.dataPlace
  rw [if_neg (by rw [hoffset]; unfold wordEnd; omega),
    if_neg (by rw [hoffset]; unfold greatestOffset; omega)]
  simp only [hheader, hfield 6 2 h.flags rfl, hfield 26 2 h.name rfl, hfield 28 2 h.extra rfl]
  rw [if_neg hlength, hflags, hpatched, hstrong, hnameBytes, hextraBytes, hname]
  show (if m.fullName ≠ m.fullName then _ else Except.ok (m.offset +
    (headerSize + r.name.length + r.extra.length : Nat))) = _
  rw [if_neg fun hne => hne rfl, hoffset, length_header, Nat.add_assoc]
  rfl

/-- The data of a member are those of the stored bytes behind its header. -/
theorem contents_header {m : Member} {data : Bytes} (front stored : Bytes) (h : r.Fits)
    (hoffset : m.offset = front.length) (hfront : front.length < 0x100000000)
    (hflags : m.flags = r.flags) (hplain : hasBit r.flags 1 = false)
    (hpatched : hasBit r.flags 0x20 = false) (hstrong : hasBit r.flags 0x40 = false)
    (hname : decodeName r.flags r.name = .ok m.fullName)
    (hstored : stored.length = m.compressedSize)
    (hlimit : (front.length + r.header.length + stored.length : Nat) ≤ m.limit)
    (hunpack : unpack m.method m.compressedSize m.size stored = .ok data)
    (hchecksum : Crc32.checksum data = m.checksum) (rest : Bytes) :
    m.contents (front ++ (r.header ++ (stored ++ rest))) = .ok data := by
  have hplace := dataPlace_header h hoffset hfront hflags hpatched hstrong hname (stored ++ rest)
  have hslice : Bytes.slice (front ++ (r.header ++ (stored ++ rest)))
      (front.length + r.header.length) m.compressedSize = stored := by
    rw [← List.append_assoc]
    exact Bytes.slice_append List.length_append hstored
  have hfits : ¬ ((front.length + r.header.length : Nat) : Int) + m.compressedSize > m.limit := by
    omega
  unfold Member.contents
  rw [hplace]
  simp only [bind, Except.bind]
  rw [if_neg hfits, hflags, hplain, if_neg Bool.false_ne_true, Int.toNat_natCast, hslice, hunpack]
  dsimp only
  rw [if_pos hchecksum]
  rfl

end Raw

end Archive

end Jarsmith
