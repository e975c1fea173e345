import Jarsmith.Proofs.Archive.Extra
import Jarsmith.Proofs.Archive.Layout
import Jarsmith.Proofs.Archive.ReadBack
import Jarsmith.Proofs.Deflate.RoundTrip

/-!
# Archives are read back

What an archive was written from is what is read from it (`readsBack_of_storable`), if each member
can be stored (`NewMember.Storable`) and the archive is `Ordinary`: its sizes fit four bytes, and
the bytes before its end record are not by chance the mark of a locator. The archive is that of
`encode`, without records of large archives; one of more than 65535 members would have them in
spite of its size, and is not meant here.

Header and entry of a written member are those of its `raw` form, so that what is read from them is
known. What is left is where things stand. The headers follow one another as the members do
(`placedFrom`), so that the data of a member end where the next header or the directory begins, and
its limit leaves room for them (`le_limitOf`).
-/

namespace Jarsmith.Archive

/-! ### Extra fields -/

/-- A record that is not of large archives changes no size. -/
theorem Extent.ofExtra_bytes_append (extent : Extent) {r : Extra.Record}
    (h : r.id ≠ Extra.largeId) (rest : Bytes) :
    extent.ofExtra (r.bytes ++ rest) = extent.ofExtra rest := by
  obtain ⟨a, b, c, d, hbytes, hid, hsize⟩ := r.exists_bytes_eq
  rw [hbytes]
  show extent.ofExtra (a :: b :: c :: d :: (r.data ++ rest)) = _
  rw [ofExtra, hid, hsize, List.drop_left, if_neg (by simp), if_neg h]

theorem Extent.ofExtra_records (extent : Extent) {records : List Extra.Record}
    (h : ∀ r ∈ records, r.id ≠ Extra.largeId) :
    extent.ofExtra (records.flatMap Extra.Record.bytes) = .ok extent := by
  induction records with
  | nil => simp [ofExtra]
  | cons r records ih =>
    obtain ⟨hr, hrecords⟩ := List.forall_mem_cons.1 h
    rw [List.flatMap_cons, ofExtra_bytes_append extent hr, ih hrecords]

/-! ### Members that are written -/

/-- A name in ASCII is the same in the code of a single byte a character. -/
theorem CodePage437.decode_ascii {t : Text} (h : ∀ c ∈ t, c < 0x80) :
    CodePage437.decode (t.flatMap Utf8.encodePoint) = t := by
  induction t with
  | nil => rfl
  | cons c t ih =>
    obtain ⟨hc, ht⟩ := List.forall_mem_cons.1 h
    have hbyte : c.toUInt8.toNat = c := Utf8.toNat_toUInt8 (Nat.lt_trans hc (by decide))
    have hlow : c.toUInt8 < 0x80 := UInt8.lt_iff_toNat_lt.2 (by rw [hbyte]; exact hc)
    rw [List.flatMap_cons, Utf8.encodePoint_one hc]
    show CodePage437.decodeByte c.toUInt8 :: CodePage437.decode (t.flatMap Utf8.encodePoint) = _
    rw [ih ht, CodePage437.decodeByte, if_pos hlow, hbyte]

namespace NewMember

variable {m : NewMember}

/-- What header and entry of a written member say. -/
def raw (m : NewMember) : Raw where
  system := m.entry.system
  flags := if m.isAscii then 0 else utf8Flag
  method := m.entry.method
  time := m.entry.time
  date := m.entry.date
  checksum := Crc32.checksum m.data
  compressedSize := m.stored.length
  size := m.data.length
  internal := m.entry.internal
  external := m.recorded.external
  name := m.nameBytes
  extra := m.entry.extra
  comment := m.entry.comment

theorem body_eq (m : NewMember) : m.body = m.raw.header ++ m.stored := by
  simp [body, sharedFields, Raw.header, Raw.shared, raw, fieldBytes]

theorem directoryEntry_eq (m : NewMember) (offset : Nat) :
    m.directoryEntry offset = m.raw.entry offset := by
  simp [directoryEntry, sharedFields, Raw.entry, Raw.entryFields, Raw.shared, raw, fieldBytes,
    recorded]

/-- A member that can be read back: its fields are wide enough, its name is a text without NUL, its
extra field has no records of large archives, and its data are stored by a method that is read. -/
structure Storable (m : NewMember) : Prop where
  fits : m.raw.Fits
  name : IsUnicode m.entry.name
  noNul : 0 ∉ m.entry.name
  extra : ∃ records : List Extra.Record, m.entry.extra = records.flatMap Extra.Record.bytes ∧
    ∀ r ∈ records, r.id ≠ Extra.largeId
  method : m.entry.method = storedMethod ∨ m.entry.method = deflatedMethod

/-- A name is read in the code in which it was written. -/
theorem decodeName_raw (hname : IsUnicode m.entry.name) :
    decodeName m.raw.flags m.raw.name = .ok m.entry.name := by
  unfold raw decodeName
  dsimp only
  cases hascii : m.isAscii with
  | true =>
    rw [if_pos rfl, if_neg (by decide)]
    have hlow (c : CodePoint) (hc : c ∈ m.entry.name) : c < 0x80 :=
      of_decide_eq_true (List.all_eq_true.1 hascii c hc)
    exact congrArg _ (CodePage437.decode_ascii hlow)
  | false =>
    rw [if_neg Bool.false_ne_true, if_pos (by decide), nameBytes,
      Utf8.decode_encode hname.scalar hname.range]

/-- The data are unpacked from their stored form. -/
theorem unpack_stored (hmethod : m.entry.method = storedMethod ∨ m.entry.method = deflatedMethod) :
    unpack m.entry.method m.stored.length m.data.length m.stored = .ok m.data := by
  obtain ⟨complete, hfound⟩ :
      ∃ complete, decompress m.entry.method m.stored = .ok ⟨m.data, complete⟩ := by
    unfold decompress stored
    rcases hmethod with hmethod | hmethod
    · rw [hmethod, if_neg (by decide), if_neg (by decide)]
      exact ⟨false, rfl⟩
    · rw [if_pos hmethod, if_pos hmethod, Deflate.inflate_deflate]
      exact ⟨true, rfl⟩
  unfold unpack
  rw [if_neg fun h => Nat.lt_irrefl _ h.1, hfound]
  show (if _ then _ else _) = _
  rw [if_neg fun h => Nat.lt_irrefl _ h.1, List.take_length]
  rfl

/-- The member as it is read from an entry that places its header at `offset`, but for its limit. -/
def placed (m : NewMember) (offset : Nat) : Member := m.raw.member m.entry.name offset

theorem length_body_pos (m : NewMember) : 0 < m.body.length := by
  have hheader : 0 < headerSize := by decide
  rw [body_eq, List.length_append, Raw.length_header]
  omega

/-- What is recorded of a member is read from its entry. -/
theorem toEntry_placed (hnul : 0 ∉ m.entry.name) (offset : Nat) :
    (m.placed offset).toEntry = m.recorded := by
  have hname : m.entry.name.takeWhile (· ≠ 0) = m.entry.name := by
    rw [List.takeWhile_eq_self_iff]
    intro c hc
    simpa using fun heq : c = 0 => hnul (heq ▸ hc)
  show ({ m.recorded with name := m.entry.name.takeWhile (· ≠ 0) } : Entry) = m.recorded
  rw [hname]
  rfl

/-- The data of a written member are read, wherever it stands, if its limit leaves room for them. -/
theorem contents_placed {x : Member} {front : Bytes} (h : m.Storable)
    (hfront : front.length < 0x100000000) {limit : Int}
    (hx : x = { m.placed front.length with limit })
    (hlimit : (front.length + m.body.length : Nat) ≤ limit) (rest : Bytes) :
    x.contents (front ++ (m.body ++ rest)) = .ok m.data := by
  have hflags (value : Nat) (hvalue : hasBit 0 value = false ∧ hasBit utf8Flag value = false) :
      hasBit m.raw.flags value = false := by
    unfold raw
    dsimp only
    split
    · exact hvalue.1
    · exact hvalue.2
  subst x
  rw [body_eq, List.append_assoc]
  refine Raw.contents_header front m.stored h.fits rfl hfront rfl (hflags 1 (by decide))
    (hflags 0x20 (by decide)) (hflags 0x40 (by decide)) (decodeName_raw h.name) rfl ?_
    (unpack_stored h.method) rfl rest
  rw [body_eq, List.length_append, ← Nat.add_assoc] at hlimit
  exact hlimit

end NewMember

/-! ### The directory -/

variable {written before after members : List NewMember} {offset : Nat}

/-- The members as they are read from a directory, the first header being at `offset`. -/
def placedFrom : (offset : Nat) → List NewMember → List Member
  | _, [] => []
  | offset, m :: members => m.placed offset :: placedFrom (offset + m.body.length) members

theorem readEntries_directoryBytes {fuel : Nat} (hall : ∀ m ∈ members, m.Storable)
    (hsize : offset + (members.flatMap NewMember.body).length < 0x100000000)
    (hfuel : (directoryBytes offset members).length ≤ fuel) :
    readEntries 0 fuel (directoryBytes offset members) = .ok (placedFrom offset members) := by
  induction members generalizing offset fuel with
  | nil => cases fuel <;> rfl
  | cons m members ih =>
    obtain ⟨hm, hmembers⟩ := List.forall_mem_cons.1 hall
    obtain ⟨records, hrecords, hids⟩ := hm.extra
    have hentry : 0 < entrySize := by decide
    rw [List.flatMap_cons, List.length_append] at hsize
    rw [directoryBytes, NewMember.directoryEntry_eq, List.length_append, Raw.length_entry] at hfuel
    obtain ⟨fuel, rfl⟩ := Nat.exists_eq_succ_of_ne_zero (show fuel ≠ 0 by omega)
    have hextent : Extent.ofExtra ⟨m.raw.size, m.raw.compressedSize, offset⟩ m.raw.extra =
        .ok ⟨m.raw.size, m.raw.compressedSize, offset⟩ := by
      show Extent.ofExtra _ m.entry.extra = _
      rw [hrecords]
      exact Extent.ofExtra_records _ hids
    rw [directoryBytes, NewMember.directoryEntry_eq, Nat.succ_eq_add_one,
      Raw.readEntries_entry_append hm.fits (by omega) (NewMember.decodeName_raw hm.name) hextent,
      ih hmembers (by omega) (by omega)]
    rfl

/-- The headers stand one after another. -/
theorem offset_of_mem_placedFrom {x : Member} (h : x ∈ placedFrom offset members) :
    (offset : Int) ≤ x.offset ∧
      x.offset < (offset + (members.flatMap NewMember.body).length : Nat) := by
  induction members generalizing offset with
  | nil => exact absurd h List.not_mem_nil
  | cons m members ih =>
    have hpos := m.length_body_pos
    rw [List.flatMap_cons, List.length_append]
    rcases List.mem_cons.1 h with rfl | h
    · show (offset : Int) ≤ (offset : Int) ∧ (offset : Int) < _
      omega
    · have hx := ih h
      omega

theorem placedFrom_append (offset : Nat) (before after : List NewMember) :
    placedFrom offset (before ++ after) = placedFrom offset before ++
      placedFrom (offset + (before.flatMap NewMember.body).length) after := by
  induction before generalizing offset with
  | nil => rfl
  | cons m before ih =>
    rw [List.cons_append, placedFrom, placedFrom, ih, List.flatMap_cons, List.length_append,
      Nat.add_assoc]
    rfl

theorem length_placedFrom (offset : Nat) (members : List NewMember) :
    (placedFrom offset members).length = members.length := by
  induction members generalizing offset with
  | nil => rfl
  | cons m members ih => rw [placedFrom, List.length_cons, List.length_cons, ih]

/-! ### Limits -/

theorem le_foldl_least {bound least : Int} {offsets : List Int} (hleast : bound ≤ least)
    (h : ∀ x ∈ offsets, bound ≤ x) :
    bound ≤ offsets.foldl (fun least offset => if offset < least then offset else least) least := by
  induction offsets generalizing least with
  | nil => exact hleast
  | cons x offsets ih =>
    obtain ⟨hx, hoffsets⟩ := List.forall_mem_cons.1 h
    refine ih ?_ hoffsets
    dsimp only
    split
    · exact hx
    · exact hleast

/-- Where no entry before has the same header, the limit leaves the room that the headers after it
and the directory leave. -/
theorem le_limitOf {bound directory : Int} {before members : List Member} {m : Member}
    (hbefore : ∀ b ∈ before, b.offset ≠ m.offset) (hdirectory : bound ≤ directory)
    (hlater : ∀ x ∈ members, m.offset < x.offset → bound ≤ x.offset) :
    bound ≤ limitOf directory before members m := by
  have hnone : before.any (·.offset == m.offset) = false := by
    simpa using hbefore
  have hoffsets : ∀ x ∈ (members.map (·.offset)).filter (m.offset < ·), bound ≤ x := by
    intro x hx
    obtain ⟨hx, hlt⟩ := List.mem_filter.1 hx
    obtain ⟨y, hy, rfl⟩ := List.mem_map.1 hx
    exact hlater y hy (of_decide_eq_true hlt)
  unfold limitOf
  rw [hnone, if_neg Bool.false_ne_true]
  refine le_foldl_least ?_ hoffsets
  cases hcons : (members.map (·.offset)).filter (m.offset < ·) with
  | nil => exact hdirectory
  | cons x _ => exact hoffsets x (hcons ▸ List.mem_cons_self)

/-! ### Archives -/

/-- The member at an index, with its limit. -/
def limited (directory : Int) (members : List Member) (entry : Member × Nat) : Member :=
  { entry.1 with limit := limitOf directory (members.take entry.2) members entry.1 }

/-- A member that stands where it was written is read as what was written. -/
theorem holds_limited {directory : Int} {tail : Bytes} {new : NewMember} (hnew : new.Storable)
    (hsize : ((before ++ new :: after).flatMap NewMember.body).length < 0x100000000)
    (hdirectory : (((before ++ new :: after).flatMap NewMember.body).length : Nat) ≤ directory) :
    Holds ((before ++ new :: after).flatMap NewMember.body ++ tail)
      (limited directory (placedFrom 0 (before ++ new :: after))
        (new.placed (before.flatMap NewMember.body).length, before.length)) new := by
  have hplaced : placedFrom 0 (before ++ new :: after) = placedFrom 0 before ++
      placedFrom (before.flatMap NewMember.body).length (new :: after) := by
    rw [placedFrom_append, Nat.zero_add]
  have htake : (placedFrom 0 (before ++ new :: after)).take before.length =
      placedFrom 0 before := by
    rw [hplaced]
    exact List.take_left' (length_placedFrom 0 before)
  rw [List.flatMap_append, List.flatMap_cons, List.length_append, List.length_append] at *
  have hentry := NewMember.toEntry_placed hnew.noNul (before.flatMap NewMember.body).length
  refine ⟨hentry, ?_⟩
  rw [List.append_assoc, List.append_assoc]
  refine NewMember.contents_placed hnew (by omega) rfl ?_ _
  rw [htake, hplaced]
  -- no header stands in the data of the member
  refine le_limitOf (fun b hb => ?_) (by omega) fun x hx hlater => ?_
  · have hb := (offset_of_mem_placedFrom hb).2
    show b.offset ≠ ((before.flatMap NewMember.body).length : Int)
    omega
  · have hlater : ((before.flatMap NewMember.body).length : Int) < x.offset := hlater
    rcases List.mem_append.1 hx with hx | hx
    · have hx := (offset_of_mem_placedFrom hx).2
      omega
    · rcases List.mem_cons.1 hx with rfl | hx
      · exact absurd hlater (Int.lt_irrefl _)
      · exact (offset_of_mem_placedFrom hx).1

/-- The members of an archive, from one of them on, are read as what was written. -/
theorem forall₂_holds {directory : Int} {tail : Bytes} (hall : ∀ m ∈ written, m.Storable)
    (hsize : (written.flatMap NewMember.body).length < 0x100000000)
    (hdirectory : ((written.flatMap NewMember.body).length : Nat) ≤ directory)
    (before after : List NewMember) (hwritten : written = before ++ after) :
    List.Forall₂ (Holds (written.flatMap NewMember.body ++ tail))
      (((placedFrom (before.flatMap NewMember.body).length after).zipIdx before.length).map
        (limited directory (placedFrom 0 written))) after := by
  induction after generalizing before with
  | nil => exact .nil
  | cons new after ih =>
    have hnext := ih (before ++ [new]) (by rw [hwritten, List.append_assoc]; rfl)
    rw [List.flatMap_append, List.flatMap_singleton, List.length_append, List.length_append,
      List.length_singleton] at hnext
    rw [placedFrom, List.zipIdx_cons, List.map_cons]
    refine .cons ?_ hnext
    subst hwritten
    exact holds_limited (hall new (by simp)) hsize hdirectory

/-- The sizes and places of the archive need no records of large archives, and nothing that stands
before its end record is taken for the locator of one. -/
structure Ordinary (written : List NewMember) : Prop where
  size : (encode written).length < 0x100000000
  data : ∀ m ∈ written, m.data.length < 0x100000000
  unmarked : let front := written.flatMap NewMember.body ++ directoryBytes 0 written
    locatorMark.isPrefixOf (front.drop (front.length - locatorSize)) = false

example : Ordinary [⟨⟨"a", deflatedMethod, 0x21, 0, [], [9, 0, 0, 0], 3, 0, 0⟩, [1, 1], .standard⟩,
    ⟨⟨"é", storedMethod, 0x21, 0, [0x63], [], 3, 0, 1⟩, [], .standard⟩] := by
  constructor <;> decide +kernel

theorem length_stored_le {m : NewMember} (h : m ∈ written) :
    m.stored.length ≤ (encode written).length := by
  obtain ⟨before, after, rfl⟩ := List.append_of_mem h
  unfold encode
  dsimp only
  rw [List.flatMap_append, List.flatMap_cons, m.body_eq]
  simp only [List.length_append]
  omega

/-- **Round trip**: an archive of members that can be read back is read back. Its bytes are those of
`encode`, which are the bytes of an archive only up to 65535 members: more would be told in the
records of large archives, as sizes and places from 4 GiB on would be. -/
theorem readsBack_of_storable (hall : ∀ m ∈ written, m.Storable) (h : Ordinary written) :
    ReadsBack written := by
  have hencode : encode written = written.flatMap NewMember.body ++ directoryBytes 0 written ++
      endRecord written.length (directoryBytes 0 written).length
        (written.flatMap NewMember.body).length := rfl
  have hsize := h.size
  rw [hencode, List.length_append, List.length_append] at hsize
  have hread : ofBytes (encode written) = .ok
      ⟨setLimits (written.flatMap NewMember.body).length (placedFrom 0 written), []⟩ := by
    rw [hencode, ofBytes_append (by omega) (by omega) h.unmarked,
      readEntries_directoryBytes hall (by omega) (Nat.le_refl _)]
    rfl
  refine ⟨_, hread, ?_⟩
  rw [hencode, List.append_assoc]
  exact forall₂_holds hall (by omega) (Int.le_refl _) [] written rfl

end Jarsmith.Archive
