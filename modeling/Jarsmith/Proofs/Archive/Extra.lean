import Mathlib.Data.List.TakeWhile
import Jarsmith.Archive.Extra
import Jarsmith.Proofs.Archive.Obstacle
import Jarsmith.Proofs.Bytes.Field
import Jarsmith.Proofs.Text.Scalar

/-!
# What the directory says of a member

An archive is opened only if the extra field of every member is a sequence of records with up to
three bytes after it, and its name has no surrogates, whichever of the two codes it is in
(`ofEntry_of_ofBytes`). From such a field the records of large archives are dropped, together with
the bytes at the end (`Extra.dropLarge_records`).
-/

namespace Jarsmith.Archive

/-! ### Extra fields -/

namespace Extra

/-- A record of an extra field. Its identifier and the size of its data fit in two bytes. -/
structure Record where
  id : Nat
  data : Bytes
  id_lt : id < 0x10000
  size_lt : data.length < 0x10000

/-- The bytes of a record. -/
def Record.bytes (r : Record) : Bytes :=
  Bytes.ofLittle 2 r.id ++ Bytes.ofLittle 2 r.data.length ++ r.data

/-- A record is read as its identifier, its size, and its data. -/
theorem Record.exists_bytes_eq (r : Record) : ∃ a b c d, r.bytes = a :: b :: c :: d :: r.data ∧
    Bytes.little [a, b] = r.id ∧ Bytes.little [c, d] = r.data.length := by
  have hid : Bytes.little (Bytes.ofLittle 2 r.id) = r.id := Bytes.little_ofLittle r.id_lt
  have hsize : Bytes.little (Bytes.ofLittle 2 r.data.length) = r.data.length :=
    Bytes.little_ofLittle r.size_lt
  exact ⟨_, _, _, _, rfl, hid, hsize⟩

/-- The first record is dropped if it is one of large archives, and else kept as it is. -/
theorem dropLarge_bytes_append (r : Record) (rest : Bytes) : dropLarge (r.bytes ++ rest) =
    if r.id = largeId then dropLarge rest else r.bytes ++ dropLarge rest := by
  obtain ⟨a, b, c, d, hbytes, hid, hsize⟩ := r.exists_bytes_eq
  rw [hbytes]
  show dropLarge (a :: b :: c :: d :: (r.data ++ rest)) = _
  rw [dropLarge, hid, hsize, List.drop_left, List.take_left]

theorem dropLarge_of_length_le {tail : Bytes} (h : tail.length ≤ 3) : dropLarge tail = [] := by
  unfold dropLarge
  split
  · simp only [List.length_cons] at h
    omega
  · rfl

/-- Of records with up to three bytes after them, those are left that are not of large archives. -/
theorem dropLarge_records (records : List Record) {tail : Bytes} (htail : tail.length ≤ 3) :
    dropLarge (records.flatMap Record.bytes ++ tail) =
      (records.filter (·.id ≠ largeId)).flatMap Record.bytes := by
  induction records with
  | nil => exact dropLarge_of_length_le htail
  | cons r records ih =>
    rw [List.flatMap_cons, List.append_assoc, dropLarge_bytes_append, ih]
    by_cases hid : r.id = largeId
    · rw [if_pos hid, List.filter_cons_of_neg (by simp [hid])]
    · rw [if_neg hid, List.filter_cons_of_pos (by simp [hid]), List.flatMap_cons]

theorem length_dropLarge_le (extra : Bytes) : (dropLarge extra).length ≤ extra.length := by
  fun_induction dropLarge extra with
  | case1 a b c d rest size tail _ ih =>
    have htail : tail.length ≤ rest.length - size := by rwa [List.length_drop] at ih
    simp only [List.length_cons]
    omega
  | case2 a b c d rest size tail _ ih =>
    have htail : tail.length ≤ rest.length - size := by rwa [List.length_drop] at ih
    simp only [List.length_cons, List.length_append, List.length_take]
    omega
  | case3 => exact Nat.zero_le _

/-- The field is a sequence of records with up to three bytes after it. -/
def WellFormed (extra : Bytes) : Prop :=
  ∃ (records : List Record) (tail : Bytes), tail.length ≤ 3 ∧
    extra = records.flatMap Record.bytes ++ tail

end Extra

/-- A field whose records can be walked is a sequence of them. -/
theorem Extent.wellFormed_of_ofExtra {extent extent' : Extent} {extra : Bytes}
    (h : extent.ofExtra extra = .ok extent') : Extra.WellFormed extra := by
  have hcons {a b c d : UInt8} {rest : Bytes}
      (hsize : ¬ rest.length < Bytes.little [c, d])
      (hrest : Extra.WellFormed (rest.drop (Bytes.little [c, d]))) :
      Extra.WellFormed (a :: b :: c :: d :: rest) := by
    obtain ⟨records, tail, htail, hrecords⟩ := hrest
    have hlength : (rest.take (Bytes.little [c, d])).length = Bytes.little [c, d] := by
      rw [List.length_take]
      omega
    have hfits (a b : UInt8) : Bytes.little [a, b] < 0x10000 := by
      have := Bytes.little_lt [a, b]
      simpa using this
    let r : Extra.Record := ⟨Bytes.little [a, b], rest.take (Bytes.little [c, d]), hfits a b,
      by rw [hlength]; exact hfits c d⟩
    have hbytes : r.bytes = a :: b :: c :: d :: rest.take (Bytes.little [c, d]) := by
      have hid : Bytes.ofLittle 2 (Bytes.little [a, b]) = [a, b] := Bytes.ofLittle_little [a, b]
      have hlittle : Bytes.ofLittle 2 (Bytes.little [c, d]) = [c, d] :=
        Bytes.ofLittle_little [c, d]
      unfold Extra.Record.bytes
      rw [hlength, hid, hlittle]
      rfl
    refine ⟨r :: records, tail, htail, ?_⟩
    rw [List.flatMap_cons, List.append_assoc, ← hrecords, hbytes]
    simp
  fun_induction Extent.ofExtra extent extra with
  | case1 => simp at h
  | case2 extent a b c d rest _ _ hsize _ ih =>
    obtain ⟨next, -, h⟩ := Except.bind_eq_ok.1 h
    exact hcons hsize (ih next h)
  | case3 extent a b c d rest _ _ hsize _ ih => exact hcons hsize (ih h)
  | case4 extent extra hshort =>
    refine ⟨[], extra, ?_, rfl⟩
    rcases extra with _ | ⟨a, _ | ⟨b, _ | ⟨c, _ | ⟨d, rest⟩⟩⟩⟩
    iterate 4 simp
    exact (hshort a b c d rest rfl).elim

/-! ### Names -/

theorem CodePage437.lt_of_mem_decode {bytes : Bytes} {c : CodePoint}
    (h : c ∈ CodePage437.decode bytes) : c < 0xD800 := by
  have hupper : ∀ c ∈ CodePage437.upperHalf.toList, c < 0xD800 := by decide +kernel
  obtain ⟨b, -, rfl⟩ := List.mem_map.1 h
  unfold CodePage437.decodeByte
  split
  · exact Nat.lt_trans b.toNat_lt (by decide)
  · unfold Array.getD
    split
    · exact hupper _ (Array.getElem_mem_toList _)
    · decide

/-- A text that other programs can write: no surrogates, and nothing beyond the code points. -/
structure IsUnicode (t : Text) : Prop where
  scalar : t.IsScalar
  range : ∀ c ∈ t, c < 0x110000

theorem isUnicode_of_decodeName {flags : Nat} {bytes : Bytes} {name : Text}
    (h : decodeName flags bytes = .ok name) : IsUnicode name := by
  unfold decodeName at h
  split at h
  · split at h
    · next hdecode =>
      obtain rfl := Except.ok.inj h
      exact ⟨Utf8.isScalar_of_decode hdecode, Utf8.lt_of_decode hdecode⟩
    · simp at h
  · obtain rfl := Except.ok.inj h
    have hlt {c : CodePoint} (hc : c ∈ CodePage437.decode bytes) : c < 0xD800 :=
      CodePage437.lt_of_mem_decode hc
    exact ⟨fun c hc => CodePoint.isSurrogate_eq_false_iff.2 (.inl (hlt hc)),
      fun c hc => Nat.lt_trans (hlt hc) (by decide)⟩

/-! ### Entries of the directory -/

/-- What is told of a member by the entry that it was read from. -/
structure Member.OfEntry (m : Member) : Prop where
  wellFormed : Extra.WellFormed m.extra
  name : IsUnicode m.name
  noNul : 0 ∉ m.name
  system : m.system < 0x100
  method : m.method < 0x10000
  time : m.time < 0x10000
  date : m.date < 0x10000
  internal : m.internal < 0x10000
  external : m.external < 0x100000000
  extra : m.extra.length < 0x10000
  comment : m.comment.length < 0x10000

theorem readEntry_eq_ok {shift : Int} {bytes rest : Bytes} {m : Member}
    (h : readEntry shift bytes = .ok (m, rest)) : m.OfEntry := by
  have hfield := Bytes.littleAt_lt bytes
  have htext (offset i : Nat) : (Bytes.slice bytes offset (Bytes.littleAt bytes i 2)).length <
      0x10000 := Nat.lt_of_le_of_lt (Bytes.length_slice_le _ _ _) (hfield i 2)
  unfold readEntry at h
  obtain ⟨-, h⟩ := Except.guard_eq_ok.1 h
  obtain ⟨-, h⟩ := Except.guard_eq_ok.1 h
  obtain ⟨fullName, hname, h⟩ := Except.bind_eq_ok.1 h
  obtain ⟨-, h⟩ := Except.guard_eq_ok.1 h
  obtain ⟨extent, hextent, h⟩ := Except.bind_eq_ok.1 h
  obtain ⟨rfl, -⟩ := Prod.mk.inj (Except.ok.inj h)
  have hunicode := isUnicode_of_decodeName hname
  -- the name is what stands before the first NUL
  have hsub := (List.takeWhile_sublist (l := fullName) fun c => c ≠ 0).subset
  exact {
    wellFormed := Extent.wellFormed_of_ofExtra hextent
    name := ⟨fun c hc => hunicode.scalar c (hsub hc), fun c hc => hunicode.range c (hsub hc)⟩
    noNul := fun hc => by simpa using List.mem_takeWhile_imp hc
    system := hfield 5 1
    method := hfield 10 2
    time := hfield 12 2
    date := hfield 14 2
    internal := hfield 36 2
    external := hfield 38 4
    extra := htext _ 30
    comment := htext _ 32 }

/-- Every member of an archive was read from an entry of the directory. -/
theorem ofEntry_of_readEntries {shift : Int} {fuel : Nat} {bytes : Bytes} {members : List Member}
    (h : readEntries shift fuel bytes = .ok members) : ∀ m ∈ members, m.OfEntry := by
  induction fuel generalizing bytes members with
  | zero =>
    obtain rfl := Except.ok.inj h
    simp
  | succ fuel ih =>
    cases bytes with
    | nil =>
      obtain rfl := Except.ok.inj h
      simp
    | cons b bytes =>
      obtain ⟨⟨m, rest⟩, hm, h⟩ := Except.bind_eq_ok.1 h
      obtain ⟨ms, hms, h⟩ := Except.bind_eq_ok.1 h
      obtain rfl : m :: ms = members := Except.ok.inj h
      exact List.forall_mem_cons.2 ⟨readEntry_eq_ok hm, ih hms⟩

theorem ofEntry_of_ofBytes {bytes : Bytes} {archive : Archive} (h : ofBytes bytes = .ok archive) :
    ∀ m ∈ archive.members, m.OfEntry := by
  unfold ofBytes at h
  obtain ⟨record, -, h⟩ := Except.bind_eq_ok.1 h
  obtain ⟨-, h⟩ := Except.guard_eq_ok.1 h
  obtain ⟨members, hmembers, h⟩ := Except.bind_eq_ok.1 h
  obtain rfl := Except.ok.inj h
  -- the limits that were set are neither names nor extra fields
  intro m hm
  obtain ⟨⟨m', i⟩, hm', rfl⟩ := List.mem_map.1 hm
  have hentry := ofEntry_of_readEntries hmembers m' (List.fst_mem_of_mem_zipIdx hm')
  exact { hentry with }

end Jarsmith.Archive
