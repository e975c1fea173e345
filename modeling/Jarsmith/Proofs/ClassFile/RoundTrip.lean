import Jarsmith.ClassFile.Decode
import Jarsmith.Proofs.ClassFile.Constant
import Jarsmith.Proofs.Result

/-!
# Class files, there and back

Every part of a class file has one form, that which is written for it, and is read exactly from
this form if it is well formed: if each name that was read with it is the text that the pool has at
its index, and if each attribute of a method is kept as code exactly if it is named so. So reading
and writing undo each other: `decodeWithRest_eq_ok_iff` says which bytes are read as which class
file, and what is left of them. That what was read is written as it was, to the byte, is
`encode?_of_decode`.
-/

namespace Jarsmith.ClassFile

open Decoder

variable {pool : ConstantPool} {bytes : Bytes}

/-! ### Attributes -/

/-- The name is the text at its index. -/
def Attribute.WellFormed (pool : ConstantPool) (a : Attribute) : Prop :=
  pool.utf8 a.nameIndex = .ok a.name

theorem Attribute.decode_reads (pool : ConstantPool) :
    Reads (decode pool) fun a bytes => a.WellFormed pool ∧ a.encode? = some bytes := by
  unfold decode encode? attributeBytes?
  refine Reads.number_bind fun nameIndex => ?_
  refine Reads.lift_bind (g := Attribute.name) (fun a h => ?_) fun name hname => ?_
  · rw [← h.1]
    exact h.2
  refine Reads.number_bind fun length => ?_
  refine Reads.bytes_bind (fun a h => Int.ofNat.inj h.1) fun info hinfo => ?_
  refine Reads.record fun a => ?_
  constructor
  · rintro ⟨rfl, -, rfl, hindex, -⟩
    rw [← hindex]
  · rintro rfl
    exact ⟨rfl, congrArg Int.ofNat hinfo, rfl, rfl, hname⟩

/-! ### Code -/

/-- The attributes are well formed, and the exception table is made of whole rows. -/
structure Code.WellFormed (pool : ConstantPool) (c : Code) : Prop where
  attributes : ∀ a ∈ c.attributes, a.WellFormed pool
  exceptionTable : 8 ∣ c.exceptionTable.length

theorem Code.fieldsDecoder_reads (pool : ConstantPool) (nameIndex : Int) :
    Reads (fieldsDecoder pool nameIndex) fun c bytes =>
      (c.nameIndex = nameIndex ∧ c.WellFormed pool) ∧ c.info? = some bytes := by
  unfold fieldsDecoder info?
  refine Reads.number_bind fun maxStack => ?_
  refine Reads.number_bind fun maxLocals => ?_
  refine Reads.number_bind fun length => ?_
  refine Reads.bytes_bind (fun c h => Int.ofNat.inj h.1) fun code hcode => ?_
  refine Reads.number_bind fun rows => ?_
  refine Reads.bytes_bind (fun c h => ?_) fun exceptionTable htable => ?_
  · have hrows : c.exceptionTable.length / 8 = rows := Int.ofNat.inj h.1
    have hdvd := h.2.2.2.2.2.2.exceptionTable
    omega
  refine Reads.counted_bind (Attribute.decode_reads pool)
    (fun c h => h.2.2.2.2.2.2.2.attributes) fun attributes hattributes => ?_
  refine Reads.record fun c => ?_
  constructor
  · rintro ⟨hattributes, hexceptionTable, -, hcode, -, hmaxLocals, hmaxStack, hnameIndex, -⟩
    rw [← hattributes, ← hexceptionTable, ← hcode, ← hmaxLocals, ← hmaxStack, ← hnameIndex]
  · rintro rfl
    have hrows : exceptionTable.length / 8 = rows := by omega
    exact ⟨rfl, rfl, congrArg Int.ofNat hrows, rfl, congrArg Int.ofNat hcode, rfl, rfl, rfl,
      hattributes, rows, by rw [htable, Nat.mul_comm]⟩

/-- An attribute holds code if its contents are exactly what is written for the code. -/
theorem Code.ofAttribute_eq_ok_iff {a : Attribute} {c : Code} : ofAttribute pool a = .ok c ↔
    c.nameIndex = a.nameIndex ∧ c.WellFormed pool ∧ c.info? = some a.info := by
  have hreads {after : Cursor} :
      (fieldsDecoder pool a.nameIndex).run (.start a.info) = .ok (c, after) ↔
        ∃ bytes, ((c.nameIndex = a.nameIndex ∧ c.WellFormed pool) ∧ c.info? = some bytes) ∧
          a.info = bytes ++ after.rest ∧ after.offset = bytes.length :=
    (fieldsDecoder_reads pool a.nameIndex).run_start_eq_ok
  unfold ofAttribute
  rw [Except.bind_eq_ok]
  constructor
  · rintro ⟨⟨_, after⟩, hrun, h⟩
    dsimp only at h
    split at h
    · next hempty =>
      obtain rfl := Except.ok.inj h
      obtain ⟨bytes, ⟨⟨hindex, hc⟩, hinfo⟩, hall, -⟩ := hreads.1 hrun
      rw [List.isEmpty_iff.1 hempty, List.append_nil] at hall
      exact ⟨hindex, hc, hall ▸ hinfo⟩
    · exact absurd h Except.throw_ne_ok
  · rintro ⟨hindex, hc, hinfo⟩
    exact ⟨(c, ⟨a.info.length, []⟩),
      hreads.2 ⟨a.info, ⟨⟨hindex, hc⟩, hinfo⟩, (List.append_nil _).symm, rfl⟩, rfl⟩

/-! ### Members -/

/-- The attributes of fields are all kept as they are. -/
def MemberAttribute.WellFormedRaw (pool : ConstantPool) : MemberAttribute → Prop
  | .raw a => a.WellFormed pool
  | .code _ => False

/-- Of the attributes of methods those are kept as code that have its name. -/
def MemberAttribute.WellFormed (pool : ConstantPool) : MemberAttribute → Prop
  | .raw a => a.WellFormed pool ∧ a.name ≠ codeName
  | .code c => pool.utf8 c.nameIndex = .ok codeName ∧ c.WellFormed pool

theorem MemberAttribute.decodeRaw_reads (pool : ConstantPool) :
    Reads (decodeRaw pool) fun a bytes => a.WellFormedRaw pool ∧ a.encode? = some bytes :=
  (Attribute.decode_reads pool).map.congr fun a bytes => by
    constructor
    · rintro ⟨a, ha, rfl⟩
      exact ha
    · rintro ⟨ha, hbytes⟩
      cases a with
      | raw a => exact ⟨a, ⟨ha, hbytes⟩, rfl⟩
      | code c => exact ha.elim

/-- Once an attribute was read no more bytes are taken: code is read from its contents. -/
theorem MemberAttribute.ofContents_reads (pool : ConstantPool) (contents : Attribute) : Reads
    (show Decoder MemberAttribute from if contents.name = codeName then
      do return .code (← Code.ofAttribute pool contents) else return .raw contents)
    (fun a bytes => bytes = [] ∧ if contents.name = codeName then
      ∃ c, Code.ofAttribute pool contents = .ok c ∧ a = .code c else a = .raw contents) := by
  split
  · refine (Reads.lift (Code.ofAttribute pool contents)).map.congr fun a bytes => ?_
    constructor
    · rintro ⟨c, ⟨hc, rfl⟩, rfl⟩
      exact ⟨rfl, c, hc, rfl⟩
    · rintro ⟨rfl, c, hc, rfl⟩
      exact ⟨c, ⟨hc, rfl⟩, rfl⟩
  · exact (Reads.pure _).congr fun a bytes => and_comm

theorem MemberAttribute.decode_reads (pool : ConstantPool) :
    Reads (decode pool) fun a bytes => a.WellFormed pool ∧ a.encode? = some bytes := by
  refine ((Attribute.decode_reads pool).bind fun contents _ _ =>
    ofContents_reads pool contents).congr fun a bytes => ?_
  constructor
  · rintro ⟨contents, b, _, ⟨hwf, hb⟩, ⟨rfl, h⟩, rfl⟩
    rw [List.append_nil]
    split at h
    · next hname =>
      obtain ⟨c, hc, rfl⟩ := h
      obtain ⟨hindex, hc, hinfo⟩ := Code.ofAttribute_eq_ok_iff.1 hc
      refine ⟨⟨?_, hc⟩, ?_⟩
      · rw [hindex, ← hname]
        exact hwf
      · show c.info?.bind (attributeBytes? c.nameIndex) = some b
        rw [hinfo, hindex]
        exact hb
    · next hname =>
      subst h
      exact ⟨⟨hwf, hname⟩, hb⟩
  · rintro ⟨ha, hb⟩
    cases a with
    | raw a =>
      obtain ⟨hwf, hname⟩ := ha
      exact ⟨a, bytes, [], ⟨hwf, hb⟩, ⟨rfl, by rw [if_neg hname]⟩, (List.append_nil _).symm⟩
    | code c =>
      obtain ⟨hname, hc⟩ := ha
      obtain ⟨info, hinfo, hb⟩ := Option.bind_eq_some_iff.1 hb
      refine ⟨⟨codeName, c.nameIndex, info⟩, bytes, [], ⟨hname, hb⟩, ⟨rfl, ?_⟩,
        (List.append_nil _).symm⟩
      rw [if_pos rfl]
      exact ⟨c, Code.ofAttribute_eq_ok_iff.2 ⟨rfl, hc, hinfo⟩, rfl⟩

/-- The texts are those at their indexes, and so are those of the attributes. -/
structure Member.WellFormed (pool : ConstantPool) (P : MemberAttribute → Prop) (m : Member) :
    Prop where
  name : pool.utf8 m.nameIndex = .ok m.name
  descriptor : pool.utf8 m.descriptorIndex = .ok m.descriptor
  attributes : ∀ a ∈ m.attributes, P a

theorem Member.decode_reads (pool : ConstantPool) {P : MemberAttribute → Prop}
    {attributeDecoder : Decoder MemberAttribute}
    (h : Reads attributeDecoder fun a bytes => P a ∧ a.encode? = some bytes) :
    Reads (decode pool attributeDecoder) fun m bytes =>
      m.WellFormed pool P ∧ m.encode? = some bytes := by
  unfold decode encode?
  refine Reads.number_bind fun accessFlags => ?_
  refine Reads.number_bind fun nameIndex => ?_
  refine Reads.number_bind fun descriptorIndex => ?_
  refine Reads.counted_bind h (fun m hm => hm.2.2.2.attributes) fun attributes hattributes => ?_
  refine Reads.lift_bind (g := Member.name) (fun m hm => ?_) fun name hname => ?_
  · obtain ⟨-, -, hindex, -, hm⟩ := hm
    rw [← hindex]
    exact hm.name
  refine Reads.lift_bind (g := Member.descriptor) (fun m hm => ?_) fun descriptor hdescriptor => ?_
  · obtain ⟨-, -, hindex, -, -, hm⟩ := hm
    rw [← hindex]
    exact hm.descriptor
  refine Reads.record fun m => ?_
  constructor
  · rintro ⟨hdescriptor, hname, hattributes, hdescriptorIndex, hnameIndex, haccessFlags, -⟩
    rw [← hdescriptor, ← hname, ← hattributes, ← hdescriptorIndex, ← hnameIndex, ← haccessFlags]
  · rintro rfl
    exact ⟨rfl, rfl, rfl, rfl, rfl, rfl, hname, hdescriptor, hattributes⟩

/-! ### The whole file -/

/-- The parts are well formed, with their texts in the pool. -/
structure WellFormed (c : ClassFile) : Prop where
  pool : c.pool.WellFormed
  fields : ∀ m ∈ c.fields, m.WellFormed c.pool (·.WellFormedRaw c.pool)
  methods : ∀ m ∈ c.methods, m.WellFormed c.pool (·.WellFormed c.pool)
  attributes : ∀ a ∈ c.attributes, a.WellFormed c.pool

theorem decoder_reads : Reads decoder fun c bytes => c.WellFormed ∧ c.encode? = some bytes := by
  unfold decoder encode?
  -- the number at the beginning is no part of the class file: it is the same for all
  refine Reads.number_bind (g := fun _ => magic) fun number => ?_
  dsimp only
  split
  · next hmagic =>
    refine (Reads.fail_bind _).congr fun c bytes => iff_of_false id ?_
    rintro ⟨⟨h, -⟩, -⟩
    exact hmagic (Int.ofNat.inj h).symm
  refine Reads.number_bind fun minorVersion => ?_
  refine Reads.number_bind fun majorVersion => ?_
  refine Reads.part_bind ConstantPool.decode_reads (fun c h => h.2.2.2.pool) fun pool hpool => ?_
  refine Reads.number_bind fun accessFlags => ?_
  refine Reads.number_bind fun thisClass => ?_
  refine Reads.number_bind fun superClass => ?_
  refine Reads.counted_number_bind fun interfaces => ?_
  refine Reads.counted_bind (Member.decode_reads pool (MemberAttribute.decodeRaw_reads pool))
    (fun c h => ?_) fun fields hfields => ?_
  · obtain ⟨-, -, -, -, rfl, -, -, -, h⟩ := h
    exact h.fields
  refine Reads.counted_bind (Member.decode_reads pool (MemberAttribute.decode_reads pool))
    (fun c h => ?_) fun methods hmethods => ?_
  · obtain ⟨-, -, -, -, -, rfl, -, -, -, h⟩ := h
    exact h.methods
  refine Reads.counted_bind (Attribute.decode_reads pool)
    (fun c h => ?_) fun attributes hattributes => ?_
  · obtain ⟨-, -, -, -, -, -, rfl, -, -, -, h⟩ := h
    exact h.attributes
  refine Reads.record fun c => ?_
  constructor
  · rintro ⟨hattributes, hmethods, hfields, hinterfaces, hsuperClass, hthisClass, haccessFlags,
      hpool, hmajorVersion, hminorVersion, -⟩
    rw [← hattributes, ← hmethods, ← hfields, ← hinterfaces, ← hsuperClass, ← hthisClass,
      ← haccessFlags, ← hpool, ← hmajorVersion, ← hminorVersion]
  · rintro rfl
    have hnumber : magic = number := by omega
    exact ⟨rfl, rfl, rfl, rfl, rfl, rfl, rfl, rfl, rfl, rfl, congrArg Int.ofNat hnumber,
      hpool, hfields, hmethods, hattributes⟩

variable {c : ClassFile} {data rest : Bytes}

/-- Bytes are read as a class file exactly if it is well formed and they begin with what is written
for it; all that follows is left. -/
theorem decodeWithRest_eq_ok_iff : decodeWithRest data = .ok (c, rest) ↔
    c.WellFormed ∧ ∃ written, c.encode? = some written ∧ data = written ++ rest := by
  unfold decodeWithRest
  rw [Except.map_eq_ok]
  constructor
  · rintro ⟨⟨_, after⟩, hrun, heq⟩
    obtain ⟨rfl, rfl⟩ := Prod.mk.inj heq
    obtain ⟨written, ⟨hc, hwritten⟩, hdata, -⟩ := decoder_reads.run_start_eq_ok.1 hrun
    exact ⟨hc, written, hwritten, hdata⟩
  · rintro ⟨hc, written, hwritten, rfl⟩
    exact ⟨(c, ⟨written.length, rest⟩),
      decoder_reads.run_start_eq_ok.2 ⟨written, ⟨hc, hwritten⟩, rfl, rfl⟩, rfl⟩

theorem decode_eq_ok_iff : decode data = .ok c ↔
    c.WellFormed ∧ ∃ written rest, c.encode? = some written ∧ data = written ++ rest := by
  unfold decode
  rw [Except.map_eq_ok]
  constructor
  · rintro ⟨⟨_, rest⟩, h, rfl⟩
    obtain ⟨hc, written, h⟩ := decodeWithRest_eq_ok_iff.1 h
    exact ⟨hc, written, rest, h⟩
  · rintro ⟨hc, written, rest, h⟩
    exact ⟨(c, rest), decodeWithRest_eq_ok_iff.2 ⟨hc, written, h⟩, rfl⟩

/-- What was read is written as it was, up to the bytes that were not read: whatever stands in their
place is left in the same way. -/
theorem encode?_of_decode (h : decode data = .ok c) : ∃ written rest, c.encode? = some written ∧
    data = written ++ rest ∧ ∀ other, decodeWithRest (written ++ other) = .ok (c, other) := by
  obtain ⟨hc, written, rest, hwritten, hdata⟩ := decode_eq_ok_iff.1 h
  exact ⟨written, rest, hwritten, hdata,
    fun other => decodeWithRest_eq_ok_iff.2 ⟨hc, written, hwritten, rfl⟩⟩

namespace Sample

/-- A constant of a text of ASCII characters. -/
def utf8 (t : Text) : Bytes := [1, 0, t.length.toUInt8] ++ t.map (·.toUInt8)

/-- A class `Q` with a constant of eight bytes, a method with code, two attributes of one name, and
two bytes after it. -/
def withMethod : Bytes :=
  [0xCA, 0xFE, 0xBA, 0xBE, 0, 0, 0, 52] ++
    ([0, 9] ++ utf8 "Q" ++ [7, 0, 1] ++ utf8 "Code" ++ [5, 1, 2, 3, 4, 5, 6, 7, 8] ++
      utf8 "LineNumberTable" ++ utf8 "m" ++ utf8 "()V") ++
    [0, 0x21, 0, 2, 0, 0, 0, 1, 0, 2, 0, 0] ++
    -- the code has one row in its exception table and one line number
    ([0, 1, 0, 1, 0, 7, 0, 8, 0, 1, 0, 3, 0, 0, 0, 29] ++ [0, 1, 0, 1, 0, 0, 0, 1, 0xB1] ++
      [0, 1, 0, 0, 0, 1, 0, 0, 0, 0] ++ [0, 1, 0, 6, 0, 0, 0, 2, 0, 0]) ++
    [0, 2, 0, 7, 0, 0, 0, 1, 9, 0, 7, 0, 0, 0, 0] ++ [1, 2]

end Sample

theorem encode?_of_decode_withMethod : ∃ c, decode Sample.withMethod = .ok c ∧
    ∃ written rest, c.encode? = some written ∧ Sample.withMethod = written ++ rest ∧
      ∀ other, decodeWithRest (written ++ other) = .ok (c, other) := by
  have hread : ((decode Sample.withMethod).toOption.map fun c => c.methods.map (·.code?.isSome)) =
      some [true] := by decide +kernel
  cases h : decode Sample.withMethod with
  | error e => simp [h, Except.toOption] at hread
  | ok c => exact ⟨c, rfl, encode?_of_decode h⟩

end Jarsmith.ClassFile
