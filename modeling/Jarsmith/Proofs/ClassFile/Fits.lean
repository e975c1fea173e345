import Jarsmith.Proofs.ClassFile.RoundTrip

/-!
# Which class files can be written

Writing computes every count and every length from the parts, and fails only where a number is too
large for its field. So a class file can be written exactly if all its numbers fit (`Fits`,
`isSome_encode?_iff`); the one length that is not that of a part is that of the contents of a code
attribute (`Code.size`).

What is written for a well-formed class file can be read again, whatever follows it, and a beginning
of it cannot (`decode_encode?`). That needs no look at the places where it may be cut off: no form
of a class file is the beginning of the form of another one (`encode?_append_inj`).
-/

namespace Jarsmith.ClassFile

variable {bytes : Bytes}

/-! ### Numbers and parts -/

/-- The number fits a field of two bytes. -/
def IsShort (n : Int) : Prop := 0 ≤ n ∧ n < 0x10000

/-- The length fits a field of four bytes. -/
def IsLength (n : Nat) : Prop := n < 0x100000000

theorem isShort_natCast {n : Nat} : IsShort n ↔ n < 0x10000 := by
  unfold IsShort
  omega

theorem isSome_ofBig?_two_iff {n : Int} : (Bytes.ofBig? 2 n).isSome = true ↔ IsShort n := by
  have hpow : ((Nat.pow 256 2 : Nat) : Int) = 0x10000 := rfl
  unfold Bytes.ofBig? IsShort
  rw [hpow]
  split
  · next h => exact iff_of_true rfl h
  · next h => exact iff_of_false (by simp) h

theorem isSome_ofBig?_four_iff {n : Nat} :
    (Bytes.ofBig? 4 n).isSome = true ↔ IsLength n := by
  have hpow : ((Nat.pow 256 4 : Nat) : Int) = 0x100000000 := rfl
  unfold Bytes.ofBig? IsLength
  rw [hpow]
  split
  · next h => exact iff_of_true rfl (by omega)
  · next h => exact iff_of_false (by simp) (by omega)

theorem isSome_concat?_iff {parts : List (Option Bytes)} :
    (concat? parts).isSome = true ↔ ∀ part ∈ parts, part.isSome = true := by
  induction parts with
  | nil => simp [concat?]
  | cons part parts ih =>
    rw [List.forall_mem_cons, ← ih]
    simp only [Option.isSome_iff_exists, concat?_cons_eq_some_iff]
    constructor
    · rintro ⟨_, b, rest, hb, hrest, rfl⟩
      exact ⟨⟨b, hb⟩, rest, hrest⟩
    · rintro ⟨⟨b, hb⟩, rest, hrest⟩
      exact ⟨b ++ rest, b, rest, hb, hrest, rfl⟩

theorem isSome_counted?_iff {α : Type} {encode? : α → Option Bytes} {xs : List α} :
    (counted? (xs.map encode?)).isSome = true ↔
      xs.length < 0x10000 ∧ ∀ x ∈ xs, (encode? x).isSome = true := by
  unfold counted?
  rw [isSome_concat?_iff, List.forall_mem_cons, List.length_map, isSome_ofBig?_two_iff,
    isShort_natCast, List.forall_mem_map]

theorem length_of_ofBig? {width : Nat} {n : Int} (h : Bytes.ofBig? width n = some bytes) :
    bytes.length = width := (Bytes.ofBig?_eq_some_iff.1 h).1

/-! ### Attributes -/

namespace Attribute

variable {a : Attribute}

/-- The index and the length fit their fields. -/
structure Fits (a : Attribute) : Prop where
  nameIndex : IsShort a.nameIndex
  info : IsLength a.info.length

/-- The number of bytes that are written. -/
def size (a : Attribute) : Nat := 6 + a.info.length

end Attribute

theorem isSome_attributeBytes?_iff {nameIndex : Int} {info : Bytes} :
    (attributeBytes? nameIndex info).isSome = true ↔
      IsShort nameIndex ∧ IsLength info.length := by
  unfold attributeBytes?
  simp only [isSome_concat?_iff, List.forall_mem_cons, isSome_ofBig?_two_iff,
    isSome_ofBig?_four_iff]
  simp

theorem length_of_attributeBytes? {nameIndex : Int} {info : Bytes}
    (h : attributeBytes? nameIndex info = some bytes) : bytes.length = 6 + info.length := by
  unfold attributeBytes? at h
  simp only [concat?_cons_eq_some_iff, concat?_nil_eq_some_iff, Option.some.injEq] at h
  obtain ⟨index, _, hindex, ⟨length, _, hlength, ⟨_, _, rfl, rfl, rfl⟩, rfl⟩, rfl⟩ := h
  simp only [List.length_append, length_of_ofBig? hindex, length_of_ofBig? hlength,
    List.length_nil]
  omega

namespace Attribute

variable {a : Attribute}

theorem isSome_encode?_iff : a.encode?.isSome = true ↔ a.Fits := by
  unfold encode?
  rw [isSome_attributeBytes?_iff]
  exact ⟨fun ⟨hindex, hinfo⟩ => ⟨hindex, hinfo⟩, fun h => ⟨h.nameIndex, h.info⟩⟩

/-- The number of bytes that are written for attributes one after another. -/
def sizes (as : List Attribute) : Nat := as.foldr (fun a n => a.size + n) 0

theorem length_of_concat? {as : List Attribute} (h : concat? (as.map encode?) = some bytes) :
    bytes.length = sizes as := by
  induction as generalizing bytes with
  | nil =>
    obtain rfl := concat?_nil_eq_some_iff.1 h
    rfl
  | cons a as ih =>
    obtain ⟨b, rest, hb, hrest, rfl⟩ := concat?_cons_eq_some_iff.1 h
    rw [List.length_append, length_of_attributeBytes? hb, ih hrest]
    rfl

end Attribute

/-! ### Code -/

namespace Code

variable {c : Code}

/-- The number of bytes of the contents: those of the parts, and twelve for the two numbers, the
length and the two counts. -/
def size (c : Code) : Nat :=
  12 + c.code.length + c.exceptionTable.length + Attribute.sizes c.attributes

/-- The numbers and the counts fit their fields, and so does the length of the contents. -/
structure Fits (c : Code) : Prop where
  nameIndex : IsShort c.nameIndex
  maxStack : IsShort c.maxStack
  maxLocals : IsShort c.maxLocals
  code : IsLength c.code.length
  rows : c.exceptionTable.length / 8 < 0x10000
  count : c.attributes.length < 0x10000
  attributes : ∀ a ∈ c.attributes, a.Fits
  info : IsLength c.size

theorem length_of_info? (h : c.info? = some bytes) : bytes.length = c.size := by
  unfold info? at h
  simp only [concat?_cons_eq_some_iff, concat?_nil_eq_some_iff, Option.some.injEq,
    counted?_eq_some_iff] at h
  obtain ⟨stack, _, hstack, ⟨locals, _, hlocals, ⟨length, _, hlength, ⟨_, _, rfl, ⟨rows, _, hrows,
    ⟨_, _, rfl, ⟨_, _, ⟨count, _, hcount, hattributes, rfl⟩, rfl, rfl⟩, rfl⟩, rfl⟩, rfl⟩, rfl⟩,
    rfl⟩, rfl⟩ := h
  simp only [List.length_append, length_of_ofBig? hstack, length_of_ofBig? hlocals,
    length_of_ofBig? hlength, length_of_ofBig? hrows, length_of_ofBig? hcount,
    Attribute.length_of_concat? hattributes, List.length_nil]
  unfold size
  omega

theorem isSome_encode?_iff : c.encode?.isSome = true ↔ c.Fits := by
  have hattributes : (∀ a ∈ c.attributes, a.encode?.isSome = true) ↔
      ∀ a ∈ c.attributes, a.Fits := forall₂_congr fun a _ => Attribute.isSome_encode?_iff
  have hinfo : c.info?.isSome = true ↔ IsShort c.maxStack ∧ IsShort c.maxLocals ∧
      IsLength c.code.length ∧ c.exceptionTable.length / 8 < 0x10000 ∧
      c.attributes.length < 0x10000 ∧ ∀ a ∈ c.attributes, a.Fits := by
    have hrows : IsShort ((c.exceptionTable.length : Int) / 8) ↔
        c.exceptionTable.length / 8 < 0x10000 := isShort_natCast
    unfold info?
    simp only [isSome_concat?_iff, List.forall_mem_cons, isSome_ofBig?_two_iff,
      isSome_ofBig?_four_iff, hrows, isSome_counted?_iff, hattributes]
    simp
  unfold encode?
  constructor
  · intro h
    obtain ⟨bytes, h⟩ := Option.isSome_iff_exists.1 h
    obtain ⟨info, hsome, hbytes⟩ := Option.bind_eq_some_iff.1 h
    obtain ⟨hindex, hlength⟩ := isSome_attributeBytes?_iff.1 (Option.isSome_of_eq_some hbytes)
    rw [length_of_info? hsome] at hlength
    obtain ⟨hstack, hlocals, hcode, hrows, hcount, hall⟩ := hinfo.1 (Option.isSome_of_eq_some hsome)
    exact ⟨hindex, hstack, hlocals, hcode, hrows, hcount, hall, hlength⟩
  · intro h
    obtain ⟨info, hsome⟩ := Option.isSome_iff_exists.1
      (hinfo.2 ⟨h.maxStack, h.maxLocals, h.code, h.rows, h.count, h.attributes⟩)
    rw [hsome, Option.bind_some, isSome_attributeBytes?_iff, length_of_info? hsome]
    exact ⟨h.nameIndex, h.info⟩

end Code

/-! ### Members and the whole file -/

/-- The numbers of an attribute of a member fit their fields. -/
def MemberAttribute.Fits : MemberAttribute → Prop
  | .raw a => a.Fits
  | .code c => c.Fits

theorem MemberAttribute.isSome_encode?_iff {a : MemberAttribute} :
    a.encode?.isSome = true ↔ a.Fits := by
  cases a with
  | raw a => exact Attribute.isSome_encode?_iff
  | code c => exact Code.isSome_encode?_iff

/-- The numbers of a member fit their fields. -/
structure Member.Fits (m : Member) : Prop where
  accessFlags : IsShort m.accessFlags
  nameIndex : IsShort m.nameIndex
  descriptorIndex : IsShort m.descriptorIndex
  count : m.attributes.length < 0x10000
  attributes : ∀ a ∈ m.attributes, a.Fits

theorem Member.isSome_encode?_iff {m : Member} : m.encode?.isSome = true ↔ m.Fits := by
  have hattributes : (∀ a ∈ m.attributes, a.encode?.isSome = true) ↔
      ∀ a ∈ m.attributes, a.Fits := forall₂_congr fun a _ => MemberAttribute.isSome_encode?_iff
  unfold encode?
  simp only [isSome_concat?_iff, List.forall_mem_cons, isSome_ofBig?_two_iff,
    isSome_counted?_iff, hattributes]
  constructor
  · rintro ⟨hflags, hname, hdescriptor, ⟨hcount, hall⟩, -⟩
    exact ⟨hflags, hname, hdescriptor, hcount, hall⟩
  · rintro ⟨hflags, hname, hdescriptor, hcount, hall⟩
    exact ⟨hflags, hname, hdescriptor, ⟨hcount, hall⟩, by simp⟩

/-- The numbers of a class file fit their fields, and so do its counts and lengths. -/
structure Fits (c : ClassFile) : Prop where
  minorVersion : IsShort c.minorVersion
  majorVersion : IsShort c.majorVersion
  poolSize : c.pool.size < 0x10000
  accessFlags : IsShort c.accessFlags
  thisClass : IsShort c.thisClass
  superClass : IsShort c.superClass
  interfaceCount : c.interfaces.length < 0x10000
  interfaces : ∀ index ∈ c.interfaces, IsShort index
  fieldCount : c.fields.length < 0x10000
  fields : ∀ m ∈ c.fields, m.Fits
  methodCount : c.methods.length < 0x10000
  methods : ∀ m ∈ c.methods, m.Fits
  attributeCount : c.attributes.length < 0x10000
  attributes : ∀ a ∈ c.attributes, a.Fits

theorem ConstantPool.isSome_encode?_iff {pool : ConstantPool} :
    pool.encode?.isSome = true ↔ pool.size < 0x10000 := by
  rw [← isShort_natCast, ← isSome_ofBig?_two_iff]
  unfold encode?
  cases Bytes.ofBig? 2 pool.size <;> rfl

/-- A class file can be written exactly if its numbers fit their fields. -/
theorem isSome_encode?_iff {c : ClassFile} : c.encode?.isSome = true ↔ c.Fits := by
  have hmagic : (Bytes.ofBig? 4 magic).isSome = true := rfl
  have hmembers (ms : List Member) : (∀ m ∈ ms, m.encode?.isSome = true) ↔ ∀ m ∈ ms, m.Fits :=
    forall₂_congr fun m _ => Member.isSome_encode?_iff
  have hattributes : (∀ a ∈ c.attributes, a.encode?.isSome = true) ↔
      ∀ a ∈ c.attributes, a.Fits := forall₂_congr fun a _ => Attribute.isSome_encode?_iff
  unfold encode?
  simp only [isSome_concat?_iff, List.forall_mem_cons, hmagic, isSome_ofBig?_two_iff,
    isSome_counted?_iff, ConstantPool.isSome_encode?_iff, hmembers, hattributes]
  constructor
  · rintro ⟨-, hminor, hmajor, hpool, hflags, hthis, hsuper, ⟨hinterfaceCount, hinterfaces⟩,
      ⟨hfieldCount, hfields⟩, ⟨hmethodCount, hmethods⟩, ⟨hattributeCount, hall⟩, -⟩
    exact ⟨hminor, hmajor, hpool, hflags, hthis, hsuper, hinterfaceCount, hinterfaces,
      hfieldCount, hfields, hmethodCount, hmethods, hattributeCount, hall⟩
  · intro h
    exact ⟨trivial, h.minorVersion, h.majorVersion, h.poolSize, h.accessFlags, h.thisClass,
      h.superClass, ⟨h.interfaceCount, h.interfaces⟩, ⟨h.fieldCount, h.fields⟩,
      ⟨h.methodCount, h.methods⟩, ⟨h.attributeCount, h.attributes⟩, by simp⟩

instance (c : ClassFile) : Decidable c.Fits := decidable_of_iff _ isSome_encode?_iff

/-! ### Forms that tell their end -/

variable {c c' : ClassFile} {written written' rest rest' cut : Bytes}

/-- Bytes begin with the form of one well-formed class file only. -/
theorem encode?_append_inj (hc : c.WellFormed) (hc' : c'.WellFormed)
    (h : c.encode? = some written) (h' : c'.encode? = some written')
    (heq : written ++ rest = written' ++ rest') : c = c' ∧ rest = rest' := by
  have hread : decodeWithRest (written ++ rest) = .ok (c, rest) :=
    decodeWithRest_eq_ok_iff.2 ⟨hc, written, h, rfl⟩
  have hread' : decodeWithRest (written ++ rest) = .ok (c', rest') :=
    decodeWithRest_eq_ok_iff.2 ⟨hc', written', h', heq⟩
  exact Prod.mk.inj (Except.ok.inj (hread.symm.trans hread'))

/-- A beginning of the form that is not the whole of it is not read as any class file. -/
theorem decode_eq_error_of_prefix (hc : c.WellFormed) (h : c.encode? = some written)
    (hcut : cut <+: written) (hne : cut ≠ written) : ∃ e, decode cut = .error e := by
  cases hread : decode cut with
  | error e => exact ⟨e, rfl⟩
  | ok c' =>
    obtain ⟨hc', form, rest, hform, rfl⟩ := decode_eq_ok_iff.1 hread
    obtain ⟨missing, hmissing⟩ := hcut
    have hwhole : written ++ [] = form ++ (rest ++ missing) := by
      rw [List.append_nil, ← hmissing, List.append_assoc]
    obtain ⟨-, hnil⟩ := encode?_append_inj hc hc' h hform hwhole
    obtain ⟨-, rfl⟩ := List.append_eq_nil_iff.1 hnil.symm
    rw [List.append_nil] at hmissing
    exact absurd hmissing hne

/-- **Reading what was written.** A well-formed class file whose numbers fit their fields can be
written. From what is written it is read as it was, whatever follows, which is left; but no
beginning of what is written is a class file. -/
theorem decode_encode? (hc : c.WellFormed) (hfits : c.Fits) :
    ∃ written, c.encode? = some written ∧
      (∀ rest, decodeWithRest (written ++ rest) = .ok (c, rest)) ∧
      ∀ cut, cut <+: written → cut ≠ written → ∃ e, decode cut = .error e := by
  obtain ⟨written, hwritten⟩ := Option.isSome_iff_exists.1 (isSome_encode?_iff.2 hfits)
  exact ⟨written, hwritten, fun rest => decodeWithRest_eq_ok_iff.2 ⟨hc, written, hwritten, rfl⟩,
    fun _ => decode_eq_error_of_prefix hc hwritten⟩

namespace Sample

/-- The class `Q` with a number of eight bytes in its pool, a field, and a method whose code has a
row in its exception table and two attributes, one of which is named as code is. -/
def withCode : ClassFile where
  minorVersion := 0
  majorVersion := 52
  pool := ⟨[none, some ⟨1, [0, 1, 0x51]⟩, some ⟨7, [0, 1]⟩,
    some ⟨1, [0, 4, 0x43, 0x6F, 0x64, 0x65]⟩, some ⟨5, [1, 2, 3, 4, 5, 6, 7, 8]⟩, none,
    some ⟨1, [0, 1, 0x6D]⟩, some ⟨1, [0, 3, 0x28, 0x29, 0x56]⟩]⟩
  accessFlags := 0x21
  thisClass := 2
  superClass := 0
  interfaces := [2]
  fields := [⟨1, 6, 7, [.raw ⟨"Code", 3, [1, 2, 3]⟩], "m", "()V"⟩]
  methods := [⟨1, 6, 7,
    [.code ⟨3, 1, 1, [0xB1], [0, 0, 0, 1, 0, 0, 0, 0], [⟨"m", 6, [9]⟩, ⟨"Code", 3, []⟩]⟩,
      .raw ⟨"m", 6, []⟩], "m", "()V"⟩]
  attributes := [⟨"Q", 1, [5, 6]⟩]

end Sample

theorem decode_encode?_withCode : Sample.withCode.WellFormed ∧ Sample.withCode.Fits ∧
    ∃ written, Sample.withCode.encode? = some written ∧
      (∀ rest, decodeWithRest (written ++ rest) = .ok (Sample.withCode, rest)) ∧
      ∀ cut, cut <+: written → cut ≠ written → ∃ e, decode cut = .error e := by
  have hread : (Sample.withCode.encode?.bind fun written => (decode written).toOption) =
      some Sample.withCode := by decide +kernel
  obtain ⟨written, -, hread⟩ := Option.bind_eq_some_iff.1 hread
  have hwf : Sample.withCode.WellFormed :=
    (decode_eq_ok_iff.1 (Except.toOption_eq_some.1 hread)).1
  have hfits : Sample.withCode.Fits := by decide +kernel
  exact ⟨hwf, hfits, decode_encode? hwf hfits⟩

end Jarsmith.ClassFile
