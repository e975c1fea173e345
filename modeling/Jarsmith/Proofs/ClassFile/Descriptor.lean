import Jarsmith.Proofs.ClassFile.Reference
import Jarsmith.Proofs.ClassFile.RoundTrip

/-!
# The classes that descriptors name

The scan of a text looks for an object type after every letter `L`, wherever the letter stands. In a
descriptor this finds the object types and nothing else (`typeNames_text`): outside of the names no
other letter is an `L`, and a name has neither of the marks that end an object type, so that the
scan goes over it as a whole, with every `L` in it.

`typeNames_text_append` is the induction on the grammar: what follows a type is scanned for itself.
The descriptors of members and constants are scanned even where a literal uses the same text, so
their classes are among the references of the class file (`descriptor_types_found`).
-/

namespace Jarsmith.ClassFile

/-! ### The grammar -/

/-- The name of a class as a descriptor has it: not empty, and without the marks of the grammar and
blanks. -/
structure ClassName where
  text : Text
  ne_nil : text ≠ []
  isName : ∀ c ∈ text, c ∉ (";<>[]().:" : Text) ∧ c.isBlank = false

/-- The types that are no classes. -/
inductive Primitive
  | boolean
  | byte
  | char
  | double
  | float
  | int
  | long
  | short
  deriving DecidableEq, Repr

/-- The letter of a primitive type. -/
def Primitive.letter : Primitive → CodePoint
  | boolean => 0x5A
  | byte => 0x42
  | char => 0x43
  | double => 0x44
  | float => 0x46
  | int => 0x49
  | long => 0x4A
  | short => 0x53

/-- The types of fields and parameters. -/
inductive FieldType
  | primitive (p : Primitive)
  | object (name : ClassName)
  | array (element : FieldType)

namespace FieldType

/-- A type as descriptors have it. -/
def text : FieldType → Text
  | primitive p => [p.letter]
  | object name => 0x4C :: (name.text ++ [0x3B])
  | array element => 0x5B :: element.text

/-- The class that a type names, with dots, if it names one. -/
def names : FieldType → List Text
  | primitive _ => []
  | object name => [dotted name.text]
  | array element => element.names

end FieldType

/-- A descriptor of a field, or of a method with its parameters and its result, which a method
without a value does not have. -/
inductive Descriptor
  | field (type : FieldType)
  | method (parameters : List FieldType) (result? : Option FieldType)

namespace Descriptor

/-- The text of a descriptor. -/
def text : Descriptor → Text
  | field type => type.text
  | method parameters result? =>
    0x28 :: (parameters.flatMap FieldType.text ++ 0x29 :: (result?.elim [0x56] FieldType.text))

/-- The classes that a descriptor names, left to right, with dots. -/
def names : Descriptor → List Text
  | field type => type.names
  | method parameters result? =>
    parameters.flatMap FieldType.names ++ result?.elim [] FieldType.names

end Descriptor

/-! ### What the scan finds in a descriptor -/

theorem isNamePoint_iff {c : CodePoint} :
    isNamePoint c = true ↔ c ∉ (";<>[]().:" : Text) ∧ c.isBlank = false := by
  have hmarks : (";<>[]().:" : Text) = [0x3B, 0x3C, 0x3E, 0x5B, 0x5D, 0x28, 0x29, 0x2E, 0x3A] := by
    decide
  rw [hmarks]
  unfold isNamePoint
  simp only [Bool.not_eq_true', Bool.or_eq_false_iff, beq_eq_false_iff_ne, List.mem_cons,
    List.not_mem_nil, or_false, not_or, and_assoc, ne_eq]

theorem typeNames_cons_of_ne {c : CodePoint} (h : c ≠ 0x4C) (t : Text) :
    typeNames (c :: t) = typeNames t := by
  rw [typeNames, if_neg h]

/-- An object type is found as a whole, and the scan goes on behind it. -/
theorem typeNames_object (name : ClassName) (rest : Text) :
    typeNames (0x4C :: (name.text ++ 0x3B :: rest)) = dotted name.text :: typeNames rest := by
  have hpoints : ∀ c ∈ name.text, isNamePoint c = true :=
    fun c hc => isNamePoint_iff.2 (name.isName c hc)
  have hmark : isNamePoint 0x3B = false := by decide
  have htake : (name.text ++ 0x3B :: rest).takeWhile isNamePoint = name.text := by
    rw [List.takeWhile_append_of_pos hpoints, List.takeWhile_cons_of_neg (by rw [hmark]; decide),
      List.append_nil]
  have hdrop : (name.text ++ 0x3B :: rest).dropWhile isNamePoint = 0x3B :: rest := by
    rw [List.dropWhile_append_of_pos hpoints, List.dropWhile_cons_of_neg (by rw [hmark]; decide)]
  rw [typeNames, if_pos rfl]
  split
  · next p ps mark after htaken hdropped =>
    have hname : name.text = p :: ps := htake.symm.trans htaken
    obtain ⟨rfl, rfl⟩ : 0x3B = mark ∧ rest = after := List.cons.inj (hdrop.symm.trans hdropped)
    rw [if_pos (.inl rfl), hname]
  · next hnone => exact absurd hdrop (by
      obtain ⟨p, ps, hname⟩ := List.exists_cons_of_ne_nil name.ne_nil
      exact fun _ => hnone p ps 0x3B rest (htake.trans hname) hdrop)

theorem Primitive.letter_ne (p : Primitive) : p.letter ≠ 0x4C := by
  cases p <;> decide

/-- The scan goes over a type, finds the class that it names, and goes on behind it. -/
theorem typeNames_text_append (t : FieldType) (rest : Text) :
    typeNames (t.text ++ rest) = t.names ++ typeNames rest := by
  induction t with
  | primitive p => exact typeNames_cons_of_ne p.letter_ne rest
  | object name =>
    show typeNames (0x4C :: (name.text ++ [0x3B] ++ rest)) = dotted name.text :: typeNames rest
    rw [List.append_assoc]
    exact typeNames_object name rest
  | array element ih => exact (typeNames_cons_of_ne (by decide) _).trans ih

theorem typeNames_flatMap_append (ts : List FieldType) (rest : Text) :
    typeNames (ts.flatMap FieldType.text ++ rest) =
      ts.flatMap FieldType.names ++ typeNames rest := by
  induction ts with
  | nil => rfl
  | cons t ts ih =>
    rw [List.flatMap_cons, List.flatMap_cons, List.append_assoc, List.append_assoc,
      typeNames_text_append, ih]

theorem typeNames_nil : typeNames [] = [] := by
  rw [typeNames]

theorem typeNames_fieldType (t : FieldType) : typeNames t.text = t.names := by
  have h := typeNames_text_append t []
  rwa [List.append_nil, typeNames_nil, List.append_nil] at h

/-- A descriptor is scanned to the classes that it names. -/
theorem typeNames_text (d : Descriptor) : typeNames d.text = d.names := by
  cases d with
  | field t => exact typeNames_fieldType t
  | method parameters result? =>
    have hresult : typeNames (result?.elim [0x56] FieldType.text) =
        result?.elim [] FieldType.names := by
      cases result? with
      | none => exact (typeNames_cons_of_ne (by decide) []).trans typeNames_nil
      | some t => exact typeNames_fieldType t
    show typeNames (0x28 :: _) = _
    rw [typeNames_cons_of_ne (by decide), typeNames_flatMap_append,
      typeNames_cons_of_ne (by decide), hresult]
    rfl

/-! ### The classes in the descriptors of a class file -/

variable {c : ClassFile} {data : Bytes} {index : Nat} {r self : Text} {names : List Text}

/-- Nothing stands below the index one. -/
theorem ConstantPool.pos_of_utf8_eq_ok {pool : ConstantPool} {i : Int} {text : Text}
    (h : pool.utf8 i = .ok text) : 0 < i := by
  obtain ⟨k, htagged, -⟩ := Except.bind_eq_ok.1 h
  obtain ⟨k', hget, -⟩ := Except.bind_eq_ok.1 htagged
  unfold get at hget
  split at hget
  · next hpos => exact hpos
  · simp at hget

/-- The descriptor of a member stands at its index. -/
theorem hasDescriptor_of_member (h : decode data = .ok c) {m : Member}
    (hm : m ∈ c.fields ++ c.methods) :
    ∃ index : Nat, c.HasDescriptor index ∧ c.pool.utf8 index = .ok m.descriptor := by
  obtain ⟨hwf, -⟩ := decode_eq_ok_iff.1 h
  have hutf8 : c.pool.utf8 m.descriptorIndex = .ok m.descriptor := by
    rcases List.mem_append.1 hm with hm | hm
    · exact (hwf.fields m hm).descriptor
    · exact (hwf.methods m hm).descriptor
  have hpos := ConstantPool.pos_of_utf8_eq_ok hutf8
  obtain ⟨index, hindex⟩ := Int.eq_ofNat_of_zero_le (Int.le_of_lt hpos)
  exact ⟨index, .member hm hindex, hindex ▸ hutf8⟩

/-- The references have a name. -/
theorem name_of_references (h : references c = .ok names) : ∃ self, name c = .ok self := by
  obtain ⟨constants, -, h⟩ := Except.bind_eq_ok.1 h
  obtain ⟨texts, -, h⟩ := Except.bind_eq_ok.1 h
  obtain ⟨self, hself, -⟩ := Except.bind_eq_ok.1 h
  exact ⟨self, hself⟩

/-- A class constant has a name, and what the name stands for is found. -/
theorem mem_references_of_classConstant {k : Constant} (h : references c = .ok names)
    (hself : name c = .ok self) (hk : (index, k) ∈ c.pool.constants) (htag : k.tag = Tag.classRef) :
    ∃ text, c.pool.utf8 (k.indexAt 0) = .ok text ∧
      ∀ r ∈ constantNames text, r ∈ names ∨ r = self := by
  obtain ⟨constants, hconstants, -⟩ := Except.bind_eq_ok.1 h
  obtain ⟨lists, hlists, -⟩ := Except.bind_eq_ok.1 hconstants
  obtain ⟨list, -, hlist⟩ := Except.exists_of_mapM_eq_ok hlists hk
  dsimp only at hlist
  rw [if_pos htag] at hlist
  obtain ⟨text, htext, -⟩ := Except.bind_eq_ok.1 hlist
  refine ⟨text, htext, fun r hr => ?_⟩
  by_cases heq : r = self
  · exact .inr heq
  · exact .inl ((mem_references_iff h hself).2 ⟨heq, index, .classConstant hk htag htext hr⟩)

/-- The classes in a text that is a descriptor are found, whatever else uses the text. -/
theorem mem_references_of_hasDescriptor {d : Descriptor} (h : references c = .ok names)
    (hself : name c = .ok self) (hindex : c.HasDescriptor index)
    (htext : c.pool.utf8 index = .ok d.text) (hr : r ∈ d.names) : r ∈ names ∨ r = self := by
  rw [← typeNames_text] at hr
  exact (mem_references_of_typeNames_iff h hself htext hr).2 (.inl fun _ => hindex)

/-- **A descriptor is scanned to the classes that it names**, and each of them is a reference of the
class file, or the class itself, where the descriptor is that of a member or of a constant. So is
what the class constants stand for: the class itself, or the element class of an array. -/
theorem descriptor_types_found (h : decode data = .ok c) (hnames : references c = .ok names) :
    (∀ d : Descriptor, typeNames d.text = d.names) ∧
    ∃ self, name c = .ok self ∧
      (∀ m ∈ c.fields ++ c.methods, ∀ d : Descriptor, m.descriptor = d.text →
        ∀ r ∈ d.names, r ∈ names ∨ r = self) ∧
      (∀ index, c.HasDescriptor index → ∀ d : Descriptor, c.pool.utf8 index = .ok d.text →
        ∀ r ∈ d.names, r ∈ names ∨ r = self) ∧
      ∀ index k, (index, k) ∈ c.pool.constants → k.tag = Tag.classRef →
        ∃ text, c.pool.utf8 (k.indexAt 0) = .ok text ∧
          (text.head? ≠ some 0x5B → dotted text ∈ names ∨ dotted text = self) ∧
          ∀ t : FieldType, text = (FieldType.array t).text →
            ∀ r ∈ t.names, r ∈ names ∨ r = self := by
  obtain ⟨self, hself⟩ := name_of_references hnames
  refine ⟨typeNames_text, self, hself, fun m hm d htext r hr => ?_,
    fun index hindex d htext r hr => mem_references_of_hasDescriptor hnames hself hindex htext hr,
    fun index k hk htag => ?_⟩
  · obtain ⟨index, hindex, hutf8⟩ := hasDescriptor_of_member h hm
    rw [htext] at hutf8
    exact mem_references_of_hasDescriptor hnames hself hindex hutf8 hr
  · obtain ⟨text, htext, hfound⟩ := mem_references_of_classConstant hnames hself hk htag
    refine ⟨text, htext, fun hhead => ?_, fun t harray r hr => ?_⟩
    · refine hfound _ ?_
      rw [constantNames, if_neg hhead]
      exact List.mem_singleton_self _
    · refine hfound r ?_
      have hhead : (FieldType.array t).text.head? = some 0x5B := rfl
      rw [harray, constantNames, if_pos hhead, typeNames_fieldType]
      exact hr

namespace Sample

/-- A class `Q` with a field of an array type, and the descriptor of a method, which a literal uses
too. Every class that they name has an `L` in its name. -/
def withDescriptors : Bytes :=
  [0xCA, 0xFE, 0xBA, 0xBE, 0, 0, 0, 52] ++
    ([0, 8] ++ utf8 "Q" ++ [7, 0, 1] ++ utf8 "[[La/LX;" ++ utf8 "(I[La/LY;J)V" ++ [8, 0, 4] ++
      [12, 0, 1, 0, 4] ++ utf8 "f") ++
    [0, 0x21, 0, 2, 0, 0, 0, 0] ++ [0, 1, 0, 1, 0, 7, 0, 3, 0, 0] ++ [0, 0] ++ [0, 0]

/-- The name of a class in a descriptor. -/
def className (text : Text) (hnil : text ≠ []) (h : text.all isNamePoint = true) : ClassName :=
  ⟨text, hnil, fun c hc => isNamePoint_iff.1 (List.all_eq_true.1 h c hc)⟩

end Sample

theorem descriptor_types_found_of_shared : ∃ c names,
    decode Sample.withDescriptors = .ok c ∧ references c = .ok names ∧ c.HasLiteral 4 ∧
      ("a.LX" : Text) ∈ names ∧ ("a.LY" : Text) ∈ names := by
  let x : FieldType := .object (Sample.className "a/LX" (by decide) (by decide))
  let y : FieldType := .object (Sample.className "a/LY" (by decide) (by decide))
  have hfacts : (Sample.read? Sample.withDescriptors).map (fun p =>
      (p.2.1, (literalIndexes p.1.pool).filter (· ∈ descriptorIndexes p.1.pool),
        (p.1.pool.utf8 4).toOption, p.1.fields.map (·.descriptor))) =
      some (("Q" : Text), [4], some ("(I[La/LY;J)V" : Text), [("[[La/LX;" : Text)]) := by
    decide +kernel
  obtain ⟨⟨c, self, names⟩, hread, hfacts⟩ := Option.map_eq_some_iff.1 hfacts
  obtain ⟨hc, hself, hnames⟩ := Sample.read?_eq_some hread
  simp only [Prod.mk.injEq, Except.toOption_eq_some] at hfacts
  obtain ⟨rfl, hshared, htext, hfields⟩ := hfacts
  obtain ⟨-, self, hself', hmembers, hconstants, -⟩ := descriptor_types_found hc hnames
  obtain rfl : ("Q" : Text) = self := Except.ok.inj (hself.symm.trans hself')
  obtain ⟨hliteral, hindex⟩ := List.mem_filter.1 (hshared ▸ List.mem_singleton_self 4)
  obtain ⟨f, hf, hdescriptor⟩ := List.mem_map.1 (hfields ▸ List.mem_singleton_self _)
  have hx := hmembers f (List.mem_append_left _ hf) (.field (.array (.array x))) hdescriptor
    "a.LX" (by decide)
  have hy := hconstants 4 (hasDescriptor_iff.2 (.inl (of_decide_eq_true hindex)))
    (.method [.primitive .int, .array y, .primitive .long] none) htext "a.LY" (by decide)
  exact ⟨c, names, hc, hnames, mem_literalIndexes.1 hliteral, hx.resolve_right (by decide),
    hy.resolve_right (by decide)⟩

end Jarsmith.ClassFile
