import Mathlib.Data.List.Forall2
import Jarsmith.Proofs.ClassFile.DebugInformation

/-!
# What the removal of debug information leaves

The transformation to a class without debug information fails for data that are no class file, and
for no others: the counts and lengths of what is left are at most those that could be written
before, so it can be written, and what is written is not longer (`NoLonger`).
`changeData_removeDebugInformation` says what is read from it: the same class but for the code of
its methods, which differs in the attributes that are debug information and in nothing else
(`Member.Strips`). To the graph it is the same class, and nothing of it is left to be removed.
-/

namespace Jarsmith

namespace ClassFile

/-! ### Forms that are not longer -/

/-- Where the old form can be written the new one can, and it is not longer. -/
def NoLonger (new old : Option Bytes) : Prop :=
  ∀ bytes, old = some bytes → ∃ bytes', new = some bytes' ∧ bytes'.length ≤ bytes.length

namespace NoLonger

variable {new old : Option Bytes} {news olds : List (Option Bytes)}

theorem refl (form : Option Bytes) : NoLonger form form := fun bytes h => ⟨bytes, h, Nat.le_refl _⟩

instance : Std.Refl NoLonger := ⟨refl⟩

/-- A smaller number is written in the same width. -/
theorem ofBig? {width m n : Nat} (h : m ≤ n) :
    NoLonger (Bytes.ofBig? width m) (Bytes.ofBig? width n) := by
  intro bytes hn
  obtain ⟨rfl, hbig⟩ := Bytes.ofBig?_eq_some_iff.1 hn
  have hlt := Bytes.big_lt bytes
  have hm : m < Nat.pow 256 bytes.length := by omega
  exact ⟨Bytes.ofBig bytes.length m, Bytes.ofBig?_eq_some_iff.2
    ⟨Bytes.length_ofBig _ _, congrArg Int.ofNat (Bytes.big_ofBig hm).symm⟩,
    Nat.le_of_eq (Bytes.length_ofBig _ _)⟩

/-- Parts may get shorter, and parts may be missing. -/
theorem concat? (h : List.SublistForall₂ NoLonger news olds) :
    NoLonger (concat? news) (concat? olds) := by
  induction h with
  | nil => exact fun bytes _ => ⟨[], concat?_nil_eq_some_iff.2 rfl, Nat.zero_le _⟩
  | cons hpart _ ih =>
    intro bytes hold
    obtain ⟨b, rest, hb, hrest, rfl⟩ := concat?_cons_eq_some_iff.1 hold
    obtain ⟨b', hb', hlength⟩ := hpart b hb
    obtain ⟨rest', hrest', hlength'⟩ := ih rest hrest
    refine ⟨b' ++ rest', concat?_cons_eq_some_iff.2 ⟨b', rest', hb', hrest', rfl⟩, ?_⟩
    rw [List.length_append, List.length_append]
    omega
  | cons_right _ ih =>
    intro bytes hold
    obtain ⟨b, rest, -, hrest, rfl⟩ := concat?_cons_eq_some_iff.1 hold
    obtain ⟨rest', hrest', hlength⟩ := ih rest hrest
    refine ⟨rest', hrest', ?_⟩
    rw [List.length_append]
    omega

theorem counted? (h : List.SublistForall₂ NoLonger news olds) :
    NoLonger (counted? news) (counted? olds) := by
  have hcount : news.length ≤ olds.length := by
    obtain ⟨between, hforms, hsublist⟩ := List.sublistForall₂_iff.1 h
    rw [hforms.length_eq]
    exact hsublist.length_le
  exact concat? (.cons (ofBig? hcount) h)

/-- The contents may get shorter. -/
theorem attributeBytes? (nameIndex : Int) (h : NoLonger new old) :
    NoLonger (new.bind (attributeBytes? nameIndex)) (old.bind (attributeBytes? nameIndex)) := by
  intro bytes hold
  obtain ⟨info, hinfo, hbytes⟩ := Option.bind_eq_some_iff.1 hold
  obtain ⟨info', hinfo', hlength⟩ := h info hinfo
  have hsome : NoLonger (some info') (some info) := by
    intro _ h
    obtain rfl := Option.some.inj h
    exact ⟨info', rfl, hlength⟩
  obtain ⟨bytes', hbytes', hle⟩ :=
    concat? (.cons (refl _) (.cons (ofBig? hlength) (.cons hsome .nil))) bytes hbytes
  exact ⟨bytes', Option.bind_eq_some_iff.2 ⟨info', hinfo', hbytes'⟩, hle⟩

end NoLonger

/-! ### Classes without debug information -/

theorem Code.noLonger_removeDebugInformation (code : Code) :
    NoLonger code.removeDebugInformation.encode? code.encode? := by
  have hattributes : NoLonger
      (counted? (code.removeDebugInformation.attributes.map Attribute.encode?))
      (counted? (code.attributes.map Attribute.encode?)) :=
    .counted? (List.filter_sublist.map _).sublistForall₂
  exact .attributeBytes? _ (.concat? (.cons (.refl _) (.cons (.refl _) (.cons (.refl _)
    (.cons (.refl _) (.cons (.refl _) (.cons (.refl _) (.cons hattributes .nil))))))))

theorem sublistForall₂_mapFirstCode {f : Code → Code}
    (hf : ∀ code, NoLonger (f code).encode? code.encode?) (attributes : List MemberAttribute) :
    List.SublistForall₂ NoLonger ((mapFirstCode f attributes).map MemberAttribute.encode?)
      (attributes.map MemberAttribute.encode?) := by
  induction attributes with
  | nil => exact .nil
  | cons a attributes ih =>
    cases a with
    | code code => exact .cons (hf code) (refl _)
    | raw a => exact .cons (.refl _) ih

theorem Member.noLonger_removeDebugInformation (m : Member) :
    NoLonger m.removeDebugInformation.encode? m.encode? :=
  .concat? (.cons (.refl _) (.cons (.refl _) (.cons (.refl _) (.cons
    (.counted? (sublistForall₂_mapFirstCode Code.noLonger_removeDebugInformation m.attributes))
    .nil))))

theorem noLonger_removeDebugInformation (c : ClassFile) :
    NoLonger c.removeDebugInformation.encode? c.encode? := by
  have hmethods : List.SublistForall₂ NoLonger
      (c.removeDebugInformation.methods.map Member.encode?) (c.methods.map Member.encode?) := by
    unfold removeDebugInformation
    rw [List.map_map]
    induction c.methods with
    | nil => exact .nil
    | cons m methods ih => exact .cons m.noLonger_removeDebugInformation ih
  exact .concat? (.cons (.refl _) (.cons (.refl _) (.cons (.refl _) (.cons (.refl _)
    (.cons (.refl _) (.cons (.refl _) (.cons (.refl _) (.cons (.refl _) (.cons (.refl _)
    (.cons (.counted? hmethods) (refl _)))))))))))

/-! ### What is missing -/

/-- The second method is the first one without debug information: of the attributes of its code,
which is the first of its code attributes, those with three names are missing. -/
inductive Member.Strips (m : Member) : Member → Prop
  | noCode : (∀ a ∈ m.attributes, ∀ code, a ≠ .code code) → Strips m m
  | code {before after : List MemberAttribute} {code : Code} :
      m.attributes = before ++ .code code :: after → (∀ a ∈ before, ∀ code, a ≠ .code code) →
      Strips m { m with
        attributes := before ++ .code { code with
          attributes := code.attributes.filter fun a =>
            a.name ∉ (["LineNumberTable", "LocalVariableTable", "LocalVariableTypeTable"] :
              List Text) } :: after }

theorem mapFirstCode_of_forall_ne {f : Code → Code} {attributes : List MemberAttribute}
    (h : ∀ a ∈ attributes, ∀ code, a ≠ .code code) : mapFirstCode f attributes = attributes := by
  induction attributes with
  | nil => rfl
  | cons a attributes ih =>
    obtain ⟨ha, hrest⟩ := List.forall_mem_cons.1 h
    cases a with
    | code code => exact absurd rfl (ha code)
    | raw a => rw [mapFirstCode, ih hrest]

theorem mapFirstCode_append_cons {f : Code → Code} {before after : List MemberAttribute}
    {code : Code} (h : ∀ a ∈ before, ∀ code, a ≠ .code code) :
    mapFirstCode f (before ++ .code code :: after) = before ++ .code (f code) :: after := by
  induction before with
  | nil => rfl
  | cons a before ih =>
    obtain ⟨ha, hrest⟩ := List.forall_mem_cons.1 h
    cases a with
    | code code => exact absurd rfl (ha code)
    | raw a => rw [List.cons_append, mapFirstCode, ih hrest, List.cons_append]

/-- Attributes hold no code, or there is a first one that does. -/
theorem forall_ne_code_or_exists_first (attributes : List MemberAttribute) :
    (∀ a ∈ attributes, ∀ code, a ≠ .code code) ∨ ∃ before code after,
      attributes = before ++ .code code :: after ∧ ∀ a ∈ before, ∀ code, a ≠ .code code := by
  induction attributes with
  | nil => exact .inl (by simp)
  | cons a attributes ih =>
    cases a with
    | code code => exact .inr ⟨[], code, attributes, rfl, by simp⟩
    | raw a =>
      have ha : ∀ code, MemberAttribute.raw a ≠ .code code := by simp
      obtain hnone | ⟨before, code, after, rfl, hbefore⟩ := ih
      · exact .inl (List.forall_mem_cons.2 ⟨ha, hnone⟩)
      · exact .inr ⟨.raw a :: before, code, after, rfl, List.forall_mem_cons.2 ⟨ha, hbefore⟩⟩

theorem Member.strips_removeDebugInformation (m : Member) : m.Strips m.removeDebugInformation := by
  unfold removeDebugInformation
  obtain hnone | ⟨before, code, after, hsplit, hbefore⟩ :=
    forall_ne_code_or_exists_first m.attributes
  · rw [mapFirstCode_of_forall_ne hnone]
    exact .noCode hnone
  · rw [hsplit, mapFirstCode_append_cons hbefore]
    exact .code hsplit hbefore

/-! ### Nothing is left to be removed -/

theorem mapFirstCode_mapFirstCode (f : Code → Code) (hf : ∀ code, f (f code) = f code)
    (attributes : List MemberAttribute) :
    mapFirstCode f (mapFirstCode f attributes) = mapFirstCode f attributes := by
  induction attributes with
  | nil => rfl
  | cons a attributes ih =>
    cases a with
    | code code => rw [mapFirstCode, mapFirstCode, hf]
    | raw a => rw [mapFirstCode, mapFirstCode, ih]

theorem Code.removeDebugInformation_removeDebugInformation (code : Code) :
    code.removeDebugInformation.removeDebugInformation = code.removeDebugInformation := by
  unfold removeDebugInformation
  rw [List.filter_filter]
  simp only [Bool.and_self]

theorem Member.removeDebugInformation_removeDebugInformation (m : Member) :
    m.removeDebugInformation.removeDebugInformation = m.removeDebugInformation := by
  unfold removeDebugInformation
  rw [mapFirstCode_mapFirstCode _ Code.removeDebugInformation_removeDebugInformation]

theorem removeDebugInformation_removeDebugInformation (c : ClassFile) :
    c.removeDebugInformation.removeDebugInformation = c.removeDebugInformation := by
  unfold removeDebugInformation
  rw [List.map_map]
  congr 1
  exact List.map_congr_left fun m _ => m.removeDebugInformation_removeDebugInformation

/-- A class file with the same references and the same name has the same dependencies, and fails to
give them in the same way. -/
theorem Agrees.dependencies_eq {c c' : ClassFile} {data data' : Bytes} (h : Agrees c c')
    (hc : decode data = .ok c) (hc' : decode data' = .ok c') :
    dependencies data' = dependencies data := by
  unfold dependencies
  rw [hc, hc']
  show (do
    let self ← c'.name
    let references ← c'.references
    pure (self, references)) = _
  rw [h.name_eq, h.references_eq]
  rfl

end ClassFile

open ClassFile

variable {c : ClassFile} {data data' : Bytes}

/-! ### The transformation -/

theorem changeData_removeDebugInformation_of_decode (hread : decode data = .ok c)
    (hwritten : c.removeDebugInformation.encode? = some data') :
    changeData [Transformer.removeDebugInformation.change] data = .ok data' := by
  have happlied : applyChanges [Transformer.removeDebugInformation.change] data = .ok data' := by
    refine Except.bind_eq_ok.2 ⟨c, Except.mapError_eq_ok.2 hread, ?_⟩
    refine Except.bind_eq_ok.2 ⟨c.removeDebugInformation, rfl, ?_⟩
    rw [hwritten]
    rfl
  exact Except.mapError_eq_ok.2 happlied

/-- **The removal of debug information.** Data that are no class file are refused, and no others.
From what is written for a class file it is read again with all its parts, but for the methods,
which are stripped of debug information and of nothing else. What is written is not longer, is left
as it is by another removal, and gives the graph the same class, or the same failure. -/
theorem changeData_removeDebugInformation (data : Bytes) :
    (∀ e, decode data = .error e →
      changeData [Transformer.removeDebugInformation.change] data =
        .error (.transformation "类文件变换失败" (.classFile e))) ∧
    ∀ c, decode data = .ok c → ∃ data' methods,
      changeData [Transformer.removeDebugInformation.change] data = .ok data' ∧
      decode data' = .ok { c with methods } ∧ List.Forall₂ Member.Strips c.methods methods ∧
      data'.length ≤ data.length ∧
      changeData [Transformer.removeDebugInformation.change] data' = .ok data' ∧
      dependencies data' = dependencies data := by
  constructor
  · intro e he
    unfold changeData applyChanges
    rw [he]
    rfl
  · intro c hread
    obtain ⟨hwf, written, rest, hwritten, hdata⟩ := decode_eq_ok_iff.1 hread
    obtain ⟨data', hdata', hlength⟩ := c.noLonger_removeDebugInformation written hwritten
    have hread' : decode data' = .ok c.removeDebugInformation := decode_eq_ok_iff.2
      ⟨hwf.removeDebugInformation, data', [], hdata', (List.append_nil _).symm⟩
    refine ⟨data', c.methods.map Member.removeDebugInformation, ?_, hread', ?_, ?_, ?_, ?_⟩
    · exact changeData_removeDebugInformation_of_decode hread hdata'
    · rw [List.forall₂_map_right_iff, List.forall₂_same]
      exact fun m _ => m.strips_removeDebugInformation
    · rw [hdata, List.length_append]
      omega
    · refine changeData_removeDebugInformation_of_decode hread' ?_
      rw [removeDebugInformation_removeDebugInformation, hdata']
    · exact (agrees_removeDebugInformation c).dependencies_eq hread hread'

-- one line number, in eight bytes, is missing, and so are two bytes after the class file
example : (changeData [Transformer.removeDebugInformation.change]
    ClassFile.Sample.withMethod).toOption.map (·.length + 8 + 2) =
      some ClassFile.Sample.withMethod.length := by decide +kernel

end Jarsmith
