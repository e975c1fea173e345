import Jarsmith.Modification
import Jarsmith.Proofs.ClassFile.Reference
import Jarsmith.Proofs.ClassFile.RoundTrip

/-!
# Debug information and references

Without its debug information a class file is well formed as before, and its name and its references
are the same, since the pool and the descriptors of its members are (`Agrees`).
The data that transformers give are read as that class file, so the graph sees no difference
(`dependencies_changeData`).
-/

namespace Jarsmith

namespace ClassFile

variable {c c' : ClassFile} {pool : ConstantPool}

/-! ### Well-formed parts -/

theorem Code.WellFormed.removeDebugInformation {code : Code} (h : code.WellFormed pool) :
    code.removeDebugInformation.WellFormed pool where
  attributes a ha := h.attributes a (List.mem_filter.1 ha).1
  exceptionTable := h.exceptionTable

/-- Attributes are well formed after a change of code that keeps code well formed. -/
theorem forall_mapFirstCode {P : MemberAttribute → Prop} {f : Code → Code}
    (hf : ∀ code, P (.code code) → P (.code (f code))) {attributes : List MemberAttribute}
    (h : ∀ a ∈ attributes, P a) : ∀ a ∈ mapFirstCode f attributes, P a := by
  induction attributes with
  | nil => simp [mapFirstCode]
  | cons a attributes ih =>
    obtain ⟨ha, hrest⟩ := List.forall_mem_cons.1 h
    cases a with
    | code code => exact List.forall_mem_cons.2 ⟨hf code ha, hrest⟩
    | raw a => exact List.forall_mem_cons.2 ⟨ha, ih hrest⟩

theorem Member.WellFormed.removeDebugInformation {m : Member}
    (h : m.WellFormed pool (·.WellFormed pool)) :
    m.removeDebugInformation.WellFormed pool (·.WellFormed pool) where
  name := h.name
  descriptor := h.descriptor
  attributes := forall_mapFirstCode (P := (·.WellFormed pool))
    (f := Code.removeDebugInformation)
    (fun _ hcode => ⟨hcode.1, hcode.2.removeDebugInformation⟩) h.attributes

theorem WellFormed.removeDebugInformation (h : c.WellFormed) :
    c.removeDebugInformation.WellFormed where
  pool := h.pool
  fields := h.fields
  methods m hm := by
    obtain ⟨old, hold, rfl⟩ := List.mem_map.1 hm
    exact (h.methods old hold).removeDebugInformation
  attributes := h.attributes

/-! ### The same class to the graph -/

/-- The two class files have one name and the same references: they have one pool, and members with
the same descriptors. -/
structure Agrees (c c' : ClassFile) : Prop where
  pool : c'.pool = c.pool
  thisClass : c'.thisClass = c.thisClass
  descriptors : (c'.fields ++ c'.methods).map (·.descriptorIndex) =
    (c.fields ++ c.methods).map (·.descriptorIndex)

theorem Agrees.name_eq (h : Agrees c c') : c'.name = c.name := by
  unfold name
  rw [h.pool, h.thisClass]

theorem Agrees.references_eq (h : Agrees c c') : c'.references = c.references := by
  have hscanned : isScanned c' = isScanned c := by
    funext index
    have hany (ms : List Member) : ms.any (·.descriptorIndex == (index : Int)) =
        (ms.map (·.descriptorIndex)).any (· == (index : Int)) := by
      rw [List.any_map]
      rfl
    unfold isScanned
    rw [h.pool, hany, hany, h.descriptors]
  unfold references textNames
  rw [h.name_eq, h.pool, hscanned]

theorem Agrees.trans {c'' : ClassFile} (h : Agrees c c') (h' : Agrees c' c'') : Agrees c c'' where
  pool := h'.pool.trans h.pool
  thisClass := h'.thisClass.trans h.thisClass
  descriptors := h'.descriptors.trans h.descriptors

theorem agrees_removeDebugInformation (c : ClassFile) : Agrees c c.removeDebugInformation where
  pool := rfl
  thisClass := rfl
  descriptors := by
    unfold removeDebugInformation
    rw [List.map_append, List.map_append, List.map_map]
    rfl

end ClassFile

open ClassFile

/-! ### Transformers -/

theorem Transformer.change_eq_ok {t : Transformer} {c c' : ClassFile} (h : t.change c = .ok c')
    (hc : c.WellFormed) : c'.WellFormed ∧ Agrees c c' := by
  cases t with
  | removeDebugInformation =>
    obtain rfl := Except.ok.inj h
    exact ⟨hc.removeDebugInformation, agrees_removeDebugInformation c⟩

theorem foldlM_change_eq_ok {ts : List Transformer} {c c' : ClassFile}
    (h : (ts.map Transformer.change).foldlM (fun c change => change c) c = .ok c')
    (hc : c.WellFormed) : c'.WellFormed ∧ Agrees c c' := by
  induction ts generalizing c with
  | nil =>
    obtain rfl := Except.ok.inj h
    exact ⟨hc, rfl, rfl, rfl⟩
  | cons t ts ih =>
    rw [List.map_cons, List.foldlM_cons] at h
    obtain ⟨changed, hchange, h⟩ := Except.bind_eq_ok.1 h
    obtain ⟨hchanged, hagrees⟩ := t.change_eq_ok hchange hc
    obtain ⟨hc', hagrees'⟩ := ih h hchanged
    exact ⟨hc', hagrees.trans hagrees'⟩

/-- The data that transformers give are those of a class with the same name and references. -/
theorem dependencies_changeData {ts : List Transformer} {data data' : Bytes} {self : Text}
    {references : List Text} (hdeps : dependencies data = .ok (self, references))
    (h : changeData (ts.map Transformer.change) data = .ok data') :
    dependencies data' = .ok (self, references) := by
  unfold changeData at h
  split at h
  · obtain rfl := Except.ok.inj h
    exact hdeps
  · -- what is written for the changed class is read back as it, since it is well formed
    obtain ⟨c, hdecode, hself, hreferences⟩ := dependencies_eq_ok_iff.1 hdeps
    obtain ⟨decoded, hread, hchanges⟩ := Except.bind_eq_ok.1 (Except.mapError_eq_ok.1 h)
    obtain rfl := Except.ok.inj ((Except.mapError_eq_ok.1 hread).symm.trans hdecode)
    obtain ⟨c', hfold, hencode⟩ := Except.bind_eq_ok.1 hchanges
    obtain ⟨hwf, hagrees⟩ := foldlM_change_eq_ok hfold (decode_eq_ok_iff.1 hdecode).1
    have hwritten : c'.encode? = some data' := by
      split at hencode
      · next heq => rw [heq, Except.ok.inj hencode]
      · exact absurd hencode Except.throw_ne_ok
    refine dependencies_eq_ok_iff.2 ⟨c', decode_eq_ok_iff.2 ⟨hwf, data', [], hwritten, ?_⟩, ?_, ?_⟩
    · exact (List.append_nil _).symm
    · rw [hagrees.name_eq, hself]
    · rw [hagrees.references_eq, hreferences]

end Jarsmith
