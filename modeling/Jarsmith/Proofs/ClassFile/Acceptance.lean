import Jarsmith.Fault
import Jarsmith.Proofs.ClassFile.Fits

/-!
# Which bytes are read as a class file

The format has one form for each class file (`IsWrittenAs`), and no bytes are the form of two
(`isWrittenAs_inj`). Reading finds the class file whose form the bytes begin with, and fails, as on
anything that is malformed, exactly if they begin with no form at all (`decode_eq_ok_iff_begins`,
`decode_eq_error_iff`).

What follows the form is not looked at: while the contents of a code attribute must end with the
code (`Code.ofAttribute_eq_ok_iff`), there is no such check at the end of the file. So the bytes
that are accepted are those of the format exactly where nothing follows a form
(`accepted_iff_written_iff`).
-/

namespace Jarsmith.ClassFile

variable {c c' : ClassFile} {form data rest : Bytes}

/-! ### The form of a class file -/

/-- The class file is well formed, its numbers fit their fields, and the bytes are all that is
written for it. -/
structure IsWrittenAs (c : ClassFile) (form : Bytes) : Prop where
  wellFormed : c.WellFormed
  written : c.encode? = some form

/-- Bytes begin with one form only. -/
theorem isWrittenAs_inj {form' : Bytes} (h : c.IsWrittenAs form) (h' : c'.IsWrittenAs form')
    (hform : form <+: data) (hform' : form' <+: data) : c = c' ∧ form = form' := by
  obtain ⟨rest, rfl⟩ := hform
  obtain ⟨rest', heq⟩ := hform'
  obtain ⟨rfl, -⟩ :=
    encode?_append_inj h.wellFormed h'.wellFormed h.written h'.written heq.symm
  exact ⟨rfl, Option.some.inj (h.written.symm.trans h'.written)⟩

/-! ### Reading -/

theorem decode_eq_ok_iff_begins :
    decode data = .ok c ↔ ∃ form, c.IsWrittenAs form ∧ form <+: data := by
  rw [decode_eq_ok_iff]
  constructor
  · rintro ⟨hc, form, rest, hwritten, rfl⟩
    exact ⟨form, ⟨hc, hwritten⟩, rest, rfl⟩
  · rintro ⟨form, h, rest, rfl⟩
    exact ⟨h.wellFormed, form, rest, h.written, rfl⟩

/-- The bytes are read to their end exactly if they are a form. -/
theorem decodeWithRest_eq_ok_nil_iff : decodeWithRest data = .ok (c, []) ↔ c.IsWrittenAs data := by
  rw [decodeWithRest_eq_ok_iff]
  constructor
  · rintro ⟨hc, form, hwritten, rfl⟩
    rw [List.append_nil]
    exact ⟨hc, hwritten⟩
  · intro h
    exact ⟨h.wellFormed, data, h.written, (List.append_nil data).symm⟩

theorem decode_eq_error_iff :
    (∃ e, decode data = .error e) ↔ ¬∃ c form, IsWrittenAs c form ∧ form <+: data := by
  simp only [← decode_eq_ok_iff_begins]
  cases decode data <;> simp

/-- Code is held to its end: contents with anything after the code are refused. -/
theorem Code.ofAttribute_append {pool : ConstantPool} {a : Attribute} {code : Code}
    (h : ofAttribute pool a = .ok code) (hrest : rest ≠ []) (other : Code) :
    ofAttribute pool { a with info := a.info ++ rest } ≠ .ok other := by
  intro h'
  have hreads := fieldsDecoder_reads pool a.nameIndex
  obtain ⟨hindex, hc, hinfo⟩ := ofAttribute_eq_ok_iff.1 h
  obtain ⟨hindex', hc', hinfo'⟩ := ofAttribute_eq_ok_iff.1 h'
  -- the longer contents would be read as both, with a different number of bytes left
  have hrun : (fieldsDecoder pool a.nameIndex).run (.start (a.info ++ rest)) =
      .ok (code, ⟨a.info.length, rest⟩) :=
    hreads.run_start_eq_ok.2 ⟨a.info, ⟨⟨hindex, hc⟩, hinfo⟩, rfl, rfl⟩
  have hrun' : (fieldsDecoder pool a.nameIndex).run (.start (a.info ++ rest)) =
      .ok (other, ⟨(a.info ++ rest).length, []⟩) :=
    hreads.run_start_eq_ok.2
      ⟨a.info ++ rest, ⟨⟨hindex', hc'⟩, hinfo'⟩, (List.append_nil _).symm, rfl⟩
  have heq := Except.ok.inj (hrun.symm.trans hrun')
  exact hrest (congrArg (·.2.rest) heq)

/-! ### What is accepted -/

/-- **Which bytes are read as a class file.** They are read as the one whose form they begin with.
If they begin with none, reading fails and says that they are malformed. So the bytes that are
accepted are those that the format allows exactly if no form is followed by more bytes. -/
theorem accepted_iff_written_iff (data : Bytes) :
    (∀ c, decode data = .ok c ↔ ∃ form, IsWrittenAs c form ∧ form <+: data) ∧
    ((∃ e, decode data = .error e ∧ (Fault.classFile e).kind = "ParseError") ↔
      ¬∃ c form, IsWrittenAs c form ∧ form <+: data) ∧
    (((∃ c, decode data = .ok c) ↔ ∃ c, IsWrittenAs c data) ↔
      ¬∃ c form, IsWrittenAs c form ∧ form <+: data ∧ form ≠ data) := by
  refine ⟨fun c => decode_eq_ok_iff_begins, ?_, ?_⟩
  · rw [← decode_eq_error_iff]
    exact exists_congr fun e => and_iff_left rfl
  simp only [decode_eq_ok_iff_begins]
  constructor
  · rintro haccepted ⟨c, form, h, hform, hne⟩
    obtain ⟨c', h'⟩ := haccepted.1 ⟨c, form, h, hform⟩
    exact hne (isWrittenAs_inj h h' hform List.prefix_rfl).2
  · intro hnone
    constructor
    · rintro ⟨c, form, h, hform⟩
      by_cases heq : form = data
      · exact ⟨c, heq ▸ h⟩
      · exact absurd ⟨c, form, h, hform, heq⟩ hnone
    · rintro ⟨c, h⟩
      exact ⟨c, data, h, List.prefix_rfl⟩

namespace Sample

/-- A class `X` with nothing in it. -/
def empty : Bytes :=
  [0xCA, 0xFE, 0xBA, 0xBE, 0, 0, 0, 52] ++ ([0, 3] ++ utf8 "X" ++ [7, 0, 1]) ++
    [0, 0, 0, 2, 0, 0, 0, 0, 0, 0, 0, 0, 0, 0]

end Sample

/-- A byte after the class is accepted, although these bytes are written for no class file. -/
theorem accepts_byte_after_class :
    (∃ c, decode (Sample.empty ++ [0]) = .ok c) ∧
      ¬∃ c, IsWrittenAs c (Sample.empty ++ [0]) := by
  have hread : ((decodeWithRest (Sample.empty ++ [0])).toOption.map Prod.snd) = some [0] := by
    decide +kernel
  cases h : decodeWithRest (Sample.empty ++ [0]) with
  | error e => simp [h, Except.toOption] at hread
  | ok read =>
    obtain ⟨c, rest⟩ := read
    refine ⟨⟨c, by rw [decode, h]; rfl⟩, ?_⟩
    rintro ⟨c', h'⟩
    rw [decodeWithRest_eq_ok_nil_iff.2 h'] at h
    obtain ⟨rfl, rfl⟩ := Prod.mk.inj (Except.ok.inj h)
    simp [decodeWithRest_eq_ok_nil_iff.2 h', Except.toOption] at hread

end Jarsmith.ClassFile
