import Mathlib.Data.List.Forall2
import Jarsmith.Archive.Encode
import Jarsmith.Archive.Open

/-!
# Reading an archive back

An archive that was written is opened again by reading its file and its directory. `ReadsBack` says
that this gives what was written: the members in their order, with all that is recorded of them and
with their data. This is of archives without records of large archives, which `encode` does not
write: they are the bytes of an archive of at most 65535 members whose sizes and places are below
4 GiB.
-/

namespace Jarsmith

/-- What is in the second of two lists that agree has its like in the first. -/
theorem exists_mem_of_forall₂ {α β : Type} {R : α → β → Prop} {as : List α} {bs : List β} {b : β}
    (h : List.Forall₂ R as bs) (hb : b ∈ bs) : ∃ a ∈ as, R a b := by
  induction h with
  | nil => simp at hb
  | cons hr _ ih =>
    rcases List.mem_cons.1 hb with rfl | hb
    · exact ⟨_, List.mem_cons_self, hr⟩
    · obtain ⟨a, ha, hr⟩ := ih hb
      exact ⟨a, List.mem_cons_of_mem _ ha, hr⟩

namespace OpenArchive

variable {files : FileSystem} {path : Path} {a : OpenArchive} {m : Archive.Member} {data : Bytes}

/-- An archive is opened from the bytes of its file. -/
theorem load_eq_ok :
    load files path = .ok a ↔
      a.path = path ∧ files.read path = .ok a.bytes ∧ Archive.ofBytes a.bytes = .ok a.archive := by
  unfold load
  cases hread : files.read path with
  | error e =>
    show Except.error (Fault.files e) = .ok a ↔ _
    simp
  | ok bytes =>
    rw [show Except.mapError Fault.files (Except.ok bytes) = .ok bytes from rfl]
    simp only [bind, Except.bind]
    cases harchive : Archive.ofBytes bytes with
    | error e =>
      have hne : ¬ (a.path = path ∧ Except.ok (ε := FileSystem.Error) bytes = .ok a.bytes ∧
          Archive.ofBytes a.bytes = .ok a.archive) := by
        rintro ⟨-, hbytes, h⟩
        rw [← Except.ok.inj hbytes, harchive] at h
        simp at h
      dsimp only
      split <;> simpa using hne
    | ok archive =>
      constructor
      · intro h
        obtain rfl := Except.ok.inj h
        exact ⟨rfl, rfl, harchive⟩
      · rintro ⟨rfl, hbytes, h⟩
        obtain rfl := Except.ok.inj hbytes
        obtain rfl := Except.ok.inj (harchive.symm.trans h)
        rfl

/-- The same bytes at a path give the same archive. -/
theorem load_congr {files' : FileSystem} (h : files.read path = files'.read path) :
    load files path = load files' path := by
  unfold load
  rw [h]

theorem read_eq_ok :
    a.read m = .ok data ↔ (m.method = Archive.storedMethod ∨ m.method = Archive.deflatedMethod) ∧
      m.contents a.bytes = .ok data := by
  unfold read readFrom checkMethod
  by_cases hmethod : m.method = Archive.storedMethod ∨ m.method = Archive.deflatedMethod
  · rw [if_pos hmethod]
    cases hcontents : m.contents a.bytes with
    | error e =>
      simp only [bind, Except.bind]
      split <;> simp
    | ok found => simp [bind, Except.bind, pure, Except.pure, hmethod]
  · rw [if_neg hmethod]
    simp [bind, Except.bind, hmethod]

end OpenArchive

namespace Archive

/-- What is recorded of a member that was written: what was to be recorded, only that marks of the
system that are zero become those of a file of its owner. -/
def NewMember.recorded (m : NewMember) : Entry :=
  { m.entry with external := if m.entry.external = 0 then ownerAccess else m.entry.external }

/-- The member `m` of the bytes is what was written as `new`. -/
structure Holds (bytes : Bytes) (m : Member) (new : NewMember) : Prop where
  entry : m.toEntry = new.recorded
  contents : m.contents bytes = .ok new.data

/-- The members that were written are those that are read. The bytes are those of `encode`, which has
no records of large archives: for more than 65535 members, or sizes and places from 4 GiB on, they
are not the bytes that an archive with such records has, and nothing is said of that one. -/
def ReadsBack (written : List NewMember) : Prop :=
  ∃ archive, ofBytes (encode written) = .ok archive ∧
    List.Forall₂ (Holds (encode written)) archive.members written

instance (bytes : Bytes) (m : Member) (new : NewMember) : Decidable (Holds bytes m new) :=
  decidable_of_iff (m.toEntry = new.recorded ∧ m.contents bytes = .ok new.data)
    ⟨fun h => ⟨h.1, h.2⟩, fun h => ⟨h.entry, h.contents⟩⟩

instance (written : List NewMember) : Decidable (ReadsBack written) :=
  match h : ofBytes (encode written) with
  | .ok archive =>
    decidable_of_iff (List.Forall₂ (Holds (encode written)) archive.members written)
      ⟨fun hall => ⟨archive, h, hall⟩, fun ⟨_, hread, hall⟩ => Except.ok.inj (h ▸ hread) ▸ hall⟩
  | .error e => .isFalse fun ⟨archive, hread, _⟩ => by simp [h] at hread

end Archive

/-- The member of an open archive is what was written as `new`. -/
structure OpenArchive.Holds (a : OpenArchive) (m : Archive.Member) (new : Archive.NewMember) :
    Prop where
  entry : m.toEntry = new.recorded
  read : a.read m = .ok new.data

/-- An archive that was written with methods that are read is opened with its members. -/
theorem Archive.ReadsBack.exists_load {files : FileSystem} {path : Path} {written : List NewMember}
    (h : ReadsBack written)
    (hmethod : ∀ new ∈ written,
      new.entry.method = storedMethod ∨ new.entry.method = deflatedMethod)
    (hread : files.read path = .ok (encode written)) :
    ∃ a, OpenArchive.load files path = .ok a ∧ List.Forall₂ a.Holds a.archive.members written := by
  obtain ⟨archive, harchive, hmembers⟩ := h
  refine ⟨⟨path, encode written, archive⟩, OpenArchive.load_eq_ok.2 ⟨rfl, hread, harchive⟩, ?_⟩
  have hall := (List.forall₂_and_left written archive.members).2 ⟨hmethod, hmembers.flip⟩
  refine hall.flip.imp fun m new hnew => ⟨hnew.2.entry, ?_⟩
  have hsame : m.method = new.recorded.method := congrArg Entry.method hnew.2.entry
  exact OpenArchive.read_eq_ok.2 ⟨by rw [hsame]; exact hnew.1, hnew.2.contents⟩

/-- A folder and two files, one of them stored and one made small. -/
example : Archive.ReadsBack [
    ⟨⟨"p/", Archive.storedMethod, 0x21, 0, [], [], 3, 0, 0x41ED0010⟩, [], .standard⟩,
    ⟨⟨"p/C.class", Archive.storedMethod, 0x21, 0, [0x63], [], 3, 0, 0⟩, [0xCA, 0xFE], .standard⟩,
    ⟨⟨"é.txt", Archive.deflatedMethod, 0x21, 0, [], [9, 0, 1, 0, 7], 0, 1, 1⟩, [0x61, 0x61],
      .standard⟩] := by
  decide +kernel

end Jarsmith
