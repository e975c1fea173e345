import Jarsmith.Proofs.FileSystem.Place

/-!
# What a change of files leaves alone

`Spares S files after` says that nothing of `files` is lost in `after`: directories and files are
still there, and the files outside of the set `S` of places have the bytes that they had. It is a
preorder, and a change at places where nothing was spares everything (`Spares.of_new`). Each
operation that changes files has one lemma of its success (`write_eq_ok`, `copy_eq_ok`) and one of
what it spares. A path that leads somewhere leads there after such a change too (`Spares.locate`),
and so reading a file outside of `S` gives the same bytes (`Spares.read`).
-/

namespace Jarsmith.FileSystem

/-- Everything in `files` is still there, and has the same bytes outside of `S`. -/
structure Spares (S : Set Place) (files after : FileSystem) : Prop where
  root : after.workingDirectory = files.workingDirectory
  directory : ∀ p, files.node? p = some .directory → after.node? p = some .directory
  file : ∀ p bytes, files.node? p = some (.file bytes) →
    ∃ bytes', after.node? p = some (.file bytes') ∧ (p ∉ S → bytes' = bytes)

variable {S T : Set Place} {files between after : FileSystem} {path source target : Path}
  {place : Place} {bytes contents : Bytes} {mode : WriteMode}

namespace Spares

theorem refl (S : Set Place) (files : FileSystem) : Spares S files files where
  root := rfl
  directory _ h := h
  file _ bytes h := ⟨bytes, h, fun _ => rfl⟩

theorem trans (h₁ : Spares S files between) (h₂ : Spares S between after) :
    Spares S files after where
  root := h₂.root.trans h₁.root
  directory p h := h₂.directory p (h₁.directory p h)
  file p bytes h := by
    obtain ⟨bytes₁, hp₁, heq₁⟩ := h₁.file p bytes h
    obtain ⟨bytes₂, hp₂, heq₂⟩ := h₂.file p bytes₁ hp₁
    exact ⟨bytes₂, hp₂, fun hp => (heq₂ hp).trans (heq₁ hp)⟩

theorem mono (hST : S ⊆ T) (h : Spares S files after) : Spares T files after where
  root := h.root
  directory := h.directory
  file p bytes hp := by
    obtain ⟨bytes', hp', heq⟩ := h.file p bytes hp
    exact ⟨bytes', hp', fun hT => heq fun hS => hT (hST hS)⟩

/-- Places where nothing was need not be counted. -/
theorem of_new (h : Spares S files after) (hnew : ∀ p ∈ S, p ∉ T → files.node? p = none) :
    Spares T files after where
  root := h.root
  directory := h.directory
  file p bytes hp := by
    obtain ⟨bytes', hp', heq⟩ := h.file p bytes hp
    refine ⟨bytes', hp', fun hT => heq fun hS => ?_⟩
    rw [hnew p hS hT] at hp
    simp at hp

theorem node?_of_notMem (h : Spares S files after) {node : Node}
    (hp : files.node? place = some node) (hS : place ∉ S) : after.node? place = some node := by
  cases node with
  | directory => exact h.directory place hp
  | file bytes =>
    obtain ⟨bytes', hp', heq⟩ := h.file place bytes hp
    rw [hp', heq hS]

/-! ### Paths after a change -/

theorem locateFrom (h : Spares S files after) {start : Place} {parts : List Text}
    (hp : files.locateFrom start parts = .ok place) :
    after.locateFrom start parts = .ok place := by
  induction parts generalizing start with
  | nil => exact hp
  | cons part parts ih =>
    unfold FileSystem.locateFrom at hp ⊢
    cases hstart : files.node? start with
    | none => simp [hstart] at hp
    | some node =>
      cases node with
      | file bytes => simp [hstart] at hp
      | directory =>
        rw [hstart] at hp
        rw [h.directory start hstart]
        dsimp only at hp ⊢
        split_ifs at hp ⊢ with hlong hup
        · exact ih hp
        · exact ih hp

/-- A path that leads to a place leads there after the change too. -/
theorem locate (h : Spares S files after) (hp : files.locate path = .ok place) :
    after.locate path = .ok place := by
  rw [locate_eq_ok] at hp ⊢
  have hstart : after.startOf path = files.startOf path := by rw [startOf, startOf, h.root]
  exact ⟨hp.1, hstart ▸ h.locateFrom hp.2⟩

end Spares

/-! ### Reading -/

theorem read_eq_ok :
    files.read path = .ok bytes ↔
      ∃ place, files.locate path = .ok place ∧ files.node? place = some (.file bytes) := by
  unfold read find
  cases hplace : files.locate path with
  | error e => simp [bind, Except.bind]
  | ok place =>
    cases hnode : files.node? place with
    | none => simp [bind, Except.bind, hnode]
    | some node => cases node <;> simp [bind, Except.bind, pure, Except.pure, hnode]

/-- The bytes of a file that is spared are the same after the change. -/
theorem Spares.read (h : Spares S files after) (hread : files.read path = .ok bytes)
    (hS : path.landing files.workingDirectory ∉ S) : after.read path = .ok bytes := by
  rw [read_eq_ok] at hread ⊢
  obtain ⟨place, hplace, hnode⟩ := hread
  rw [← locate_eq_landing hplace] at hS
  exact ⟨place, h.locate hplace, h.node?_of_notMem hnode hS⟩

/-- A file that can be read can be read after the change too, spared or not. -/
theorem Spares.exists_read (h : Spares S files after) (hread : files.read path = .ok bytes) :
    ∃ bytes', after.read path = .ok bytes' := by
  obtain ⟨place, hplace, hnode⟩ := read_eq_ok.1 hread
  obtain ⟨bytes', hnode', -⟩ := h.file place bytes hnode
  exact ⟨bytes', read_eq_ok.2 ⟨place, h.locate hplace, hnode'⟩⟩

theorem find_eq_ok {found : Place × Node} :
    files.find path = .ok found ↔
      files.locate path = .ok found.1 ∧ files.node? found.1 = some found.2 := by
  obtain ⟨place', node⟩ := found
  unfold find
  cases hplace : files.locate path with
  | error e => simp [bind, Except.bind]
  | ok place =>
    simp only [bind, Except.bind]
    cases hnode : files.node? place with
    | none =>
      have : ¬ (place = place' ∧ files.node? place' = some node) := by
        rintro ⟨rfl, h⟩
        simp [hnode] at h
      simpa using this
    | some node' =>
      constructor
      · intro h
        obtain ⟨rfl, rfl⟩ : place = place' ∧ node' = node := by simpa [pure, Except.pure] using h
        exact ⟨rfl, hnode⟩
      · rintro ⟨h, hn⟩
        obtain rfl : place = place' := by simpa using h
        obtain rfl : node' = node := by simpa [hnode] using hn
        rfl

/-- What can be read has a size. -/
theorem size_of_read (h : files.read path = .ok bytes) : files.size path = .ok bytes.length := by
  obtain ⟨place, hplace, hnode⟩ := read_eq_ok.1 h
  have hfind : files.find path = .ok (place, .file bytes) := find_eq_ok.2 ⟨hplace, hnode⟩
  unfold size
  rw [hfind]
  rfl

/-- What is at a path is a file exactly if it can be read. -/
theorem isFile_eq_ok : files.isFile path = .ok true ↔ ∃ bytes, files.read path = .ok bytes := by
  unfold isFile status read
  cases files.find path with
  | error e =>
    rcases e with ⟨reason, p⟩ | _ | _ | _
    · cases reason <;> simp [Except.map, bind, Except.bind]
    all_goals simp [Except.map, bind, Except.bind]
  | ok found =>
    obtain ⟨place, node⟩ := found
    cases node <;> simp [Except.map, bind, Except.bind, pure, Except.pure]

/-- Where there is nothing, a path that leads to a place leads to one that is free. -/
theorem node?_eq_none_of_exists? (h : files.exists? path = .ok false)
    (hplace : files.locate path = .ok place) : files.node? place = none := by
  by_contra hnode
  obtain ⟨node, hsome⟩ := Option.ne_none_iff_exists'.1 hnode
  have hfind : files.find path = .ok (place, node) := find_eq_ok.2 ⟨hplace, hsome⟩
  simp [exists?, status, hfind, Except.map] at h

/-! ### Writing -/

theorem write_eq_ok :
    files.write mode path contents = .ok after ↔
      ∃ place, files.locate path = .ok place ∧ files.node? place ≠ some .directory ∧
        (mode = .create → files.node? place = none) ∧
        after = files.put place (.file contents) := by
  unfold write
  cases hplace : files.locate path with
  | error e => simp [bind, Except.bind]
  | ok place =>
    cases hnode : files.node? place with
    | none => simp [bind, Except.bind, pure, Except.pure, hnode, eq_comm]
    | some node =>
      cases node <;> cases mode <;>
        simp [bind, Except.bind, pure, Except.pure, hnode, eq_comm]

/-- A file that takes the place of nothing or of another file. -/
theorem Spares.put_file (h : files.node? place ≠ some .directory) :
    Spares {place} files (files.put place (.file contents)) where
  root := rfl
  directory p hp := by
    have hne : p ≠ place := fun heq => h (heq ▸ hp)
    rw [node?_put_of_ne _ hne, hp]
  file p bytes hp := by
    by_cases heq : p = place
    · subst heq
      exact ⟨contents, node?_put_self _ (ne_nil_of_node?_ne_directory h) _, fun hS => absurd rfl hS⟩
    · exact ⟨bytes, by rw [node?_put_of_ne _ heq, hp], fun _ => rfl⟩

theorem write_spares (h : files.write mode path contents = .ok after) :
    Spares {path.landing files.workingDirectory} files after := by
  obtain ⟨place, hplace, hnode, -, rfl⟩ := write_eq_ok.1 h
  rw [← locate_eq_landing hplace]
  exact .put_file hnode

/-- What was put at the place to which a path leads is what the path leads to. -/
theorem read_put (hplace : files.locate path = .ok place)
    (h : files.node? place ≠ some .directory) :
    (files.put place (.file contents)).read path = .ok contents :=
  read_eq_ok.2 ⟨place, (Spares.put_file h).locate hplace,
    node?_put_self _ (ne_nil_of_node?_ne_directory h) _⟩

/-- What was written can be read. -/
theorem read_of_write (h : files.write mode path contents = .ok after) :
    after.read path = .ok contents := by
  obtain ⟨place, hplace, hnode, -, rfl⟩ := write_eq_ok.1 h
  exact read_put hplace hnode

/-- A file that is there can be overwritten. -/
theorem exists_write_of_read (h : files.read path = .ok bytes) (contents : Bytes) :
    ∃ after, files.write .replace path contents = .ok after := by
  obtain ⟨place, hplace, hnode⟩ := read_eq_ok.1 h
  exact ⟨_, write_eq_ok.2 ⟨place, hplace, by simp [hnode], by simp, rfl⟩⟩

/-- The input of an operation once its output was begun: it is empty if both are one file. -/
theorem read_of_write_nil (hread : files.read source = .ok bytes)
    (h : files.write mode target [] = .ok after) :
    after.read source = .ok (if target.landing files.workingDirectory =
      source.landing files.workingDirectory then [] else bytes) := by
  split
  · next hsame =>
    obtain ⟨place, hplace, hnode, -, rfl⟩ := write_eq_ok.1 h
    obtain ⟨place', hplace', -⟩ := read_eq_ok.1 hread
    obtain rfl : place = place' := by
      rw [locate_eq_landing hplace, hsame, ← locate_eq_landing hplace']
    exact read_put hplace' hnode
  · next hother => exact (write_spares h).read hread fun hmem => hother (Eq.symm hmem)

/-- Something put where nothing was. -/
theorem Spares.put_new (h : files.node? place = none) (node : Node) :
    Spares ∅ files (files.put place node) where
  root := rfl
  directory p hp := by
    rw [node?_put_of_ne, hp]
    rintro rfl
    simp [h] at hp
  file p bytes hp := by
    refine ⟨bytes, ?_, fun _ => rfl⟩
    rw [node?_put_of_ne, hp]
    rintro rfl
    simp [h] at hp

/-! ### Paths that no file can have -/

theorem any_nul_of_locate (h : files.locate path = .error .nulByte) :
    path.parts.any (0 ∈ ·) = true := by
  unfold locate at h
  split at h
  · next hnul => exact hnul
  · cases hplace : files.locateFrom (if path.isAbsolute then [] else files.workingDirectory)
      path.parts with
    | error reason =>
      rw [hplace] at h
      exact absurd (Except.error.inj h) (by simp)
    | ok place =>
      rw [hplace] at h
      exact absurd (show Except.ok place = .error Error.nulByte from h) (by simp)

theorem any_nul_of_write (h : files.write mode path contents = .error .nulByte) :
    path.parts.any (0 ∈ ·) = true := by
  unfold write at h
  cases hplace : files.locate path with
  | error e =>
    rw [hplace] at h
    obtain rfl : e = .nulByte := Except.error.inj h
    exact any_nul_of_locate hplace
  | ok place =>
    cases hnode : files.node? place with
    | none => simp [hplace, hnode, bind, Except.bind, pure, Except.pure] at h
    | some node =>
      cases node <;> cases mode <;>
        simp [hplace, hnode, bind, Except.bind, pure, Except.pure, throw, throwThe,
          MonadExceptOf.throw] at h

theorem any_nul_of_size (h : files.size path = .error .nulByte) :
    path.parts.any (0 ∈ ·) = true := by
  unfold size find at h
  cases hplace : files.locate path with
  | error e =>
    rw [hplace] at h
    obtain rfl : e = .nulByte := Except.error.inj h
    exact any_nul_of_locate hplace
  | ok place =>
    cases hnode : files.node? place with
    | none => simp [hplace, hnode, bind, Except.bind, throw, throwThe, MonadExceptOf.throw] at h
    | some node =>
      cases node <;> simp [hplace, hnode, bind, Except.bind, pure, Except.pure] at h

/-! ### Copying -/

/-- A copy that succeeds is written to another place than that of its source. -/
theorem copy_eq_ok (h : files.copy source target = .ok after) :
    ∃ bytes place, files.read source = .ok bytes ∧ files.locate target = .ok place ∧
      place ≠ source.landing files.workingDirectory ∧ files.node? place ≠ some .directory ∧
      after = files.put place (.file bytes) := by
  have hcopy : (do files.write .replace target (← files.read source)) = Except.ok after ∧
      ∀ a b, files.find source = .ok a → files.find target = .ok b → a.1 ≠ b.1 := by
    unfold copy at h
    dsimp only at h
    split at h
    · next a _ b _ ha hb =>
      split_ifs at h with hab
      · simp [bind, Except.bind] at h
      · refine ⟨h, fun a' b' ha' hb' => ?_⟩
        rw [ha] at ha'
        rw [hb] at hb'
        cases ha'
        cases hb'
        exact hab
    · next hnot => exact ⟨h, fun a b ha hb => absurd hb (hnot a.1 a.2 b.1 b.2 ha)⟩
  obtain ⟨hwrite, hdistinct⟩ := hcopy
  cases hread : files.read source with
  | error e => simp [hread, bind, Except.bind] at hwrite
  | ok bytes =>
    rw [hread] at hwrite
    obtain ⟨place, hplace, hnode, -, rfl⟩ := write_eq_ok.1 hwrite
    refine ⟨bytes, place, rfl, hplace, ?_, hnode, rfl⟩
    -- If both were one place, the target would be found there, and the copy refused.
    intro heq
    obtain ⟨place', hplace', hnode'⟩ := read_eq_ok.1 hread
    obtain rfl : place' = place := (locate_eq_landing hplace').trans heq.symm
    exact hdistinct (place', .file bytes) (place', .file bytes) (find_eq_ok.2 ⟨hplace', hnode'⟩)
      (find_eq_ok.2 ⟨hplace, hnode'⟩) rfl

/-! ### Making directories -/

theorem makeDirectory_spares (h : files.makeDirectory path = .ok after) :
    Spares ∅ files after := by
  unfold makeDirectory at h
  cases hplace : files.locate path with
  | error e => simp [hplace, bind, Except.bind] at h
  | ok place =>
    rw [hplace] at h
    simp only [bind, Except.bind] at h
    cases hnode : files.node? place with
    | some node => simp [hnode] at h
    | none =>
      obtain rfl : files.put place .directory = after := by
        simpa [hnode, pure, Except.pure] using h
      exact .put_new hnode _

theorem ensureDirectory_spares (h : files.ensureDirectory path = .ok after) :
    Spares ∅ files after := by
  unfold ensureDirectory at h
  split at h
  · next made hmade =>
    obtain rfl : made = after := by simpa using h
    exact makeDirectory_spares hmade
  · split at h
    · obtain rfl : files = after := by simpa using h
      exact .refl _ _
    · simp at h
    · simp at h

theorem makeDirectoriesUpTo_spares (files : FileSystem) (depth : Nat) (path : Path) :
    Spares ∅ files (files.makeDirectoriesUpTo depth path).1 := by
  induction depth generalizing path with
  | zero => exact .refl _ _
  | succ depth ih =>
    unfold makeDirectoriesUpTo
    split
    · next made hmade => exact ensureDirectory_spares hmade
    · split_ifs with hempty
      · exact .refl _ _
      · have habove := ih path.parent
        split
        · next below e hbelow => exact hbelow ▸ habove
        · next below hbelow =>
          rw [hbelow] at habove
          split
          · next made hmade => exact habove.trans (ensureDirectory_spares hmade)
          · exact habove
    · exact .refl _ _

end Jarsmith.FileSystem
