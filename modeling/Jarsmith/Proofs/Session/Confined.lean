import Jarsmith.Proofs.FileSystem.Directories
import Jarsmith.Proofs.Session.Frame

/-!
# Where a session writes files

The frame `World.Confined S` says that files are written in `S` only: a file that is anywhere else
was there before, with the bytes that it has. Unlike `World.Spares` this also speaks of files that
are new. Directories may be made everywhere, and the open log file is written as ever.
-/

namespace Jarsmith

variable {e : Setting} {S : Set Place}

namespace World

/-- Nothing is lost, and the files that are outside of `S` were there before, the log file apart. -/
structure Confined (S : Set Place) (w after : World) : Prop where
  spares : Spares Set.univ w after
  file : ∀ p bytes, p ∉ S → w.console.logFile? ≠ some p →
    after.files.node? p = some (.file bytes) → w.files.node? p = some (.file bytes)

theorem Confined.framing (e : Setting) (S : Set Place) : Framing e (Confined S) where
  refl w := ⟨.refl _ w, fun _ _ _ _ h => h⟩
  trans {w between after} h₁ h₂ := by
    have hlog : between.console.logFile? = w.console.logFile? :=
      congrArg Setting.log? h₁.spares.setting
    refine ⟨h₁.spares.trans h₂.spares, fun p bytes hS hopen hp => ?_⟩
    exact h₁.file p bytes hS hopen (h₂.file p bytes hS (hlog ▸ hopen) hp)
  ready hw h := h.spares.ready hw
  shown w _ := ⟨⟨.refl _ _, rfl⟩, fun _ _ _ _ h => h⟩
  logged {w p _} _ hw hp _ := by
    refine ⟨.logged _ hw hp, fun q found _ hopen hq => ?_⟩
    have hne : q ≠ p := by
      rintro rfl
      exact hopen hp
    rwa [FileSystem.node?_put_of_ne _ hne] at hq

theorem Confined.allowsFiles (e : Setting) (S : Set Place) : AllowsFiles e (Confined S) S := by
  intro w p contents _ hp hnode
  refine ⟨⟨(FileSystem.Spares.put_file hnode).mono fun _ _ => Or.inl trivial, rfl⟩, ?_⟩
  intro q bytes hS _ hq
  have hne : q ≠ p := by
    rintro rfl
    exact hS hp
  rwa [FileSystem.node?_put_of_ne _ hne] at hq

end World

namespace Session.Within

/-- What is made is no file. -/
theorem makeDirectories_confined (path : Path) :
    (Session.makeDirectories path).Within e (World.Confined S) := by
  intro w hw
  refine ⟨makeDirectories path w hw, fun p bytes _ _ hp => ?_⟩
  rw [outcome_makeDirectories] at hp
  rcases (FileSystem.makeDirectories_fills w.files path).node? p with hsame | ⟨-, -, hmade⟩
  · exact hsame ▸ hp
  · simp [hmade] at hp

end Session.Within

end Jarsmith
