import Jarsmith.Proofs.FileSystem.Change

/-!
# Where directories are made

A directory is made together with those above it, that is, with each directory that the path names
on its way (`Path.ways`). Of a path without two dots these are the directories above its landing. A
path that goes up again may name others, and one of them may be where a file is expected.

`makeDirectories_fills` says that nothing else happens: what is at a place is as it was, or there
was nothing and the place is one of the ways.
-/

namespace Jarsmith

namespace Path

/-- The landings of the path and of the paths that it begins with. -/
def ways (p : Path) (root : Place) : Set Place :=
  {place | ∃ n, n ≤ p.parts.length ∧
    place = ({ p with parts := p.parts.take n } : Path).landing root}

theorem landing_mem_ways (p : Path) (root : Place) : p.landing root ∈ p.ways root :=
  ⟨p.parts.length, Nat.le_refl _, by rw [List.take_length]⟩

theorem ways_parent_subset (p : Path) (root : Place) : p.parent.ways root ⊆ p.ways root := by
  rintro _ ⟨n, hn, rfl⟩
  have hn : n ≤ p.parts.length - 1 := by simpa [parent] using hn
  refine ⟨n, by omega, ?_⟩
  unfold parent
  rw [List.dropLast_eq_take, List.take_take, Nat.min_eq_left hn]

end Path

namespace FileSystem

variable {S T : Set Place} {files between after : FileSystem} {path : Path}

/-- Only directories were made, at places of `S` where nothing was. -/
structure Fills (S : Set Place) (files after : FileSystem) : Prop where
  root : after.workingDirectory = files.workingDirectory
  node? : ∀ p, after.node? p = files.node? p ∨
    p ∈ S ∧ files.node? p = none ∧ after.node? p = some .directory

namespace Fills

theorem refl (S : Set Place) (files : FileSystem) : Fills S files files := ⟨rfl, fun _ => .inl rfl⟩

theorem trans (h₁ : Fills S files between) (h₂ : Fills S between after) : Fills S files after where
  root := h₂.root.trans h₁.root
  node? p := by
    rcases h₁.node? p with hsame | ⟨hS, hnone, hmade⟩
    · rcases h₂.node? p with hsame' | ⟨hS, hnone, hmade⟩
      · exact .inl (hsame'.trans hsame)
      · exact .inr ⟨hS, hsame ▸ hnone, hmade⟩
    · rcases h₂.node? p with hsame' | ⟨-, hnone', -⟩
      · exact .inr ⟨hS, hnone, hsame'.trans hmade⟩
      · simp [hmade] at hnone'

theorem mono (hST : S ⊆ T) (h : Fills S files after) : Fills T files after where
  root := h.root
  node? p := (h.node? p).imp_right fun ⟨hS, h⟩ => ⟨hST hS, h⟩

end Fills

theorem ensureDirectory_fills (h : files.ensureDirectory path = .ok after) :
    Fills {path.landing files.workingDirectory} files after := by
  unfold ensureDirectory at h
  split at h
  · next made hmade =>
    obtain rfl : made = after := by simpa using h
    unfold makeDirectory at hmade
    cases hplace : files.locate path with
    | error e => simp [hplace, bind, Except.bind] at hmade
    | ok place =>
      rw [hplace] at hmade
      simp only [bind, Except.bind] at hmade
      cases hnode : files.node? place with
      | some node => simp [hnode] at hmade
      | none =>
        obtain rfl : files.put place .directory = made := by
          simpa [hnode, pure, Except.pure] using hmade
        refine ⟨rfl, fun p => ?_⟩
        by_cases hp : p = place
        · subst hp
          have hne : p ≠ [] := by
            rintro rfl
            simp at hnode
          exact .inr ⟨locate_eq_landing hplace, hnode, node?_put_self _ hne _⟩
        · exact .inl (node?_put_of_ne _ hp _)
  · split at h
    · obtain rfl : files = after := by simpa using h
      exact .refl _ _
    · simp at h
    · simp at h

theorem makeDirectoriesUpTo_fills (files : FileSystem) (depth : Nat) (path : Path) :
    Fills (path.ways files.workingDirectory) files (files.makeDirectoriesUpTo depth path).1 := by
  have hself {files after : FileSystem} {path : Path}
      (h : files.ensureDirectory path = .ok after) :
      Fills (path.ways files.workingDirectory) files after :=
    (ensureDirectory_fills h).mono (Set.singleton_subset_iff.2 (path.landing_mem_ways _))
  induction depth generalizing path with
  | zero => exact .refl _ _
  | succ depth ih =>
    unfold makeDirectoriesUpTo
    split
    · next made hmade => exact hself hmade
    · split_ifs with hempty
      · exact .refl _ _
      · have habove := (ih path.parent).mono (path.ways_parent_subset _)
        split
        · next below e hbelow => exact hbelow ▸ habove
        · next below hbelow =>
          rw [hbelow] at habove
          split
          · next made hmade => exact habove.trans (habove.root ▸ hself hmade)
          · exact habove
    · exact .refl _ _

/-- The directories that are made are those that the path names, where nothing was. -/
theorem makeDirectories_fills (files : FileSystem) (path : Path) :
    Fills (path.ways files.workingDirectory) files (files.makeDirectories path).1 :=
  makeDirectoriesUpTo_fills files _ path

end FileSystem

end Jarsmith
