import Jarsmith.Proofs.Session.Frame

/-!
# What a session does to the log

While a log file is open every report is written at its end. The frame `World.Appends` says that
nothing else is done to it: what stood in the file when the session began still stands at its
beginning, whether the session succeeds or fails.

Reports stay within this frame, as within every other. A change of files does so if it spares the
place of the log (`World.Appends.of_spares`). A file that must not be there before is never the log,
since that is there.
-/

namespace Jarsmith

variable {e : Setting} {S : Set Place} {w : World}

namespace World

/-- Nothing is lost, and the open log file is only written at its end. -/
structure Appends (w after : World) : Prop where
  spares : Spares Set.univ w after
  log : ∀ p old, w.console.logFile? = some p → w.files.node? p = some (.file old) →
    ∃ more, after.files.node? p = some (.file (old ++ more))

/-- Where files are changed outside of the log, the log stays as it is. -/
theorem Appends.of_spares {files : FileSystem} (h : FileSystem.Spares S w.files files)
    (hlog : ∀ p, w.console.logFile? = some p → p ∉ S) : Appends w { w with files } where
  spares := ⟨h.mono fun _ _ => Or.inl trivial, by simp only [setting, h.root]⟩
  log p old hp hold := ⟨[], by rw [List.append_nil, h.node?_of_notMem hold (hlog p hp)]⟩

theorem Appends.framing (e : Setting) : Framing e Appends where
  refl w := .of_spares (.refl ∅ w.files) fun p _ => Set.notMem_empty p
  trans {w between after} h₁ h₂ := by
    refine ⟨h₁.spares.trans h₂.spares, fun p old hp hold => ?_⟩
    have hp' : between.console.logFile? = some p :=
      (congrArg Setting.log? h₁.spares.setting).trans hp
    obtain ⟨first, hfirst⟩ := h₁.log p old hp hold
    obtain ⟨second, hsecond⟩ := h₂.log p (old ++ first) hp' hfirst
    exact ⟨first ++ second, by rw [hsecond, List.append_assoc]⟩
  ready hw h := h.spares.ready hw
  shown w transcript :=
    ⟨⟨.refl _ _, rfl⟩, fun p old _ hold => ⟨[], by rw [List.append_nil]; exact hold⟩⟩
  logged {w p old} more hw hp hold := by
    refine ⟨.logged _ hw hp, fun q found hq hfound => ⟨more, ?_⟩⟩
    obtain rfl : p = q := Option.some.inj (hp.symm.trans hq)
    obtain rfl : old = found := by simpa using hold.symm.trans hfound
    exact FileSystem.node?_put_self _
      (FileSystem.ne_nil_of_node?_ne_directory (by rw [hold]; simp)) _

end World

namespace Session.Within

variable {α : Type} {path : Path}

/-- A change of files that spares the log, in whatever state it is made. -/
theorem change_appends {f : FileSystem → Except FileSystem.Error FileSystem}
    (h : ∀ (w : World) (files : FileSystem), w.Ready e → f w.files = .ok files →
      ∃ S, FileSystem.Spares S w.files files ∧ ∀ p, e.log? = some p → p ∉ S) :
    (Session.change f).Within e World.Appends := by
  intro w hw
  rw [outcome_change]
  cases hf : f w.files with
  | error fault => exact (World.Appends.framing e).refl w
  | ok files =>
    obtain ⟨S, hspares, hlog⟩ := h w files hw hf
    refine .of_spares hspares fun p hp => hlog p ?_
    rw [← hw.1]
    exact hp

theorem write_appends (mode : FileSystem.WriteMode) (contents : Bytes)
    (hne : e.log? ≠ some (path.landing e.root)) :
    (Session.change fun files => files.write mode path contents).Within e World.Appends := by
  refine .change_appends fun w files hw hwrite => ?_
  refine ⟨_, FileSystem.write_spares hwrite, fun p hp hplace => hne ?_⟩
  rw [hp, Set.mem_singleton_iff.1 hplace, congrArg Setting.root hw.1.symm]
  rfl

theorem makeDirectories_appends (path : Path) :
    (Session.makeDirectories path).Within e World.Appends := by
  intro w _
  rw [outcome_makeDirectories]
  exact .of_spares (FileSystem.makeDirectoriesUpTo_spares w.files (path.parts.length + 1) path)
    fun p _ => Set.notMem_empty p

/-- A file that is begun where nothing was, and then written further. -/
theorem create_bind_appends {contents : Bytes} {rest : Unit → Session α}
    (hrest : e.log? ≠ some (path.landing e.root) → (rest ()).Within e World.Appends) :
    Session.Within e World.Appends
      (Session.change (fun files => files.write .create path contents) >>= rest) := by
  intro w hw
  rw [outcome_bind, outcome_change]
  cases hwrite : w.files.write .create path contents with
  | error fault => exact (World.Appends.framing e).refl w
  | ok files =>
    obtain ⟨place, hplace, -, hfree, -⟩ := FileSystem.write_eq_ok.1 hwrite
    have hne : e.log? ≠ some (path.landing e.root) := by
      rw [← congrArg Setting.root hw.1]
      exact FileSystem.locate_eq_landing hplace ▸ hw.log?_ne (hfree rfl)
    have hbegun := (write_appends .create contents hne).relates hw
      (by rw [outcome_change, hwrite])
    exact (World.Appends.framing e).trans hbegun (hrest hne _ (hbegun.spares.ready hw))

end Session.Within

end Jarsmith
