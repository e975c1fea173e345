import Jarsmith.Proofs.FileSystem.Change
import Jarsmith.Proofs.Session.Run

/-!
# What a session leaves alone

A frame is a preorder on states to which the writing of the log belongs: `w` before and `after` are
related if nothing happened that the frame does not allow. `s.Within e R` says that `s`, whether it
succeeds or fails, stays within the frame `R` when it is run in the setting `e`. There is a lemma
for each way to put sessions together and for each operation that only reports or reads, so that
the frame of a session is read off its text.

Two frames are used. `World.Spares S`: nothing is lost, and the bytes of no file outside of `S` are
changed, the open log file apart. `World.Unchanged`: no file but the log is changed at all.

The log file is written without looking what is there. That it is a file, as it is after it was
opened (`World.LogReady`), is kept by both frames.
-/

namespace Jarsmith

/-- What stays the same all through a build: from where paths are followed, and the place of the
open log file. -/
structure Setting where
  root : Place
  log? : Option Place

/-- The place of the log file, as a set. -/
def Setting.logPlaces (e : Setting) : Set Place := {p | e.log? = some p}

namespace World

/-- The setting of a state. -/
def setting (w : World) : Setting := ⟨w.files.workingDirectory, w.console.logFile?⟩

/-- The open log file, if there is one, is a file. -/
def LogReady (w : World) : Prop :=
  ∀ p, w.console.logFile? = some p → ∃ bytes, w.files.node? p = some (.file bytes)

/-- Nothing is lost, and the files outside of `S` and the log file have the bytes that they had. -/
structure Spares (S : Set Place) (w after : World) : Prop where
  files : FileSystem.Spares (S ∪ w.setting.logPlaces) w.files after.files
  setting : after.setting = w.setting

variable {S T : Set Place} {w between after : World}

namespace Spares

theorem refl (S : Set Place) (w : World) : Spares S w w := ⟨.refl _ _, rfl⟩

theorem trans (h₁ : Spares S w between) (h₂ : Spares S between after) : Spares S w after where
  files := h₁.files.trans (h₁.setting ▸ h₂.files)
  setting := h₂.setting.trans h₁.setting

theorem mono (hST : S ⊆ T) (h : Spares S w after) : Spares T w after where
  files := h.files.mono (Set.union_subset_union_left _ hST)
  setting := h.setting

/-- Places where nothing was need not be counted. -/
theorem of_new (h : Spares S w after) (hnew : ∀ p ∈ S, p ∉ T → w.files.node? p = none) :
    Spares T w after where
  files := by
    refine h.files.of_new fun p hp hT => ?_
    rw [Set.mem_union, not_or] at hT
    rcases hp with hS | hlog
    · exact hnew p hS hT.1
    · exact absurd hlog hT.2
  setting := h.setting

theorem logReady (h : Spares S w after) (hw : w.LogReady) : after.LogReady := by
  intro p hp
  have hlog : after.console.logFile? = w.console.logFile? := congrArg Setting.log? h.setting
  obtain ⟨bytes, hbytes⟩ := hw p (hlog ▸ hp)
  obtain ⟨bytes', hbytes', -⟩ := h.files.file p bytes hbytes
  exact ⟨bytes', hbytes'⟩

end Spares

/-- The states have the same files, the log file apart. -/
def Unchanged (w after : World) : Prop := Spares ∅ w after ∧ Spares ∅ after w

/-- The state is one of the setting, and its log file can be written. -/
def Ready (e : Setting) (w : World) : Prop := w.setting = e ∧ w.LogReady

end World

/-- A file outside of `S` that is not the log file has the same bytes afterwards. -/
theorem World.Spares.read {e : Setting} {S : Set Place} {w after : World} {path : Path}
    {bytes : Bytes} (h : World.Spares S w after) (hw : w.Ready e) (hS : path.landing e.root ∉ S)
    (hlog : e.log? ≠ some (path.landing e.root)) (hread : w.files.read path = .ok bytes) :
    after.files.read path = .ok bytes := by
  have hroot : w.files.workingDirectory = e.root := congrArg Setting.root hw.1
  refine h.files.read hread ?_
  rw [Set.mem_union, not_or, hroot, hw.1]
  exact ⟨hS, hlog⟩

/-- Nothing that is not there is the log file. -/
theorem World.Ready.log?_ne {e : Setting} {w : World} {p : Place} (hw : w.Ready e)
    (hp : w.files.node? p = none) : e.log? ≠ some p := by
  intro hlog
  obtain ⟨bytes, hbytes⟩ := hw.2 p (by rw [← hlog, ← hw.1]; rfl)
  rw [hp] at hbytes
  simp at hbytes

/-- A preorder on states that keeps the setting and allows to show things and to write at the end of
the log. -/
structure Framing (e : Setting) (R : World → World → Prop) : Prop where
  refl : ∀ w, R w w
  trans : ∀ {w between after}, R w between → R between after → R w after
  ready : ∀ {w after}, w.Ready e → R w after → after.Ready e
  shown : ∀ w transcript, R w { w with console := { w.console with transcript } }
  logged : ∀ {w : World} {p : Place} {old : Bytes} (more : Bytes), w.Ready e →
    w.console.logFile? = some p → w.files.node? p = some (.file old) →
    R w { w with files := w.files.put p (.file (old ++ more)) }

/-- At the places of `S`, where no directories are, files may be put without leaving the frame. -/
def AllowsFiles (e : Setting) (R : World → World → Prop) (S : Set Place) : Prop :=
  ∀ (w : World) (p : Place) (contents : Bytes), w.Ready e → p ∈ S →
    w.files.node? p ≠ some .directory → R w { w with files := w.files.put p (.file contents) }

namespace World

variable {e : Setting} {S : Set Place} {w after : World} {p : Place}

theorem Spares.ready (hw : w.Ready e) (h : Spares S w after) : after.Ready e :=
  ⟨h.setting.trans hw.1, h.logReady hw.2⟩

theorem Spares.logged (bytes : Bytes) (hw : w.Ready e) (hp : w.console.logFile? = some p) :
    Spares S w { w with files := w.files.put p (.file bytes) } := by
  obtain ⟨old, hold⟩ := hw.2 p hp
  refine ⟨(FileSystem.Spares.put_file (by simp [hold])).mono ?_, rfl⟩
  rw [Set.singleton_subset_iff]
  exact Or.inr hp

/-- What the log file was like before is not known after it was written, but it was a file. -/
theorem Spares.of_logged (bytes : Bytes) (hw : w.Ready e) (hp : w.console.logFile? = some p) :
    Spares S { w with files := w.files.put p (.file bytes) } w := by
  obtain ⟨old, hold⟩ := hw.2 p hp
  have hne : p ≠ [] := by
    rintro rfl
    simp at hold
  have hself := FileSystem.node?_put_self w.files hne (.file bytes)
  refine ⟨⟨rfl, fun q hq => ?_, fun q found hq => ?_⟩, rfl⟩
  · have hqp : q ≠ p := by
      rintro rfl
      simp [hself] at hq
    rwa [FileSystem.node?_put_of_ne _ hqp] at hq
  · by_cases hqp : q = p
    · exact ⟨old, hqp ▸ hold, fun hS => absurd (Or.inr (hqp ▸ hp)) hS⟩
    · rw [FileSystem.node?_put_of_ne _ hqp] at hq
      exact ⟨found, hq, fun _ => rfl⟩

theorem Spares.framing (e : Setting) (S : Set Place) : Framing e (Spares S) where
  refl := .refl S
  trans := .trans
  ready hw h := h.ready hw
  shown _ _ := ⟨.refl _ _, rfl⟩
  logged _ hw hp _ := .logged _ hw hp

theorem Unchanged.framing (e : Setting) : Framing e Unchanged where
  refl w := ⟨.refl _ w, .refl _ w⟩
  trans h₁ h₂ := ⟨h₁.1.trans h₂.1, h₂.2.trans h₁.2⟩
  ready hw h := h.1.ready hw
  shown _ _ := ⟨⟨.refl _ _, rfl⟩, ⟨.refl _ _, rfl⟩⟩
  logged _ hw hp _ := ⟨.logged _ hw hp, .of_logged _ hw hp⟩

end World

namespace Session

variable {α β : Type} {e : Setting} {R : World → World → Prop} {S T : Set Place}

/-- Whatever the session comes to, the state before and the one after are related. -/
def Within (e : Setting) (R : World → World → Prop) (s : Session α) : Prop :=
  ∀ w : World, w.Ready e → R w (s.outcome w).2

namespace Within

/-! ### Putting sessions together -/

theorem mono {Q : World → World → Prop} {s : Session α} (hRQ : ∀ w after, R w after → Q w after)
    (h : s.Within e R) : s.Within e Q := fun w hw => hRQ _ _ (h w hw)

/-- A single run of a session that stays within the frame. -/
theorem relates {s : Session α} (h : s.Within e R) {w after : World} {result : Except Fault α}
    (hw : w.Ready e) (hrun : s.outcome w = (result, after)) : R w after := by
  have := h w hw
  rwa [hrun] at this

theorem pure (hR : Framing e R) (a : α) : Session.Within e R (pure a) := fun w _ => hR.refl w

theorem throw (hR : Framing e R) (fault : Fault) :
    Session.Within e R (throw fault : Session α) := fun w _ => hR.refl w

theorem lift (hR : Framing e R) (r : Except Fault α) : Session.Within e R (liftM r) :=
  fun w _ => hR.refl w

/-- The second part may rely on what the first one gives. -/
theorem bind_of_outcome (hR : Framing e R) {s : Session α} {f : α → Session β}
    (hs : s.Within e R)
    (hf : ∀ w a after, w.Ready e → s.outcome w = (.ok a, after) → (f a).Within e R) :
    Session.Within e R (s >>= f) := by
  intro w hw
  have hfirst := hs w hw
  rw [outcome_bind]
  cases hrun : s.outcome w with
  | mk result between =>
    rw [hrun] at hfirst
    cases result with
    | error fault => exact hfirst
    | ok a => exact hR.trans hfirst (hf w a between hw hrun between (hR.ready hw hfirst))

theorem bind (hR : Framing e R) {s : Session α} {f : α → Session β} (hs : s.Within e R)
    (hf : ∀ a, (f a).Within e R) : Session.Within e R (s >>= f) :=
  bind_of_outcome hR hs fun _ a _ _ _ => hf a

theorem tryCatch (hR : Framing e R) {s : Session α} {handle : Fault → Session α}
    (hs : s.Within e R) (hhandle : ∀ fault, (handle fault).Within e R) :
    Session.Within e R (tryCatch s handle) := by
  intro w hw
  have hfirst := hs w hw
  rw [outcome_tryCatch]
  cases hrun : s.outcome w with
  | mk result between =>
    rw [hrun] at hfirst
    cases result with
    | ok a => exact hfirst
    | error fault => exact hR.trans hfirst (hhandle fault between (hR.ready hw hfirst))

theorem ite {p : Prop} [Decidable p] {s t : Session α} (hs : s.Within e R) (ht : t.Within e R) :
    Session.Within e R (if p then s else t) := by
  split
  · exact hs
  · exact ht

theorem forM (hR : Framing e R) {f : β → Session Unit} (bs : List β)
    (h : ∀ b, (f b).Within e R) : Session.Within e R (bs.forM f) := by
  induction bs with
  | nil => exact pure hR ()
  | cons b bs ih =>
    rw [outcome_forM_cons]
    exact bind hR (h b) fun _ => ih

theorem mapM (hR : Framing e R) {f : β → Session α} (bs : List β) (h : ∀ b, (f b).Within e R) :
    Session.Within e R (bs.mapM f) := by
  induction bs with
  | nil => exact pure hR []
  | cons b bs ih =>
    rw [List.mapM_cons]
    exact bind hR (h b) fun a => bind hR ih fun as => pure hR (a :: as)

theorem foldlM (hR : Framing e R) {f : α → β → Session α} (bs : List β) (a : α)
    (h : ∀ a b, (f a b).Within e R) : Session.Within e R (bs.foldlM f a) := by
  induction bs generalizing a with
  | nil => exact pure hR a
  | cons b bs ih =>
    rw [List.foldlM_cons]
    exact bind hR (h a b) fun next => ih next

/-! ### Reporting and reading -/

theorem «show» (hR : Framing e R) (s : Shown) : (Session.show s).Within e R :=
  fun w _ => hR.shown w _

theorem get (hR : Framing e R) : Session.Within e R get := fun w _ => hR.refl w

theorem ask (hR : Framing e R) (f : FileSystem → Except FileSystem.Error α) :
    (Session.ask f).Within e R := by
  intro w _
  rw [outcome_ask]
  exact hR.refl w

/-- What follows a question may rely on the answer, which is one about the same state. -/
theorem ask_bind (hR : Framing e R) {f : FileSystem → Except FileSystem.Error α}
    {g : α → Session β}
    (hg : ∀ w a, w.Ready e → f w.files = .ok a → R w ((g a).outcome w).2) :
    Session.Within e R (Session.ask f >>= g) := by
  intro w hw
  rw [outcome_bind, outcome_ask]
  cases hf : f w.files with
  | error fault => exact hR.refl w
  | ok a => exact hg w a hw hf

theorem writeLog (hR : Framing e R) (event : Log.Event) : (Session.writeLog event).Within e R := by
  intro w hw
  unfold Session.writeLog
  rw [outcome_bind, outcome_get]
  dsimp only
  split
  · exact hR.refl w
  · next p hp =>
    obtain ⟨old, hold⟩ := hw.2 p hp
    split
    · exact hR.refl w
    · rw [hold]
      exact hR.logged _ hw hp hold

theorem emit (hR : Framing e R) (event : Log.Event) : (Session.emit event).Within e R :=
  bind hR (get hR) fun _ =>
    ite (bind hR («show» hR _) fun _ => writeLog hR _) (pure hR _)

theorem report (hR : Framing e R) (level : Log.Level) (stage : Log.Stage) (message : Text) :
    (Session.report level stage message).Within e R := emit hR _

theorem emitAll (hR : Framing e R) (events : List Log.Event) :
    (Session.emitAll events).Within e R := forM hR events (emit hR)

theorem traced (hR : Framing e R) (c : FileSystem → Traced α) :
    (Session.traced c).Within e R := by
  intro w hw
  rw [outcome_traced]
  exact bind hR (emitAll hR _) (fun _ => lift hR _) w hw

/-! ### Changing files -/

/-- A change of files spares what the function on files spares. -/
theorem change {f : FileSystem → Except FileSystem.Error FileSystem}
    (h : ∀ files after, files.workingDirectory = e.root → f files = .ok after →
      FileSystem.Spares S files after) : (Session.change f).Within e (World.Spares S) := by
  intro w hw
  rw [outcome_change]
  cases hf : f w.files with
  | error fault => exact .refl _ _
  | ok after =>
    have hspares := h w.files after (congrArg Setting.root hw.1) hf
    refine ⟨hspares.mono Set.subset_union_left, ?_⟩
    simp only [World.setting, hspares.root]

theorem write (mode : FileSystem.WriteMode) (path : Path) (contents : Bytes) :
    (Session.change fun files => files.write mode path contents).Within e
      (World.Spares {path.landing e.root}) :=
  change fun _ _ hroot hwrite => hroot ▸ FileSystem.write_spares hwrite

theorem makeDirectories (path : Path) :
    (Session.makeDirectories path).Within e (World.Spares S) := by
  intro w _
  rw [outcome_makeDirectories]
  have hspares := FileSystem.makeDirectoriesUpTo_spares w.files (path.parts.length + 1) path
  refine ⟨hspares.mono (Set.empty_subset _), ?_⟩
  simp only [World.setting, FileSystem.makeDirectories, hspares.root]

/-- A file that is begun and then written further: where it must not be there before, everything
that was there is spared. -/
theorem write_bind {strict : Bool} {mode : FileSystem.WriteMode} {path : Path} {contents : Bytes}
    {rest : Unit → Session α} (hmode : strict = true → mode = .create)
    (hrest : (rest ()).Within e (World.Spares {path.landing e.root})) :
    Session.Within e (World.Spares (if strict then ∅ else {path.landing e.root}))
      (Session.change (fun files => files.write mode path contents) >>= rest) := by
  intro w hw
  rw [outcome_bind, outcome_change]
  cases hwrite : w.files.write mode path contents with
  | error fault => exact .refl _ _
  | ok files =>
    obtain ⟨place, hplace, hnode, hnew, rfl⟩ := FileSystem.write_eq_ok.1 hwrite
    have hland : place = path.landing e.root := by
      rw [← congrArg Setting.root hw.1]
      exact FileSystem.locate_eq_landing hplace
    have hbegun : World.Spares {path.landing e.root} w
        { w with files := w.files.put place (.file contents) } := by
      refine ⟨?_, rfl⟩
      rw [← hland]
      exact (FileSystem.Spares.put_file hnode).mono Set.subset_union_left
    have hall := hbegun.trans (hrest _ (hbegun.ready hw))
    cases strict with
    | false => exact hall
    | true =>
      -- The place was free when the file was begun, so nothing was lost by what followed.
      refine hall.of_new fun p hp _ => ?_
      rw [Set.mem_singleton_iff.1 hp, ← hland]
      exact hnew (hmode rfl)

/-! ### Putting files -/

/-- A change that only puts a file where the frame allows it. -/
theorem change_put (hR : Framing e R) (hallows : AllowsFiles e R S)
    {f : FileSystem → Except FileSystem.Error FileSystem}
    (h : ∀ files after, files.workingDirectory = e.root → f files = .ok after →
      ∃ p contents, p ∈ S ∧ files.node? p ≠ some .directory ∧
        after = files.put p (.file contents)) :
    (Session.change f).Within e R := by
  intro w hw
  rw [outcome_change]
  cases hf : f w.files with
  | error fault => exact hR.refl w
  | ok after =>
    obtain ⟨p, contents, hp, hnode, rfl⟩ := h w.files after (congrArg Setting.root hw.1) hf
    exact hallows w p contents hw hp hnode

theorem write_put (hR : Framing e R) (hallows : AllowsFiles e R S) {path : Path}
    (hS : path.landing e.root ∈ S) (mode : FileSystem.WriteMode) (contents : Bytes) :
    (Session.change fun files => files.write mode path contents).Within e R := by
  refine change_put hR hallows fun files after hroot hwrite => ?_
  obtain ⟨p, hp, hnode, -, rfl⟩ := FileSystem.write_eq_ok.1 hwrite
  rw [← hroot, ← FileSystem.locate_eq_landing hp] at hS
  exact ⟨p, contents, hS, hnode, rfl⟩

theorem copy_put (hR : Framing e R) (hallows : AllowsFiles e R S) {input output : Path}
    (hS : output.landing e.root ∈ S) : (Session.change (·.copy input output)).Within e R := by
  refine change_put hR hallows fun files after hroot hcopy => ?_
  obtain ⟨bytes, p, -, hp, -, hnode, rfl⟩ := FileSystem.copy_eq_ok hcopy
  rw [← hroot, ← FileSystem.locate_eq_landing hp] at hS
  exact ⟨p, bytes, hS, hnode, rfl⟩

end Within

end Session

end Jarsmith
