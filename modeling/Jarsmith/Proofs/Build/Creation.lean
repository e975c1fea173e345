import Jarsmith.Proofs.Build.Inputs
import Jarsmith.Proofs.Session.Log

/-!
# Builds that overwrite nothing

Where outputs must not be there before, nothing that is there is overwritten, whatever the build
comes to: every file has the bytes that it had, and to the open log file lines are only added
(`build_overwrites_nothing`). What is at the place of an output or of the manifest makes the build
fail, and so do two outputs at one place.

Three mechanisms work together. A copy is made where nothing was found before; an archive and the
manifest are created. All three need a place that is free (`Repackaging.free_of_copy`,
`Repackaging.free_of_repackage`, `free_of_writeManifest`), and after it was written it is not free
any more. Since nothing is lost on the way, a place that is free when it is written was so when the
build began.
-/

namespace Jarsmith

variable {e : Setting} {w w' : World} {input output path : Path} {bytes : Bytes}

/-- What is lost on the way to a place that is free was not there before either. -/
theorem World.Spares.node?_eq_none {S : Set Place} {p : Place} (h : World.Spares S w w')
    (hp : w'.files.node? p = none) : w.files.node? p = none := by
  cases hnode : w.files.node? p with
  | none => rfl
  | some node =>
    cases node with
    | directory => simp [h.files.directory p hnode] at hp
    | file old =>
      obtain ⟨new, hnew, -⟩ := h.files.file p old hnode
      simp [hnew] at hp

/-- A file that can be read is where its path lands. -/
theorem World.Ready.node?_of_read (hw : w.Ready e) (h : w.files.read path = .ok bytes) :
    w.files.node? (path.landing e.root) = some (.file bytes) := by
  obtain ⟨place, hplace, hnode⟩ := FileSystem.read_eq_ok.1 h
  rw [← congrArg Setting.root hw.1]
  exact FileSystem.locate_eq_landing hplace ▸ hnode

/-- What is created takes a place that was free. -/
theorem World.Ready.free_of_create (hw : w.Ready e) {contents : Bytes} {files : FileSystem}
    (h : w.files.write .create path contents = .ok files) :
    w.files.node? (path.landing e.root) = none := by
  obtain ⟨place, hplace, -, hfree, -⟩ := FileSystem.write_eq_ok.1 h
  rw [← congrArg Setting.root hw.1]
  exact FileSystem.locate_eq_landing hplace ▸ hfree rfl

/-! ### One output -/

namespace Repackaging

variable {p : Plan} {stats : Stats}

theorem free_of_repackage (hw : w.Ready e)
    (h : (repackage true p input output).outcome w = (.ok stats, w')) :
    w.files.node? (output.landing e.root) = none := by
  unfold repackage at h
  dsimp only at h
  obtain ⟨size, w₁, hsize, h⟩ := Session.outcome_bind_eq_ok.1 h
  obtain ⟨-, hw₁⟩ := Session.outcome_ask_eq_ok.1 hsize
  subst w₁
  obtain ⟨seen, w₂, hget, h⟩ := Session.outcome_bind_eq_ok.1 h
  obtain ⟨hseen, hw₂⟩ : seen = w ∧ w₂ = w := by simpa [eq_comm] using hget
  subst seen w₂
  obtain ⟨a, w₃, hlift, h⟩ := Session.outcome_bind_eq_ok.1 h
  have hw₃ : w = w₃ := (Prod.ext_iff.1 hlift).2
  subst w₃
  obtain ⟨_, w₄, hbegin, -⟩ := Session.outcome_bind_eq_ok.1 h
  obtain ⟨files, hfiles, -⟩ := Session.outcome_change_eq_ok.1 hbegin
  exact hw.free_of_create hfiles

theorem free_of_copy (hw : w.Ready e)
    (h : (copy true input output).outcome w = (.ok (), w')) :
    w.files.node? (output.landing e.root) = none := by
  unfold copy at h
  obtain ⟨exists?, w₁, hask, h⟩ := Session.outcome_bind_eq_ok.1 h
  obtain ⟨hexists, hw₁⟩ := Session.outcome_ask_eq_ok.1 hask
  subst w₁
  cases exists? with
  | true => simp at h
  | false =>
    obtain ⟨_, w₂, hchange, -⟩ := Session.outcome_bind_eq_ok.1 h
    obtain ⟨files, hfiles, -⟩ := Session.outcome_change_eq_ok.1 hchange
    obtain ⟨-, place, -, hplace, -, -, -⟩ := FileSystem.copy_eq_ok hfiles
    have hroot : w.files.workingDirectory = e.root := congrArg Setting.root hw.1
    rw [← hroot, ← FileSystem.locate_eq_landing hplace]
    exact FileSystem.node?_eq_none_of_exists? hexists hplace

theorem repackage_appends (p : Plan) (input output : Path) :
    (repackage true p input output).Within e World.Appends := by
  have hR := World.Appends.framing e
  unfold repackage
  dsimp only
  refine .bind hR (.ask hR _) fun _ => .bind hR (.get hR) fun _ => ?_
  refine .bind hR (.lift hR _) fun a => .create_bind_appends fun hne => ?_
  refine .bind hR (.ask hR _) fun bytes => .bind hR (.emitAll hR _) fun _ => ?_
  refine .bind hR (.write_appends _ _ hne) fun _ => ?_
  split
  · exact .bind hR (.throw hR _) fun _ => .bind hR (.ask hR _) fun _ =>
      .bind hR (.report hR _ _ _) fun _ => .pure hR _
  · exact .bind hR (.ask hR _) fun _ => .bind hR (.report hR _ _ _) fun _ => .pure hR _

theorem copy_appends (input output : Path) : (copy true input output).Within e World.Appends := by
  have hR := World.Appends.framing e
  have hrest : Session.Within e World.Appends (do
      let size ← Session.ask (·.size output)
      Session.report .info .repack (input.name ++ (" -> " : Text) ++ output.name ++
        (": 原样复制 (" : Text) ++ Text.ofSize size ++ (")" : Text))) :=
    .bind hR (.ask hR _) fun _ => .report hR _ _ _
  unfold copy
  refine .ask_bind hR fun w exists? hw hexists => ?_
  cases exists? with
  | true => exact hR.refl w
  | false =>
    simp only [Bool.false_eq_true, if_false]
    rw [Session.outcome_bind, Session.outcome_change]
    cases hfiles : w.files.copy input output with
    | error fault => exact hR.refl w
    | ok files =>
      -- Nothing was found at the target, so that it is not the log.
      obtain ⟨bytes, place, -, hplace, -, hnode, rfl⟩ := FileSystem.copy_eq_ok hfiles
      have hne := hw.log?_ne (FileSystem.node?_eq_none_of_exists? hexists hplace)
      have hcopied : World.Appends w
          { w with files := w.files.put place (.file bytes) } := by
        refine .of_spares (FileSystem.Spares.put_file hnode) fun p hp hmem => hne ?_
        rw [← hw.1, ← Set.mem_singleton_iff.1 hmem]
        exact hp
      exact hR.trans hcopied (hrest _ (hcopied.spares.ready hw))

end Repackaging

theorem free_of_writeManifest {directory : Path} {elements : List Text} (hw : w.Ready e)
    (h : (writeManifest true directory elements).outcome w = (.ok path, w')) :
    w.files.node? ((directory.child manifestName).landing e.root) = none := by
  unfold writeManifest at h
  dsimp only at h
  obtain ⟨_, w₁, hbegin, -⟩ := Session.outcome_bind_eq_ok.1 h
  obtain ⟨files, hfiles, -⟩ := Session.outcome_change_eq_ok.1 hbegin
  exact hw.free_of_create hfiles

theorem writeManifest_appends (directory : Path) (elements : List Text) :
    (writeManifest true directory elements).Within e World.Appends := by
  have hR := World.Appends.framing e
  unfold writeManifest
  dsimp only
  refine .create_bind_appends fun hne => ?_
  split
  · exact .throw hR _
  · exact .bind hR (.write_appends _ _ hne) fun _ => .pure hR _

namespace Build

variable {request : Request} {assembly after : Assembly} {a : Artifact}

theorem Request.overwritten_eq_empty (hstrict : request.configuration.strictCreate = true)
    (root : Place) (a : Artifact) : request.overwritten root a = ∅ := by
  simp [Request.overwritten, hstrict]

theorem Request.replaced_eq_empty (hstrict : request.configuration.strictCreate = true)
    (root : Place) : request.replaced root = ∅ := by
  simp [Request.replaced, Request.overwritten_eq_empty hstrict, hstrict]

namespace ArchiveOutput

variable {plan? : Option Repackaging.Plan} {s s' : Statistics} {total index : Nat}

/-- The output takes a place that was free. -/
theorem free_of_writeOne (hstrict : request.configuration.strictCreate = true) (hw : w.Ready e)
    (h : (writeOne request plan? a output s).outcome w = (.ok s', w')) :
    w.files.node? (output.landing e.root) = none ∧
      ∃ bytes, w'.files.node? (output.landing e.root) = some (.file bytes) := by
  unfold writeOne at h
  dsimp only at h
  rw [hstrict] at h
  cases plan? with
  | none =>
    obtain ⟨_, w₁, hcopy, h⟩ := Session.outcome_bind_eq_ok.1 h
    obtain rfl : w₁ = w' := (Prod.ext_iff.1 h).2
    have hw₁ := ((Repackaging.copy_within true _ _).relates hw hcopy).ready hw
    obtain ⟨bytes, -, hread, -⟩ := Repackaging.copy_eq_ok hw (.inl rfl) hcopy
    exact ⟨Repackaging.free_of_copy hw hcopy, bytes, hw₁.node?_of_read hread⟩
  | some plan =>
    obtain ⟨stats, w₁, hrepackage, h⟩ := Session.outcome_bind_eq_ok.1 h
    obtain rfl : w₁ = w' := (Prod.ext_iff.1 h).2
    have hw₁ := ((Repackaging.repackage_within true _ _ _).relates hw hrepackage).ready hw
    obtain ⟨-, written, -, -, hread, -⟩ := Repackaging.repackage_eq_ok hw (.inl rfl) hrepackage
    exact ⟨Repackaging.free_of_repackage hw hrepackage, _, hw₁.node?_of_read hread⟩

theorem free_of_writeNext (hstrict : request.configuration.strictCreate = true)
    (h : assembly.Decided request) (hw : w.Ready e)
    (hrun : (writeNext request total assembly a index).outcome w = (.ok after, w')) :
    w.files.node? ((request.output a).landing e.root) = none ∧
      ∃ bytes, w'.files.node? ((request.output a).landing e.root) = some (.file bytes) := by
  unfold writeNext at hrun
  dsimp only at hrun
  obtain ⟨_, w₁, hshow, hrun⟩ := Session.outcome_bind_eq_ok.1 hrun
  obtain ⟨plan?, w₂, hlift, hrun⟩ := Session.outcome_bind_eq_ok.1 hrun
  obtain ⟨hplan, hw₂⟩ := Prod.mk.inj hlift
  subst w₂
  obtain ⟨s, w₃, hwrite, hrun⟩ := Session.outcome_bind_eq_ok.1 hrun
  obtain ⟨size, w₄, hask, hrun⟩ := Session.outcome_bind_eq_ok.1 hrun
  obtain ⟨-, hw₄⟩ := Session.outcome_ask_eq_ok.1 hask
  have hw' : w₄ = w' := (Prod.ext_iff.1 hrun).2
  subst w₄ w'
  have hshown : World.Spares ∅ w w₁ :=
    (Session.Within.show (World.Spares.framing e ∅) _).relates hw hshow
  rw [(outputName_eq h hplan).1] at hwrite
  obtain ⟨hfree, hfile⟩ := free_of_writeOne hstrict (hshown.ready hw) hwrite
  exact ⟨hshown.node?_eq_none hfree, hfile⟩

/-- When all outputs are written they are at different places, all of which were free before: an
output that was written is there when the next one is. -/
theorem free_of_foldlM (hstrict : request.configuration.strictCreate = true)
    (h : assembly.Decided request) (hw : w.Ready e) {as : List (Artifact × Nat)}
    (hrun : Session.outcome
      (as.foldlM (fun assembly p => writeNext request total assembly p.1 p.2) assembly) w =
        (.ok after, w')) :
    (as.map fun p => (request.output p.1).landing e.root).Nodup ∧
      ∀ p ∈ as, w.files.node? ((request.output p.1).landing e.root) = none := by
  induction as generalizing assembly w with
  | nil => simp
  | cons p as ih =>
    obtain ⟨a, index⟩ := p
    rw [List.foldlM_cons] at hrun
    obtain ⟨next, between, hfirst, hrest⟩ := Session.outcome_bind_eq_ok.1 hrun
    have hspares := (writeNext_within h total a index).relates hw hfirst
    obtain ⟨hnodup, hlater⟩ := ih (writeNext_eq_ok h hfirst).2.1 (hspares.ready hw) hrest
    obtain ⟨hfree, bytes, hwritten⟩ := free_of_writeNext hstrict h hw hfirst
    rw [List.map_cons, List.nodup_cons]
    refine ⟨⟨fun hmem => ?_, hnodup⟩, fun q hq => ?_⟩
    · obtain ⟨q, hq, hplace⟩ := List.mem_map.1 hmem
      have hnone := hlater q hq
      rw [hplace, hwritten] at hnone
      simp at hnone
    · rcases List.mem_cons.1 hq with rfl | hq
      · exact hfree
      · exact hspares.node?_eq_none (hlater q hq)

theorem execute_appends (hstrict : request.configuration.strictCreate = true)
    (assembly : Assembly) : (execute request assembly).Within e World.Appends := by
  have hR := World.Appends.framing e
  unfold execute
  dsimp only
  refine .bind hR (.report hR _ _ _) fun _ => ?_
  refine .bind hR (.makeDirectories_appends _) fun _ => ?_
  refine .bind hR (.foldlM hR _ _ fun assembly p => ?_) fun _ => ?_
  · unfold writeNext writeOne
    dsimp only
    rw [hstrict]
    refine .bind hR (.show hR _) fun _ => .bind hR (.lift hR _) fun plan? => ?_
    refine .bind hR ?_ fun _ => .bind hR (.ask hR _) fun _ => .pure hR _
    split
    · exact .bind hR (Repackaging.copy_appends _ _) fun _ => .pure hR _
    · exact .bind hR (Repackaging.repackage_appends _ _ _) fun _ => .pure hR _
  · exact .bind hR (.show hR _) fun _ => .bind hR (.report hR _ _ _) fun _ => .pure hR _

end ArchiveOutput

namespace ManifestOutput

theorem free_of_execute (hstrict : request.configuration.strictCreate = true) (hw : w.Ready e)
    (hrun : (execute request assembly).outcome w = (.ok after, w')) :
    w.files.node? (request.manifest.landing e.root) = none := by
  unfold execute at hrun
  rw [hstrict] at hrun
  obtain ⟨path, w₁, hwrite, -⟩ := Session.outcome_bind_eq_ok.1 hrun
  exact free_of_writeManifest hw hwrite

theorem execute_appends (hstrict : request.configuration.strictCreate = true)
    (assembly : Assembly) : (execute request assembly).Within e World.Appends := by
  have hR := World.Appends.framing e
  unfold execute
  rw [hstrict]
  refine .bind hR (writeManifest_appends _ _) fun path => ?_
  exact .bind hR (.show hR _) fun _ => .bind hR (.report hR _ _ _) fun _ => .pure hR _

end ManifestOutput

/-! ### The build -/

/-- A build that succeeds has written to places that were free, each output to one of its own. -/
theorem free_of_build (hstrict : request.configuration.strictCreate = true) (hw : w.Ready e)
    (h : (build request).outcome w = (.ok after, w')) :
    (request.configuration.classpath.map fun a => (request.output a).landing e.root).Nodup ∧
      (∀ a ∈ request.configuration.classpath,
        w.files.node? ((request.output a).landing e.root) = none) ∧
      w.files.node? (request.manifest.landing e.root) = none := by
  obtain ⟨-, decided, written, w₁, w₂, w₃, w₄, hdecided, -, -, h₁, hwritten, h₃, hmanifest, -⟩ :=
    build_eq_ok hw h
  have hw₁ := h₁.1.ready hw
  obtain ⟨v₁, v₂, hv₁, hfold, -⟩ := ArchiveOutput.execute_eq_ok hdecided hw₁ hwritten
  obtain ⟨hnodup, hfree⟩ :=
    ArchiveOutput.free_of_foldlM hstrict hdecided (hv₁.ready hw₁) hfold
  rw [← List.zipIdx_map_fst 0 request.configuration.classpath, ← hdecided.artifacts]
  refine ⟨by rwa [List.map_map], fun a ha => ?_, ?_⟩
  · obtain ⟨p, hp, rfl⟩ := List.mem_map.1 ha
    exact (h₁.1.trans hv₁).node?_eq_none (hfree p hp)
  · -- The outputs were written before the manifest, and nothing was lost by that.
    have hspares := (ArchiveOutput.execute_within hdecided).relates hw₁ hwritten
    have hw₃ := h₃.1.ready (hspares.ready hw₁)
    have hnone := ManifestOutput.free_of_execute hstrict hw₃ hmanifest
    exact h₁.1.node?_eq_none (hspares.node?_eq_none (h₃.1.node?_eq_none hnone))

/-- To the log, such a build only adds. -/
theorem build_appends (hstrict : request.configuration.strictCreate = true) :
    (build request).Within e World.Appends := by
  have hR := World.Appends.framing e
  refine Pipeline.execute_within hR ?_
  rw [Pipeline.standard_eq_append, Pipeline.runSteps_append]
  refine .bind hR (Pipeline.runSteps_deciding_within hR _) fun decided => ?_
  refine Pipeline.runSteps_cons_within hR (ArchiveOutput.execute_appends hstrict _)
    fun _ _ _ _ _ => ?_
  exact Pipeline.runSteps_cons_within hR (ManifestOutput.execute_appends hstrict _)
    fun _ _ _ _ _ => .pure hR _

/-- **A build that overwrites nothing**: where outputs must not be there before, whatever the build
comes to, every file is still there with its bytes, except that to the open log file something may
have been added. The build fails if there is something at the place of an output or of the manifest,
or if two outputs have one place. -/
theorem build_overwrites_nothing {result : Except Fault Assembly}
    (hstrict : request.configuration.strictCreate = true) (hlog : w.LogReady)
    (h : (build request).outcome w = (result, w')) :
    (∀ p bytes, w.files.node? p = some (.file bytes) →
      ∃ more, w'.files.node? p = some (.file (bytes ++ more)) ∧
        (w.console.logFile? ≠ some p → more = [])) ∧
    ((∃ a ∈ request.configuration.classpath,
        w.files.node? ((request.output a).landing w.files.workingDirectory) ≠ none) ∨
      w.files.node? (request.manifest.landing w.files.workingDirectory) ≠ none ∨
      ¬ (request.configuration.classpath.map fun a =>
        (request.output a).landing w.files.workingDirectory).Nodup →
      ∃ fault, result = .error fault) := by
  have hw : w.Ready w.setting := ⟨rfl, hlog⟩
  refine ⟨fun p bytes hp => ?_, fun hbad => ?_⟩
  · by_cases hopen : w.console.logFile? = some p
    · obtain ⟨more, hmore⟩ := ((build_appends hstrict).relates hw h).log p bytes hopen hp
      exact ⟨more, hmore, fun hne => absurd hopen hne⟩
    · have hspares := (build_within request).relates hw h
      rw [Request.replaced_eq_empty hstrict] at hspares
      refine ⟨[], ?_, fun _ => rfl⟩
      rw [List.append_nil]
      refine hspares.files.node?_of_notMem hp ?_
      rw [Set.empty_union]
      exact hopen
  · cases result with
    | error fault => exact ⟨fault, rfl⟩
    | ok after =>
      obtain ⟨hnodup, hfree, hmanifest⟩ := free_of_build hstrict hw h
      rcases hbad with ⟨a, ha, hnode⟩ | hnode | hsame
      · exact absurd (hfree a ha) hnode
      · exact absurd hmanifest hnode
      · exact absurd hnodup hsame

/-- An artifact that would be repackaged to its own file: the build fails, and the file is kept. -/
theorem build_overwrites_nothing_of_own_file :
    ∃ fault w', (build
        ⟨Sample.configuration "/o/a-1-repackaged.jar" true ["X"], "/o", none⟩).outcome
        (Sample.world "/o/a-1-repackaged.jar" Sample.singleClass) = (.error fault, w') ∧
      w'.files.node? ["o", "a-1-repackaged.jar"] = some (.file Sample.singleClass) := by
  have hnode : (Sample.world "/o/a-1-repackaged.jar" Sample.singleClass).files.node?
      ["o", "a-1-repackaged.jar"] = some (.file Sample.singleClass) := by decide +kernel
  have hlog : (Sample.world "/o/a-1-repackaged.jar" Sample.singleClass).LogReady := by
    intro p hp
    simp [Sample.world] at hp
  cases hrun : (build
      ⟨Sample.configuration "/o/a-1-repackaged.jar" true ["X"], "/o", none⟩).outcome
      (Sample.world "/o/a-1-repackaged.jar" Sample.singleClass) with
  | mk result w' =>
    obtain ⟨hkept, hfails⟩ := build_overwrites_nothing rfl hlog hrun
    obtain ⟨fault, rfl⟩ := hfails (.inl ⟨Sample.project "/o/a-1-repackaged.jar",
      by decide +kernel, by decide +kernel⟩)
    obtain ⟨more, hmore, hnone⟩ := hkept _ _ hnode
    refine ⟨fault, w', rfl, ?_⟩
    rw [hmore, hnone (by simp [Sample.world]), List.append_nil]

end Build

end Jarsmith
