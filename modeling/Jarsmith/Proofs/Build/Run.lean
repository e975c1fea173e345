import Jarsmith.Proofs.Build.Output

/-!
# A whole build

`build_within` says what a build may change, whether it succeeds or fails and at whatever step, and
`build_eq_ok` what has happened if it succeeds: the artifacts were decided on without a change of
files, then their outputs were written, and then the manifest, which lists the names of the outputs
(`elements_of_build`).

The pipeline is taken in two parts. The first three steps decide what is to be written and change
no file, since they stay within any frame (`runSteps_deciding_within`, `runSteps_deciding_eq_ok`).
The last two write.
-/

namespace Jarsmith.Build

variable {e : Setting} {R : World → World → Prop} {request : Request}
  {assembly after : Assembly} {w w' : World}

/-! ### Steps -/

theorem Step.run_within (hR : Framing e R) {s : Step}
    (h : (s.execute request assembly).Within e R) : (s.run request assembly).Within e R := by
  unfold Step.run
  exact .tryCatch hR h fun _ => .bind hR (.report hR _ _ _) fun _ => .throw hR _

/-- A session that ends every failure with another one succeeds as it does without that. -/
theorem outcome_tryCatch_eq_ok {α : Type} {s : Session α} {handle : Fault → Session α} {a : α}
    (hfails : ∀ fault w, ∃ fault' w', (handle fault).outcome w = (.error fault', w'))
    (h : Session.outcome (tryCatch s handle) w = (.ok a, w')) : s.outcome w = (.ok a, w') := by
  rw [Session.outcome_tryCatch] at h
  split at h
  · next heq => rw [heq, h]
  · next fault between heq =>
    obtain ⟨fault', w'', hfail⟩ := hfails fault between
    rw [hfail] at h
    simp at h

theorem outcome_report_throw {α : Type} (level : Log.Level) (stage : Log.Stage) (message : Text)
    (fault : Fault) (w : World) : ∃ fault' w', Session.outcome
      (do Session.report level stage message; throw fault : Session α) w =
        (.error fault', w') := by
  rw [Session.outcome_bind]
  split
  · exact ⟨_, _, rfl⟩
  · exact ⟨_, _, rfl⟩

theorem Step.run_eq_ok {s : Step} (h : (s.run request assembly).outcome w = (.ok after, w')) :
    (s.execute request assembly).outcome w = (.ok after, w') :=
  outcome_tryCatch_eq_ok (fun _ _ => outcome_report_throw _ _ _ _ _) h

/-! ### Pipelines -/

namespace Pipeline

/-- The steps after the first one may rely on what that gives. -/
theorem runSteps_cons_within (hR : Framing e R) {s : Step} {p : Pipeline}
    (hs : (s.execute request assembly).Within e R)
    (hp : ∀ w after w', w.Ready e → (s.execute request assembly).outcome w = (.ok after, w') →
      (runSteps request p after).Within e R) :
    (runSteps request (s :: p) assembly).Within e R := by
  unfold runSteps
  refine .bind hR (.report hR _ _ _) fun _ => ?_
  refine .bind_of_outcome hR (Step.run_within hR hs) fun w after w' hw hrun => ?_
  exact hp w after w' hw (Step.run_eq_ok hrun)

theorem runSteps_cons_eq_ok {s : Step} {p : Pipeline} (hw : w.Ready e)
    (h : (runSteps request (s :: p) assembly).outcome w = (.ok after, w')) :
    ∃ next w₁ w₂, World.Unchanged w w₁ ∧
      (s.execute request assembly).outcome w₁ = (.ok next, w₂) ∧
      (runSteps request p next).outcome w₂ = (.ok after, w') := by
  unfold runSteps at h
  obtain ⟨_, w₁, hreport, h⟩ := Session.outcome_bind_eq_ok.1 h
  obtain ⟨next, w₂, hs, hp⟩ := Session.outcome_bind_eq_ok.1 h
  refine ⟨next, w₁, w₂, ?_, Step.run_eq_ok hs, hp⟩
  exact (Session.Within.report (World.Unchanged.framing e) _ _ _).relates hw hreport

/-- A first step that changes no files leaves the state as good as it was. -/
theorem runSteps_cons_of_unchanged {s : Step} {p : Pipeline} (hw : w.Ready e)
    (hs : (s.execute request assembly).Within e World.Unchanged)
    (h : (runSteps request (s :: p) assembly).outcome w = (.ok after, w')) :
    ∃ next w₁ w₂, World.Unchanged w w₁ ∧ World.Unchanged w w₂ ∧
      (s.execute request assembly).outcome w₁ = (.ok next, w₂) ∧
      (runSteps request p next).outcome w₂ = (.ok after, w') := by
  have hR := World.Unchanged.framing e
  obtain ⟨next, w₁, w₂, h₁, hrun, hrest⟩ := runSteps_cons_eq_ok hw h
  exact ⟨next, w₁, w₂, h₁, hR.trans h₁ (hs.relates (hR.ready hw h₁) hrun), hrun, hrest⟩

theorem runSteps_append (request : Request) (p q : Pipeline) (assembly : Assembly) :
    runSteps request (p ++ q) assembly = runSteps request p assembly >>= runSteps request q := by
  induction p generalizing assembly with
  | nil => rw [List.nil_append, runSteps, pure_bind]
  | cons s p ih => simp only [List.cons_append, runSteps, bind_assoc, ih]

theorem reportResult_within (hR : Framing e R) (c : Configuration) (assembly : Assembly) :
    (reportResult c assembly).Within e R := by
  unfold reportResult note
  dsimp only
  rw [Session.ite_bind]
  refine .bind hR (.report hR _ _ _) fun _ => ?_
  refine .bind hR (.emit hR _) fun _ => .bind hR (.emit hR _) fun _ => ?_
  refine .bind hR (.ite (.emit hR _) (.pure hR _)) fun _ => ?_
  exact .bind hR (.emit hR _) fun _ => .emit hR _

theorem execute_within (hR : Framing e R) {p : Pipeline}
    (h : (p.runSteps request .empty).Within e R) : (p.execute request).Within e R := by
  unfold execute attempt
  refine .tryCatch hR ?_ fun _ => .bind hR (.report hR _ _ _) fun _ => .throw hR _
  refine .bind hR (.report hR _ _ _) fun _ => .bind hR (.report hR _ _ _) fun _ => ?_
  exact .bind hR h fun _ => .bind hR (reportResult_within hR _ _) fun _ => .pure hR _

theorem execute_eq_ok {p : Pipeline} (hw : w.Ready e)
    (hready : ∀ w₁ w₂, w₁.Ready e → (p.runSteps request .empty).outcome w₁ = (.ok after, w₂) →
      w₂.Ready e)
    (h : (p.execute request).outcome w = (.ok after, w')) :
    ∃ w₁ w₂, World.Unchanged w w₁ ∧ (p.runSteps request .empty).outcome w₁ = (.ok after, w₂) ∧
      World.Unchanged w₂ w' := by
  have hR := World.Unchanged.framing e
  have hattempt := outcome_tryCatch_eq_ok (fun _ _ => outcome_report_throw _ _ _ _ _) h
  unfold attempt at hattempt
  obtain ⟨_, w₁, hstart, hattempt⟩ := Session.outcome_bind_eq_ok.1 hattempt
  obtain ⟨_, w₂, hask, hattempt⟩ := Session.outcome_bind_eq_ok.1 hattempt
  obtain ⟨result, w₃, hsteps, hattempt⟩ := Session.outcome_bind_eq_ok.1 hattempt
  obtain ⟨_, w₄, hreport, hattempt⟩ := Session.outcome_bind_eq_ok.1 hattempt
  rw [Session.outcome_pure, Prod.mk.injEq, Except.ok.injEq] at hattempt
  obtain ⟨rfl, rfl⟩ := hattempt
  have h₁ : World.Unchanged w w₁ := (Session.Within.report hR _ _ _).relates hw hstart
  have h₂ : World.Unchanged w₁ w₂ :=
    (Session.Within.report hR _ _ _).relates (hR.ready hw h₁) hask
  have hw₂ := hR.ready hw (hR.trans h₁ h₂)
  exact ⟨w₂, w₃, hR.trans h₁ h₂, hsteps,
    (reportResult_within hR _ _).relates (hready w₂ w₃ hw₂ hsteps) hreport⟩

end Pipeline

/-! ### The steps that decide -/

/-- The retention of the assembly is what the analysis of the classpath gives for the files of the
state `w`, the log file apart. -/
def Assembly.Analysed (request : Request) (w : World) (assembly : Assembly) : Prop :=
  ∀ task, request.configuration.minify? = some task →
    ∃ retention between, World.Unchanged w between ∧
      (Retention.analyze task between.files
        (request.configuration.classpath.map (·.file))).outcome.1 = .ok retention ∧
      assembly.retention? = some retention

namespace Pipeline

/-- The steps that decide what is to be written. -/
def deciding : Pipeline := [Resolution.step, Analysis.step, ModificationChoice.step]

/-- The steps that write. -/
def writing : Pipeline := [ArchiveOutput.step, ManifestOutput.step]

theorem standard_eq_append : standard = deciding ++ writing := rfl

theorem runSteps_deciding_within (hR : Framing e R) (request : Request) :
    (deciding.runSteps request .empty).Within e R := by
  refine runSteps_cons_within hR (Resolution.execute_within hR _ _) fun _ _ _ _ _ => ?_
  refine runSteps_cons_within hR (Analysis.execute_within hR _ _) fun _ _ _ _ _ => ?_
  refine runSteps_cons_within hR (ModificationChoice.execute_within hR _ _) fun _ _ _ _ _ => ?_
  exact .pure hR _

/-- After these steps it is decided what is to be written, and nothing is written yet. -/
theorem runSteps_deciding_eq_ok (hw : w.Ready e)
    (h : (deciding.runSteps request .empty).outcome w = (.ok after, w')) :
    after.Decided request ∧ after.Analysed request w ∧ after.elements = [] ∧
      after.manifest? = none ∧
      ∀ a ∈ request.configuration.classpath, ∃ bytes, w.files.read a.file = .ok bytes := by
  have hR := World.Unchanged.framing e
  obtain ⟨first, u₁, v₁, hu₁, hv₁, hfirst, h⟩ :=
    runSteps_cons_of_unchanged hw (Resolution.execute_within hR _ _) h
  have hw₁ := hR.ready hw hv₁
  obtain ⟨second, u₂, v₂, hu₂, hv₂, hsecond, h⟩ :=
    runSteps_cons_of_unchanged hw₁ (Analysis.execute_within hR _ _) h
  obtain ⟨third, u₃, v₃, -, -, hthird, h⟩ := runSteps_cons_of_unchanged (hR.ready hw₁ hv₂)
    (ModificationChoice.execute_within hR _ _) h
  obtain rfl : third = after := by
    rw [runSteps, Session.outcome_pure, Prod.mk.injEq, Except.ok.injEq] at h
    exact h.1
  obtain ⟨⟨statistics, rfl⟩, hfiles⟩ := Resolution.execute_eq_ok (hR.ready hw hu₁) hfirst
  have hread : ∀ a ∈ request.configuration.classpath, ∃ bytes,
      w.files.read a.file = .ok bytes := by
    intro a ha
    obtain ⟨bytes, hbytes⟩ := hfiles a ha
    exact hu₁.2.files.exists_read hbytes
  rcases Analysis.execute_eq_ok (hR.ready hw₁ hu₂) hsecond with ⟨hminify, rfl⟩ |
    ⟨task, retention, statistics', between, hminify, hbetween, hanalyze, rfl⟩
  · rw [ModificationChoice.execute_eq_ok hthird rfl]
    refine ⟨⟨rfl, by rw [hminify]; rfl, rfl⟩, fun task htask => ?_, rfl, rfl, hread⟩
    simp [hminify] at htask
  · rw [ModificationChoice.execute_eq_ok hthird rfl]
    refine ⟨⟨rfl, by rw [hminify]; rfl, rfl⟩, fun task' htask => ?_, rfl, rfl, hread⟩
    obtain rfl : task = task' := Option.some.inj (hminify.symm.trans htask)
    exact ⟨retention, between, hR.trans hv₁ (hR.trans hu₂ hbetween), hanalyze, rfl⟩

end Pipeline

/-! ### The build of a classpath -/

theorem runSteps_within (request : Request) :
    (Pipeline.standard.runSteps request .empty).Within e
      (World.Spares (request.replaced e.root)) := by
  have hR := World.Spares.framing e (request.replaced e.root)
  rw [Pipeline.standard_eq_append, Pipeline.runSteps_append]
  refine .bind_of_outcome hR (Pipeline.runSteps_deciding_within hR _)
    fun w decided _ hw hdeciding => ?_
  have hdecided := (Pipeline.runSteps_deciding_eq_ok hw hdeciding).1
  refine Pipeline.runSteps_cons_within hR ?_ fun _ written _ _ _ => ?_
  · refine .mono (fun _ _ => .mono ?_) (ArchiveOutput.execute_within hdecided)
    exact fun p hp => Or.inl hp
  · refine Pipeline.runSteps_cons_within hR ?_ fun _ _ _ _ _ => .pure hR _
    refine .mono (fun _ _ => .mono ?_) (ManifestOutput.execute_within _ _)
    intro p hp
    cases hstrict : request.configuration.strictCreate with
    | true => simp [hstrict] at hp
    | false =>
      rw [hstrict] at hp
      exact Or.inr ⟨hstrict, hp⟩

/-- A build, whatever comes of it, loses nothing but what it replaces. -/
theorem build_within (request : Request) :
    (build request).Within e (World.Spares (request.replaced e.root)) :=
  Pipeline.execute_within (World.Spares.framing e _) (runSteps_within request)

/-- A build that succeeds finds its inputs, decides without changing a file, and then writes the
outputs and the manifest. -/
theorem build_eq_ok (hw : w.Ready e) (h : (build request).outcome w = (.ok after, w')) :
    (∀ a ∈ request.configuration.classpath, ∃ bytes, w.files.read a.file = .ok bytes) ∧
    ∃ decided written w₁ w₂ w₃ w₄, decided.Decided request ∧ decided.Analysed request w ∧
      decided.elements = [] ∧ World.Unchanged w w₁ ∧
      (ArchiveOutput.execute request decided).outcome w₁ = (.ok written, w₂) ∧
      World.Unchanged w₂ w₃ ∧
      (ManifestOutput.execute request written).outcome w₃ = (.ok after, w₄) ∧
      World.Unchanged w₄ w' := by
  have hR := World.Unchanged.framing e
  obtain ⟨w₀, w₉, h₀, hsteps, h₉⟩ := Pipeline.execute_eq_ok hw
    (fun _ _ hw₁ hrun => ((runSteps_within request).relates hw₁ hrun).ready hw₁) h
  have hw₀ := hR.ready hw h₀
  rw [Pipeline.standard_eq_append, Pipeline.runSteps_append] at hsteps
  -- The steps that decide, none of which changes a file.
  obtain ⟨decided, v, hdeciding, hsteps⟩ := Session.outcome_bind_eq_ok.1 hsteps
  have hv := (Pipeline.runSteps_deciding_within hR request).relates hw₀ hdeciding
  have hw₁ := hR.ready hw₀ hv
  obtain ⟨hdecided, hanalysed, helements, -, hread⟩ :=
    Pipeline.runSteps_deciding_eq_ok hw₀ hdeciding
  -- The steps that write.
  obtain ⟨written, u₁, v₁, hu₁, hwritten, hsteps⟩ := Pipeline.runSteps_cons_eq_ok hw₁ hsteps
  have hw₂ : v₁.Ready e :=
    ((ArchiveOutput.execute_within hdecided).relates (hR.ready hw₁ hu₁) hwritten).ready
      (hR.ready hw₁ hu₁)
  obtain ⟨result, u₂, v₂, hu₂, hresult, hsteps⟩ := Pipeline.runSteps_cons_eq_ok hw₂ hsteps
  obtain ⟨rfl, rfl⟩ : result = after ∧ v₂ = w₉ := by
    simpa [Pipeline.runSteps] using hsteps
  refine ⟨fun a ha => ?_, decided, written, u₁, v₁, u₂, v₂, hdecided, fun task htask => ?_,
    helements, hR.trans h₀ (hR.trans hv hu₁), hwritten, hu₂, hresult, h₉⟩
  · obtain ⟨bytes, hbytes⟩ := hread a ha
    exact h₀.2.files.exists_read hbytes
  · obtain ⟨retention, between, hbetween, hretention⟩ := hanalysed task htask
    exact ⟨retention, between, hR.trans h₀ hbetween, hretention⟩

/-- After a build the elements are the names of the outputs, and the manifest lists them. -/
theorem elements_of_build (hlog : w.LogReady) (h : (build request).outcome w = (.ok after, w')) :
    after.elements = request.configuration.classpath.map request.configuration.outputName ∧
      (w.console.logFile? ≠ some (request.manifest.landing w.files.workingDirectory) →
        ∃ bytes, Utf8.encode? (Text.joinWith [0x0A] after.elements) = some bytes ∧
          w'.files.read request.manifest = .ok bytes) := by
  have hw : w.Ready w.setting := ⟨rfl, hlog⟩
  have hR := World.Unchanged.framing w.setting
  obtain ⟨-, decided, written, w₁, w₂, w₃, w₄, hdecided, -, hnone, h₁, hwritten, h₃, hmanifest,
    h₄⟩ := build_eq_ok hw h
  have hw₁ := hR.ready hw h₁
  have hw₂ := ((ArchiveOutput.execute_within hdecided).relates hw₁ hwritten).ready hw₁
  have helements := ArchiveOutput.elements_of_execute hdecided hnone hw₁ hwritten
  obtain ⟨rfl, bytes, v, hbytes, hread, hv, hspares⟩ :=
    ManifestOutput.execute_eq_ok (hR.ready hw₂ h₃) hmanifest
  refine ⟨helements, fun hopen => ⟨bytes, hbytes, ?_⟩⟩
  exact (hspares.trans h₄.1).read hv (Set.notMem_empty _) hopen hread

end Jarsmith.Build
