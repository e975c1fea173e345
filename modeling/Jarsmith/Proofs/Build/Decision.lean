import Jarsmith.Build.Pipeline
import Jarsmith.Proofs.Configuration.OutputName
import Jarsmith.Proofs.Session.Frame

/-!
# What a build has decided before it writes

The first three steps of a build only read files and report, so that they stay within every frame.
When they have succeeded the assembly is `Decided`: its artifacts are the classpath of the
configuration, and there is a retention exactly if there is a task of minification, and an editor
exactly if there is a task of modification.

Each step has one lemma that says all it does when it succeeds (`Resolution.execute_eq_ok`,
`Analysis.execute_eq_ok`, `ModificationChoice.execute_eq_ok`).
-/

namespace Jarsmith

/-- A part that is done only under a condition, before what is done in any case. -/
theorem Session.ite_bind {α : Type} (p : Prop) [Decidable p] (s : Session Unit)
    (rest : Unit → Session α) :
    (if p then s >>= rest else rest ()) = (if p then s else pure ()) >>= rest := by
  split
  · rfl
  · rw [pure_bind]

namespace Build

variable {e : Setting} {R : World → World → Prop} {request : Request}
  {assembly after : Assembly} {w w' : World}

/-! ### The artifacts -/

namespace Resolution

theorem checkFiles_eq_ok {artifacts : List Artifact}
    (h : (checkFiles artifacts).outcome w = (.ok (), w')) :
    w' = w ∧ ∀ a ∈ artifacts, ∃ bytes, w.files.read a.file = .ok bytes := by
  induction artifacts with
  | nil =>
    rw [checkFiles, Session.outcome_forM_nil] at h
    exact ⟨(Prod.ext_iff.1 h).2.symm, by simp⟩
  | cons a artifacts ih =>
    rw [checkFiles, Session.outcome_forM_cons, Session.outcome_bind_eq_ok] at h
    obtain ⟨_, w₁, hfirst, hrest⟩ := h
    rw [Session.outcome_bind_eq_ok] at hfirst
    obtain ⟨isFile, w₂, hask, hthrow⟩ := hfirst
    obtain ⟨hfile, hw₂⟩ := Session.outcome_ask_eq_ok.1 hask
    subst w₂
    cases isFile with
    | false => simp at hthrow
    | true =>
      obtain rfl : w = w₁ := by simpa using hthrow
      obtain ⟨rfl, hall⟩ := ih hrest
      refine ⟨rfl, fun b hb => ?_⟩
      rcases List.mem_cons.1 hb with rfl | hb
      · exact FileSystem.isFile_eq_ok.1 hfile
      · exact hall b hb

theorem checkFiles_within (hR : Framing e R) (artifacts : List Artifact) :
    (checkFiles artifacts).Within e R :=
  .forM hR _ fun _ => .bind hR (.ask hR _) fun _ => .ite (.throw hR _) (.pure hR _)

theorem sizes_within (hR : Framing e R) (artifacts : List Artifact) :
    (sizes artifacts).Within e R := .mapM hR _ fun _ => .ask hR _

theorem execute_within (hR : Framing e R) (request : Request) (assembly : Assembly) :
    (execute request assembly).Within e R := by
  unfold execute
  dsimp only
  rw [Session.ite_bind]
  refine .bind hR (.report hR _ _ _) fun _ => ?_
  refine .bind hR (checkFiles_within hR _) fun _ => ?_
  refine .bind hR (.ite (.report hR _ _ _) (.pure hR _)) fun _ => ?_
  refine .bind hR (sizes_within hR _) fun _ => ?_
  refine .bind hR (.show hR _) fun _ => ?_
  refine .bind hR (.report hR _ _ _) fun _ => ?_
  exact .bind hR (.forM hR _ fun _ => .report hR _ _ _) fun _ => .pure hR _

/-- The step takes the classpath into the assembly, each artifact of which has a file. -/
theorem execute_eq_ok (hw : w.Ready e)
    (h : (execute request assembly).outcome w = (.ok after, w')) :
    (∃ statistics, after = { assembly with
      artifacts := request.configuration.classpath, statistics }) ∧
    ∀ a ∈ request.configuration.classpath, ∃ bytes, w.files.read a.file = .ok bytes := by
  unfold execute at h
  dsimp only at h
  rw [Session.ite_bind] at h
  obtain ⟨_, w₁, hreport, h⟩ := Session.outcome_bind_eq_ok.1 h
  obtain ⟨_, w₂, hcheck, h⟩ := Session.outcome_bind_eq_ok.1 h
  obtain ⟨_, w₃, -, h⟩ := Session.outcome_bind_eq_ok.1 h
  obtain ⟨sizes, w₄, -, h⟩ := Session.outcome_bind_eq_ok.1 h
  obtain ⟨_, w₅, -, h⟩ := Session.outcome_bind_eq_ok.1 h
  obtain ⟨_, w₆, -, h⟩ := Session.outcome_bind_eq_ok.1 h
  obtain ⟨_, w₇, -, h⟩ := Session.outcome_bind_eq_ok.1 h
  rw [Session.outcome_pure, Prod.mk.injEq, Except.ok.injEq] at h
  refine ⟨⟨_, h.1.symm⟩, fun a ha => ?_⟩
  obtain ⟨-, hfiles⟩ := checkFiles_eq_ok hcheck
  obtain ⟨bytes, hbytes⟩ := hfiles a ha
  -- Only the log may have been written before the files were looked for.
  have hback : World.Unchanged w w₁ :=
    (Session.Within.report (World.Unchanged.framing e) _ _ _).relates hw hreport
  exact hback.2.files.exists_read hbytes

end Resolution

/-! ### What is kept, and how classes are changed -/

namespace Analysis

theorem analyze_within (hR : Framing e R) (task : MinifyTask) (assembly : Assembly) :
    (analyze task assembly).Within e R := by
  unfold analyze
  dsimp only
  refine .bind hR (.report hR _ _ _) fun _ => ?_
  refine .bind hR (.show hR _) fun _ => ?_
  refine .bind hR (.traced hR _) fun _ => ?_
  rw [Session.ite_bind]
  refine .bind hR (.ite (.report hR _ _ _) (.pure hR _)) fun _ => ?_
  refine .bind hR (.show hR _) fun _ => ?_
  exact .bind hR (.report hR _ _ _) fun _ => .pure hR _

theorem execute_within (hR : Framing e R) (request : Request) (assembly : Assembly) :
    (execute request assembly).Within e R := by
  unfold execute
  split
  · exact analyze_within hR _ _
  · exact .bind hR (.report hR _ _ _) fun _ => .pure hR _

/-- The analysis reads the files as they were before the step, the log file apart. -/
theorem analyze_eq_ok {task : MinifyTask} (hw : w.Ready e)
    (h : (analyze task assembly).outcome w = (.ok after, w')) :
    ∃ retention statistics between, World.Unchanged w between ∧
      (Retention.analyze task between.files (assembly.artifacts.map (·.file))).outcome.1 =
        .ok retention ∧
      after = { assembly with retention? := some retention, statistics } := by
  unfold analyze at h
  dsimp only at h
  obtain ⟨_, w₁, hreport, h⟩ := Session.outcome_bind_eq_ok.1 h
  obtain ⟨_, w₂, hshow, h⟩ := Session.outcome_bind_eq_ok.1 h
  obtain ⟨retention, w₃, htraced, h⟩ := Session.outcome_bind_eq_ok.1 h
  rw [Session.ite_bind] at h
  obtain ⟨_, w₄, -, h⟩ := Session.outcome_bind_eq_ok.1 h
  obtain ⟨_, w₅, -, h⟩ := Session.outcome_bind_eq_ok.1 h
  obtain ⟨_, w₆, -, h⟩ := Session.outcome_bind_eq_ok.1 h
  rw [Session.outcome_pure, Prod.mk.injEq, Except.ok.injEq] at h
  have hR := World.Unchanged.framing e
  have h₁ : World.Unchanged w w₁ := (Session.Within.report hR _ _ _).relates hw hreport
  have h₂ : World.Unchanged w₁ w₂ := (Session.Within.show hR _).relates (hR.ready hw h₁) hshow
  refine ⟨retention, _, w₂, hR.trans h₁ h₂, ?_, h.1.symm⟩
  rw [Session.outcome_traced] at htraced
  obtain ⟨_, w₇, -, hlift⟩ := Session.outcome_bind_eq_ok.1 htraced
  rw [Session.outcome_lift] at hlift
  exact (Prod.ext_iff.1 hlift).1

/-- The step analyses the classpath if there is a task for it, and else does nothing. -/
theorem execute_eq_ok (hw : w.Ready e)
    (h : (execute request assembly).outcome w = (.ok after, w')) :
    (request.configuration.minify? = none ∧ after = assembly) ∨
    ∃ task retention statistics between, request.configuration.minify? = some task ∧
      World.Unchanged w between ∧
      (Retention.analyze task between.files (assembly.artifacts.map (·.file))).outcome.1 =
        .ok retention ∧
      after = { assembly with retention? := some retention, statistics } := by
  unfold execute at h
  split at h
  · next task htask =>
    obtain ⟨retention, statistics, between, hfiles, hresult, heq⟩ := analyze_eq_ok hw h
    exact Or.inr ⟨task, retention, statistics, between, htask, hfiles, hresult, heq⟩
  · next htask =>
    obtain ⟨_, w₁, -, h⟩ := Session.outcome_bind_eq_ok.1 h
    rw [Session.outcome_pure, Prod.mk.injEq, Except.ok.injEq] at h
    exact Or.inl ⟨htask, h.1.symm⟩

end Analysis

/-- The editor that a request asks for: the one handed in, else that of the task's transformers. -/
def Request.editorFor (request : Request) (task : ModifyTask) : Editor :=
  request.editor?.getD (editorOf (task.transformers.map (·.change)))

namespace ModificationChoice

theorem execute_within (hR : Framing e R) (request : Request) (assembly : Assembly) :
    (execute request assembly).Within e R := by
  unfold execute
  split
  · exact .bind hR (.report hR _ _ _) fun _ => .pure hR _
  · dsimp only
    refine .bind hR (.emitAll hR _) fun _ => ?_
    refine .bind hR (.report hR _ _ _) fun _ => ?_
    exact .bind hR (.show hR _) fun _ => .pure hR _

theorem prepare_fst (task : ModifyTask) (request : Request) :
    (Modification.prepare ⟨task, request.editor?⟩).1 = ⟨task, some (request.editorFor task)⟩ := by
  unfold Modification.prepare Request.editorFor
  dsimp only
  cases request.editor? <;> rfl

/-- The step prepares the editor if there is a task for it, and else does nothing. -/
theorem execute_eq_ok (h : (execute request assembly).outcome w = (.ok after, w'))
    (hnone : assembly.modification? = none) :
    after = { assembly with modification? :=
      request.configuration.modify?.map fun task => ⟨task, some (request.editorFor task)⟩ } := by
  unfold execute at h
  split at h
  · next hmodify =>
    obtain ⟨_, w₁, -, h⟩ := Session.outcome_bind_eq_ok.1 h
    rw [Session.outcome_pure, Prod.mk.injEq, Except.ok.injEq] at h
    rw [← h.1, hmodify, Option.map_none, ← hnone]
  · next task hmodify =>
    dsimp only at h
    obtain ⟨_, w₁, -, h⟩ := Session.outcome_bind_eq_ok.1 h
    obtain ⟨_, w₂, -, h⟩ := Session.outcome_bind_eq_ok.1 h
    obtain ⟨_, w₃, -, h⟩ := Session.outcome_bind_eq_ok.1 h
    rw [Session.outcome_pure, Prod.mk.injEq, Except.ok.injEq] at h
    rw [← h.1, prepare_fst, hmodify, Option.map_some]

end ModificationChoice

/-! ### The plans -/

/-- What is decided when the first steps have succeeded. -/
structure Assembly.Decided (request : Request) (assembly : Assembly) : Prop where
  artifacts : assembly.artifacts = request.configuration.classpath
  retention : assembly.retention?.isSome = request.configuration.minify?.isSome
  modification : assembly.modification? =
    request.configuration.modify?.map fun task => ⟨task, some (request.editorFor task)⟩

/-- The editor for the classes of an artifact: none if the task of modification is not for it. -/
def Request.editorOf? (request : Request) (a : Artifact) : Option Editor :=
  (request.configuration.modify?.filter (·.accepts a)).map request.editorFor

namespace ArchiveOutput

theorem isSome_keeps? (h : assembly.Decided request) (a : Artifact) :
    (keeps? request assembly a).isSome = request.configuration.minify?.any (·.accepts a) := by
  have hretention := h.retention
  unfold keeps?
  cases hminify : request.configuration.minify? with
  | none => rfl
  | some task =>
    rw [hminify, Option.isSome_some] at hretention
    obtain ⟨retention, hsome⟩ := Option.isSome_iff_exists.1 hretention
    rw [hsome, Option.any_some]
    dsimp only
    cases task.accepts a <;> rfl

theorem editor?_eq (h : assembly.Decided request) (a : Artifact) :
    editor? assembly a = .ok (request.editorOf? a) := by
  unfold editor? Request.editorOf?
  rw [h.modification]
  cases request.configuration.modify? with
  | none => rfl
  | some task =>
    show (if task.accepts a = true then _ else _) = _
    rw [Option.filter_some]
    by_cases haccepts : task.accepts a = true
    · rw [if_pos haccepts, if_pos haccepts]
      rfl
    · rw [if_neg haccepts, if_neg haccepts]
      rfl

/-- There is a plan for an artifact exactly if some task is for it. -/
theorem plan?_eq (h : assembly.Decided request) (a : Artifact) :
    plan? request assembly a = .ok (if request.configuration.repackages a then
      some ⟨keeps? request assembly a, request.editorOf? a, level request⟩ else none) := by
  have hkeeps := isSome_keeps? h a
  have heditor : (request.editorOf? a).isSome =
      request.configuration.modify?.any (·.accepts a) := by
    unfold Request.editorOf?
    cases request.configuration.modify? with
    | none => rfl
    | some task => cases haccepts : task.accepts a <;> simp [haccepts]
  unfold plan? Configuration.repackages
  rw [editor?_eq h, ← hkeeps, ← heditor]
  cases keeps? request assembly a <;> cases request.editorOf? a <;> rfl

end ArchiveOutput

end Build

end Jarsmith
