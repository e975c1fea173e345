import Jarsmith.Proofs.Build.Decision
import Jarsmith.Proofs.Repackaging

/-!
# What a build overwrites

A build writes one output for each artifact of the classpath, and the manifest. Where outputs must
not be there before, everything is spared. Otherwise the places of the outputs are overwritten,
with one exception: a file is never copied over itself (`Request.overwritten`).

The lemmas of success tell what is in the assembly after the steps that write.
-/

namespace Jarsmith

variable {e : Setting} {w w' : World}

namespace Build

variable {request : Request} {assembly after : Assembly}

/-- The output file of an artifact. -/
def Request.output (request : Request) (a : Artifact) : Path :=
  request.outputDirectory.child (request.configuration.outputName a)

/-- The manifest of the build. -/
def Request.manifest (request : Request) : Path := request.outputDirectory.child manifestName

/-- The place, if any, where something may be lost by writing the output of an artifact: that of the
output, unless it must not be there before, or the artifact would be copied over itself. -/
def Request.overwritten (request : Request) (root : Place) (a : Artifact) : Set Place :=
  {p | request.configuration.strictCreate = false ∧ p = (request.output a).landing root ∧
    (request.configuration.repackages a = true ∨ p ≠ a.file.landing root)}

/-- The places where something may be lost by a build. -/
def Request.replaced (request : Request) (root : Place) : Set Place :=
  {p | (∃ a ∈ request.configuration.classpath, p ∈ request.overwritten root a) ∨
    (request.configuration.strictCreate = false ∧ p = request.manifest.landing root)}

namespace ArchiveOutput

theorem outputName_eq (h : assembly.Decided request) {a : Artifact}
    {plan : Option Repackaging.Plan} (hplan : plan? request assembly a = .ok plan) :
    outputName plan a = request.configuration.outputName a ∧
      plan.isSome = request.configuration.repackages a := by
  rw [plan?_eq h] at hplan
  obtain rfl := Except.ok.inj hplan
  unfold outputName Configuration.outputName
  cases request.configuration.repackages a <;> exact ⟨rfl, rfl⟩

theorem writeOne_within {plan : Option Repackaging.Plan} {a : Artifact}
    (hplan : plan.isSome = request.configuration.repackages a) (s : Statistics) :
    (writeOne request plan a (request.output a) s).Within e
      (World.Spares (request.overwritten e.root a)) := by
  have hR := World.Spares.framing e (request.overwritten e.root a)
  unfold writeOne
  dsimp only
  cases plan with
  | none =>
    refine .bind hR (.mono (fun _ _ => .mono ?_) (Repackaging.copy_within _ _ _)) fun _ =>
      .pure hR _
    intro p hp
    cases hstrict : request.configuration.strictCreate with
    | true => simp [hstrict] at hp
    | false =>
      rw [hstrict] at hp
      exact ⟨hstrict, hp.1, Or.inr hp.2⟩
  | some plan =>
    refine .bind hR (.mono (fun _ _ => .mono ?_) (Repackaging.repackage_within _ _ _ _))
      fun _ => .pure hR _
    intro p hp
    cases hstrict : request.configuration.strictCreate with
    | true => simp [hstrict] at hp
    | false =>
      rw [hstrict] at hp
      exact ⟨hstrict, hp, Or.inl hplan.symm⟩

theorem writeOne_within_of_allowsFiles {R : World → World → Prop} {S : Set Place} {output : Path}
    (hR : Framing e R) (hallows : AllowsFiles e R S) (hS : output.landing e.root ∈ S)
    (plan? : Option Repackaging.Plan) (a : Artifact) (s : Statistics) :
    (writeOne request plan? a output s).Within e R := by
  unfold writeOne
  dsimp only
  split
  · exact .bind hR (Repackaging.copy_within_of_allowsFiles hR hallows _ _ hS) fun _ => .pure hR _
  · exact .bind hR (Repackaging.repackage_within_of_allowsFiles hR hallows _ _ _ hS)
      fun _ => .pure hR _

theorem writeNext_within (h : assembly.Decided request) (total : Nat) (a : Artifact)
    (index : Nat) : (writeNext request total assembly a index).Within e
      (World.Spares (request.overwritten e.root a)) := by
  have hR := World.Spares.framing e (request.overwritten e.root a)
  unfold writeNext
  dsimp only
  refine .bind hR (.show hR _) fun _ => ?_
  refine .bind_of_outcome hR (.lift hR _) fun w plan after _ hplan => ?_
  rw [Session.outcome_lift] at hplan
  obtain ⟨hname, hsome⟩ := outputName_eq h (Prod.ext_iff.1 hplan).1
  rw [hname]
  refine .bind hR (writeOne_within hsome _) fun s => ?_
  exact .bind hR (.ask hR _) fun _ => .pure hR _

/-- Writing an output tells its name, and leaves what was decided. -/
theorem writeNext_eq_ok (h : assembly.Decided request) {total : Nat} {a : Artifact} {index : Nat}
    (hrun : (writeNext request total assembly a index).outcome w = (.ok after, w')) :
    after.elements = assembly.elements ++ [request.configuration.outputName a] ∧
      after.Decided request ∧ after.retention? = assembly.retention? := by
  unfold writeNext at hrun
  dsimp only at hrun
  obtain ⟨_, w₁, -, hrun⟩ := Session.outcome_bind_eq_ok.1 hrun
  obtain ⟨plan, w₂, hplan, hrun⟩ := Session.outcome_bind_eq_ok.1 hrun
  obtain ⟨s, w₃, -, hrun⟩ := Session.outcome_bind_eq_ok.1 hrun
  obtain ⟨size, w₄, -, hrun⟩ := Session.outcome_bind_eq_ok.1 hrun
  rw [Session.outcome_lift] at hplan
  obtain ⟨hname, -⟩ := outputName_eq h (Prod.ext_iff.1 hplan).1
  rw [Session.outcome_pure, Prod.mk.injEq, Except.ok.injEq] at hrun
  rw [← hrun.1, ← hname]
  exact ⟨rfl, ⟨h.artifacts, h.retention, h.modification⟩, rfl⟩

/-- What is decided stays so while outputs are written. -/
theorem foldlM_within_of_decided {R : World → World → Prop} (hR : Framing e R)
    (h : assembly.Decided request) {total : Nat} {as : List (Artifact × Nat)}
    (hall : ∀ p ∈ as, ∀ next, next.Decided request →
      (writeNext request total next p.1 p.2).Within e R) :
    Session.Within e R
      (as.foldlM (fun assembly p => writeNext request total assembly p.1 p.2) assembly) := by
  induction as generalizing assembly with
  | nil => exact .pure hR _
  | cons p as ih =>
    rw [List.foldlM_cons]
    refine .bind_of_outcome hR (hall p List.mem_cons_self assembly h) fun w after w' _ hrun => ?_
    exact ih (writeNext_eq_ok h hrun).2.1 fun q hq => hall q (List.mem_cons_of_mem _ hq)

theorem foldlM_within (h : assembly.Decided request) {S : Set Place} {total : Nat}
    {as : List (Artifact × Nat)} (hS : ∀ p ∈ as, request.overwritten e.root p.1 ⊆ S) :
    Session.Within e (World.Spares S)
      (as.foldlM (fun assembly p => writeNext request total assembly p.1 p.2) assembly) :=
  foldlM_within_of_decided (World.Spares.framing e S) h fun p hp _ hnext =>
    .mono (fun _ _ => .mono (hS p hp)) (writeNext_within hnext total p.1 p.2)

theorem foldlM_eq_ok (h : assembly.Decided request) {total : Nat} {as : List (Artifact × Nat)}
    (hrun : Session.outcome
      (as.foldlM (fun assembly p => writeNext request total assembly p.1 p.2) assembly) w =
        (.ok after, w')) :
    after.elements = assembly.elements ++ as.map (request.configuration.outputName ·.1) ∧
      after.Decided request := by
  induction as generalizing assembly w with
  | nil =>
    rw [List.foldlM_nil, Session.outcome_pure, Prod.mk.injEq, Except.ok.injEq] at hrun
    rw [← hrun.1]
    exact ⟨by simp, h⟩
  | cons p as ih =>
    obtain ⟨a, index⟩ := p
    rw [List.foldlM_cons] at hrun
    obtain ⟨next, between, hfirst, hrest⟩ := Session.outcome_bind_eq_ok.1 hrun
    obtain ⟨helements, hnext, -⟩ := writeNext_eq_ok h hfirst
    obtain ⟨hall, hafter⟩ := ih hnext hrest
    refine ⟨?_, hafter⟩
    rw [hall, helements, List.map_cons, List.append_assoc, List.singleton_append]

theorem execute_within (h : assembly.Decided request) :
    (execute request assembly).Within e (World.Spares
      {p | ∃ a ∈ request.configuration.classpath, p ∈ request.overwritten e.root a}) := by
  have hR := World.Spares.framing e
    {p | ∃ a ∈ request.configuration.classpath, p ∈ request.overwritten e.root a}
  unfold execute
  dsimp only
  refine .bind hR (.report hR _ _ _) fun _ => ?_
  refine .bind hR (.makeDirectories _) fun _ => ?_
  refine .bind hR (foldlM_within h fun p hp q hq => ?_) fun _ => ?_
  · exact ⟨p.1, h.artifacts ▸ List.fst_mem_of_mem_zipIdx hp, hq⟩
  · exact .bind hR (.show hR _) fun _ => .bind hR (.report hR _ _ _) fun _ => .pure hR _

/-- Besides writing the outputs the step makes the directory for them and reports. -/
theorem execute_eq_ok (h : assembly.Decided request) (hw : w.Ready e)
    (hrun : (execute request assembly).outcome w = (.ok after, w')) :
    ∃ w₁ w₂, World.Spares ∅ w w₁ ∧ Session.outcome
      (assembly.artifacts.zipIdx.foldlM (fun next p =>
        writeNext request assembly.artifacts.length next p.1 p.2) assembly) w₁ =
          (.ok after, w₂) ∧ World.Spares ∅ w₂ w' := by
  have hR := World.Spares.framing e ∅
  unfold execute at hrun
  dsimp only at hrun
  obtain ⟨_, w₁, hreport, hrun⟩ := Session.outcome_bind_eq_ok.1 hrun
  obtain ⟨_, w₂, hmake, hrun⟩ := Session.outcome_bind_eq_ok.1 hrun
  obtain ⟨last, w₃, hfold, hrun⟩ := Session.outcome_bind_eq_ok.1 hrun
  have h₁ : World.Spares ∅ w w₁ := (Session.Within.report hR _ _ _).relates hw hreport
  have h₂ : World.Spares ∅ w₁ w₂ :=
    (Session.Within.makeDirectories _).relates (h₁.ready hw) hmake
  have hw₂ := (hR.trans h₁ h₂).ready hw
  have hw₃ : w₃.Ready e :=
    ((foldlM_within h fun p _ => Set.subset_univ _).relates hw₂ hfold).ready hw₂
  have hafter : last = after := by
    obtain ⟨_, w₄, -, hrun⟩ := Session.outcome_bind_eq_ok.1 hrun
    obtain ⟨_, w₅, -, hrun⟩ := Session.outcome_bind_eq_ok.1 hrun
    rw [Session.outcome_pure, Prod.mk.injEq, Except.ok.injEq] at hrun
    exact hrun.1
  subst hafter
  refine ⟨w₂, w₃, hR.trans h₁ h₂, hfold, ?_⟩
  refine Session.Within.relates ?_ hw₃ hrun
  exact .bind hR (.show hR _) fun _ => .bind hR (.report hR _ _ _) fun _ => .pure hR _

/-- The elements after the step are the names of the outputs. -/
theorem elements_of_execute (h : assembly.Decided request) (hnone : assembly.elements = [])
    (hw : w.Ready e) (hrun : (execute request assembly).outcome w = (.ok after, w')) :
    after.elements = request.configuration.classpath.map request.configuration.outputName := by
  obtain ⟨w₁, w₂, -, hfold, -⟩ := execute_eq_ok h hw hrun
  rw [(foldlM_eq_ok h hfold).1, hnone, List.nil_append,
    ← List.zipIdx_map_fst 0 request.configuration.classpath, ← h.artifacts, List.map_map]
  rfl

end ArchiveOutput

namespace ManifestOutput

theorem execute_within (request : Request) (assembly : Assembly) :
    (execute request assembly).Within e (World.Spares (if request.configuration.strictCreate then ∅
      else {request.manifest.landing e.root})) := by
  have hR := World.Spares.framing e (if request.configuration.strictCreate then ∅
      else {request.manifest.landing e.root})
  unfold execute
  refine .bind hR (writeManifest_within _ _ _) fun path => ?_
  exact .bind hR (.show hR _) fun _ => .bind hR (.report hR _ _ _) fun _ => .pure hR _

/-- The step adds the manifest, which tells the outputs. -/
theorem execute_eq_ok (hw : w.Ready e)
    (hrun : (execute request assembly).outcome w = (.ok after, w')) :
    after = { assembly with manifest? := some request.manifest } ∧
      ∃ bytes w₁, Utf8.encode? (Text.joinWith [0x0A] assembly.elements) = some bytes ∧
        w₁.files.read request.manifest = .ok bytes ∧ w₁.Ready e ∧ World.Spares ∅ w₁ w' := by
  have hR := World.Spares.framing e ∅
  unfold execute at hrun
  obtain ⟨path, w₁, hwrite, hrun⟩ := Session.outcome_bind_eq_ok.1 hrun
  have hw₁ : w₁.Ready e := ((writeManifest_within _ _ _).relates hw hwrite).ready hw
  obtain ⟨rfl, bytes, hbytes, hread⟩ := writeManifest_eq_ok hwrite
  refine ⟨?_, bytes, w₁, hbytes, hread, hw₁, ?_⟩
  · obtain ⟨_, w₂, -, hrun⟩ := Session.outcome_bind_eq_ok.1 hrun
    obtain ⟨_, w₃, -, hrun⟩ := Session.outcome_bind_eq_ok.1 hrun
    rw [Session.outcome_pure, Prod.mk.injEq, Except.ok.injEq] at hrun
    exact hrun.1.symm
  · refine Session.Within.relates ?_ hw₁ hrun
    exact .bind hR (.show hR _) fun _ => .bind hR (.report hR _ _ _) fun _ => .pure hR _

end ManifestOutput

end Build

end Jarsmith
