import Mathlib.Data.List.Forall2
import Jarsmith.Proofs.Archive.ReadBack
import Jarsmith.Proofs.Session.Frame
import Jarsmith.Repackaging

/-!
# What is written for an archive

Where an archive is written anew and no member fails, there is one new member for each kept one, in
the same order, and `Rewritten` says what it holds (`forall₂_written`). `repackage_eq_ok` and
`copy_eq_ok` say what the output file is if all went well, and `writeManifest_eq_ok` what the
manifest is. What is left alone in any case is told by `repackage_within`, `copy_within` and
`writeManifest_within`.

The data are read after the output was begun. They are the data of the input as it was opened only
if the output is not the input itself, which is so where the output must not be there before.
-/

namespace Jarsmith

namespace Repackaging

variable {e : Setting} {p : Plan} {a : OpenArchive} {bytes : Bytes} {m : Archive.Member}
  {new : Archive.NewMember} {w w' : World} {input output : Path} {strict : Bool}

/-- What is left of an editor for the member of a name: nothing if it is not a class member. -/
def editorFor? (editor? : Option Editor) (name : Text) : Option Editor :=
  if Archive.isClass name then editor? else none

/-- The new member has everything that is recorded of the old one. The data are those of the old
one; in a class member they went through the editor, if there is one. -/
structure Rewritten (editor? : Option Editor) (a : OpenArchive) (m : Archive.Member)
    (new : Archive.NewMember) : Prop where
  entry : new.entry = newEntry m
  data : ∃ data, a.read m = .ok data ∧
    match editorFor? editor? m.name with
    | some r => r data = .ok (.bytes new.data)
    | none => new.data = data

theorem edit_eq_ok {member : Text} {r : Editor} {data data' : Bytes}
    (h : edit a member r data = .ok data') : r data = .ok (.bytes data') := by
  unfold edit at h
  split at h
  · simp at h
  · simp at h
  · next edited heq => rw [heq, Except.ok.inj h]

/-- The data that are written for a member are its own, or in a class member what the editor makes
of them. -/
theorem newData_eq_ok {data : Bytes} (h : newData p a bytes m = .ok data) :
    ∃ old, a.readFrom bytes m = .ok old ∧
      match editorFor? p.editor? m.name with
      | some r => r old = .ok (.bytes data)
      | none => data = old := by
  unfold newData at h
  obtain ⟨_, -, h⟩ := Except.bind_eq_ok.1 h
  obtain ⟨old, hold, h⟩ := Except.bind_eq_ok.1 h
  refine ⟨old, hold, ?_⟩
  unfold editorFor?
  cases heditor : p.editor? with
  | none =>
    rw [heditor] at h
    simpa using (Except.ok.inj h).symm
  | some r =>
    rw [heditor] at h
    dsimp only at h
    split at h
    · next hclass =>
      rw [if_pos hclass]
      exact edit_eq_ok h
    · next hclass =>
      rw [if_neg hclass]
      exact (Except.ok.inj h).symm

theorem newMember_eq_ok (h : newMember p a a.bytes m = .ok new) :
    Rewritten p.editor? a m new := by
  unfold newMember at h
  obtain ⟨data, hdata, h⟩ := Except.bind_eq_ok.1 h
  obtain ⟨old, hold, hedited⟩ := newData_eq_ok hdata
  dsimp only at h
  split at h
  · obtain rfl := Except.ok.inj h
    exact ⟨rfl, old, hold, hedited⟩
  · exact absurd h Except.throw_ne_ok

/-- Where no member fails, the kept members are rewritten one by one. -/
theorem forall₂_written {members : List Archive.Member}
    (h : (processMembers p a a.bytes members).failure? = none) :
    List.Forall₂ (Rewritten p.editor? a) (members.filter fun m => p.keeps m.name)
      (processMembers p a a.bytes members).written := by
  induction members with
  | nil => exact .nil
  | cons m members ih =>
    unfold processMembers at h ⊢
    by_cases hkeeps : p.keeps m.name = true
    · rw [if_pos hkeeps] at h ⊢
      have hfilter : (m :: members).filter (fun m => p.keeps m.name) =
          m :: members.filter fun m => p.keeps m.name := List.filter_cons_of_pos hkeeps
      rw [hfilter]
      cases hnew : newMember p a a.bytes m with
      | error fault => simp [hnew] at h
      | ok new =>
        rw [hnew] at h
        exact .cons (newMember_eq_ok hnew) (ih h)
    · rw [if_neg hkeeps] at h ⊢
      have hfilter : (m :: members).filter (fun m => p.keeps m.name) =
          members.filter fun m => p.keeps m.name := List.filter_cons_of_neg hkeeps
      rw [hfilter]
      exact ih h

/-- The methods of members that were rewritten are those that are read. -/
theorem method_of_forall₂_rewritten {editor? : Option Editor} {members : List Archive.Member}
    {written : List Archive.NewMember} (h : List.Forall₂ (Rewritten editor? a) members written) :
    ∀ new ∈ written,
      new.entry.method = Archive.storedMethod ∨ new.entry.method = Archive.deflatedMethod := by
  induction h with
  | nil => simp
  | cons hnew _ ih =>
    intro new hmem
    rcases List.mem_cons.1 hmem with rfl | hmem
    · obtain ⟨data, hread, -⟩ := hnew.data
      rw [hnew.entry]
      exact (OpenArchive.read_eq_ok.1 hread).1
    · exact ih new hmem

/-! ### What is left alone -/

theorem writeMode_of_strict {strict : Bool} (h : strict = true) : writeMode strict = .create := by
  rw [h]
  rfl

theorem repackage_within (strict : Bool) (p : Plan) (input output : Path) :
    (repackage strict p input output).Within e
      (World.Spares (if strict then ∅ else {output.landing e.root})) := by
  have hR := World.Spares.framing e
  unfold repackage
  dsimp only
  refine .bind (hR _) (.ask (hR _) _) fun _ => ?_
  refine .bind (hR _) (.get (hR _)) fun _ => ?_
  refine .bind (hR _) (.lift (hR _) _) fun a => ?_
  refine .write_bind writeMode_of_strict ?_
  refine .bind (hR _) (.ask (hR _) _) fun bytes => ?_
  refine .bind (hR _) (.emitAll (hR _) _) fun _ => ?_
  refine .bind (hR _) (.write _ _ _) fun _ => ?_
  split
  · exact .bind (hR _) (.throw (hR _) _) fun _ => .bind (hR _) (.ask (hR _) _) fun _ =>
      .bind (hR _) (.report (hR _) _ _ _) fun _ => .pure (hR _) _
  · exact .bind (hR _) (.ask (hR _) _) fun _ =>
      .bind (hR _) (.report (hR _) _ _ _) fun _ => .pure (hR _) _

/-- What is there after a file was copied over another one. -/
theorem change_copy_within (input output : Path) :
    (Session.change (·.copy input output)).Within e
      (World.Spares {p | p = output.landing e.root ∧ p ≠ input.landing e.root}) := by
  refine .change fun files after hroot hcopy => ?_
  obtain ⟨bytes, place, -, hplace, hne, hnode, rfl⟩ := FileSystem.copy_eq_ok hcopy
  rw [hroot] at hne
  refine (FileSystem.Spares.put_file hnode).mono ?_
  rw [Set.singleton_subset_iff, ← hroot]
  exact ⟨FileSystem.locate_eq_landing hplace, hroot ▸ hne⟩

/-- Where an output must not be there before, a copy is made only to a place that is free. -/
theorem copy_within (strict : Bool) (input output : Path) :
    (copy strict input output).Within e (World.Spares (if strict then ∅ else
      {p | p = output.landing e.root ∧ p ≠ input.landing e.root})) := by
  have hR := World.Spares.framing e
  have hrest (S : Set Place) : Session.Within e (World.Spares S) (do
      let size ← Session.ask (·.size output)
      Session.report .info .repack (input.name ++ (" -> " : Text) ++ output.name ++
        (": 原样复制 (" : Text) ++ Text.ofSize size ++ (")" : Text))) :=
    .bind (hR _) (.ask (hR _) _) fun _ => .report (hR _) _ _ _
  have hcopy := Session.Within.bind (hR _) (change_copy_within input output) fun _ => hrest _
  unfold copy
  cases strict with
  | false => exact hcopy
  | true =>
    refine .ask_bind (hR _) fun w exists? hw hexists => ?_
    cases exists? with
    | true => exact .refl _ _
    | false =>
      have hall := hcopy w hw
      cases hfiles : w.files.copy input output with
      | error fault =>
        simp only [Bool.false_eq_true, if_false, Session.outcome_bind, Session.outcome_change,
          hfiles]
        exact .refl _ _
      | ok files =>
        obtain ⟨bytes, place, -, hplace, -, -, -⟩ := FileSystem.copy_eq_ok hfiles
        -- Nothing was at the target, or it would have been found there.
        refine hall.of_new fun p hp _ => ?_
        have hland : place = p := by
          rw [hp.1, ← congrArg Setting.root hw.1]
          exact FileSystem.locate_eq_landing hplace
        exact hland ▸ FileSystem.node?_eq_none_of_exists? hexists hplace

/-! ### Writing where a frame allows it -/

section Allows

variable {R : World → World → Prop} {S : Set Place}

theorem repackage_within_of_allowsFiles (hR : Framing e R) (hallows : AllowsFiles e R S)
    (strict : Bool) (p : Plan) (input : Path) (hS : output.landing e.root ∈ S) :
    (repackage strict p input output).Within e R := by
  have hwrite := Session.Within.write_put hR hallows hS
  unfold repackage
  dsimp only
  refine .bind hR (.ask hR _) fun _ => .bind hR (.get hR) fun _ => ?_
  refine .bind hR (.lift hR _) fun a => .bind hR (hwrite _ _) fun _ => ?_
  refine .bind hR (.ask hR _) fun bytes => .bind hR (.emitAll hR _) fun _ => ?_
  refine .bind hR (hwrite _ _) fun _ => ?_
  split
  · exact .bind hR (.throw hR _) fun _ => .bind hR (.ask hR _) fun _ =>
      .bind hR (.report hR _ _ _) fun _ => .pure hR _
  · exact .bind hR (.ask hR _) fun _ => .bind hR (.report hR _ _ _) fun _ => .pure hR _

theorem copy_within_of_allowsFiles (hR : Framing e R) (hallows : AllowsFiles e R S)
    (strict : Bool) (input : Path) (hS : output.landing e.root ∈ S) :
    (copy strict input output).Within e R := by
  have hrest : Session.Within e R (do
      Session.change (·.copy input output)
      let size ← Session.ask (·.size output)
      Session.report .info .repack (input.name ++ (" -> " : Text) ++ output.name ++
        (": 原样复制 (" : Text) ++ Text.ofSize size ++ (")" : Text))) :=
    .bind hR (.copy_put hR hallows hS) fun _ => .bind hR (.ask hR _) fun _ => .report hR _ _ _
  unfold copy
  refine .ite (.bind hR (.ask hR _) fun _ => ?_) hrest
  exact .ite (.bind hR (.throw hR _) fun _ => hrest) hrest

end Allows

/-! ### The output file -/

/-- The output is a file of its own: it must not be there before, or it is neither the input nor
the log. -/
def Apart (e : Setting) (strict : Bool) (input output : Path) : Prop :=
  strict = true ∨
    (output.landing e.root ≠ input.landing e.root ∧ e.log? ≠ some (output.landing e.root))

/-- A place that is free is neither that of the input nor that of the log. -/
theorem ne_of_node?_eq_none (hw : w.Ready e) (hread : w.files.read input = .ok bytes)
    {place : Place} (hplace : w.files.locate output = .ok place)
    (hfree : w.files.node? place = none) :
    output.landing e.root ≠ input.landing e.root ∧ e.log? ≠ some (output.landing e.root) := by
  obtain ⟨place', hplace', hnode'⟩ := FileSystem.read_eq_ok.1 hread
  have hroot : w.files.workingDirectory = e.root := congrArg Setting.root hw.1
  rw [← hroot, ← FileSystem.locate_eq_landing hplace, ← FileSystem.locate_eq_landing hplace']
  refine ⟨?_, hw.log?_ne hfree⟩
  rintro rfl
  rw [hfree] at hnode'
  simp at hnode'

theorem apart_of_write {files : FileSystem} (hw : w.Ready e) (hapart : Apart e strict input output)
    (hread : w.files.read input = .ok bytes)
    (h : w.files.write (writeMode strict) output [] = .ok files) :
    output.landing e.root ≠ input.landing e.root ∧ e.log? ≠ some (output.landing e.root) := by
  rcases hapart with rfl | hoff
  · obtain ⟨place, hplace, -, hfree, -⟩ := FileSystem.write_eq_ok.1 h
    exact ne_of_node?_eq_none hw hread hplace (hfree rfl)
  · exact hoff

/-- The output, which is not the log, is the archive of the kept members, rewritten in their
order. -/
theorem repackage_eq_ok {stats : Stats} (hw : w.Ready e) (hapart : Apart e strict input output)
    (h : (repackage strict p input output).outcome w = (.ok stats, w')) :
    ∃ a written, OpenArchive.load w.files input = .ok a ∧
      List.Forall₂ (Rewritten p.editor? a) (a.archive.members.filter fun m => p.keeps m.name)
        written ∧
      w'.files.read output = .ok (Archive.encode written) ∧
      e.log? ≠ some (output.landing e.root) := by
  have hR := World.Spares.framing e ∅
  have hroot : w.files.workingDirectory = e.root := congrArg Setting.root hw.1
  unfold repackage at h
  dsimp only at h
  obtain ⟨inputSize, w₁, hsize, h⟩ := Session.outcome_bind_eq_ok.1 h
  obtain ⟨-, hw₁⟩ := Session.outcome_ask_eq_ok.1 hsize
  subst w₁
  obtain ⟨seen, w₂, hget, h⟩ := Session.outcome_bind_eq_ok.1 h
  obtain ⟨hseen, hw₂⟩ : seen = w ∧ w₂ = w := by simpa [eq_comm] using hget
  subst seen w₂
  obtain ⟨a, w₃, hlift, h⟩ := Session.outcome_bind_eq_ok.1 h
  obtain ⟨hload, hw₃⟩ : OpenArchive.load w.files input = .ok a ∧ w₃ = w := by
    simpa [Session.outcome_lift, eq_comm] using hlift
  subst w₃
  obtain ⟨-, hinput, -⟩ := OpenArchive.load_eq_ok.1 hload
  obtain ⟨_, w₄, hbegin, h⟩ := Session.outcome_bind_eq_ok.1 h
  obtain ⟨begun, hbegun, hw₄⟩ := Session.outcome_change_eq_ok.1 hbegin
  have hoff := apart_of_write hw hapart hinput hbegun
  have hready : w₄.Ready e := ((Session.Within.write _ _ _).relates hw hbegin).ready hw
  obtain ⟨bytes, w₅, hread, h⟩ := Session.outcome_bind_eq_ok.1 h
  obtain ⟨hbytes, hw₅⟩ := Session.outcome_ask_eq_ok.1 hread
  subst w₅
  -- The output is begun now, but the input is what it was when it was opened.
  obtain rfl : bytes = a.bytes := by
    have hsame : begun.read input = .ok a.bytes := by
      refine (FileSystem.write_spares hbegun).read hinput fun hmem => hoff.1 ?_
      rw [← hroot]
      exact (Set.mem_singleton_iff.1 hmem).symm
    rw [hw₄] at hbytes
    exact Except.ok.inj (hbytes.symm.trans hsame)
  obtain ⟨_, w₆, hevents, h⟩ := Session.outcome_bind_eq_ok.1 h
  have hw₆ : w₆.Ready e := ((Session.Within.emitAll hR _).relates hready hevents).ready hready
  obtain ⟨_, w₇, hwrite, h⟩ := Session.outcome_bind_eq_ok.1 h
  obtain ⟨files, hfiles, hw₇⟩ := Session.outcome_change_eq_ok.1 hwrite
  have hready' : w₇.Ready e := ((Session.Within.write _ _ _).relates hw₆ hwrite).ready hw₆
  split at h
  · simp at h
  · next hnone =>
    have hdone : (processMembers p a a.bytes a.archive.members).failure? = none :=
      Option.eq_none_iff_forall_ne_some.2 fun fault hfault => hnone fault hfault
    refine ⟨a, _, hload, forall₂_written hdone, ?_, hoff.2⟩
    have hreported : World.Spares ∅ w₇ w' := by
      refine Session.Within.relates ?_ hready' h
      exact .bind hR (.ask hR _) fun _ => .bind hR (.report hR _ _ _) fun _ => .pure hR _
    exact hreported.read hready' (Set.notMem_empty _) hoff.2
      (hw₇ ▸ FileSystem.read_of_write hfiles)

/-- The output, which is not the log, has the bytes of the input. -/
theorem copy_eq_ok (hw : w.Ready e) (hapart : Apart e strict input output)
    (h : (copy strict input output).outcome w = (.ok (), w')) :
    ∃ bytes, w.files.read input = .ok bytes ∧ w'.files.read output = .ok bytes ∧
      e.log? ≠ some (output.landing e.root) := by
  have hR := World.Spares.framing e ∅
  have hcopied : (strict = true → w.files.exists? output = .ok false) ∧ Session.outcome (do
      Session.change (·.copy input output)
      let size ← Session.ask (·.size output)
      Session.report .info .repack (input.name ++ (" -> " : Text) ++ output.name ++
        (": 原样复制 (" : Text) ++ Text.ofSize size ++ (")" : Text))) w = (.ok (), w') := by
    unfold copy at h
    cases strict with
    | false => exact ⟨by simp, h⟩
    | true =>
      obtain ⟨exists?, w₁, hask, h⟩ := Session.outcome_bind_eq_ok.1 h
      obtain ⟨hexists, hw₁⟩ := Session.outcome_ask_eq_ok.1 hask
      subst w₁
      cases exists? with
      | true => simp at h
      | false => exact ⟨fun _ => hexists, h⟩
  obtain ⟨hfree, hrun⟩ := hcopied
  obtain ⟨_, w₁, hchange, hrun⟩ := Session.outcome_bind_eq_ok.1 hrun
  obtain ⟨files, hfiles, hw₁⟩ := Session.outcome_change_eq_ok.1 hchange
  obtain ⟨bytes, place, hread, hplace, hne, hnode, hput⟩ := FileSystem.copy_eq_ok hfiles
  have hlog : e.log? ≠ some (output.landing e.root) := by
    rcases hapart with rfl | hoff
    · have hnone := FileSystem.node?_eq_none_of_exists? (hfree rfl) hplace
      exact (ne_of_node?_eq_none hw hread hplace hnone).2
    · exact hoff.2
  have hw₁' : w₁.Ready e := ((change_copy_within input output).relates hw hchange).ready hw
  have hreported : World.Spares ∅ w₁ w' := by
    refine Session.Within.relates ?_ hw₁' hrun
    exact .bind hR (.ask hR _) fun _ => .report hR _ _ _
  have hcopy : w₁.files.read output = .ok bytes := by
    rw [hw₁, hput]
    exact FileSystem.read_put hplace hnode
  exact ⟨bytes, hread, hreported.read hw₁' (Set.notMem_empty _) hlog hcopy, hlog⟩

end Repackaging

theorem writeManifest_within (strict : Bool) (directory : Path) (elements : List Text) :
    (writeManifest strict directory elements).Within e (World.Spares
      (if strict then ∅ else {(directory.child manifestName).landing e.root})) := by
  have hR := World.Spares.framing e
  unfold writeManifest
  dsimp only
  refine .write_bind Repackaging.writeMode_of_strict ?_
  split
  · exact .throw (hR _) _
  · exact .bind (hR _) (.write _ _ _) fun _ => .pure (hR _) _

theorem writeManifest_within_of_allowsFiles {R : World → World → Prop} {S : Set Place}
    (hR : Framing e R) (hallows : AllowsFiles e R S) (strict : Bool) {directory : Path}
    (hS : (directory.child manifestName).landing e.root ∈ S) (elements : List Text) :
    (writeManifest strict directory elements).Within e R := by
  have hwrite := Session.Within.write_put hR hallows hS
  unfold writeManifest
  dsimp only
  refine .bind hR (hwrite _ _) fun _ => ?_
  split
  · exact .throw hR _
  · exact .bind hR (hwrite _ _) fun _ => .pure hR _

/-- The manifest has the names one a line. -/
theorem writeManifest_eq_ok {strict : Bool} {directory path : Path} {elements : List Text}
    (h : (writeManifest strict directory elements).outcome w = (.ok path, w')) :
    path = directory.child manifestName ∧
      ∃ bytes, Utf8.encode? (Text.joinWith [0x0A] elements) = some bytes ∧
        w'.files.read path = .ok bytes := by
  unfold writeManifest at h
  dsimp only at h
  obtain ⟨_, w₁, -, h⟩ := Session.outcome_bind_eq_ok.1 h
  split at h
  · simp at h
  · next bytes hbytes =>
    obtain ⟨_, w₂, hwrite, h⟩ := Session.outcome_bind_eq_ok.1 h
    obtain ⟨files, hfiles, rfl⟩ := Session.outcome_change_eq_ok.1 hwrite
    rw [Session.outcome_pure, Prod.mk.injEq, Except.ok.injEq] at h
    obtain ⟨rfl, rfl⟩ := h
    exact ⟨rfl, bytes, hbytes, FileSystem.read_of_write hfiles⟩

end Jarsmith
