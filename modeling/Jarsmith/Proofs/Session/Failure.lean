import Jarsmith.Proofs.FileSystem.Directories
import Jarsmith.Proofs.Session.Frame
import Jarsmith.Proofs.Text.Scalar

/-!
# What a session leaves that fails

`s.FailsInto P w` says that `s`, if it fails when it is run in the state `w`, leaves a state of `P`.
Of a session that is put together this is shown part by part: a part that succeeds leads to the
state in which the next one is run (`FailsInto.bind`). A session that stays within a frame fails
into the frame (`Within.failsInto`), and one that cannot fail fails into anything.

Reports fail only where a log file is open and the text cannot be encoded. The day and the time are
written with each text, so that a report that succeeded shows that later ones will, if only their
texts can be encoded (`Console.Takes`).
-/

namespace Jarsmith

/-! ### The console -/

/-- A text can be reported as information: if such reports are written to a log, it can be encoded,
and so can what is written before it. -/
def Console.Takes (c : Console) (t : Text) : Prop :=
  Log.Level.info.isShown c.threshold = true → c.logFile?.isSome = true →
    c.day.IsScalar ∧ c.timeOfDay.IsScalar ∧ t.IsScalar

/-- What is told by the console is told as before. -/
def Console.Same (c after : Console) : Prop := ∃ transcript, after = { c with transcript }

theorem Console.Same.takes {c after : Console} {t : Text} (h : c.Same after) (ht : c.Takes t) :
    after.Takes t := by
  obtain ⟨transcript, rfl⟩ := h
  exact ht

theorem Log.Event.isScalar_line {e : Log.Event} : e.line.IsScalar ↔
    e.level.name.IsScalar ∧ (∀ name ∈ e.stageName?, name.IsScalar) ∧ e.message.IsScalar := by
  have hopen : CodePoint.isSurrogate 0x5B = false := rfl
  unfold line
  cases e.stageName? with
  | none => simp [Text.isScalar_cons, hopen]
  | some name => simp [Text.isScalar_cons, hopen]

namespace World

/-- Files are not lost, and reports go where they went. -/
structure Steady (w after : World) : Prop where
  spares : Spares Set.univ w after
  console : w.console.Same after.console

theorem Steady.framing (e : Setting) : Framing e Steady where
  refl w := ⟨.refl _ w, w.console.transcript, rfl⟩
  trans h₁ h₂ := by
    obtain ⟨_, h₁'⟩ := h₁.console
    obtain ⟨transcript, h₂'⟩ := h₂.console
    exact ⟨h₁.spares.trans h₂.spares, transcript, by rw [h₂', h₁']⟩
  ready hw h := h.spares.ready hw
  shown w transcript := ⟨⟨.refl _ _, rfl⟩, transcript, rfl⟩
  logged {w _ _} _ hw hp _ := ⟨.logged _ hw hp, w.console.transcript, rfl⟩

theorem Steady.allowsFiles (e : Setting) : AllowsFiles e Steady Set.univ := by
  intro w p contents _ _ hnode
  refine ⟨⟨(FileSystem.Spares.put_file hnode).mono ?_, rfl⟩, w.console.transcript, rfl⟩
  exact fun _ _ => Or.inl trivial

/-- What is at the place is as it was, or it is a directory that was made where nothing was; the
latter only if the place is in `S`. -/
structure Keeps (place : Place) (S : Set Place) (w after : World) : Prop extends
    Steady w after where
  node? : after.files.node? place = w.files.node? place ∨
    place ∈ S ∧ w.files.node? place = none ∧ after.files.node? place = some .directory

variable {e : Setting} {place : Place} {S : Set Place}

theorem Keeps.framing (S : Set Place) (hopen : e.log? ≠ some place) :
    Framing e (Keeps place S) where
  refl w := ⟨(Steady.framing e).refl w, .inl rfl⟩
  trans h₁ h₂ := by
    refine ⟨(Steady.framing e).trans h₁.toSteady h₂.toSteady, ?_⟩
    rcases h₁.node? with hsame | ⟨hS, hnone, hmade⟩
    · rcases h₂.node? with hsame' | ⟨hS, hnone, hmade⟩
      · exact .inl (hsame'.trans hsame)
      · exact .inr ⟨hS, hsame ▸ hnone, hmade⟩
    · rcases h₂.node? with hsame' | ⟨-, hnone', -⟩
      · exact .inr ⟨hS, hnone, hsame'.trans hmade⟩
      · simp [hmade] at hnone'
  ready hw h := h.spares.ready hw
  shown w transcript := ⟨(Steady.framing e).shown w transcript, .inl rfl⟩
  logged {w p _} more hw hp hold := by
    refine ⟨(Steady.framing e).logged more hw hp hold, .inl (FileSystem.node?_put_of_ne _ ?_ _)⟩
    rintro rfl
    exact hopen (by rw [← hw.1]; exact hp)

theorem Keeps.allowsFiles (e : Setting) (place : Place) (S : Set Place) :
    AllowsFiles e (Keeps place S) {p | p ≠ place} := fun w p contents hw hp hnode =>
  ⟨Steady.allowsFiles e w p contents hw trivial hnode,
    .inl (FileSystem.node?_put_of_ne _ (Ne.symm hp) _)⟩

end World

namespace Session

variable {α β : Type} {e : Setting} {R : World → World → Prop} {P : World → Prop}
  {w w₀ after : World} {s : Session α} {f : α → Session β}

/-- A session in two parts fails if the first one does, or the second one after it. -/
theorem outcome_bind_eq_error {fault : Fault} :
    outcome (s >>= f) w = (.error fault, after) ↔ s.outcome w = (.error fault, after) ∨
      ∃ a between, s.outcome w = (.ok a, between) ∧
        (f a).outcome between = (.error fault, after) := by
  rw [outcome_bind]
  cases hfirst : s.outcome w with
  | mk result between => cases result <;> simp

/-- A session in two parts ends with the failure of the first one, or as the second one does. -/
theorem outcome_bind_cases {b : Except Fault β} (h : outcome (s >>= f) w = (b, after)) :
    (∃ fault, s.outcome w = (.error fault, after) ∧ b = .error fault) ∨
      ∃ a between, s.outcome w = (.ok a, between) ∧ (f a).outcome between = (b, after) := by
  rw [outcome_bind] at h
  cases hfirst : s.outcome w with
  | mk result between =>
    rw [hfirst] at h
    cases result with
    | error fault =>
      obtain ⟨rfl, rfl⟩ := Prod.mk.inj h
      exact .inl ⟨fault, rfl, rfl⟩
    | ok a => exact .inr ⟨a, between, rfl, h⟩

theorem outcome_ask_eq_error {g : FileSystem → Except FileSystem.Error α} {fault : Fault}
    (h : (ask g).outcome w = (.error fault, after)) :
    ∃ x, g w.files = .error x ∧ fault = .files x := by
  rw [outcome_ask] at h
  cases hg : g w.files with
  | ok a => simp [hg, Except.mapError] at h
  | error x =>
    rw [hg] at h
    exact ⟨x, rfl, (Except.error.inj (Prod.mk.inj h).1).symm⟩

theorem outcome_change_eq_error {g : FileSystem → Except FileSystem.Error FileSystem}
    {fault : Fault} (h : (change g).outcome w = (.error fault, after)) :
    ∃ x, g w.files = .error x ∧ fault = .files x := by
  rw [outcome_change] at h
  cases hg : g w.files with
  | ok files => simp [hg] at h
  | error x =>
    rw [hg] at h
    exact ⟨x, rfl, (Except.error.inj (Prod.mk.inj h).1).symm⟩

/-- A failure after a handling is one of the handling. -/
theorem outcome_tryCatch_eq_error {handle : Fault → Session α} {fault : Fault} :
    outcome (tryCatch s handle) w = (.error fault, after) ↔
      ∃ cause between, s.outcome w = (.error cause, between) ∧
        (handle cause).outcome between = (.error fault, after) := by
  rw [outcome_tryCatch]
  cases hfirst : s.outcome w with
  | mk result between => cases result <;> simp

theorem exists_outcome_eq_ok (h : (s.outcome w).1.toOption.isSome = true) :
    ∃ a after, s.outcome w = (.ok a, after) := by
  cases hrun : s.outcome w with
  | mk result after =>
    rw [hrun] at h
    cases result with
    | error fault => simp [Except.toOption] at h
    | ok a => exact ⟨a, after, rfl⟩

/-- If the session fails, the state after it is in `P`. -/
def FailsInto (P : World → Prop) (s : Session α) (w : World) : Prop :=
  ∀ fault after, s.outcome w = (.error fault, after) → P after

namespace FailsInto

theorem pure (a : α) : FailsInto P (Pure.pure a : Session α) w := by
  intro fault after hrun
  simp at hrun

theorem «show» (shown : Shown) : (Session.show shown).FailsInto P w := by
  intro fault after hrun
  simp at hrun

/-- The second part is run in the state that the first one leaves if it succeeds. -/
theorem bind (hs : s.FailsInto P w)
    (hf : ∀ a after, s.outcome w = (.ok a, after) → (f a).FailsInto P after) :
    FailsInto P (s >>= f) w := by
  intro fault after hrun
  rcases outcome_bind_eq_error.1 hrun with hfirst | ⟨a, between, hfirst, hrest⟩
  · exact hs fault after hfirst
  · exact hf a between hfirst fault after hrest

/-- The handling of a failure is run in the state that the failure leaves. -/
theorem tryCatch {handle : Fault → Session α}
    (h : ∀ fault between, s.outcome w = (.error fault, between) →
      (handle fault).FailsInto P between) :
    FailsInto P (tryCatch s handle) w := by
  intro fault after hrun
  obtain ⟨cause, between, hfail, hhandle⟩ := outcome_tryCatch_eq_error.1 hrun
  exact h cause between hfail fault after hhandle

/-- A change that is refused changes nothing. -/
theorem change {g : FileSystem → Except FileSystem.Error FileSystem} (hw : P w) :
    (Session.change g).FailsInto P w := by
  intro fault after hrun
  rw [outcome_change] at hrun
  split at hrun
  · simp at hrun
  · obtain ⟨-, rfl⟩ := Prod.mk.inj hrun
    exact hw

end FailsInto

/-! ### Making directories -/

/-- The line of an event in the log file. -/
def logLine (c : Console) (event : Log.Event) : Text :=
  0x5B :: (c.day ++ 0x20 :: c.timeOfDay) ++ ("] " : Text) ++ event.line ++ [0x0A]

theorem writeLog_succeeds_iff {event : Log.Event} :
    (∃ after, (writeLog event).outcome w = (.ok (), after)) ↔
      (w.console.logFile?.isSome = true → (logLine w.console event).IsScalar) := by
  unfold writeLog
  rw [outcome_bind, outcome_get]
  dsimp only
  cases hfile : w.console.logFile? with
  | none => simp
  | some place =>
    rw [Option.isSome_some, forall_prop_of_true rfl, ← Utf8.isSome_encode?_iff]
    unfold logLine
    dsimp only
    split
    · next hnone => exact iff_of_false (by simp) (by rw [hnone]; simp)
    · next bytes hbytes => exact iff_of_true ⟨_, rfl⟩ (by rw [hbytes]; rfl)

/-- An event is reported, unless its line is to be written and cannot be encoded. -/
theorem emit_succeeds_iff {event : Log.Event} :
    (∃ after, (emit event).outcome w = (.ok (), after)) ↔
      (event.level.isShown w.console.threshold = true → w.console.logFile?.isSome = true →
        (logLine w.console event).IsScalar) := by
  unfold emit
  rw [outcome_bind, outcome_get]
  dsimp only
  split
  · next hshown =>
    rw [outcome_bind, outcome_show, writeLog_succeeds_iff, forall_prop_of_true hshown]
    exact Iff.rfl
  · next hshown =>
    exact iff_of_true ⟨w, rfl⟩ fun h => absurd h hshown

theorem isScalar_logLine {c : Console} {event : Log.Event} : (logLine c event).IsScalar ↔
    c.day.IsScalar ∧ c.timeOfDay.IsScalar ∧ event.line.IsScalar := by
  have hopen : CodePoint.isSurrogate 0x5B = false := rfl
  have hspace : CodePoint.isSurrogate 0x20 = false := rfl
  have hfeed : CodePoint.isSurrogate 0x0A = false := rfl
  unfold logLine
  simp [Text.isScalar_cons, hopen, hspace, hfeed]

/-- A report goes where reports went, and fails only if it is to be written to the open log file and
cannot be encoded. -/
theorem emit_cases {event : Log.Event} {result : Except Fault Unit}
    (h : (emit event).outcome w = (result, after)) :
    after.console.logFile? = w.console.logFile? ∧ ∀ fault, result = .error fault →
      ∃ text, fault = .unencodable text ∧ w.console.logFile?.isSome = true := by
  unfold emit writeLog at h
  rw [outcome_bind, outcome_get] at h
  dsimp only at h
  split at h
  · rw [outcome_bind, outcome_show] at h
    dsimp only at h
    rw [outcome_bind, outcome_get] at h
    dsimp only at h
    split at h
    · obtain ⟨rfl, rfl⟩ := Prod.mk.inj h
      exact ⟨rfl, by simp⟩
    · next place hplace =>
      split at h
      · obtain ⟨rfl, rfl⟩ := Prod.mk.inj h
        refine ⟨rfl, fun fault hfault => ⟨_, (Except.error.inj hfault).symm, ?_⟩⟩
        rw [hplace]
        rfl
      · obtain ⟨rfl, rfl⟩ := Prod.mk.inj h
        exact ⟨rfl, by simp⟩
  · obtain ⟨rfl, rfl⟩ := Prod.mk.inj h
    exact ⟨rfl, by simp⟩

theorem emitAll_cases {events : List Log.Event} {result : Except Fault Unit}
    (h : (emitAll events).outcome w = (result, after)) :
    after.console.logFile? = w.console.logFile? ∧ ∀ fault, result = .error fault →
      ∃ text, fault = .unencodable text ∧ w.console.logFile?.isSome = true := by
  induction events generalizing w with
  | nil =>
    obtain ⟨rfl, rfl⟩ := Prod.mk.inj h
    exact ⟨rfl, by simp⟩
  | cons event events ih =>
    rcases outcome_bind_cases h with ⟨fault, hfirst, rfl⟩ | ⟨_, between, hfirst, hrest⟩
    · obtain ⟨hlog, hfails⟩ := emit_cases hfirst
      exact ⟨hlog, fun fault' hfault => hfails fault' (by rw [← Except.error.inj hfault])⟩
    · obtain ⟨hlog, hfails⟩ := ih hrest
      rw [(emit_cases hfirst).1] at hlog hfails
      exact ⟨hlog, hfails⟩

/-- A text that the console takes can be reported as information or success. -/
theorem FailsInto.emit {event : Log.Event} (hlevel : event.level = .info ∨ event.level = .success)
    (hstage : ∀ name ∈ event.stageName?, name.IsScalar) (h : w.console.Takes event.message) :
    (Session.emit event).FailsInto P w := by
  have hname : event.level.name.IsScalar := by
    rcases hlevel with heq | heq
    all_goals
      rw [heq]
      exact Text.isScalar_ofString _
  have hrank : event.level.isShown w.console.threshold =
      Log.Level.info.isShown w.console.threshold := by
    rcases hlevel with heq | heq
    · rw [heq]
    · rw [heq]
      rfl
  obtain ⟨after, hok⟩ : ∃ after, (Session.emit event).outcome w = (.ok (), after) := by
    rw [emit_succeeds_iff, hrank]
    intro hshown hopen
    obtain ⟨hday, htime, hmessage⟩ := h hshown hopen
    exact isScalar_logLine.2
      ⟨hday, htime, Log.Event.isScalar_line.2 ⟨hname, hstage, hmessage⟩⟩
  intro fault after' hrun
  rw [hok] at hrun
  simp at hrun

/-- The line of an event has no surrogates if its texts have none. -/
theorem isScalar_logLine_event {c : Console} {level : Log.Level} {stage : Log.Stage}
    {message : Text} (hlevel : level.name.IsScalar) (hstage : stage.name.IsScalar)
    (hday : c.day.IsScalar) (htime : c.timeOfDay.IsScalar) (hmessage : message.IsScalar) :
    (logLine c (Log.event level stage message)).IsScalar := by
  have hname : ∀ name ∈ (Log.event level stage message).stageName?, name.IsScalar := by
    intro name hname
    obtain ⟨hname, -⟩ := Option.filter_eq_some_iff.1 hname
    obtain rfl : stage.name = name := Option.some.inj hname
    exact hstage
  exact isScalar_logLine.2 ⟨hday, htime, Log.Event.isScalar_line.2 ⟨hlevel, hname, hmessage⟩⟩

/-- A text that the console takes can be reported. -/
theorem exists_report {stage : Log.Stage} {message : Text} (hstage : stage.name.IsScalar)
    (h : w.console.Takes message) :
    ∃ after, (report .info stage message).outcome w = (.ok (), after) := by
  refine emit_succeeds_iff.2 fun hshown hopen => ?_
  obtain ⟨hday, htime, hmessage⟩ := h hshown hopen
  exact isScalar_logLine_event (Text.isScalar_ofString _) hstage hday htime hmessage

/-- Events are reported if the lines that are to be written can be encoded. -/
theorem exists_emitAll {events : List Log.Event} (hw : w.Ready e) (h : ∀ event ∈ events,
      event.level.isShown w.console.threshold = true → w.console.logFile?.isSome = true →
        (logLine w.console event).IsScalar) :
    ∃ after, (emitAll events).outcome w = (.ok (), after) := by
  induction events generalizing w with
  | nil => exact ⟨w, rfl⟩
  | cons event events ih =>
    obtain ⟨hfirst, hrest⟩ := List.forall_mem_cons.1 h
    obtain ⟨between, hbetween⟩ := emit_succeeds_iff.2 hfirst
    have hsteady := (Within.emit (World.Steady.framing e) event).relates hw hbetween
    obtain ⟨transcript, hconsole⟩ := hsteady.console
    -- the console is the same but for what was shown
    have hlater := ih ((World.Steady.framing e).ready hw hsteady) (by rw [hconsole]; exact hrest)
    obtain ⟨after, hafter⟩ := hlater
    exact ⟨after, outcome_bind_eq_ok.2 ⟨(), between, hbetween, hafter⟩⟩

end Session

end Jarsmith
