import Mathlib.Data.List.Forall2
import Jarsmith.Log.Traced

/-!
# What a traced computation gives

The result of a computation that only reports events does not depend on the events before it
(`Traced.Blind`). So the parts of one can be taken for themselves: `result_bind` says what the
result of a computation in two parts is, and `outcome_bind_eq_ok` that it succeeds exactly if both
do.
-/

namespace Jarsmith.Traced

variable {α β : Type}

/-- A computation after the events `events`. -/
def after (c : Traced α) (events : List Log.Event) : Except Fault α × List Log.Event :=
  c.run.run events

/-- The result does not depend on what was reported before. -/
def Blind (c : Traced α) : Prop := ∀ events, (c.after events).1 = c.outcome.1

theorem after_bind (c : Traced α) (f : α → Traced β) (events : List Log.Event) :
    after (c >>= f) events = match c.after events with
      | (.ok a, more) => (f a).after more
      | (.error e, more) => (.error e, more) := by
  unfold after ExceptT.run StateT.run
  simp only [bind, ExceptT.bind, ExceptT.mk, StateT.bind]
  cases c events with
  | mk result more => cases result <;> rfl

/-- The result of a computation in two parts, the second of which does not depend on the events of
the first. -/
theorem result_after_bind {c : Traced α} {f : α → Traced β} (hf : ∀ a, Blind (f a))
    (events : List Log.Event) :
    (after (c >>= f) events).1 = (c.after events).1.bind fun a => (f a).outcome.1 := by
  rw [after_bind]
  cases c.after events with
  | mk result more =>
    cases result with
    | error e => rfl
    | ok a => exact hf a more

namespace Blind

theorem pure (a : α) : Blind (pure a) := fun _ => rfl

theorem throw (e : Fault) : Blind (throw e : Traced α) := fun _ => rfl

theorem lift (r : Except Fault α) : Blind (liftM r : Traced α) := fun _ => rfl

theorem report (e : Log.Event) : Blind (Traced.report e) := fun _ => rfl

theorem reportAll (es : List Log.Event) : Blind (Traced.reportAll es) := fun _ => rfl

theorem bind {c : Traced α} {f : α → Traced β} (hc : Blind c) (hf : ∀ a, Blind (f a)) :
    Blind (c >>= f) := by
  intro events
  rw [result_after_bind hf, hc events]
  exact (result_after_bind hf []).symm

theorem mapM {f : β → Traced α} (bs : List β) (h : ∀ b, Blind (f b)) : Blind (bs.mapM f) := by
  induction bs with
  | nil => exact pure []
  | cons b bs ih =>
    rw [List.mapM_cons]
    exact bind (h b) fun a => bind ih fun as => pure (a :: as)

end Blind

theorem result_bind {c : Traced α} {f : α → Traced β} (hf : ∀ a, Blind (f a)) :
    (outcome (c >>= f)).1 = c.outcome.1.bind fun a => (f a).outcome.1 :=
  result_after_bind hf []

/-- A computation in two parts succeeds exactly if both do. -/
theorem outcome_bind_eq_ok {c : Traced α} {f : α → Traced β} (hf : ∀ a, Blind (f a)) {b : β} :
    (outcome (c >>= f)).1 = .ok b ↔ ∃ a, c.outcome.1 = .ok a ∧ (f a).outcome.1 = .ok b := by
  rw [result_bind hf]
  cases c.outcome.1 <;> simp [Except.bind]

/-- A computation over a list succeeds exactly if it does for each element. -/
theorem outcome_mapM_eq_ok {f : β → Traced α} (hf : ∀ b, Blind (f b)) {bs : List β} {as : List α} :
    (outcome (bs.mapM f)).1 = .ok as ↔
      List.Forall₂ (fun b a => (f b).outcome.1 = .ok a) bs as := by
  induction bs generalizing as with
  | nil =>
    rw [List.forall₂_nil_left_iff, eq_comm (a := as)]
    exact ⟨fun h => Except.ok.inj h, fun h => congrArg Except.ok h⟩
  | cons b bs ih =>
    rw [List.mapM_cons, List.forall₂_cons_left_iff, outcome_bind_eq_ok fun a =>
      .bind (.mapM bs hf) fun as => .pure (a :: as)]
    constructor
    · rintro ⟨a, ha, h⟩
      obtain ⟨rest, hrest, h⟩ := (outcome_bind_eq_ok fun as => .pure (a :: as)).1 h
      exact ⟨a, rest, ha, ih.1 hrest, (Except.ok.inj h).symm⟩
    · rintro ⟨a, rest, ha, hrest, rfl⟩
      exact ⟨a, ha, (outcome_bind_eq_ok fun as => .pure (a :: as)).2 ⟨rest, ih.2 hrest, rfl⟩⟩

end Jarsmith.Traced
