import Jarsmith.Proofs.FileSystem.Place
import Jarsmith.Session

/-!
# The outcome of a session

A session is run by running its parts. The lemmas here say what each part gives and what it leaves
behind: `outcome_bind` for two parts one after another, `outcome_tryCatch` for the handling of a
failure, and one equation for each operation of `Session`. With them no proof needs to open the
monad. That a session succeeds is taken apart by the lemmas that end in `eq_ok`: a part that asks
gives an answer about the files as they are, and a part that changes files gives the files after.
-/

namespace Jarsmith

namespace Session

variable {α β : Type}

/-! ### Sequencing -/

theorem outcome_bind (s : Session α) (f : α → Session β) (w : World) :
    outcome (s >>= f) w = match s.outcome w with
      | (.ok a, after) => (f a).outcome after
      | (.error e, after) => (.error e, after) := by
  unfold outcome ExceptT.run StateT.run
  simp only [bind, ExceptT.bind, ExceptT.mk, StateT.bind]
  cases s w with
  | mk result after => cases result <;> rfl

/-- A session in two parts succeeds exactly if both parts do. -/
theorem outcome_bind_eq_ok {s : Session α} {f : α → Session β} {w after : World} {b : β} :
    outcome (s >>= f) w = (.ok b, after) ↔
      ∃ a between, s.outcome w = (.ok a, between) ∧ (f a).outcome between = (.ok b, after) := by
  rw [outcome_bind]
  constructor
  · intro h
    split at h
    · next a between hs => exact ⟨a, between, hs, h⟩
    · simp at h
  · rintro ⟨a, between, hs, hf⟩
    rw [hs]
    exact hf

@[simp]
theorem outcome_pure (a : α) (w : World) : outcome (pure a) w = (.ok a, w) := rfl

@[simp]
theorem outcome_throw (e : Fault) (w : World) :
    outcome (throw e : Session α) w = (.error e, w) := rfl

@[simp]
theorem outcome_get (w : World) : outcome get w = (.ok w, w) := rfl

@[simp]
theorem outcome_set (w after : World) : outcome (set after) w = (.ok (), after) := rfl

/-- A computation without effects gives its result and changes nothing. -/
theorem outcome_lift (r : Except Fault α) (w : World) :
    outcome (liftM r) w = (r, w) := rfl

theorem outcome_tryCatch (s : Session α) (handle : Fault → Session α) (w : World) :
    outcome (tryCatch s handle) w = match s.outcome w with
      | (.ok a, after) => (.ok a, after)
      | (.error e, after) => (handle e).outcome after := by
  unfold outcome ExceptT.run StateT.run
  simp only [tryCatch, tryCatchThe, MonadExceptOf.tryCatch, ExceptT.tryCatch, ExceptT.mk, bind,
    StateT.bind]
  cases s w with
  | mk result after => cases result <;> rfl

/-! ### The operations -/

@[simp]
theorem outcome_show (s : Shown) (w : World) :
    (Session.show s).outcome w =
      (.ok (), { w with console :=
        { w.console with transcript := w.console.transcript ++ [s] } }) := rfl

theorem outcome_ask (f : FileSystem → Except FileSystem.Error α) (w : World) :
    (ask f).outcome w = ((f w.files).mapError .files, w) := by
  unfold ask
  rw [outcome_bind, outcome_get]
  dsimp only
  cases f w.files <;> rfl

theorem outcome_change (f : FileSystem → Except FileSystem.Error FileSystem) (w : World) :
    (change f).outcome w = match f w.files with
      | .ok files => (.ok (), { w with files })
      | .error e => (.error (.files e), w) := by
  unfold change
  rw [outcome_bind, outcome_get]
  dsimp only
  cases f w.files <;> rfl

theorem outcome_change_eq_ok {f : FileSystem → Except FileSystem.Error FileSystem}
    {w after : World} {u : Unit} :
    (change f).outcome w = (.ok u, after) ↔
      ∃ files, f w.files = .ok files ∧ after = { w with files } := by
  rw [outcome_change]
  cases f w.files with
  | error fault => simp
  | ok files => simp [eq_comm]

theorem outcome_ask_eq_ok {f : FileSystem → Except FileSystem.Error α} {w after : World} {a : α} :
    (ask f).outcome w = (.ok a, after) ↔ f w.files = .ok a ∧ after = w := by
  rw [outcome_ask, Prod.mk.injEq, Except.mapError_eq_ok, eq_comm (b := after)]

theorem outcome_makeDirectories (path : Path) (w : World) :
    (makeDirectories path).outcome w =
      ((w.files.makeDirectories path).2.mapError .files,
        { w with files := (w.files.makeDirectories path).1 }) := by
  unfold makeDirectories
  rw [outcome_bind, outcome_get]
  dsimp only
  rw [outcome_bind, outcome_set]
  dsimp only
  cases (w.files.makeDirectories path).2 <;> rfl

theorem outcome_traced (c : FileSystem → Traced α) (w : World) :
    (traced c).outcome w =
      (do emitAll (c w.files).outcome.2; liftM (c w.files).outcome.1 : Session α).outcome w := rfl

/-! ### Loops -/

theorem outcome_forM_nil (f : β → Session Unit) (w : World) :
    outcome (([] : List β).forM f) w = (.ok (), w) := rfl

theorem outcome_forM_cons (f : β → Session Unit) (b : β) (bs : List β) :
    (b :: bs).forM f = (do f b; bs.forM f) := rfl

end Session

end Jarsmith
