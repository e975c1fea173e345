/-!
# Results that may be errors

A computation that gives a result did so at each of its steps. `Except.bind_eq_ok` takes two steps
apart, and `Except.mem_of_mapM_eq_ok` a run over a list. With what errors a computation can fail is
told by `Except.FailsOnly`, step by step.
-/

namespace Except

variable {ε α β : Type} {r : Except ε α} {b : β} {as : List α} {bs : List β}

@[simp]
theorem throw_ne_ok {e : ε} {a : α} : (throw e : Except ε α) ≠ .ok a := by
  simp [throw, throwThe, MonadExceptOf.throw]

theorem bind_eq_ok {f : α → Except ε β} : r >>= f = .ok b ↔ ∃ a, r = .ok a ∧ f a = .ok b := by
  cases r <;> simp [bind, Except.bind]

/-- What follows a check gives a result if the check does not fail. -/
theorem guard_eq_ok {c : Prop} [Decidable c] {e : ε} {f : β → Except ε α} {a : α} :
    (if c then (throw e : Except ε β) >>= f else r) = .ok a ↔ ¬ c ∧ r = .ok a := by
  split
  · next hc => exact iff_of_false (by simp [bind_eq_ok]) fun h => h.1 hc
  · next hc => exact (and_iff_right hc).symm

theorem map_eq_ok {f : α → β} : r.map f = .ok b ↔ ∃ a, r = .ok a ∧ f a = b := by
  cases r <;> simp [Except.map]

/-- A failure that is told in other words is one in any case. -/
theorem mapError_eq_ok {ε' : Type} {f : ε → ε'} {a : α} : r.mapError f = .ok a ↔ r = .ok a := by
  cases r with
  | error e =>
    show Except.error (f e) = .ok a ↔ _
    simp
  | ok b =>
    show Except.ok b = .ok a ↔ _
    simp

theorem toOption_eq_some {a : α} : r.toOption = some a ↔ r = .ok a := by
  cases r <;> simp [Except.toOption]

/-- The results over a list are those of its elements. -/
theorem mem_of_mapM_eq_ok {f : α → Except ε β} (h : as.mapM f = .ok bs) :
    b ∈ bs ↔ ∃ a ∈ as, f a = .ok b := by
  induction as generalizing bs with
  | nil =>
    obtain rfl : [] = bs := Except.ok.inj h
    simp
  | cons a as ih =>
    rw [List.mapM_cons, bind_eq_ok] at h
    obtain ⟨x, hx, h⟩ := h
    obtain ⟨xs, hxs, h⟩ := bind_eq_ok.1 h
    obtain rfl : x :: xs = bs := Except.ok.inj h
    have hb : f a = .ok b ↔ b = x := by rw [hx, Except.ok.injEq, eq_comm]
    simp only [List.mem_cons, ih hxs, exists_eq_or_imp, hb]

/-- Each element of the list has a result. -/
theorem exists_of_mapM_eq_ok {f : α → Except ε β} {a : α} (h : as.mapM f = .ok bs) (ha : a ∈ as) :
    ∃ b ∈ bs, f a = .ok b := by
  induction as generalizing bs with
  | nil => simp at ha
  | cons a' as ih =>
    rw [List.mapM_cons, bind_eq_ok] at h
    obtain ⟨x, hx, h⟩ := h
    obtain ⟨xs, hxs, h⟩ := bind_eq_ok.1 h
    obtain rfl : x :: xs = bs := Except.ok.inj h
    rcases List.mem_cons.1 ha with rfl | ha
    · exact ⟨x, List.mem_cons_self, hx⟩
    · obtain ⟨b, hb, hab⟩ := ih hxs ha
      exact ⟨b, List.mem_cons_of_mem _ hb, hab⟩

/-- The result is no error but one of `P`. -/
def FailsOnly (P : ε → Prop) (r : Except ε α) : Prop := ∀ e, r = .error e → P e

namespace FailsOnly

variable {P : ε → Prop}

theorem ok (a : α) : FailsOnly P (.ok a) := by
  intro e h
  simp at h

theorem error {e : ε} (he : P e) : FailsOnly P (.error e : Except ε α) := by
  intro e' h
  exact Except.error.inj h ▸ he

theorem bind {f : α → Except ε β} (hr : r.FailsOnly P) (hf : ∀ a, r = .ok a → (f a).FailsOnly P) :
    FailsOnly P (r >>= f) := by
  intro e h
  cases r with
  | error e' =>
    obtain rfl : e' = e := Except.error.inj h
    exact hr e' rfl
  | ok a => exact hf a rfl e h

theorem ite {c : Prop} [Decidable c] {s t : Except ε α} (hs : c → s.FailsOnly P)
    (ht : ¬ c → t.FailsOnly P) : FailsOnly P (if c then s else t) := by
  split
  · next hc => exact hs hc
  · next hc => exact ht hc

/-- A check, and what follows if it does not fail. -/
theorem guard {c : Prop} [Decidable c] {e : ε} {f : β → Except ε α} {r : Except ε α}
    (he : c → P e) (hr : ¬ c → r.FailsOnly P) :
    FailsOnly P (if c then (throw e : Except ε β) >>= f else r) :=
  .ite (fun hc => .error (he hc)) hr

theorem mono {Q : ε → Prop} (h : ∀ e, P e → Q e) (hr : r.FailsOnly P) : r.FailsOnly Q :=
  fun e he => h e (hr e he)

end FailsOnly

end Except
