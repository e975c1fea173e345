import Mathlib.Data.List.TakeWhile
import Jarsmith.Text.Blank

/-!
# Texts that are trimmed

Code points of the class that is trimmed may be added at either end of a text without a change
(`trim_append`, `trim_append_left`), and every text is the trimmed one between two texts of that class
(`exists_eq_trim`).
-/

namespace Jarsmith.Text

variable {p : CodePoint → Bool} {t lead trail : Text}

theorem notMem_of_isWhiteSpace {c : CodePoint} (hc : c.isWhiteSpace = false)
    (ht : ∀ c ∈ t, c.isWhiteSpace = true) : c ∉ t := by
  intro hmem
  rw [ht c hmem] at hc
  contradiction

theorem head?_append_ne {c : CodePoint} (hc : c.isWhiteSpace = false)
    (htrail : ∀ c ∈ trail, c.isWhiteSpace = true) (h : t.head? ≠ some c) :
    (t ++ trail).head? ≠ some c := by
  cases t with
  | nil => exact fun hhead => notMem_of_isWhiteSpace hc htrail (List.mem_of_mem_head? hhead)
  | cons d t => exact h

theorem dropWhile_eq_self_of_head? (h : ∀ c ∈ t.head?, p c = false) : t.dropWhile p = t := by
  cases t with
  | nil => rfl
  | cons c t => exact List.dropWhile_cons_of_neg (by simp [h c rfl])

theorem trimEnd_append (htrail : ∀ c ∈ trail, p c = true) (t : Text) :
    trimEnd p (t ++ trail) = trimEnd p t := by
  rw [trimEnd, List.reverse_append, List.dropWhile_append_of_pos, trimEnd]
  exact fun c hc => htrail c (List.mem_reverse.1 hc)

/-- What is not of the class ends what is trimmed. -/
theorem trimEnd_append_cons {c : CodePoint} (hc : p c = false) (t u : Text) :
    trimEnd p (t ++ c :: u) = t ++ c :: trimEnd p u := by
  rw [trimEnd, List.reverse_append, List.reverse_cons, List.append_assoc, List.dropWhile_append]
  split
  · next hnil =>
    have hstays : List.dropWhile p ([c] ++ t.reverse) = [c] ++ t.reverse :=
      List.dropWhile_cons_of_neg (by simp [hc])
    rw [hstays, List.reverse_append, List.reverse_reverse, trimEnd, List.isEmpty_iff.1 hnil]
    rfl
  · rw [List.reverse_append, List.reverse_append, List.reverse_reverse, List.append_assoc]
    rfl

theorem trimEnd_eq_self_iff : trimEnd p t = t ↔ ∀ c ∈ t.getLast?, p c = false := by
  rcases List.eq_nil_or_concat t with rfl | ⟨front, last, rfl⟩
  · simp [trimEnd]
  · rw [List.concat_eq_append, List.getLast?_concat]
    cases hlast : p last with
    | false =>
      have hkept : trimEnd p (front ++ [last]) = front ++ [last] :=
        trimEnd_append_cons hlast front []
      simp [hkept, hlast]
    | true =>
      have hlength : (trimEnd p (front ++ [last])).length ≤ front.length := by
        rw [trimEnd, List.reverse_append, List.reverse_singleton, List.singleton_append,
          List.dropWhile_cons_of_pos hlast, List.length_reverse]
        have hle := (List.dropWhile_sublist p (l := front.reverse)).length_le
        rwa [List.length_reverse] at hle
      have hne : trimEnd p (front ++ [last]) ≠ front ++ [last] := by
        intro heq
        rw [heq, List.length_append, List.length_singleton] at hlength
        omega
      simp [hne, hlast]

theorem trim_append_left (hlead : ∀ c ∈ lead, p c = true) (t : Text) :
    trim p (lead ++ t) = trim p t := by
  rw [trim, List.dropWhile_append_of_pos hlead, trim]

theorem trim_append (htrail : ∀ c ∈ trail, p c = true) (t : Text) :
    trim p (t ++ trail) = trim p t := by
  rw [trim, List.dropWhile_append, trim]
  split
  · next hnil =>
    rw [List.isEmpty_iff.1 hnil, List.dropWhile_eq_nil_iff.2 htrail]
  · exact trimEnd_append htrail _

theorem exists_eq_trimEnd (p : CodePoint → Bool) (t : Text) :
    ∃ trail, t = trimEnd p t ++ trail ∧ ∀ c ∈ trail, p c = true := by
  refine ⟨(t.reverse.takeWhile p).reverse, ?_, fun c hc => ?_⟩
  · rw [trimEnd, ← List.reverse_append, List.takeWhile_append_dropWhile, List.reverse_reverse]
  · exact List.mem_takeWhile_imp (List.mem_reverse.1 hc)

/-- A text is what is left of it when it is trimmed, between what is dropped. -/
theorem exists_eq_trim (p : CodePoint → Bool) (t : Text) : ∃ lead trail,
    t = lead ++ trim p t ++ trail ∧ (∀ c ∈ lead, p c = true) ∧ ∀ c ∈ trail, p c = true := by
  obtain ⟨trail, heq, htrail⟩ := exists_eq_trimEnd p (t.dropWhile p)
  refine ⟨t.takeWhile p, trail, ?_, fun c hc => List.mem_takeWhile_imp hc, htrail⟩
  rw [trim, List.append_assoc, ← heq, List.takeWhile_append_dropWhile]

theorem trim_trim (p : CodePoint → Bool) (t : Text) : trim p (trim p t) = trim p t := by
  obtain ⟨lead, trail, heq, hlead, htrail⟩ := exists_eq_trim p t
  calc trim p (trim p t)
    _ = trim p (lead ++ trim p t ++ trail) := by
      rw [trim_append htrail, trim_append_left hlead]
    _ = trim p t := by rw [← heq]

/-- A text with nothing of the class in it stays as it is. -/
theorem trim_of_forall (h : ∀ c ∈ t, p c = false) : trim p t = t := by
  rw [trim, dropWhile_eq_self_of_head? fun c hc => h c (List.mem_of_mem_head? hc),
    trimEnd_eq_self_iff]
  exact fun c hc => h c (List.mem_of_getLast? hc)

theorem mem_of_mem_trim {c : CodePoint} (h : c ∈ trim p t) : c ∈ t := by
  obtain ⟨lead, trail, heq, -⟩ := exists_eq_trim p t
  rw [heq]
  exact List.mem_append_left _ (List.mem_append_right _ h)

theorem trim_eq_nil_iff : trim p t = [] ↔ ∀ c ∈ t, p c = true := by
  refine ⟨fun h => ?_, fun h => ?_⟩
  · obtain ⟨lead, trail, heq, hlead, htrail⟩ := exists_eq_trim p t
    rw [h, List.append_nil] at heq
    rw [heq]
    exact List.forall_mem_append.2 ⟨hlead, htrail⟩
  · rw [trim, List.dropWhile_eq_nil_iff.2 h]
    rfl

end Jarsmith.Text
