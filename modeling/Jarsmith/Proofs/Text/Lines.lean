import Mathlib.Data.List.Basic
import Jarsmith.Proofs.FileSystem.Place

/-!
# Texts that are joined and split again

A mark that joins texts splits them again exactly if it is in none of them
(`splitOn_joinWith_eq_iff`): no piece of a text that is split has the mark in it.
-/

namespace Jarsmith.Text

variable {mark c : CodePoint} {ts : List Text}

/-! ### The pieces of a text -/

theorem splitOn_cons_self (mark : CodePoint) (t : Text) :
    splitOn mark (mark :: t) = [] :: splitOn mark t := by
  rw [splitOn, if_pos rfl]

theorem splitOn_ne_nil (mark : CodePoint) (t : Text) : t.splitOn mark ≠ [] := by
  cases t with
  | nil => exact List.cons_ne_nil _ _
  | cons c t =>
    unfold splitOn
    split
    · exact List.cons_ne_nil _ _
    · split
      · exact List.cons_ne_nil _ _
      · exact List.cons_ne_nil _ _

/-- What is no mark belongs to the first piece of the rest. -/
theorem splitOn_cons_of_ne (h : c ≠ mark) (t : Text) : ∃ piece pieces,
    splitOn mark t = piece :: pieces ∧ splitOn mark (c :: t) = (c :: piece) :: pieces := by
  obtain ⟨piece, pieces, heq⟩ := List.exists_cons_of_ne_nil (splitOn_ne_nil mark t)
  refine ⟨piece, pieces, heq, ?_⟩
  rw [splitOn, if_neg h, heq]

theorem splitOn_append_cons (mark : CodePoint) (t u : Text) :
    splitOn mark (t ++ mark :: u) = splitOn mark t ++ splitOn mark u := by
  induction t with
  | nil => exact splitOn_cons_self mark u
  | cons c t ih =>
    rw [List.cons_append]
    by_cases h : c = mark
    · rw [h, splitOn_cons_self, splitOn_cons_self, ih, List.cons_append]
    · obtain ⟨piece, pieces, ht, hct⟩ := splitOn_cons_of_ne h t
      obtain ⟨piece', pieces', hwhole, hcwhole⟩ := splitOn_cons_of_ne h (t ++ mark :: u)
      rw [ih, ht, List.cons_append, List.cons.injEq] at hwhole
      rw [hct, hcwhole, ← hwhole.1, ← hwhole.2, List.cons_append]

/-- The last piece is open: what follows the text belongs to it, up to the next mark. -/
theorem exists_splitOn_append (mark : CodePoint) (t : Text) : ∃ pieces last, ∀ u, mark ∉ u →
    splitOn mark (t ++ u) = pieces ++ [last ++ u] := by
  induction t with
  | nil => exact ⟨[], [], fun u hu => splitOn_of_notMem hu⟩
  | cons c t ih =>
    obtain ⟨pieces, last, ih⟩ := ih
    by_cases hc : c = mark
    · refine ⟨[] :: pieces, last, fun u hu => ?_⟩
      rw [hc, List.cons_append, splitOn_cons_self, ih u hu, List.cons_append]
    · cases pieces with
      | nil =>
        refine ⟨[], c :: last, fun u hu => ?_⟩
        rw [List.cons_append, splitOn, if_neg hc, ih u hu]
        rfl
      | cons piece pieces =>
        refine ⟨(c :: piece) :: pieces, last, fun u hu => ?_⟩
        rw [List.cons_append, splitOn, if_neg hc, ih u hu]
        rfl

/-- No piece has the mark in it. -/
theorem notMem_of_mem_splitOn {piece t : Text} (h : piece ∈ splitOn mark t) : mark ∉ piece := by
  induction t generalizing piece with
  | nil =>
    obtain rfl : piece = [] := List.mem_singleton.1 h
    exact List.not_mem_nil
  | cons c t ih =>
    by_cases hc : c = mark
    · rw [hc, splitOn_cons_self, List.mem_cons] at h
      rcases h with rfl | h
      · exact List.not_mem_nil
      · exact ih h
    · obtain ⟨first, pieces, ht, hct⟩ := splitOn_cons_of_ne hc t
      rw [hct, List.mem_cons] at h
      rcases h with rfl | h
      · rw [List.mem_cons, not_or]
        exact ⟨Ne.symm hc, ih (ht ▸ List.mem_cons_self)⟩
      · exact ih (ht ▸ List.mem_cons_of_mem first h)

/-! ### Joined texts -/

theorem splitOn_joinWith (mark : CodePoint) (h : ts ≠ []) :
    splitOn mark (joinWith [mark] ts) = ts.flatMap (splitOn mark) := by
  induction ts with
  | nil => exact absurd rfl h
  | cons t ts ih =>
    cases ts with
    | nil => simp [joinWith]
    | cons u rest =>
      have hjoin : joinWith [mark] (t :: u :: rest) = t ++ mark :: joinWith [mark] (u :: rest) := by
        simp [joinWith]
      rw [hjoin, splitOn_append_cons, ih (List.cons_ne_nil u rest), ← List.flatMap_cons]

theorem joinWith_cons (separator t : Text) (h : ts ≠ []) :
    joinWith separator (t :: ts) = t ++ separator ++ joinWith separator ts := by
  obtain ⟨u, rest, rfl⟩ := List.exists_cons_of_ne_nil h
  rfl

/-- A text that is split is joined from its pieces. -/
theorem joinWith_splitOn (mark : CodePoint) (t : Text) : joinWith [mark] (splitOn mark t) = t := by
  induction t with
  | nil => rfl
  | cons c t ih =>
    by_cases hc : c = mark
    · rw [hc, splitOn_cons_self, joinWith_cons [mark] [] (splitOn_ne_nil mark t), ih]
      rfl
    · obtain ⟨piece, pieces, ht, hct⟩ := splitOn_cons_of_ne hc t
      rw [ht] at ih
      rw [hct]
      cases pieces with
      | nil => exact congrArg (c :: ·) ih
      | cons next rest => exact congrArg (c :: ·) ih

theorem joinWith_concat (mark : CodePoint) (h : ts ≠ []) (t : Text) :
    joinWith [mark] (ts ++ [t]) = joinWith [mark] ts ++ mark :: t := by
  induction ts with
  | nil => exact absurd rfl h
  | cons u us ih =>
    cases us with
    | nil => simp [joinWith]
    | cons next rest =>
      have hrest := ih (List.cons_ne_nil next rest)
      simp only [List.cons_append, joinWith] at hrest ⊢
      simp [hrest]

/-- Joined texts are split into themselves exactly if the mark is in none of them. -/
theorem splitOn_joinWith_eq_iff (h : ts ≠ []) :
    splitOn mark (joinWith [mark] ts) = ts ↔ ∀ t ∈ ts, mark ∉ t := by
  constructor
  · intro heq t ht
    exact notMem_of_mem_splitOn (heq.symm ▸ ht)
  · intro hnone
    rw [splitOn_joinWith mark h, List.flatMap_congr fun t ht => splitOn_of_notMem (hnone t ht)]
    exact List.flatMap_singleton' ts

end Jarsmith.Text
