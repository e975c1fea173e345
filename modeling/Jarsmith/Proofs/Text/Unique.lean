import Mathlib.Data.List.Induction
import Jarsmith.Text.Basic

/-!
# Lists in which each member counts once

Repetitions may be dropped from a part of a list before they are dropped from the whole
(`unique_append`). So whatever is put together in several steps, with repetitions dropped in some of
them, is what is put together at once, with repetitions dropped at the end
(`unique_flatMap_unique`).
-/

namespace Jarsmith.Text

variable {α β : Type} [DecidableEq α] {seen xs xs' ys ys' : List α}

theorem insertNew_of_mem {x : α} (h : x ∈ seen) : insertNew seen x = seen := if_pos h

theorem insertNew_of_notMem {x : α} (h : x ∉ seen) : insertNew seen x = seen ++ [x] := if_neg h

theorem foldl_insertNew_of_subset (h : xs ⊆ seen) : xs.foldl insertNew seen = seen := by
  induction xs with
  | nil => rfl
  | cons x xs ih =>
    obtain ⟨hx, hxs⟩ := List.cons_subset.1 h
    rw [List.foldl_cons, insertNew_of_mem hx, ih hxs]

theorem unique_concat (xs : List α) (x : α) : unique (xs ++ [x]) = insertNew (unique xs) x :=
  List.foldl_append

/-- What is repeated adds nothing, whatever there was before. -/
theorem foldl_insertNew_unique (seen xs : List α) :
    (unique xs).foldl insertNew seen = xs.foldl insertNew seen := by
  induction xs using List.reverseRecOn with
  | nil => rfl
  | append_singleton xs x ih =>
    rw [unique_concat, List.foldl_append, List.foldl_cons, List.foldl_nil]
    by_cases h : x ∈ xs
    · rw [insertNew_of_mem (mem_unique.2 h), ih,
        insertNew_of_mem ((mem_foldl_insertNew xs seen).2 (.inr h))]
    · rw [insertNew_of_notMem (mt mem_unique.1 h), List.foldl_append, List.foldl_cons,
        List.foldl_nil, ih]

theorem unique_append (xs ys : List α) : unique (xs ++ ys) = unique (unique xs ++ unique ys) := by
  rw [unique, unique, List.foldl_append, List.foldl_append, foldl_insertNew_unique,
    foldl_insertNew_unique]

theorem unique_append_congr (hxs : unique xs = unique xs') (hys : unique ys = unique ys') :
    unique (xs ++ ys) = unique (xs' ++ ys') := by
  rw [unique_append, hxs, hys, ← unique_append]

@[simp]
theorem unique_unique (xs : List α) : unique (unique xs) = unique xs :=
  foldl_insertNew_unique [] xs

theorem unique_of_nodup (h : xs.Nodup) : unique xs = xs := by
  induction xs using List.reverseRecOn with
  | nil => rfl
  | append_singleton xs x ih =>
    obtain ⟨hxs, -, hdisjoint⟩ := List.nodup_append.1 h
    have hx : x ∉ xs := fun hmem => hdisjoint x hmem x (List.mem_singleton_self x) rfl
    rw [unique_concat, ih hxs, insertNew_of_notMem hx]

theorem unique_eq_nil_iff : unique xs = [] ↔ xs = [] := by
  rw [List.eq_nil_iff_forall_not_mem, List.eq_nil_iff_forall_not_mem]
  simp only [mem_unique]

theorem unique_map {f : α → β} [DecidableEq β]
    (hinj : ∀ x ∈ xs, ∀ y ∈ xs, f x = f y → x = y) : unique (xs.map f) = (unique xs).map f := by
  induction xs using List.reverseRecOn with
  | nil => rfl
  | append_singleton xs x ih =>
    have hxs := ih fun y hy z hz =>
      hinj y (List.mem_append_left _ hy) z (List.mem_append_left _ hz)
    rw [List.map_append, List.map_singleton, unique_concat, unique_concat, hxs]
    by_cases h : x ∈ xs
    · have hfx : f x ∈ (unique xs).map f := List.mem_map.2 ⟨x, mem_unique.2 h, rfl⟩
      rw [insertNew_of_mem hfx, insertNew_of_mem (mem_unique.2 h)]
    · have hfx : f x ∉ (unique xs).map f := by
        intro hmem
        obtain ⟨y, hy, heq⟩ := List.mem_map.1 hmem
        have hy : y ∈ xs := mem_unique.1 hy
        obtain rfl := hinj y (List.mem_append_left _ hy) x
          (List.mem_append_right xs (List.mem_singleton_self x)) heq
        exact h hy
      rw [insertNew_of_notMem hfx, insertNew_of_notMem (mt mem_unique.1 h), List.map_append,
        List.map_singleton]

theorem unique_append_of_subset (h : ys ⊆ xs) : unique (xs ++ ys) = unique xs := by
  rw [unique, List.foldl_append]
  exact foldl_insertNew_of_subset fun y hy => mem_unique.2 (h hy)

/-- A member that is gone through twice gives nothing new the second time. -/
theorem unique_flatMap_unique [DecidableEq β] (zs : List β) (f : β → List α) :
    unique ((unique zs).flatMap f) = unique (zs.flatMap f) := by
  induction zs using List.reverseRecOn with
  | nil => rfl
  | append_singleton zs z ih =>
    rw [unique_concat, List.flatMap_append]
    by_cases h : z ∈ zs
    · have hsubset : [z].flatMap f ⊆ zs.flatMap f := by
        rw [List.flatMap_singleton]
        exact fun x hx => List.mem_flatMap.2 ⟨z, h, hx⟩
      rw [insertNew_of_mem (mem_unique.2 h), ih, unique_append_of_subset hsubset]
    · rw [insertNew_of_notMem (mt mem_unique.1 h), List.flatMap_append]
      exact unique_append_congr ih rfl

end Jarsmith.Text
