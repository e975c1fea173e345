import Mathlib.Data.List.Perm.Subperm
import Jarsmith.Proofs.Deflate.Repair

/-!
# Optimal lengths make a complete code

The symbols that have a weight are leaves of the tree that is made, with others if these are less
than two (`withWords_spec`). The lengths that its leaves get are put at the places of their symbols
(`foldl_setIfInBounds_spec`). So **`optimalLengths_spec`**: the lengths make a complete code in
which each symbol with a weight has a word.
-/

namespace Jarsmith.Deflate

variable {limit : Nat} {weights : List Nat}

/-- Lengths are put at the places of their symbols. -/
theorem foldl_setIfInBounds_spec (limit : Nat) {pairs : List (Nat × Nat)} {lengths : Array Nat}
    (hnodup : (pairs.map Prod.fst).Nodup) (hzero : ∀ p ∈ pairs, lengths[p.1]? = some 0) :
    let after := pairs.foldl (fun lengths p => lengths.setIfInBounds p.1 p.2) lengths
    after.size = lengths.size ∧
      shares limit after.toList = shares limit lengths.toList + shares limit (pairs.map Prod.snd) ∧
      (∀ p ∈ pairs, after[p.1]? = some p.2) ∧
      ∀ s, s ∉ pairs.map Prod.fst → after[s]? = lengths[s]? := by
  induction pairs generalizing lengths with
  | nil => exact ⟨rfl, rfl, by simp, fun s _ => rfl⟩
  | cons p pairs ih =>
    intro after
    obtain ⟨hp, hzeros⟩ := List.forall_mem_cons.1 hzero
    obtain ⟨hlt, hlength⟩ := Array.getElem?_eq_some_iff.1 hp
    rw [List.map_cons, List.nodup_cons] at hnodup
    have hother : ∀ q ∈ pairs, (lengths.setIfInBounds p.1 p.2)[q.1]? = some 0 := by
      intro q hq
      have hne : p.1 ≠ q.1 := fun heq => hnodup.1 (heq ▸ List.mem_map_of_mem hq)
      rw [Array.getElem?_setIfInBounds_ne hne]
      exact hzeros q hq
    obtain ⟨hsize, hshares, hpairs, hrest⟩ := ih hnodup.2 hother
    have hset : shares limit (lengths.setIfInBounds p.1 p.2).toList =
        shares limit lengths.toList + share limit p.2 := by
      have hput : (lengths.toList.set p.1 p.2).Perm (p.2 :: lengths.toList.eraseIdx p.1) :=
        List.set_perm_cons_eraseIdx hlt p.2
      have herase := List.getElem_cons_eraseIdx_perm (l := lengths.toList) hlt
      rw [Array.getElem_toList, hlength] at herase
      rw [Array.toList_setIfInBounds, shares_perm hput, ← shares_perm herase, shares_cons,
        shares_cons, share_zero]
      omega
    refine ⟨hsize.trans Array.size_setIfInBounds, ?_, ?_, ?_⟩
    · rw [List.map_cons, shares_cons, ← Nat.add_assoc, ← hset]
      exact hshares
    · refine List.forall_mem_cons.2 ⟨?_, hpairs⟩
      exact (hrest p.1 hnodup.1).trans (Array.getElem?_setIfInBounds_self_of_lt hlt)
    · intro s hs
      rw [List.map_cons, List.mem_cons, not_or] at hs
      exact (hrest s hs.2).trans (Array.getElem?_setIfInBounds_ne (Ne.symm hs.1))

/-- There are at least two symbols with a word, those with a weight among them. -/
theorem withWords_spec {weighed : List Nat} {size : Nat} (hsize : 3 ≤ size)
    (hnodup : weighed.Nodup) (hlt : ∀ s ∈ weighed, s < size) :
    (withWords weighed).Nodup ∧ (∀ s ∈ withWords weighed, s < size) ∧ weighed ⊆ withWords weighed ∧
      2 ≤ (withWords weighed).length := by
  unfold withWords
  split
  · exact ⟨by decide, by simp; omega, by simp, by decide⟩
  · next symbol =>
    have hsymbol := hlt symbol (List.mem_singleton_self _)
    split
    · exact ⟨by simp, by simp; omega, by simp, Nat.le_refl _⟩
    · exact ⟨by simp; omega, by simp; omega, by simp, Nat.le_refl _⟩
  · next symbols hnil hone =>
    refine ⟨hnodup, hlt, List.Subset.refl _, ?_⟩
    match weighed with
    | [] => exact absurd rfl hnil
    | [symbol] => exact absurd rfl (hone symbol)
    | _ :: _ :: _ => exact Nat.le_add_left _ _

/-- The symbols that have a weight. -/
def weighedSymbols (weights : List Nat) : List Nat :=
  (weights.zipIdx.filter fun p => p.1 ≠ 0).map Prod.snd

theorem mem_weighedSymbols_iff {s : Nat} :
    s ∈ weighedSymbols weights ↔ ∃ weight, weights[s]? = some weight ∧ weight ≠ 0 := by
  simp only [weighedSymbols, List.mem_map, List.mem_filter, List.mem_zipIdx_iff_getElem?,
    decide_eq_true_eq]
  constructor
  · rintro ⟨p, ⟨hp, hne⟩, rfl⟩
    exact ⟨p.1, hp, hne⟩
  · rintro ⟨weight, hweight, hne⟩
    exact ⟨(weight, s), ⟨hweight, hne⟩, rfl⟩

theorem nodup_weighedSymbols (weights : List Nat) : (weighedSymbols weights).Nodup := by
  have hsub : (weighedSymbols weights).Sublist (weights.zipIdx.map Prod.snd) :=
    List.filter_sublist.map _
  rw [List.zipIdx_map_snd] at hsub
  exact hsub.nodup List.nodup_range'

/-- What the tree of the symbols is made into. -/
theorem optimalLengths_eq {noted : List Nat} {tree : CodeTree}
    (h : let trees := (withWords (weighedSymbols weights)).map fun symbol =>
        Weighed.ofSymbol symbol (max 1 (weights.getD symbol 0))
      Heap.joinAll (trees.length + 1) (Heap.ofArray trees.toArray) [] = (noted, some tree)) :
    optimalLengths limit weights = ((limitedLengths limit tree noted).foldl
      (fun lengths p => lengths.setIfInBounds p.1 p.2)
      (Array.replicate weights.length 0)).toList := by
  unfold optimalLengths
  dsimp only
  split
  · next hnone => exact absurd (Prod.mk.inj (h.symm.trans hnone)).2 (Option.some_ne_none _)
  · next joined found hfound =>
    obtain ⟨rfl, hsame⟩ := Prod.mk.inj (h.symm.trans hfound)
    rw [Option.some.inj hsame]

/-- **Optimal lengths** make a complete code, in which each symbol with a weight has a word. -/
theorem optimalLengths_spec (hlimit : 0 < limit) (hsize : 3 ≤ weights.length)
    (hroom : weights.length ≤ Nat.pow 2 limit) :
    (optimalLengths limit weights).length = weights.length ∧
      IsComplete limit (optimalLengths limit weights) ∧
      ∀ s weight : Nat, weights[s]? = some weight → weight ≠ 0 →
        HasWord (optimalLengths limit weights) s := by
  have hweighed : ∀ s ∈ weighedSymbols weights, s < weights.length := by
    intro s hs
    obtain ⟨weight, hweight, -⟩ := mem_weighedSymbols_iff.1 hs
    exact (List.getElem?_eq_some_iff.1 hweight).1
  obtain ⟨hnodup, hlt, hsubset, htwo⟩ :=
    withWords_spec hsize (nodup_weighedSymbols weights) hweighed
  have hfew : (withWords (weighedSymbols weights)).length ≤ weights.length := by
    have hrange : withWords (weighedSymbols weights) ⊆ List.range weights.length :=
      fun s hs => List.mem_range.2 (hlt s hs)
    have hle := (List.subperm_of_subset hnodup hrange).length_le
    rwa [List.length_range] at hle
  obtain ⟨noted, tree, hjoin, hleaves, hnoted⟩ :=
    Heap.exists_joinAll_ofSymbols (fun symbol => max 1 (weights.getD symbol 0)) htwo
  obtain ⟨hsymbols, hlengths, hshares⟩ := limitedLengths_spec hlimit
    (by rwa [hleaves.length_eq]) (by rw [hleaves.length_eq]; exact Nat.le_trans hfew hroom)
    (hnoted.trans hleaves.symm)
  -- the lengths are put at the places of the symbols, where there was zero
  have hplaces := hsymbols.trans hleaves
  have hzero : ∀ p ∈ limitedLengths limit tree noted,
      (Array.replicate weights.length 0)[p.1]? = some 0 := by
    intro p hp
    have hplace := hlt p.1 (hplaces.mem_iff.1 (List.mem_map_of_mem hp))
    rw [Array.getElem?_replicate, if_pos hplace]
  obtain ⟨hlength, hsum, hput, hothers⟩ :=
    foldl_setIfInBounds_spec limit (hplaces.nodup_iff.2 hnodup) hzero
  rw [optimalLengths_eq hjoin]
  refine ⟨?_, ⟨fun l hl => ?_, ?_⟩, fun s weight hweight hne => ?_⟩
  · rw [Array.length_toList, hlength, Array.size_replicate]
  · -- a length is that of a pair, or zero as at first
    obtain ⟨s, hs⟩ := List.getElem?_of_mem hl
    rw [Array.getElem?_toList] at hs
    by_cases hin : s ∈ (limitedLengths limit tree noted).map Prod.fst
    · obtain ⟨p, hp, rfl⟩ := List.mem_map.1 hin
      rw [hput p hp] at hs
      exact Option.some.inj hs ▸ (hlengths p hp).2
    · rw [hothers s hin, Array.getElem?_replicate] at hs
      split at hs
      · exact Option.some.inj hs ▸ Nat.zero_le _
      · simp at hs
  · rw [hsum, hshares, Array.toList_replicate, shares_replicate, share_zero, Nat.mul_zero,
      Nat.zero_add]
  · have hs := hsubset (mem_weighedSymbols_iff.2 ⟨weight, hweight, hne⟩)
    obtain ⟨p, hp, rfl⟩ := List.mem_map.1 (hplaces.mem_iff.2 hs)
    obtain ⟨n, hn⟩ := Nat.exists_eq_succ_of_ne_zero (Nat.ne_of_gt (hlengths p hp).1)
    refine ⟨n, ?_⟩
    rw [Array.getElem?_toList, hput p hp, hn]

end Jarsmith.Deflate
