import Mathlib.Data.List.Perm.Basic
import Jarsmith.Deflate.Optimal

/-!
# Trees are joined, and none is lost

Whatever the order of a heap is, its trees are those that were put there: letting a tree sink moves
others up (`sink_perm`), and taking the first one leaves the others (`pop?_perm`). So the tree that
is left when all are joined has the leaves of all of them, and the symbols that were noted on the
way are those of the leaves among them (`exists_joinAll`).
-/

namespace Jarsmith.Deflate

namespace CodeTree

/-- The symbols at the leaves. -/
def leaves : CodeTree → List Nat
  | leaf symbol => [symbol]
  | node left right => left.leaves ++ right.leaves

theorem map_fst_depths (t : CodeTree) (depth : Nat) : (t.depths depth).map Prod.fst = t.leaves := by
  induction t generalizing depth with
  | leaf symbol => rfl
  | node left right ihl ihr => rw [depths, List.map_append, ihl, ihr, leaves]

end CodeTree

namespace Heap

variable {heap rest : Heap} {place : Nat} {first : Weighed}

/-- A tree that moves up leaves its place to the one that sinks. -/
theorem eraseIdx_set_perm {trees : List Weighed} {place next : Nat} {below : Weighed}
    (hplace : place < trees.length) (hnext : trees[next]? = some below) (hne : place ≠ next) :
    ((trees.set place below).eraseIdx next).Perm (trees.eraseIdx place) := by
  obtain ⟨hlt, hbelow⟩ := List.getElem?_eq_some_iff.1 hnext
  have hset : (trees.set place below).Perm (below :: trees.eraseIdx place) :=
    List.set_perm_cons_eraseIdx hplace below
  have hlt' : next < (trees.set place below).length := by rwa [List.length_set]
  have herase := List.getElem_cons_eraseIdx_perm hlt'
  rw [List.getElem_set_ne hne, hbelow] at herase
  exact (herase.trans hset).cons_inv

/-- A tree that has others below it stays before them, or one of these moves up. -/
theorem exists_child (t : Weighed) (hleft : 2 * place + 1 < heap.size) :
    ∃ next below, place < next ∧ heap.toList[next]? = some below ∧
      sink heap place t = if t.isBefore below then heap.setIfInBounds place t
        else sink (heap.setIfInBounds place below) next t := by
  have hleft? : heap.toList[2 * place + 1]? = some heap[2 * place + 1] := by
    rw [Array.getElem?_toList, Array.getElem?_eq_getElem hleft]
  rw [sink, dif_pos hleft]
  cases hright : heap[2 * place + 2]? with
  | none =>
    refine ⟨2 * place + 1, heap[2 * place + 1], by omega, hleft?, ?_⟩
    dsimp only
    rw [if_pos (show place < 2 * place + 1 by omega)]
  | some right =>
    rw [← Array.getElem?_toList] at hright
    dsimp only
    by_cases hbefore : right.isBefore heap[2 * place + 1] = true
    · refine ⟨2 * place + 2, right, by omega, hright, ?_⟩
      rw [if_pos hbefore]
      dsimp only
      rw [if_pos (show place < 2 * place + 2 by omega)]
    · refine ⟨2 * place + 1, heap[2 * place + 1], by omega, hleft?, ?_⟩
      rw [if_neg hbefore]
      dsimp only
      rw [if_pos (show place < 2 * place + 1 by omega)]

/-- A tree that sinks from a place takes the place of the one that was there. -/
theorem sink_perm (t : Weighed) (h : place < heap.size) :
    (sink heap place t).toList.Perm (t :: heap.toList.eraseIdx place) := by
  induction hn : heap.size - place using Nat.strongRecOn generalizing heap place with
  | _ n ih =>
    have hput : (heap.setIfInBounds place t).toList.Perm (t :: heap.toList.eraseIdx place) := by
      rw [Array.toList_setIfInBounds]
      exact List.set_perm_cons_eraseIdx h t
    by_cases hleft : 2 * place + 1 < heap.size
    · obtain ⟨next, below, hlt, hbelow, hsink⟩ := exists_child t hleft
      have hnext : next < heap.size := (List.getElem?_eq_some_iff.1 hbelow).1
      rw [hsink]
      split
      · exact hput
      · have hsize : (heap.setIfInBounds place below).size = heap.size :=
          Array.size_setIfInBounds
        have hmoved := ih (heap.size - next) (by omega) (by rwa [hsize]) (by rw [hsize])
        rw [Array.toList_setIfInBounds] at hmoved
        exact hmoved.trans ((eraseIdx_set_perm h hbelow (Nat.ne_of_lt hlt)).cons t)
    · rw [sink, dif_neg hleft]
      exact hput

/-- A tree that sinks from its own place changes the order only. -/
theorem sink_self_perm (h : heap[place]? = some first) :
    (sink heap place first).toList.Perm heap.toList := by
  obtain ⟨hlt, hfirst⟩ := Array.getElem?_eq_some_iff.1 h
  have herase := List.getElem_cons_eraseIdx_perm (l := heap.toList) hlt
  rw [Array.getElem_toList, hfirst] at herase
  exact (sink_perm first hlt).trans herase

theorem ofArray_perm (trees : Array Weighed) : (ofArray trees).toList.Perm trees.toList := by
  rw [ofArray]
  induction List.range (trees.size / 2) with
  | nil => exact .refl _
  | cons place places ih =>
    rw [List.foldr_cons]
    split
    · next t ht => exact (sink_self_perm ht).trans ih
    · exact ih

/-- Taking the first tree leaves the others. -/
theorem pop?_perm (h : heap.pop? = some (first, rest)) :
    heap.toList.Perm (first :: rest.toList) := by
  unfold pop? at h
  split at h
  · next a last hfirst hlast =>
    obtain ⟨rfl, rfl⟩ := Prod.mk.inj (Option.some.inj h)
    obtain ⟨hpos, ha⟩ := Array.getElem?_eq_some_iff.1 hfirst
    have hheap : heap.toList = heap.pop.toList ++ [last] := by
      have hback : heap.toList.getLast? = some last := by
        rwa [Array.getLast?_toList]
      rw [Array.toList_pop]
      exact (List.dropLast_append_getLast? last hback).symm
    by_cases hone : heap.pop.size = 0
    · -- the first tree is the only one
      have hnil : heap.pop.toList = [] := List.length_eq_zero_iff.1 hone
      have hempty : (sink heap.pop 0 last).toList = [] := by
        rw [sink, dif_neg (by omega), Array.toList_setIfInBounds, hnil]
        rfl
      rw [hnil, List.nil_append] at hheap
      have hlast : last = a := by
        have : heap.toList[0]? = some a := by rwa [Array.getElem?_toList]
        rw [hheap] at this
        exact Option.some.inj this
      rw [hempty, hheap, hlast]
    · have hrest : 0 < heap.pop.toList.length := Nat.pos_of_ne_zero hone
      have hsink : (sink heap.pop 0 last).toList.Perm (last :: heap.pop.toList.eraseIdx 0) :=
        sink_perm last (Nat.pos_of_ne_zero hone)
      have herase := List.getElem_cons_eraseIdx_perm hrest
      have hhead : heap.pop.toList[0] = a := by
        rw [Array.getElem_toList, Array.getElem_pop, ha]
      rw [hhead] at herase
      calc heap.toList
        _ = heap.pop.toList ++ [last] := hheap
        _ |>.Perm (last :: heap.pop.toList) := List.perm_append_singleton _ _
        _ |>.Perm (last :: a :: heap.pop.toList.eraseIdx 0) := herase.symm.cons last
        _ |>.Perm (a :: last :: heap.pop.toList.eraseIdx 0) := List.Perm.swap _ _ _
        _ |>.Perm (a :: (sink heap.pop 0 last).toList) := hsink.symm.cons a
  · simp at h

theorem exists_pop? (h : 0 < heap.size) : ∃ first rest, heap.pop? = some (first, rest) := by
  unfold pop?
  rw [Array.getElem?_eq_getElem h, Array.back?_eq_getElem?,
    Array.getElem?_eq_getElem (Nat.sub_lt h Nat.one_pos)]
  exact ⟨_, _, rfl⟩

/-- A step of joining takes two trees and puts one in their stead. -/
theorem exists_others {a b : Weighed} (hpop : heap.pop? = some (a, rest))
    (hb : rest[0]? = some b) :
    ∃ others, heap.toList.Perm (a :: b :: others) ∧ rest.size = others.length + 1 ∧
      (rest.sink 0 (a.join b)).toList.Perm (a.join b :: others) := by
  obtain ⟨hrest, hfirst⟩ := Array.getElem?_eq_some_iff.1 hb
  have htwo := List.getElem_cons_eraseIdx_perm (l := rest.toList) hrest
  rw [Array.getElem_toList, hfirst] at htwo
  exact ⟨rest.toList.eraseIdx 0, (pop?_perm hpop).trans (htwo.symm.cons a), htwo.symm.length_eq,
    sink_perm (a.join b) hrest⟩

/-- When all trees are joined, the one that is left has the leaves of all. Unless there was only
one, the symbols that were noted are those of the leaves among them. -/
theorem exists_joinAll {fuel : Nat} {heap : Heap} (joined : List Nat) (hpos : 0 < heap.size)
    (hfuel : heap.size ≤ fuel) :
    ∃ noted tree, joinAll fuel heap joined = (noted, some tree) ∧
      tree.leaves.Perm (heap.toList.flatMap fun t => t.tree.leaves) ∧
      noted.Perm ((if heap.size = 1 then [] else heap.toList.flatMap fun t => t.tree.symbols) ++
        joined) := by
  induction fuel generalizing heap joined with
  | zero => omega
  | succ fuel ih =>
    obtain ⟨a, rest, hpop⟩ := exists_pop? hpos
    have hperm := pop?_perm hpop
    have hsize : heap.size = rest.size + 1 := hperm.length_eq
    rw [joinAll, hpop]
    dsimp only
    split
    · next hnone =>
      -- one tree is left
      have hempty : rest.toList = [] := by
        rw [Array.getElem?_eq_none_iff] at hnone
        exact List.length_eq_zero_iff.1 (Nat.le_zero.1 hnone)
      have hone : heap.size = 1 := by
        rw [hsize, ← Array.length_toList, hempty]
        rfl
      refine ⟨joined, a.tree, rfl, ?_, ?_⟩
      · rw [hempty] at hperm
        rw [List.perm_singleton.1 hperm, List.flatMap_singleton]
      · rw [if_pos hone, List.nil_append]
    · next b hb =>
      obtain ⟨others, hall, hothers, hsink⟩ := exists_others hpop hb
      have hlength : (rest.sink 0 (a.join b)).size = rest.size :=
        hsink.length_eq.trans hothers.symm
      obtain ⟨noted, tree, hjoin, hleaves, hnoted⟩ :=
        ih (b.tree.symbols ++ a.tree.symbols ++ joined)
          (show 0 < (rest.sink 0 (a.join b)).size by omega)
          (show (rest.sink 0 (a.join b)).size ≤ fuel by omega)
      refine ⟨noted, tree, hjoin, ?_, ?_⟩
      · calc tree.leaves
          _ |>.Perm ((rest.sink 0 (a.join b)).toList.flatMap fun t => t.tree.leaves) := hleaves
          _ |>.Perm ((a.join b :: others).flatMap fun t => t.tree.leaves) :=
            hsink.flatMap_right _
          _ = ((a :: b :: others).flatMap fun t => t.tree.leaves) := by
            simp only [List.flatMap_cons, Weighed.join, CodeTree.leaves, List.append_assoc]
          _ |>.Perm (heap.toList.flatMap fun t => t.tree.leaves) := (hall.flatMap_right _).symm
      · -- the tree that was joined has no symbol of its own
        have hlater : (if (rest.sink 0 (a.join b)).size = 1 then []
            else (rest.sink 0 (a.join b)).toList.flatMap fun t => t.tree.symbols).Perm
              (others.flatMap fun t => t.tree.symbols) := by
          split
          · next hone =>
            have hnil : others = [] := List.length_eq_zero_iff.1 (by omega)
            rw [hnil]
            exact .refl _
          · exact hsink.flatMap_right _
        rw [if_neg (by omega)]
        calc noted
          _ |>.Perm ((others.flatMap fun t => t.tree.symbols) ++
              (b.tree.symbols ++ a.tree.symbols ++ joined)) :=
            hnoted.trans (hlater.append_right _)
          _ |>.Perm ((b.tree.symbols ++ a.tree.symbols) ++
              (others.flatMap fun t => t.tree.symbols) ++ joined) := by
            rw [← List.append_assoc]
            exact List.perm_append_comm.append_right _
          _ |>.Perm ((a.tree.symbols ++ b.tree.symbols) ++
              (others.flatMap fun t => t.tree.symbols) ++ joined) :=
            (List.perm_append_comm.append_right _).append_right _
          _ = ((a :: b :: others).flatMap fun t => t.tree.symbols) ++ joined := by
            simp only [List.flatMap_cons, List.append_assoc]
          _ |>.Perm ((heap.toList.flatMap fun t => t.tree.symbols) ++ joined) :=
            (hall.flatMap_right _).symm.append_right _

/-- Joining the trees of symbols gives a tree with these at its leaves, and notes them all. -/
theorem exists_joinAll_ofSymbols {symbols : List Nat} (weight : Nat → Nat)
    (h : 2 ≤ symbols.length) :
    let trees := symbols.map fun symbol => Weighed.ofSymbol symbol (weight symbol)
    ∃ noted tree, joinAll (trees.length + 1) (ofArray trees.toArray) [] = (noted, some tree) ∧
      tree.leaves.Perm symbols ∧ noted.Perm symbols := by
  intro trees
  have hperm := ofArray_perm trees.toArray
  have hlength : trees.length = symbols.length := List.length_map _
  have hsize : (ofArray trees.toArray).size = symbols.length := hperm.length_eq.trans hlength
  have hleaves : trees.flatMap (fun t => t.tree.leaves) = symbols := by
    rw [List.flatMap_map]
    exact List.flatMap_singleton' symbols
  have hsymbols : trees.flatMap (fun t => t.tree.symbols) = symbols := by
    rw [List.flatMap_map]
    exact List.flatMap_singleton' symbols
  obtain ⟨noted, tree, hjoin, htree, hnoted⟩ := exists_joinAll []
    (show 0 < (ofArray trees.toArray).size by omega)
    (show (ofArray trees.toArray).size ≤ trees.length + 1 by omega)
  rw [if_neg (by omega), List.append_nil] at hnoted
  refine ⟨noted, tree, hjoin, ?_, ?_⟩
  · exact (htree.trans (hperm.flatMap_right _)).trans (.of_eq hleaves)
  · exact (hnoted.trans (hperm.flatMap_right _)).trans (.of_eq hsymbols)

end Heap

end Jarsmith.Deflate
