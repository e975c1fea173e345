import Mathlib.Tactic.ByContra
import Mathlib.Tactic.SplitIfs
import Jarsmith.Proofs.Deflate.Heap
import Jarsmith.Proofs.Deflate.Kraft

/-!
# Words of limited length

The leaves of a tree with the root at depth zero make a complete code. Where some are too deep, all
are lifted to the limit, and then the shares are too many by half of the leaves and nodes that were
too deep (`two_mul_shares_clamped`). Each repair makes one word shorter than the limit longer by a
bit, gives one of the greatest length the place that becomes free beside it (`lengthened_perm`), and
so takes one share away. There is always a word to lengthen, since so many words of the greatest
length would not be too many; and always one to move, since half of what was too deep were leaves.

So the words are of limited length, and make a complete code again (`limitedLengths_spec`).
-/

namespace Jarsmith.Deflate

/-! ### Counts -/

theorem getD_modify {counts : Array Nat} {i : Nat} (j : Nat) (f : Nat → Nat)
    (h : i < counts.size) :
    (counts.modify j f).getD i 0 = if j = i then f (counts.getD i 0) else counts.getD i 0 := by
  have hget : counts[i]? = some counts[i] := Array.getElem?_eq_getElem h
  rw [Array.getD_eq_getD_getElem?, Array.getD_eq_getD_getElem?, Array.getElem?_modify, hget]
  split <;> rfl

/-- Counting adds to each count how often the number occurs. -/
theorem getD_foldl_modify {α : Type} (f : α → Nat) (xs : List α) {counts : Array Nat} {i : Nat}
    (h : i < counts.size) :
    (xs.foldl (fun counts x => counts.modify (f x) (· + 1)) counts).getD i 0 =
      counts.getD i 0 + (xs.map f).count i := by
  induction xs generalizing counts with
  | nil => rfl
  | cons x xs ih =>
    rw [List.foldl_cons, ih (by rwa [Array.size_modify]), getD_modify _ _ h, List.map_cons,
      List.count_cons]
    simp only [beq_iff_eq]
    split <;> omega

theorem size_foldl_modify {α : Type} (f : α → Nat) (xs : List α) (counts : Array Nat) :
    (xs.foldl (fun counts x => counts.modify (f x) (· + 1)) counts).size = counts.size := by
  induction xs generalizing counts with
  | nil => rfl
  | cons x xs ih => rw [List.foldl_cons, ih, Array.size_modify]

variable {limit : Nat} {counts : Array Nat}

/-- The lengths of which the counts are given. -/
def lengthsOf (limit : Nat) (counts : Array Nat) : List Nat :=
  (List.range limit).flatMap fun i => List.replicate (counts.getD (i + 1) 0) (i + 1)

theorem count_lengthsOf (limit length : Nat) (counts : Array Nat) :
    (lengthsOf limit counts).count length =
      if 0 < length ∧ length ≤ limit then counts.getD length 0 else 0 := by
  induction limit with
  | zero =>
    rw [if_neg (by omega)]
    rfl
  | succ limit ih =>
    have hsplit : lengthsOf (limit + 1) counts = lengthsOf limit counts ++
        List.replicate (counts.getD (limit + 1) 0) (limit + 1) := by
      rw [lengthsOf, List.range_succ, List.flatMap_append, List.flatMap_singleton, ← lengthsOf]
    rw [hsplit, List.count_append, ih, List.count_replicate]
    simp only [beq_iff_eq]
    by_cases heq : limit + 1 = length
    · rw [if_neg (by omega), if_pos heq, if_pos (by omega), heq, Nat.zero_add]
    · rw [if_neg heq]
      by_cases hin : 0 < length ∧ length ≤ limit
      · rw [if_pos hin, if_pos (by omega), Nat.add_zero]
      · rw [if_neg hin, if_neg (by omega)]

theorem shares_perm {as bs : List Nat} (h : as.Perm bs) : shares limit as = shares limit bs := by
  induction h with
  | nil => rfl
  | cons length _ ih => rw [shares_cons, ih, shares_cons]
  | swap a b _ => rw [shares_cons, shares_cons, shares_cons, shares_cons, Nat.add_left_comm]
  | trans _ _ ih₁ ih₂ => exact ih₁.trans ih₂

/-! ### Trees -/

namespace CodeTree

/-- How deep the leaves are, but none below the limit. -/
def clamped (limit : Nat) (t : CodeTree) (depth : Nat) : List Nat :=
  (t.depths depth).map fun d => min d.2 limit

/-- Lifting what is below the limit makes the shares too many by half of what was there. -/
theorem two_mul_shares_clamped (t : CodeTree) {depth : Nat} (h : 0 < depth) (hlimit : 0 < limit) :
    2 * shares limit (t.clamped limit depth) = t.countBelow limit depth +
      if depth ≤ limit then 2 * Nat.pow 2 (limit - depth) else 1 := by
  induction t generalizing depth with
  | leaf symbol =>
    have hleaf : shares limit ((leaf symbol).clamped limit depth) =
        share limit (min depth limit) + 0 := rfl
    rw [hleaf, countBelow, share, if_pos (by omega)]
    by_cases hdeep : depth ≤ limit
    · rw [Nat.min_eq_left hdeep, if_neg (by omega), if_pos hdeep, Nat.zero_add]
      rfl
    · rw [Nat.min_eq_right (by omega), Nat.sub_self, if_pos (by omega), if_neg hdeep]
  | node left right ihl ihr =>
    have hsplit : shares limit ((node left right).clamped limit depth) =
        shares limit (left.clamped limit (depth + 1)) +
          shares limit (right.clamped limit (depth + 1)) := by
      rw [clamped, depths, List.map_append, shares_append]
      rfl
    have hleft := @ihl (depth + 1) (Nat.succ_pos depth)
    have hright := @ihr (depth + 1) (Nat.succ_pos depth)
    rw [hsplit, Nat.mul_add, hleft, hright, countBelow]
    rcases Nat.lt_trichotomy depth limit with hlt | rfl | hgt
    · have hpow : Nat.pow 2 (limit - depth) = 2 * Nat.pow 2 (limit - (depth + 1)) := by
        rw [show limit - depth = limit - (depth + 1) + 1 by omega, two_pow_succ]
      rw [if_pos (show depth + 1 ≤ limit from hlt), if_neg (by omega), if_pos (by omega), hpow]
      omega
    · rw [if_neg (by omega), if_neg (by omega), if_pos (Nat.le_refl _), Nat.sub_self]
      show _ = _ + 2 * 1
      omega
    · rw [if_neg (by omega), if_pos hgt, if_neg (by omega)]
      omega

/-- Of the leaves and nodes below the limit, at least half are leaves. -/
theorem countBelow_le (t : CodeTree) (limit depth : Nat) :
    t.countBelow limit depth + (if depth ≤ limit then 0 else 1) ≤
      2 * (t.clamped limit depth).count limit := by
  induction t generalizing depth with
  | leaf symbol =>
    have hleaf : (leaf symbol).clamped limit depth = [min depth limit] := rfl
    rw [hleaf, countBelow]
    by_cases hdeep : depth ≤ limit
    · rw [if_neg (by omega), if_pos hdeep]
      exact Nat.zero_le _
    · rw [Nat.min_eq_right (by omega), if_pos (by omega), if_neg hdeep, List.count_singleton_self]
  | node left right ihl ihr =>
    have hsplit : ((node left right).clamped limit depth).count limit =
        (left.clamped limit (depth + 1)).count limit +
          (right.clamped limit (depth + 1)).count limit := by
      rw [clamped, depths, List.map_append, List.count_append]
      rfl
    have hleft := ihl (depth + 1)
    have hright := ihr (depth + 1)
    rw [hsplit, countBelow]
    rcases Nat.lt_trichotomy depth limit with hlt | rfl | hgt
    · rw [if_pos (by omega)] at hleft hright
      rw [if_neg (by omega), if_pos (by omega)]
      omega
    · rw [if_neg (by omega)] at hleft hright
      rw [if_neg (by omega), if_pos (by omega)]
      omega
    · rw [if_neg (by omega)] at hleft hright
      rw [if_pos (by omega), if_neg (by omega)]
      omega

theorem lt_of_mem_depths {t : CodeTree} {depth : Nat} {d : Nat × Nat} (h : d ∈ t.depths depth) :
    depth ≤ d.2 := by
  induction t generalizing depth with
  | leaf symbol =>
    obtain rfl := List.mem_singleton.1 h
    exact Nat.le_refl _
  | node left right ihl ihr =>
    rcases List.mem_append.1 h with h | h
    · have := ihl h
      omega
    · have := ihr h
      omega

theorem le_of_countBelow_eq_zero {t : CodeTree} {depth : Nat} {d : Nat × Nat}
    (hzero : t.countBelow limit depth = 0) (h : d ∈ t.depths depth) : d.2 ≤ limit := by
  induction t generalizing depth with
  | leaf symbol =>
    obtain rfl := List.mem_singleton.1 h
    rw [countBelow] at hzero
    split at hzero <;> omega
  | node left right ihl ihr =>
    rw [countBelow] at hzero
    rcases List.mem_append.1 h with h | h
    · exact ihl (by omega) h
    · exact ihr (by omega) h

end CodeTree

/-! ### Repairs -/

/-- The counts after a word of the given length was made longer by a bit. -/
def lengthened (limit length : Nat) (counts : Array Nat) : Array Nat :=
  ((counts.modify length (· - 1)).modify (length + 1) (· + 2)).modify limit (· - 1)

theorem size_lengthened (limit length : Nat) (counts : Array Nat) :
    (lengthened limit length counts).size = counts.size := by
  rw [lengthened, Array.size_modify, Array.size_modify, Array.size_modify]

theorem getD_lengthened {i : Nat} (length : Nat) (hsize : counts.size = limit + 1)
    (hi : i ≤ limit) :
    (lengthened limit length counts).getD i 0 =
      (counts.getD i 0 - (if length = i then 1 else 0) + if length + 1 = i then 2 else 0) -
        if limit = i then 1 else 0 := by
  have hlt : i < counts.size := by omega
  rw [lengthened, getD_modify _ _ (by rwa [Array.size_modify, Array.size_modify]),
    getD_modify _ _ (by rwa [Array.size_modify]), getD_modify _ _ hlt]
  split_ifs <;> rfl

/-- One word becomes longer by a bit, and one of the greatest length comes beside it. -/
theorem lengthened_perm {length : Nat} (hsize : counts.size = limit + 1) (hpos : 0 < length)
    (hlt : length < limit) (hlength : counts.getD length 0 ≠ 0) (hlimit : counts.getD limit 0 ≠ 0) :
    (lengthsOf limit (lengthened limit length counts) ++ [length, limit]).Perm
      (lengthsOf limit counts ++ [length + 1, length + 1]) := by
  refine List.perm_iff_count.2 fun l => ?_
  rw [List.count_append, List.count_append, count_lengthsOf, count_lengthsOf]
  simp only [List.count_cons, List.count_nil, beq_iff_eq]
  by_cases hl : 0 < l ∧ l ≤ limit
  · rw [if_pos hl, if_pos hl, getD_lengthened length hsize hl.2]
    -- each of the three numbers may be the one that is counted, and two of them may be the same
    have hone : length = l → counts.getD l 0 ≠ 0 := fun heq => heq ▸ hlength
    have htwo : limit = l → counts.getD l 0 ≠ 0 := fun heq => heq ▸ hlimit
    split_ifs <;> omega
  · rw [if_neg hl, if_neg hl, if_neg (by omega), if_neg (by omega), if_neg (by omega)]

/-- Words of the greatest length take one share each at most. -/
theorem shares_le_length {lengths : List Nat} (h : ∀ l ∈ lengths, l = limit) :
    shares limit lengths ≤ lengths.length := by
  conv => lhs; rw [List.eq_replicate_iff.2 ⟨rfl, h⟩]
  rw [shares_replicate, share, Nat.sub_self]
  split
  · exact Nat.le_of_eq (Nat.mul_one _)
  · exact Nat.zero_le _

/-- Counts of `total` words that take `excess` shares too many, while at least so many are of the
greatest length. -/
structure IsOverfull (limit total excess : Nat) (counts : Array Nat) : Prop where
  size : counts.size = limit + 1
  zero : counts.getD 0 0 = 0
  most : excess ≤ counts.getD limit 0
  length : (lengthsOf limit counts).length = total
  shares : shares limit (lengthsOf limit counts) = Nat.pow 2 limit + excess

section Overfull

variable {total excess : Nat}

/-- There is a word to lengthen. -/
theorem exists_shorten_eq (h : IsOverfull limit total (excess + 1) counts)
    (hroom : total ≤ Nat.pow 2 limit) :
    ∃ length, 0 < length ∧ length < limit ∧ counts.getD length 0 ≠ 0 ∧
      shorten limit counts = lengthened limit length counts := by
  rw [shorten]
  split
  · next hnone =>
    -- words of the greatest length only are not too many
    have hall : ∀ l ∈ lengthsOf limit counts, l = limit := by
      intro l hl
      have hcount := List.count_pos_iff.2 hl
      rw [count_lengthsOf] at hcount
      split at hcount
      · next hl =>
        by_contra hne
        have hmem : l ∈ (List.range limit).reverse :=
          List.mem_reverse.2 (List.mem_range.2 (by omega))
        have := List.find?_eq_none.1 hnone l hmem
        simp only [ne_eq, decide_not, Bool.not_eq_true, Bool.not_eq_false',
          decide_eq_true_eq] at this
        omega
      · omega
    have hfew := shares_le_length hall
    have hlength := h.length
    have hshares := h.shares
    omega
  · next length hfind =>
    have hlength : counts.getD length 0 ≠ 0 := by simpa using List.find?_some hfind
    have hlt : length < limit := by simpa using List.mem_of_find?_eq_some hfind
    have hpos : 0 < length := by
      refine Nat.pos_of_ne_zero fun heq => hlength ?_
      rw [heq, h.zero]
    exact ⟨length, hpos, hlt, hlength, rfl⟩

/-- One repair takes one share away. -/
theorem isOverfull_shorten (h : IsOverfull limit total (excess + 1) counts)
    (hroom : total ≤ Nat.pow 2 limit) : IsOverfull limit total excess (shorten limit counts) := by
  obtain ⟨length, hpos, hlt, hlength, heq⟩ := exists_shorten_eq h hroom
  have hmost := h.most
  have hperm := lengthened_perm h.size hpos hlt hlength (by omega)
  rw [heq]
  constructor
  · exact (size_lengthened _ _ _).trans h.size
  · rw [getD_lengthened length h.size (Nat.zero_le _), h.zero, if_neg (by omega),
      if_neg (by omega)]
    omega
  · rw [getD_lengthened length h.size (Nat.le_refl _), if_pos rfl,
      if_neg (by omega : length ≠ limit)]
    omega
  · have hsum := hperm.length_eq
    rw [List.length_append, List.length_append] at hsum
    exact (Nat.add_right_cancel hsum).trans h.length
  · -- the word and the one beside it take what was one share, and one of the greatest length less
    have hsum : shares limit _ = shares limit _ := shares_perm hperm
    have hnil : shares limit [] = 0 := rfl
    have hfull : share limit limit = 1 := by
      rw [share, if_pos (by omega), Nat.sub_self]
    have hdouble : share limit length = 2 * share limit (length + 1) := by
      rw [share, share, if_pos (by omega), if_pos (by omega),
        show limit - length = limit - (length + 1) + 1 by omega, two_pow_succ]
    rw [shares_append, shares_append, shares_cons, shares_cons, shares_cons, shares_cons, hnil,
      hfull, hdouble, h.shares] at hsum
    omega

/-- All repairs together leave a complete code of as many words. -/
theorem isOverfull_shortenAll (h : IsOverfull limit total excess counts)
    (hroom : total ≤ Nat.pow 2 limit) :
    IsOverfull limit total 0 (shortenAll limit (2 * excess) counts) := by
  induction excess generalizing counts with
  | zero => exact h
  | succ excess ih => exact ih (isOverfull_shorten h hroom)

end Overfull

/-! ### The lengths of words -/

namespace CodeTree

variable {left right : CodeTree}

/-- The root is not too deep, and no leaf if it is a node. -/
theorem clamped_root (hlimit : 0 < limit) :
    2 * shares limit ((node left right).clamped limit 0) =
        2 * Nat.pow 2 limit + (node left right).countBelow limit 0 ∧
      (node left right).countBelow limit 0 ≤ 2 * ((node left right).clamped limit 0).count limit ∧
      ∀ d ∈ (node left right).depths 0, 0 < d.2 := by
  have hone : 1 ≤ limit := hlimit
  have hclamped : (node left right).clamped limit 0 =
      left.clamped limit 1 ++ right.clamped limit 1 := List.map_append
  have hbelow : (node left right).countBelow limit 0 =
      left.countBelow limit 1 + right.countBelow limit 1 := by
    rw [countBelow, if_neg (Nat.not_lt_zero _), Nat.zero_add]
  refine ⟨?_, ?_, fun d hd => ?_⟩
  · have hpow : Nat.pow 2 limit = 2 * Nat.pow 2 (limit - 1) := by
      rw [← two_pow_succ, Nat.sub_add_cancel hlimit]
    rw [hclamped, shares_append, Nat.mul_add, left.two_mul_shares_clamped Nat.one_pos hlimit,
      right.two_mul_shares_clamped Nat.one_pos hlimit, if_pos hone, hbelow, hpow]
    omega
  · have hleft := left.countBelow_le limit 1
    have hright := right.countBelow_le limit 1
    rw [if_pos hone] at hleft hright
    rw [hclamped, hbelow, List.count_append]
    omega
  · rcases List.mem_append.1 hd with hd | hd
    · exact lt_of_mem_depths hd
    · exact lt_of_mem_depths hd

theorem length_clamped (limit : Nat) (t : CodeTree) :
    (t.clamped limit 0).length = t.leaves.length := by
  rw [← t.map_fst_depths 0, List.length_map]
  exact List.length_map _

end CodeTree

/-- How often each length up to the limit occurs, where none is beyond it. -/
theorem tally_clamped (limit : Nat) (t : CodeTree) (hpositive : ∀ d ∈ t.depths 0, 0 < d.2)
    (hlimit : 0 < limit) :
    let counts := (t.depths 0).foldl (fun counts d => counts.modify (min d.2 limit) (· + 1))
      (Array.replicate (limit + 1) 0)
    counts.size = limit + 1 ∧ counts.getD 0 0 = 0 ∧
      counts.getD limit 0 = (t.clamped limit 0).count limit ∧
      (lengthsOf limit counts).Perm (t.clamped limit 0) := by
  intro counts
  have hcount : ∀ i, i ≤ limit → counts.getD i 0 = (t.clamped limit 0).count i := by
    intro i hi
    have hreplicate : (Array.replicate (limit + 1) 0).getD i 0 = 0 := by
      rw [Array.getD_eq_getD_getElem?, Array.getElem?_replicate]
      split <;> rfl
    have hfold := getD_foldl_modify (fun d : Nat × Nat => min d.2 limit) (t.depths 0)
      (show i < (Array.replicate (limit + 1) 0).size by rw [Array.size_replicate]; omega)
    rwa [hreplicate, Nat.zero_add] at hfold
  have hin : ∀ l ∈ t.clamped limit 0, 0 < l ∧ l ≤ limit := by
    intro l hl
    obtain ⟨d, hd, rfl⟩ := List.mem_map.1 hl
    exact ⟨Nat.lt_min.2 ⟨hpositive d hd, hlimit⟩, Nat.min_le_right _ _⟩
  refine ⟨?_, ?_, hcount limit (Nat.le_refl _), List.perm_iff_count.2 fun l => ?_⟩
  · exact (size_foldl_modify _ _ _).trans Array.size_replicate
  · rw [hcount 0 (Nat.zero_le _)]
    exact List.count_eq_zero.2 fun hmem => Nat.lt_irrefl 0 (hin 0 hmem).1
  · rw [count_lengthsOf]
    split
    · next hl => exact hcount l hl.2
    · next hl => exact (List.count_eq_zero.2 fun hmem => hl (hin l hmem)).symm

/-- The leaves of a tree get lengths up to the limit that make a complete code. -/
theorem limitedLengths_spec {tree : CodeTree} {joined : List Nat} (hlimit : 0 < limit)
    (htwo : 2 ≤ tree.leaves.length) (hroom : tree.leaves.length ≤ Nat.pow 2 limit)
    (hjoined : joined.Perm tree.leaves) :
    ((limitedLengths limit tree joined).map Prod.fst).Perm tree.leaves ∧
      (∀ p ∈ limitedLengths limit tree joined, 0 < p.2 ∧ p.2 ≤ limit) ∧
      shares limit ((limitedLengths limit tree joined).map Prod.snd) = Nat.pow 2 limit := by
  obtain ⟨hshares, hleaves, hpositive⟩ :
      2 * shares limit (tree.clamped limit 0) =
          2 * Nat.pow 2 limit + tree.countBelow limit 0 ∧
        tree.countBelow limit 0 ≤ 2 * (tree.clamped limit 0).count limit ∧
        ∀ d ∈ tree.depths 0, 0 < d.2 := by
    cases tree with
    | leaf symbol => simp [CodeTree.leaves] at htwo
    | node left right => exact CodeTree.clamped_root hlimit
  unfold limitedLengths
  dsimp only
  split
  · next hexcess =>
    have hle : ∀ d ∈ tree.depths 0, d.2 ≤ limit := fun d hd =>
      CodeTree.le_of_countBelow_eq_zero hexcess hd
    refine ⟨.of_eq (tree.map_fst_depths 0), fun d hd => ⟨hpositive d hd, hle d hd⟩, ?_⟩
    have hsame : tree.clamped limit 0 = (tree.depths 0).map Prod.snd :=
      List.map_congr_left fun d hd => Nat.min_eq_left (hle d hd)
    rw [hsame, hexcess] at hshares
    omega
  · obtain ⟨excess, hexcess⟩ : ∃ excess, tree.countBelow limit 0 = 2 * excess :=
      ⟨shares limit (tree.clamped limit 0) - Nat.pow 2 limit, by omega⟩
    obtain ⟨hsize, hzero, hmost, hperm⟩ := tally_clamped limit tree hpositive hlimit
    have hoverfull : IsOverfull limit tree.leaves.length excess _ :=
      ⟨hsize, hzero, by omega, hperm.length_eq.trans (tree.length_clamped limit),
        by rw [shares_perm hperm]; omega⟩
    have hrepaired := isOverfull_shortenAll hoverfull hroom
    rw [← hexcess] at hrepaired
    have hzip := (hrepaired.length.trans hjoined.length_eq.symm).symm
    refine ⟨?_, fun p hp => ?_, ?_⟩
    · exact (List.map_fst_zip (Nat.le_of_eq hzip)).symm ▸ hjoined
    · have hpos := List.count_pos_iff.2 (List.of_mem_zip hp).2
      rw [← lengthsOf, count_lengthsOf] at hpos
      split at hpos
      · next h => exact h
      · omega
    · exact (congrArg (shares limit) (List.map_snd_zip (Nat.le_of_eq hzip.symm))).trans
        hrepaired.shares

end Jarsmith.Deflate
