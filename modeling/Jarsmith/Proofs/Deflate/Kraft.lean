import Mathlib.Data.List.TakeWhile
import Jarsmith.Deflate.Block
import Jarsmith.Proofs.Deflate.Words

/-!
# Complete codes

A word of length `l` is the beginning of one in `2 ^ l` sequences of bits. So each word takes its
share of the sequences of a width that is not less than its length, and a code is complete if the
shares are all of them (`IsComplete`). Taking the words from what the shorter ones leave then ends
with nothing left (`unused?_eq_zero`), whatever the width is in which the shares were counted.
-/

namespace Jarsmith.Deflate

variable {limit width : Nat} {lengths : List Nat}

/-- How many sequences of `width` bits begin with a word of the given length. -/
def share (width length : Nat) : Nat :=
  if 0 < length ∧ length ≤ width then Nat.pow 2 (width - length) else 0

/-- How many sequences of `width` bits begin with a word. -/
def shares (width : Nat) (lengths : List Nat) : Nat :=
  lengths.foldr (fun length n => share width length + n) 0

/-- No word is longer than the limit, and every sequence of so many bits begins with a word. -/
structure IsComplete (limit : Nat) (lengths : List Nat) : Prop where
  le : ∀ l ∈ lengths, l ≤ limit
  shares : shares limit lengths = Nat.pow 2 limit

theorem share_zero (width : Nat) : share width 0 = 0 := rfl

theorem share_succ (width length : Nat) :
    share (width + 1) length = 2 * share width length + if length = width + 1 then 1 else 0 := by
  unfold share
  rcases Nat.lt_trichotomy length (width + 1) with hlt | rfl | hgt
  · by_cases hzero : length = 0
    · simp [hzero]
    · have hpow : Nat.pow 2 (width + 1 - length) = 2 * Nat.pow 2 (width - length) := by
        rw [show width + 1 - length = width - length + 1 by omega, two_pow_succ]
      rw [if_pos (by omega), if_pos (by omega), if_neg (by omega), hpow, Nat.add_zero]
  · rw [if_pos (by omega), if_neg (by omega), if_pos rfl, Nat.sub_self]
  · rw [if_neg (by omega), if_neg (by omega), if_neg (by omega)]

theorem shares_cons (width length : Nat) (lengths : List Nat) :
    shares width (length :: lengths) = share width length + shares width lengths := rfl

theorem shares_append (width : Nat) (as bs : List Nat) :
    shares width (as ++ bs) = shares width as + shares width bs := by
  induction as with
  | nil => exact (Nat.zero_add _).symm
  | cons length as ih => rw [List.cons_append, shares_cons, ih, shares_cons, Nat.add_assoc]

theorem shares_replicate (width n length : Nat) :
    shares width (List.replicate n length) = n * share width length := by
  induction n with
  | zero => exact (Nat.zero_mul _).symm
  | succ n ih => rw [List.replicate_succ, shares_cons, ih, Nat.succ_mul, Nat.add_comm]

/-- With another bit each share is twice as large, and there is place for longer words. -/
theorem shares_succ (width : Nat) (lengths : List Nat) :
    shares (width + 1) lengths = 2 * shares width lengths + lengths.count (width + 1) := by
  induction lengths with
  | nil => rfl
  | cons length lengths ih =>
    rw [shares_cons, shares_cons, share_succ, ih, List.count_cons]
    simp only [beq_iff_eq]
    omega

theorem shares_zero (lengths : List Nat) : shares 0 lengths = 0 := by
  induction lengths with
  | nil => rfl
  | cons length lengths ih =>
    rw [shares_cons, ih, share, if_neg (by omega)]

/-- The shares in a smaller width are not too many either. -/
theorem shares_le_of_le {n : Nat} (h : shares width lengths ≤ Nat.pow 2 width) (hn : n ≤ width) :
    shares n lengths ≤ Nat.pow 2 n := by
  induction width with
  | zero => rwa [Nat.le_zero.1 hn]
  | succ width ih =>
    rcases Nat.eq_or_lt_of_le hn with rfl | hlt
    · exact h
    · rw [shares_succ, two_pow_succ] at h
      exact ih (by omega) (by omega)

/-- What the words up to a width leave. -/
theorem unused?_range {n : Nat} (h : shares n lengths ≤ Nat.pow 2 n) :
    Code.unused? ((List.range n).map fun i => lengths.count (i + 1)) 1 =
      some (Nat.pow 2 n - shares n lengths) := by
  have happend : ∀ (counts : List Nat) (k left : Nat), Code.unused? (counts ++ [k]) left =
      (Code.unused? counts left).bind fun rest =>
        if k ≤ 2 * rest then some (2 * rest - k) else none := by
    intro counts k
    induction counts with
    | nil => exact fun left => rfl
    | cons c counts ih =>
      intro left
      rw [List.cons_append, Code.unused?, Code.unused?]
      split
      · exact ih _
      · rfl
  induction n with
  | zero =>
    rw [shares_zero]
    rfl
  | succ n ih =>
    have hn := shares_le_of_le h (Nat.le_succ n)
    rw [shares_succ, two_pow_succ] at h
    rw [List.range_succ, List.map_append, List.map_singleton, happend, ih hn, Option.bind_some,
      if_pos (by omega), shares_succ, two_pow_succ]
    congr 1
    omega

/-- Nothing is left by a complete code. -/
theorem unused?_eq_zero (h : IsComplete limit lengths) :
    Code.unused? (Code.countsOf lengths) 1 = some 0 := by
  have hall : ∀ l ∈ lengths, l ≤ lengths.foldl max 0 := fun l hl => le_foldl_max hl
  -- beyond the longest word, the shares only double
  have hmore : ∀ k, shares (lengths.foldl max 0 + k) lengths =
      Nat.pow 2 k * shares (lengths.foldl max 0) lengths := by
    intro k
    induction k with
    | zero => exact (Nat.one_mul _).symm
    | succ k ih =>
      have hcount : lengths.count (lengths.foldl max 0 + k + 1) = 0 := by
        refine List.count_eq_zero.2 fun hmem => ?_
        have := hall _ hmem
        omega
      rw [← Nat.add_assoc, shares_succ, hcount, Nat.add_zero, ih, two_pow_succ, Nat.mul_assoc]
  have hmax : lengths.foldl max 0 ≤ limit := by
    have hfold : ∀ (xs : List Nat) (a : Nat), a ≤ limit → (∀ x ∈ xs, x ≤ limit) →
        xs.foldl max a ≤ limit := by
      intro xs
      induction xs with
      | nil => exact fun a ha _ => ha
      | cons x xs ih =>
        intro a ha hxs
        obtain ⟨hx, hxs⟩ := List.forall_mem_cons.1 hxs
        exact ih _ (Nat.max_le.2 ⟨ha, hx⟩) hxs
    exact hfold lengths 0 (Nat.zero_le _) h.le
  -- so the words are all of those of the longest length, as they are of the limit
  have hshares : shares (lengths.foldl max 0) lengths = Nat.pow 2 (lengths.foldl max 0) := by
    have hlimit := hmore (limit - lengths.foldl max 0)
    rw [Nat.add_sub_cancel' hmax, h.shares] at hlimit
    have hpow := two_pow_add (limit - lengths.foldl max 0) (lengths.foldl max 0)
    rw [Nat.sub_add_cancel hmax, hlimit] at hpow
    exact Nat.eq_of_mul_eq_mul_left (two_pow_pos _) hpow
  rw [Code.countsOf, unused?_range (Nat.le_of_eq hshares), hshares, Nat.sub_self]

theorem IsComplete.isCode (h : IsComplete limit lengths) : IsCode lengths := by
  rw [IsCode, unused?_eq_zero h]
  rfl

theorem isUsable_of_isComplete (h : IsComplete limit lengths) (single : Bool) :
    (Code.ofLengths lengths).isUsable single = true := by
  have hcounts : (Code.ofLengths lengths).counts = Code.countsOf lengths := rfl
  rw [Code.isUsable, hcounts, unused?_eq_zero h]
  rfl

/-! ### Zeros at the end -/

/-- What is left out of lengths are zeros. -/
theorem exists_eq_withoutZeros_append (lengths : List Nat) :
    ∃ n, lengths = withoutZeros lengths ++ List.replicate n 0 := by
  have hsplit : lengths.reverse = lengths.reverse.takeWhile (· == 0) ++
      lengths.reverse.dropWhile (· == 0) := List.takeWhile_append_dropWhile.symm
  have hzeros : lengths.reverse.takeWhile (· == 0) =
      List.replicate (lengths.reverse.takeWhile (· == 0)).length 0 := by
    refine List.eq_replicate_iff.2 ⟨rfl, fun l hl => ?_⟩
    simpa using List.mem_takeWhile_imp hl
  refine ⟨(lengths.reverse.takeWhile (· == 0)).length, ?_⟩
  have hreverse := congrArg List.reverse hsplit
  rw [List.reverse_reverse, List.reverse_append, hzeros, List.reverse_replicate] at hreverse
  exact hreverse

theorem IsComplete.withoutZeros (h : IsComplete limit lengths) :
    IsComplete limit (withoutZeros lengths) := by
  obtain ⟨n, hn⟩ := exists_eq_withoutZeros_append lengths
  refine ⟨fun l hl => h.le l (by rw [hn]; exact List.mem_append_left _ hl), ?_⟩
  have hshares := h.shares
  rw [hn, shares_append, shares_replicate, share_zero, Nat.mul_zero, Nat.add_zero] at hshares
  exact hshares

theorem getD_withoutZeros (lengths : List Nat) (s : Nat) :
    (withoutZeros lengths).getD s 0 = lengths.getD s 0 := by
  obtain ⟨k, hk⟩ := exists_eq_withoutZeros_append lengths
  conv => rhs; rw [hk]
  by_cases hs : s < (withoutZeros lengths).length
  · rw [List.getD_append _ _ _ _ hs]
  · rw [List.getD_append_right _ _ _ _ (Nat.le_of_not_lt hs),
      List.getD_eq_default _ _ (Nat.le_of_not_lt hs), List.getD_eq_getElem?_getD,
      List.getElem?_replicate]
    split <;> rfl

theorem length_withoutZeros_le (lengths : List Nat) :
    (withoutZeros lengths).length ≤ lengths.length := by
  obtain ⟨k, hk⟩ := exists_eq_withoutZeros_append lengths
  conv => rhs; rw [hk, List.length_append]
  exact Nat.le_add_right _ _

/-- No word is left out. -/
theorem HasWord.withoutZeros {s : Nat} (h : HasWord lengths s) :
    HasWord (withoutZeros lengths) s := by
  obtain ⟨n, hn⟩ := h
  have hget := getD_withoutZeros lengths s
  rw [List.getD_eq_getElem?_getD, List.getD_eq_getElem?_getD, hn, Option.getD_some] at hget
  cases hs : (Deflate.withoutZeros lengths)[s]? with
  | none =>
    rw [hs, Option.getD_none] at hget
    omega
  | some l =>
    rw [hs, Option.getD_some] at hget
    exact ⟨n, by rw [hs, hget]⟩

end Jarsmith.Deflate
