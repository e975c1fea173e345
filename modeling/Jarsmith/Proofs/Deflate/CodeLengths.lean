import Mathlib.Data.List.SplitBy
import Jarsmith.Deflate.CodeLengths
import Jarsmith.Proofs.Deflate.Words

/-!
# Code lengths are read back

The symbols for code lengths have a grammar: each gives lengths to those before it (`Spells`). Each
run of equal lengths is spelled from its beginning on, so that the length that is repeated is that
of the run (`spells_codedLengths`). What is spelled is read back from the words of the symbols,
whatever code they are in (`codeLengths_spells`).
-/

namespace Jarsmith.Deflate

/-- After the lengths `found`, of which the last one is given first, a symbol stands for some more
that are equal. -/
inductive Repeats : (found : List Nat) → Coded → (value count : Nat) → Prop where
  /-- The length before, three to six times. -/
  | again {found : List Nat} {l : Nat} (k : Nat) (hk : k < 4) :
      Repeats (l :: found) ⟨16, 2, k⟩ l (3 + k)
  /-- Three to ten zeros. -/
  | zeros {found : List Nat} (k : Nat) (hk : k < 8) : Repeats found ⟨17, 3, k⟩ 0 (3 + k)
  /-- Eleven zeros or more. -/
  | manyZeros {found : List Nat} (k : Nat) (hk : k < 128) : Repeats found ⟨18, 7, k⟩ 0 (11 + k)

/-- The symbols bring the lengths from `found` to `after`; both are given last first. -/
inductive Spells : List Coded → (found after : List Nat) → Prop where
  | nil {found : List Nat} : Spells [] found found
  | length {coded : List Coded} {found after : List Nat} (l : Nat) (hl : l < 16)
      (h : Spells coded (l :: found) after) : Spells (⟨l, 0, 0⟩ :: coded) found after
  | run {c : Coded} {coded : List Coded} {found after : List Nat} {value count : Nat}
      (hc : Repeats found c value count)
      (h : Spells coded (List.replicate count value ++ found) after) :
      Spells (c :: coded) found after

namespace Repeats

variable {found : List Nat} {c : Coded} {value count : Nat}

theorem pos (h : Repeats found c value count) : 0 < count := by
  cases h <;> omega

theorem fits (h : Repeats found c value count) :
    c.symbol < 19 ∧ c.extra < Nat.pow 2 c.extraBits := by
  cases h with
  | again k hk => exact ⟨Nat.lt_of_sub_eq_succ rfl, hk⟩
  | zeros k hk => exact ⟨Nat.lt_of_sub_eq_succ rfl, hk⟩
  | manyZeros k hk => exact ⟨Nat.lt_of_sub_eq_succ rfl, hk⟩

end Repeats

namespace Spells

variable {as bs : List Coded} {found between after : List Nat}

theorem append (h₁ : Spells as found between) (h₂ : Spells bs between after) :
    Spells (as ++ bs) found after := by
  induction h₁ with
  | nil => exact h₂
  | length l hl _ ih => exact .length l hl (ih h₂)
  | run hc _ ih => exact .run hc (ih h₂)

/-- Lengths are only added. -/
theorem length_le (h : Spells as found after) : found.length ≤ after.length := by
  induction h with
  | nil => exact Nat.le_refl _
  | length l hl h ih => exact Nat.le_of_succ_le ih
  | run hc h ih =>
    rw [List.length_append] at ih
    exact Nat.le_of_add_left_le ih

theorem fits (h : Spells as found after) :
    ∀ c ∈ as, c.symbol < 19 ∧ c.extra < Nat.pow 2 c.extraBits := by
  induction h with
  | nil => simp
  | length l hl h ih =>
    exact List.forall_mem_cons.2 ⟨⟨Nat.lt_trans hl (by decide), Nat.one_pos⟩, ih⟩
  | run hc h ih => exact List.forall_mem_cons.2 ⟨hc.fits, ih⟩

end Spells

/-! ### Runs -/

theorem spells_replicate {l : Nat} (hl : l < 16) (n : Nat) (found : List Nat) :
    Spells (List.replicate n ⟨l, 0, 0⟩) found (List.replicate n l ++ found) := by
  induction n generalizing found with
  | zero => exact .nil
  | succ n ih =>
    refine .length l hl ?_
    have h := ih (l :: found)
    rwa [← List.singleton_append, ← List.append_assoc, ← List.replicate_succ'] at h

theorem spells_zeroRun (n : Nat) (found : List Nat) :
    Spells (zeroRun n) found (List.replicate n 0 ++ found) := by
  fun_induction zeroRun n generalizing found with
  | case1 n hlong taken ih =>
    have htaken : taken = min n 138 := rfl
    have hrest := ih (List.replicate taken 0 ++ found)
    rw [← List.append_assoc, List.replicate_append_replicate, ← htaken,
      show n - taken + taken = n by omega] at hrest
    split
    · next hshort =>
      refine .run (.zeros (taken - 3) (by omega)) ?_
      rwa [show 3 + (taken - 3) = taken by omega]
    · refine .run (.manyZeros (taken - 11) (by omega)) ?_
      rwa [show 11 + (taken - 11) = taken by omega]
  | case2 n hshort => exact spells_replicate (by decide) n found

theorem spells_repetitions {l : Nat} (hl : l < 16) (n : Nat) (found : List Nat) :
    Spells (repetitions l n) (l :: found) (List.replicate n l ++ l :: found) := by
  induction n using Nat.strongRecOn generalizing found with
  | _ n ih =>
    rw [repetitions]
    split
    · next hlong =>
      refine .run (.again (min n 6 - 3) (by omega)) ?_
      rw [show 3 + (min n 6 - 3) = min n 6 by omega]
      have hrest := ih (n - min n 6) (by omega) (List.replicate (min n 6) l ++ found)
      rwa [← List.cons_append, ← List.replicate_succ, List.replicate_succ', List.append_assoc,
        List.singleton_append, ← List.append_assoc, List.replicate_append_replicate,
        show n - min n 6 + min n 6 = n by omega] at hrest
    · exact spells_replicate hl n (l :: found)

theorem spells_lengthRun {l : Nat} (hl : l < 16) (n : Nat) (found : List Nat) :
    Spells (lengthRun (l :: List.replicate n l)) found (List.replicate (n + 1) l ++ found) := by
  cases l with
  | zero =>
    rw [lengthRun, List.length_replicate]
    exact spells_zeroRun (n + 1) found
  | succ l =>
    have hrest := spells_repetitions hl n found
    rw [lengthRun, List.length_replicate, List.replicate_succ', List.append_assoc]
    · exact .length (l + 1) hl hrest
    · simp

/-- A run of `splitBy` is one length, some times. -/
theorem exists_eq_of_mem_splitBy {lengths run : List Nat} (h : run ∈ lengths.splitBy (· == ·)) :
    ∃ l n, run = l :: List.replicate n l ∧ l ∈ lengths := by
  have hne := List.ne_nil_of_mem_splitBy h
  have hchain := List.isChain_of_mem_splitBy h
  obtain ⟨l, rest, rfl⟩ := List.exists_cons_of_ne_nil hne
  have hall : ∀ x ∈ rest, x = l := by
    have hpairwise : (l :: rest).Pairwise (· = ·) := by
      refine List.isChain_iff_pairwise.1 (hchain.imp fun a b hab => ?_)
      exact beq_iff_eq.1 hab
    exact fun x hx => ((List.pairwise_cons.1 hpairwise).1 x hx).symm
  refine ⟨l, rest.length, ?_, ?_⟩
  · rw [← List.eq_replicate_iff.2 ⟨rfl, hall⟩]
  · rw [← List.flatten_splitBy (· == ·) lengths]
    exact List.mem_flatten.2 ⟨_, h, List.mem_cons_self⟩

/-- **The lengths of a code** are spelled by their symbols. -/
theorem spells_codedLengths {lengths : List Nat} (h : ∀ l ∈ lengths, l < 16) (found : List Nat) :
    Spells (codedLengths lengths) found (lengths.reverse ++ found) := by
  have hruns : ∀ runs : List (List Nat), (∀ run ∈ runs, ∃ l n, run = l :: List.replicate n l ∧
      l < 16) → ∀ found, Spells (runs.flatMap lengthRun) found (runs.flatten.reverse ++ found) := by
    intro runs
    induction runs with
    | nil => exact fun _ found => .nil
    | cons run runs ih =>
      intro hall found
      obtain ⟨hrun, hall'⟩ := List.forall_mem_cons.1 hall
      obtain ⟨l, n, rfl, hl⟩ := hrun
      have hfirst := spells_lengthRun hl n found
      have hrest := ih hall' (List.replicate (n + 1) l ++ found)
      rw [List.flatMap_cons, List.flatten_cons, List.reverse_append, ← List.replicate_succ,
        List.reverse_replicate, List.append_assoc]
      exact hfirst.append hrest
  have hall : ∀ run ∈ lengths.splitBy (· == ·), ∃ l n, run = l :: List.replicate n l ∧ l < 16 := by
    intro run hrun
    obtain ⟨l, n, heq, hmem⟩ := exists_eq_of_mem_splitBy hrun
    exact ⟨l, n, heq, h l hmem⟩
  have hspells := hruns _ hall found
  rwa [List.flatten_splitBy] at hspells

/-! ### Reading -/

section

variable {small found : List Nat} {c : Coded} {total fuel : Nat} {rest : List Bool}

/-- A symbol for a length is read. -/
theorem codeLengths_length {l : Nat} (hcode : IsCode small) (hword : HasWord small l)
    (hl : l < 16) (hmore : found.length ≠ total) :
    codeLengths (.ofLengths small) total (fuel + 1)
        (.ofBits ((Words.ofLengths small).bits ⟨l, 0, 0⟩ ++ rest)) found =
      codeLengths (.ofLengths small) total fuel (.ofBits rest) (l :: found) := by
  rw [codeLengths, if_neg hmore, Code.isEmpty_counts hword, Code.decode_word hcode hword]
  dsimp only
  rw [if_neg Bool.false_ne_true, if_pos hl]
  rfl

/-- A symbol for some equal lengths is read. -/
theorem codeLengths_repeats {value count : Nat} (hc : Repeats found c value count)
    (hcode : IsCode small) (hword : HasWord small c.symbol)
    (hroom : found.length + count ≤ total) :
    codeLengths (.ofLengths small) total (fuel + 1)
        (.ofBits ((Words.ofLengths small).bits c ++ rest)) found =
      codeLengths (.ofLengths small) total fuel (.ofBits rest)
        (List.replicate count value ++ found) := by
  have hpos := hc.pos
  have hextra := BitReader.bits?_bitsOf hc.fits.2 rest
  rw [codeLengths, if_neg (by omega), Code.isEmpty_counts hword, Code.decode_word hcode hword]
  cases hc with
  | again k hk =>
    dsimp only at hextra ⊢
    rw [if_neg Bool.false_ne_true, if_neg (by decide), if_pos rfl, hextra]
    dsimp only
    rw [if_pos hroom]
  | zeros k hk =>
    dsimp only at hextra ⊢
    rw [if_neg Bool.false_ne_true, if_neg (by decide), if_neg (by decide), if_pos rfl, hextra]
    dsimp only
    rw [if_pos hroom]
  | manyZeros k hk =>
    dsimp only at hextra ⊢
    rw [if_neg Bool.false_ne_true, if_neg (by decide), if_neg (by decide), if_neg (by decide),
      hextra]
    dsimp only
    rw [if_pos hroom]

/-- What is spelled is read back from the words of the symbols. -/
theorem codeLengths_spells {coded : List Coded} {after : List Nat} (h : Spells coded found after)
    (hcode : IsCode small) (hwords : ∀ c ∈ coded, HasWord small c.symbol)
    (hfuel : coded.length < fuel) (rest : List Bool) :
    codeLengths (.ofLengths small) after.length fuel
        (.ofBits (coded.flatMap (Words.ofLengths small).bits ++ rest)) found =
      .read after.reverse (.ofBits rest) := by
  induction h generalizing fuel with
  | nil =>
    obtain ⟨fuel, rfl⟩ := Nat.exists_eq_succ_of_ne_zero (Nat.ne_of_gt hfuel)
    rw [Nat.succ_eq_add_one, codeLengths, if_pos rfl]
    rfl
  | length l hl h ih =>
    obtain ⟨hword, hwords⟩ := List.forall_mem_cons.1 hwords
    obtain ⟨fuel, rfl⟩ := Nat.exists_eq_succ_of_ne_zero (Nat.ne_of_gt (Nat.zero_lt_of_lt hfuel))
    have hle := h.length_le
    rw [List.length_cons] at hle
    rw [List.flatMap_cons, List.append_assoc,
      codeLengths_length hcode hword hl (Nat.ne_of_lt hle)]
    exact ih hwords (Nat.lt_of_succ_lt_succ hfuel)
  | run hc h ih =>
    obtain ⟨hword, hwords⟩ := List.forall_mem_cons.1 hwords
    obtain ⟨fuel, rfl⟩ := Nat.exists_eq_succ_of_ne_zero (Nat.ne_of_gt (Nat.zero_lt_of_lt hfuel))
    have hle := h.length_le
    rw [List.length_append, List.length_replicate, Nat.add_comm] at hle
    rw [List.flatMap_cons, List.append_assoc, codeLengths_repeats hc hcode hword hle]
    exact ih hwords (Nat.lt_of_succ_lt_succ hfuel)

end

end Jarsmith.Deflate
