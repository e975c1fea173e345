import Mathlib.Data.List.GetD
import Mathlib.Tactic.ByContra
import Jarsmith.Deflate.Word
import Jarsmith.Proofs.Deflate.Bits

/-!
# Code words are decoded

The words of a length are consecutive numbers, and the first of them is twice what follows the last
word of the length before (`firstWords`). So the first bits of a word are a number beyond all words
of their length, and decoding goes on until the word is complete (`decodeFrom_word`). Then the place
of the word among all of them is the place of its symbol (`getElem?_symbols`).

A word that fits its length is written with all its bits. This holds of all words if there are not
too many (`firstWords_add_le`), so that **`decode_word`**: a symbol that has a word is read back.
-/

namespace Jarsmith.Deflate

/-! ### Numbers in reversed order -/

theorem bitsOf_succ (n value : Nat) :
    bitsOf (n + 1) value = bitsOf n value ++ [decide (value / Nat.pow 2 n % 2 = 1)] := by
  induction n generalizing value with
  | zero =>
    have hdiv : value / Nat.pow 2 0 = value := Nat.div_one value
    rw [hdiv]
    rfl
  | succ n ih =>
    have hdiv : value / 2 / Nat.pow 2 n = value / Nat.pow 2 (n + 1) := by
      rw [two_pow_succ, Nat.div_div_eq_div_mul]
    rw [bitsOf, ih, hdiv]
    rfl

theorem reverseBits_eq (n value : Nat) :
    reverseBits n value = numberOf (bitsOf n value).reverse := by
  induction n generalizing value with
  | zero => rfl
  | succ n ih =>
    rw [reverseBits, ih, bitsOf, List.reverse_cons, numberOf_append, List.length_reverse,
      length_bitsOf, numberOf, toNat_decide_odd, numberOf]
    rw [Nat.mul_comm (value % 2), Nat.mul_zero, Nat.add_zero, Nat.add_comm]

theorem bitsOf_reverseBits (n value : Nat) :
    bitsOf n (reverseBits n value) = (bitsOf n value).reverse := by
  have hbits := bitsOf_numberOf (bitsOf n value).reverse
  rwa [List.length_reverse, length_bitsOf, ← reverseBits_eq] at hbits

theorem reverseBits_lt (n value : Nat) : reverseBits n value < Nat.pow 2 n := by
  have hlt := numberOf_lt (bitsOf n value).reverse
  rwa [List.length_reverse, length_bitsOf, ← reverseBits_eq] at hlt

/-! ### The numbers of words -/

/-- The first word of a length is beyond all words that begin as the shorter ones. -/
theorem le_getD_firstWords {counts : List Nat} {n : Nat} (first : Nat) (h : n < counts.length) :
    Nat.pow 2 n * first ≤ (firstWords counts first).getD n 0 := by
  induction counts generalizing n first with
  | nil => simp at h
  | cons k counts ih =>
    cases n with
    | zero =>
      show 1 * first ≤ first
      omega
    | succ n =>
      have hle := ih (2 * (first + k)) (Nat.lt_of_succ_lt_succ h)
      have hmul : Nat.pow 2 (n + 1) * first ≤ Nat.pow 2 n * (2 * (first + k)) := by
        rw [two_pow_succ, Nat.mul_comm 2, Nat.mul_assoc]
        exact Nat.mul_le_mul_left _ (by omega)
      exact Nat.le_trans hmul hle

/-- Words fit their lengths if there are not more of them than are left by the shorter ones. -/
theorem firstWords_add_le {counts : List Nat} {n first left : Nat}
    (h : (Code.unused? counts left).isSome = true) (hn : n < counts.length) :
    (firstWords counts (2 * first)).getD n 0 + counts.getD n 0 ≤
      Nat.pow 2 (n + 1) * (first + left) := by
  induction counts generalizing n first left with
  | nil => simp at hn
  | cons k counts ih =>
    rw [Code.unused?] at h
    split at h
    · next hk =>
      cases n with
      | zero =>
        show 2 * first + k ≤ 2 * (first + left)
        omega
      | succ n =>
        have hle : (firstWords counts (2 * (2 * first + k))).getD n 0 + counts.getD n 0 ≤
            Nat.pow 2 (n + 1) * (2 * first + k + (2 * left - k)) :=
          ih h (Nat.lt_of_succ_lt_succ hn)
        have hsum : Nat.pow 2 (n + 1) * (2 * first + k + (2 * left - k)) =
            Nat.pow 2 (n + 1 + 1) * (first + left) := by
          rw [show 2 * first + k + (2 * left - k) = 2 * (first + left) by omega,
            two_pow_succ (n + 1), Nat.mul_left_comm, Nat.mul_assoc]
        rwa [hsum] at hle
    · simp at h

@[simp]
theorem length_firstWords (counts : List Nat) (first : Nat) :
    (firstWords counts first).length = counts.length := by
  induction counts generalizing first with
  | nil => rfl
  | cons k counts ih => rw [firstWords, List.length_cons, ih, List.length_cons]

/-- How many words the first lengths have. -/
def wordsBefore (counts : List Nat) (n : Nat) : Nat := (counts.take n).foldr (· + ·) 0

theorem wordsBefore_succ (k : Nat) (counts : List Nat) (n : Nat) :
    wordsBefore (k :: counts) (n + 1) = k + wordsBefore counts n := rfl

/-- What is decoded from the bits of a word, most significant first: the symbol at its place among
all words. The bits read before them are `word`. -/
theorem Code.decodeFrom_word (symbols : Array Nat) (before : Nat) {counts : List Nat}
    {n value first : Nat} (hfirst : (firstWords counts (2 * first)).getD n 0 ≤ value)
    (hlast : value < (firstWords counts (2 * first)).getD n 0 + counts.getD n 0)
    (rest : List Bool) :
    decodeFrom symbols counts (value / Nat.pow 2 (n + 1)) first before
        (.ofBits ((bitsOf (n + 1) value).reverse ++ rest)) =
      .symbol (symbols.getD (before + wordsBefore counts n +
        (value - (firstWords counts (2 * first)).getD n 0)) 0) (.ofBits rest) := by
  induction counts generalizing n first before with
  | nil =>
    rw [List.getD_nil] at hlast
    omega
  | cons k counts ih =>
    have hword : 2 * (value / Nat.pow 2 (n + 1)) + (decide (value / Nat.pow 2 n % 2 = 1)).toNat =
        value / Nat.pow 2 n := by
      have hdiv : value / Nat.pow 2 (n + 1) = value / Nat.pow 2 n / 2 := by
        rw [two_pow_succ, Nat.mul_comm, Nat.div_div_eq_div_mul]
      rw [toNat_decide_odd, hdiv]
      omega
    rw [bitsOf_succ, List.reverse_append, List.reverse_singleton, List.singleton_append,
      List.cons_append, decodeFrom, BitReader.bit?_ofBits]
    dsimp only
    rw [hword]
    cases n with
    | zero =>
      have hvalue : value / Nat.pow 2 0 = value := Nat.div_one value
      have hlast : value < 2 * first + k := hlast
      rw [hvalue, if_pos hlast]
      rfl
    | succ n =>
      -- the bits so far are beyond the words of their length
      have hfirst : (firstWords counts (2 * (2 * first + k))).getD n 0 ≤ value := hfirst
      have hlast : value < (firstWords counts (2 * (2 * first + k))).getD n 0 + counts.getD n 0 :=
        hlast
      have hn : n < counts.length := by
        by_contra hout
        rw [List.getD_eq_default _ _ (by rw [length_firstWords]; omega),
          List.getD_eq_default _ _ (by omega)] at hlast
        omega
      have hbeyond : 2 * first + k ≤ value / Nat.pow 2 (n + 1) := by
        have hle := le_getD_firstWords (2 * (2 * first + k)) hn
        rw [Nat.le_div_iff_mul_le (two_pow_pos _), two_pow_succ]
        calc (2 * first + k) * (2 * Nat.pow 2 n)
          _ = Nat.pow 2 n * (2 * (2 * first + k)) := by
            rw [Nat.mul_comm, Nat.mul_right_comm, Nat.mul_comm]
          _ ≤ value := Nat.le_trans hle hfirst
      rw [if_neg (Nat.not_lt.2 hbeyond), ih _ hfirst hlast]
      rw [wordsBefore_succ, ← Nat.add_assoc]
      rfl

/-! ### Lengths and their symbols -/

theorem le_foldl_max {x : Nat} {xs : List Nat} (h : x ∈ xs) : x ≤ xs.foldl max 0 := by
  have hmono : ∀ (ys : List Nat) (a : Nat), a ≤ ys.foldl max a := by
    intro ys
    induction ys with
    | nil => exact fun a => Nat.le_refl a
    | cons y ys ih => exact fun a => Nat.le_trans (Nat.le_max_left a y) (ih (max a y))
  suffices ∀ a, x ≤ xs.foldl max a from this 0
  induction xs with
  | nil => simp at h
  | cons y ys ih =>
    intro a
    rcases List.mem_cons.1 h with rfl | h
    · exact Nat.le_trans (Nat.le_max_right a x) (hmono ys _)
    · exact ih h (max a y)

namespace Code

variable {lengths : List Nat} {s n : Nat}

theorem length_countsOf (lengths : List Nat) :
    (countsOf lengths).length = lengths.foldl max 0 := by
  rw [countsOf, List.length_map, List.length_range]

theorem lt_length_countsOf (h : lengths[s]? = some (n + 1)) : n < (countsOf lengths).length := by
  rw [length_countsOf]
  exact le_foldl_max (List.mem_of_getElem? h)

theorem getD_countsOf (h : n < (countsOf lengths).length) :
    (countsOf lengths).getD n 0 = lengths.count (n + 1) := by
  rw [List.getD_eq_getElem _ _ h]
  simp only [countsOf, List.getElem_map, List.getElem_range]

/-- The symbols with the words of a length, in their order. -/
def symbolsOf (lengths : List Nat) (length : Nat) : List Nat :=
  (lengths.zipIdx.filter fun (l, _) => l = length).map Prod.snd

theorem length_symbolsOf (lengths : List Nat) (length : Nat) :
    (symbolsOf lengths length).length = lengths.count length := by
  rw [symbolsOf, List.length_map, ← List.countP_eq_length_filter]
  have hlengths : lengths = lengths.zipIdx.map Prod.fst := (List.zipIdx_map_fst 0 lengths).symm
  conv => rhs; rw [hlengths, List.count, List.countP_map]
  exact List.countP_congr fun p _ => by simp

theorem getElem?_symbolsOf {length : Nat} (h : lengths[s]? = some length) :
    (symbolsOf lengths length)[(lengths.take s).count length]? = some s := by
  suffices ∀ start, (((lengths.zipIdx start).filter fun p => p.1 = length).map
      Prod.snd)[(lengths.take s).count length]? = some (start + s) by
    have := this 0
    rwa [Nat.zero_add] at this
  induction lengths generalizing s with
  | nil => simp at h
  | cons l lengths ih =>
    intro start
    cases s with
    | zero =>
      obtain rfl : l = length := Option.some.inj h
      simp
    | succ s =>
      have hrest := ih h (start + 1)
      rw [List.zipIdx_cons, List.take_succ_cons, List.filter_cons]
      by_cases hl : l = length
      · rw [if_pos (by simpa using hl), hl, List.count_cons_self, List.map_cons,
          List.getElem?_cons_succ, hrest]
        congr 1
        omega
      · rw [if_neg (by simpa using hl), List.count_cons_of_ne hl, hrest]
        congr 1
        omega

/-- The symbols stand in the order of their words. -/
theorem getElem?_symbols (h : lengths[s]? = some (n + 1)) :
    (ofLengths lengths).symbols.toList[wordsBefore (countsOf lengths) n +
      (lengths.take s).count (n + 1)]? = some s := by
  have hn := lt_length_countsOf h
  rw [length_countsOf] at hn
  obtain ⟨k, hk⟩ : ∃ k, lengths.foldl max 0 = n + (k + 1) := ⟨lengths.foldl max 0 - n - 1, by omega⟩
  have hsymbols : (ofLengths lengths).symbols.toList =
      (List.range (lengths.foldl max 0)).flatMap fun i => symbolsOf lengths (i + 1) := rfl
  have hbefore : ((List.range n).flatMap fun i => symbolsOf lengths (i + 1)).length =
      wordsBefore (countsOf lengths) n := by
    have htake : (countsOf lengths).take n =
        (List.range n).map fun i => lengths.count (i + 1) := by
      rw [countsOf, ← List.map_take, List.take_range, Nat.min_eq_left (by omega)]
    rw [List.length_flatMap, wordsBefore, htake]
    simp only [length_symbolsOf]
    rfl
  have hhere := getElem?_symbolsOf h
  obtain ⟨hlt, -⟩ := List.getElem?_eq_some_iff.1 hhere
  rw [hsymbols, hk, List.range_add, List.flatMap_append,
    List.getElem?_append_right (by omega), hbefore, Nat.add_sub_cancel_left,
    List.range_succ_eq_map, List.map_cons, List.flatMap_cons,
    List.getElem?_append_left hlt]
  exact hhere

end Code

/-! ### Words -/

/-- A symbol has a word in the code with the given lengths. -/
def HasWord (lengths : List Nat) (s : Nat) : Prop := ∃ n, lengths[s]? = some (n + 1)

/-- There are not more words of any length than the shorter ones leave. -/
def IsCode (lengths : List Nat) : Prop :=
  (Code.unused? (Code.countsOf lengths) 1).isSome = true

namespace Words

variable {lengths : List Nat} {s n : Nat}

theorem getElem?_wordsFrom {next : List Nat} (h : lengths[s]? = some (n + 1))
    (hn : n < next.length) :
    (wordsFrom lengths next)[s]? = some ⟨n + 1, reverseBits (n + 1)
      (next.getD n 0 + (lengths.take s).count (n + 1))⟩ := by
  induction lengths generalizing s next with
  | nil => simp at h
  | cons l lengths ih =>
    cases s with
    | zero =>
      obtain rfl : l = n + 1 := Option.some.inj h
      rfl
    | succ s =>
      have h : lengths[s]? = some (n + 1) := h
      cases l with
      | zero =>
        rw [wordsFrom, List.getElem?_cons_succ, ih h hn, List.take_succ_cons,
          List.count_cons_of_ne (Nat.zero_ne_add_one n)]
      | succ l =>
        rw [wordsFrom, List.getElem?_cons_succ, ih h (by rwa [List.length_modify]),
          List.take_succ_cons]
        rw [List.getD_eq_getElem?_getD, List.getElem?_modify, List.getD_eq_getElem?_getD,
          List.getElem?_eq_getElem hn]
        by_cases hl : l = n
        · rw [hl, List.count_cons_self]
          simp only [if_true, Option.map_eq_map, Option.map_some, Option.getD_some]
          rw [Nat.add_assoc, Nat.add_comm 1]
        · rw [List.count_cons_of_ne (by omega)]
          simp [hl]

/-- The number that is the word of a symbol. -/
def numberAt (lengths : List Nat) (s n : Nat) : Nat :=
  (firstWords (Code.countsOf lengths) 0).getD n 0 + (lengths.take s).count (n + 1)

theorem get_ofLengths (h : lengths[s]? = some (n + 1)) :
    (ofLengths lengths).get s = ⟨n + 1, reverseBits (n + 1) (numberAt lengths s n)⟩ := by
  have hn : n < (firstWords (Code.countsOf lengths) 0).length := by
    rw [length_firstWords]
    exact Code.lt_length_countsOf h
  rw [get, ofLengths, Array.getD_eq_getD_getElem?, List.getElem?_toArray,
    getElem?_wordsFrom h hn]
  rfl

/-- The bits of a symbol and its extra bits. -/
def bits (words : Words) (c : Coded) : List Bool :=
  bitsOf (words.get c.symbol).length (words.get c.symbol).reversed ++ bitsOf c.extraBits c.extra

@[simp]
theorem length_bits (words : Words) (c : Coded) : (words.bits c).length = words.size c := by
  rw [bits, List.length_append, length_bitsOf, length_bitsOf, size]

/-- A symbol with a word takes a bit at least. -/
theorem length_bits_pos {c : Coded} (h : HasWord lengths c.symbol) :
    0 < ((ofLengths lengths).bits c).length := by
  obtain ⟨n, hn⟩ := h
  rw [length_bits, size, get_ofLengths hn]
  exact Nat.add_pos_left (Nat.succ_pos n) _

/-- Writing a symbol adds its bits. -/
theorem adds_write {w : BitWriter} {c : Coded} (hw : w.Settled) (h : HasWord lengths c.symbol)
    (hextra : c.extra < Nat.pow 2 c.extraBits) :
    w.Adds ((ofLengths lengths).write c w) ((ofLengths lengths).bits c) := by
  obtain ⟨n, hn⟩ := h
  have hword : ((ofLengths lengths).get c.symbol).reversed <
      Nat.pow 2 ((ofLengths lengths).get c.symbol).length := by
    rw [get_ofLengths hn]
    exact reverseBits_lt _ _
  have hfirst := BitWriter.adds_bits hw hword
  exact hfirst.trans (BitWriter.adds_bits hfirst.settled hextra)

end Words

/-- A code with a word has words. -/
theorem Code.isEmpty_counts {lengths : List Nat} {s : Nat} (h : HasWord lengths s) :
    (ofLengths lengths).counts.isEmpty = false := by
  obtain ⟨n, hn⟩ := h
  rw [List.isEmpty_eq_false_iff_exists_mem]
  exact ⟨_, List.getElem_mem (lt_length_countsOf hn)⟩

/-- **Words are decoded**: a symbol that has a word in a code without too many is read back from the
bits that write it. -/
theorem Code.decode_word {lengths : List Nat} {c : Coded} (hcode : IsCode lengths)
    (hword : HasWord lengths c.symbol) (rest : List Bool) :
    (ofLengths lengths).decode (.ofBits ((Words.ofLengths lengths).bits c ++ rest)) =
      .symbol c.symbol (.ofBits (bitsOf c.extraBits c.extra ++ rest)) := by
  have hnonempty := isEmpty_counts hword
  obtain ⟨n, h⟩ := hword
  have hn := lt_length_countsOf h
  have hcount := getD_countsOf hn
  -- the word is the last one of its length at most, so that it fits
  have hbefore : (lengths.take c.symbol).count (n + 1) < lengths.count (n + 1) := by
    obtain ⟨hlt, hlength⟩ := List.getElem?_eq_some_iff.1 h
    conv => rhs; rw [← List.take_append_drop c.symbol lengths]
    rw [List.drop_eq_getElem_cons hlt, List.count_append, hlength, List.count_cons_self]
    omega
  have hfits : Words.numberAt lengths c.symbol n < Nat.pow 2 (n + 1) := by
    have hle : _ ≤ Nat.pow 2 (n + 1) * (0 + 1) := firstWords_add_le hcode hn
    rw [hcount, Nat.zero_add, Nat.mul_one] at hle
    rw [Words.numberAt]
    exact Nat.lt_of_lt_of_le (Nat.add_lt_add_left hbefore _) hle
  have hnothing : Words.numberAt lengths c.symbol n / Nat.pow 2 (n + 1) = 0 :=
    Nat.div_eq_of_lt hfits
  have hfirst : (firstWords (countsOf lengths) (2 * 0)).getD n 0 ≤
      Words.numberAt lengths c.symbol n := Nat.le_add_right _ _
  have hlast : Words.numberAt lengths c.symbol n <
      (firstWords (countsOf lengths) (2 * 0)).getD n 0 + (countsOf lengths).getD n 0 := by
    rw [hcount]
    exact Nat.add_lt_add_left hbefore _
  have hsymbol : (ofLengths lengths).symbols.getD (0 + wordsBefore (countsOf lengths) n +
      (Words.numberAt lengths c.symbol n -
        (firstWords (countsOf lengths) (2 * 0)).getD n 0)) 0 = c.symbol := by
    have hplace := getElem?_symbols h
    rw [Words.numberAt, Nat.mul_zero, Nat.add_sub_cancel_left, Nat.zero_add,
      Array.getD_eq_getD_getElem?, ← Array.getElem?_toList, hplace]
    rfl
  have hread := decodeFrom_word (ofLengths lengths).symbols 0 hfirst hlast
    (bitsOf c.extraBits c.extra ++ rest)
  rw [hnothing, hsymbol] at hread
  rw [decode, hnonempty, Words.bits, Words.get_ofLengths h, bitsOf_reverseBits,
    List.append_assoc]
  exact hread

end Jarsmith.Deflate
