import Jarsmith.Proofs.Deflate.Preamble
import Jarsmith.Proofs.Deflate.Token

/-!
# The codes of a block have words for its tokens

The fixed codes have words for all symbols (`covers_fixed`). None of them has more than nine bits,
so that a token takes no more than 32 bits (`size_fixed_le`), which bounds the bytes of a block that
is stored because that is shorter.

The codes that are made for tokens are complete, and so can be told (`isTold_ofTokens`). Every
symbol of the tokens was counted, and so has a word (`covers_ofTokens`).
-/

namespace Jarsmith.Deflate

variable {lengths : List Nat} {tokens : List Token} {t : Token} {output after : Array UInt8}

/-! ### The fixed codes -/

/-- In a code without zeros all symbols have words. -/
theorem HasWord.of_pos {s : Nat} (hs : s < lengths.length) (h : ∀ l ∈ lengths, 0 < l) :
    HasWord lengths s := by
  have hpos : 0 < lengths[s] := h _ (List.getElem_mem hs)
  exact ⟨lengths[s] - 1, by rw [List.getElem?_eq_getElem hs, Nat.sub_add_cancel hpos]⟩

theorem length_get_le {s bound : Nat} (hs : HasWord lengths s) (h : ∀ l ∈ lengths, l ≤ bound) :
    ((Words.ofLengths lengths).get s).length ≤ bound := by
  obtain ⟨n, hn⟩ := hs
  rw [Words.get_ofLengths hn]
  exact h _ (List.mem_of_getElem? hn)

theorem mem_fixedLengthBits {l : Nat} (hl : l ∈ fixedLengthBits) : 0 < l ∧ l ≤ 9 := by
  simp only [fixedLengthBits, List.mem_append, List.mem_replicate] at hl
  omega

theorem mem_fixedDistanceBits {l : Nat} (hl : l ∈ fixedDistanceBits) : l = 5 :=
  (List.mem_replicate.1 hl).2

theorem length_fixedLengthBits : fixedLengthBits.length = 288 := by
  simp only [fixedLengthBits, List.length_append, List.length_replicate]

theorem hasWord_fixedLengthBits {s : Nat} (hs : s < 288) : HasWord fixedLengthBits s :=
  .of_pos (by rwa [length_fixedLengthBits]) fun _ hl => (mem_fixedLengthBits hl).1

theorem hasWord_fixedDistanceBits {s : Nat} (hs : s < 32) : HasWord fixedDistanceBits s :=
  .of_pos (by rwa [fixedDistanceBits, List.length_replicate]) fun _ hl => by
    rw [mem_fixedDistanceBits hl]
    decide

theorem isCode_fixedLengthBits : IsCode fixedLengthBits := by
  rw [IsCode]
  decide +kernel

theorem isCode_fixedDistanceBits : IsCode fixedDistanceBits := by
  rw [IsCode]
  decide +kernel

/-- The fixed codes have words for all tokens that may stand somewhere. -/
theorem covers_fixed (h : Describes tokens output after) : CodePair.fixed.Covers tokens where
  lengths := isCode_fixedLengthBits
  distances := isCode_fixedDistanceBits
  ending := hasWord_fixedLengthBits (by decide)
  first t ht := by
    obtain ⟨_, hvalid⟩ := h.exists_isValid ht
    exact hasWord_fixedLengthBits (Nat.lt_trans (Token.first_fits hvalid).1 (by decide))
  second t ht d hd := by
    obtain ⟨_, hvalid⟩ := h.exists_isValid ht
    exact hasWord_fixedDistanceBits (Nat.lt_trans (Token.second?_fits hvalid hd).1 (by decide))

theorem extraBits_ofTable_le {table : Array (Nat × Nat)} {bound : Nat} (value : Nat)
    (h : ∀ entry ∈ table.toList, entry.2 ≤ bound) :
    (Coded.ofTable table value).extraBits ≤ bound := by
  have hentry : (Coded.ofTable table value).extraBits =
      (table.getD (Coded.ofTable table value).symbol (0, 0)).2 := rfl
  rw [hentry, Array.getD_eq_getD_getElem?, ← Array.getElem?_toList]
  cases hs : table.toList[(Coded.ofTable table value).symbol]? with
  | none => exact Nat.zero_le _
  | some entry => exact h entry (List.mem_of_getElem? hs)

theorem tokenSize_fixed_le {size : Nat} (h : t.IsValid size) :
    (WordPair.ofCodes .fixed).tokenSize t ≤ 32 := by
  have hword : ((Words.ofLengths fixedLengthBits).get t.first.symbol).length ≤ 9 :=
    length_get_le (hasWord_fixedLengthBits (Nat.lt_trans (Token.first_fits h).1 (by decide)))
      fun _ hl => (mem_fixedLengthBits hl).2
  show ((Words.ofLengths fixedLengthBits).get t.first.symbol).length + t.first.extraBits +
    (t.second?.map (Words.ofLengths fixedDistanceBits).size).getD 0 ≤ 32
  cases t with
  | literal byte =>
    show _ + 0 + 0 ≤ 32
    omega
  | copied length distance =>
    have hextra : (Coded.ofTable lengthTable length).extraBits ≤ 5 :=
      extraBits_ofTable_le length (by decide)
    have hextra' : (Coded.ofTable distanceTable distance).extraBits ≤ 13 :=
      extraBits_ofTable_le distance (by decide)
    have hdistance := (Token.second?_fits h rfl).1
    have hword' : ((Words.ofLengths fixedDistanceBits).get
        (Coded.ofTable distanceTable distance).symbol).length ≤ 5 :=
      length_get_le (hasWord_fixedDistanceBits (Nat.lt_trans hdistance (by decide)))
        fun _ hl => Nat.le_of_eq (mem_fixedDistanceBits hl)
    show _ + (Coded.ofTable lengthTable length).extraBits +
      (((Words.ofLengths fixedDistanceBits).get _).length +
        (Coded.ofTable distanceTable distance).extraBits) ≤ 32
    omega

/-- In the fixed codes tokens take 32 bits each at most. -/
theorem size_fixed_le (h : Describes tokens output after) :
    (WordPair.ofCodes .fixed).size tokens ≤ 9 + 32 * tokens.length := by
  have hend : ((Words.ofLengths fixedLengthBits).get endSymbol).length ≤ 9 :=
    length_get_le (hasWord_fixedLengthBits (by decide)) fun _ hl => (mem_fixedLengthBits hl).2
  -- the sum starts from the end of the block, so it is bounded from any start
  suffices ∀ start, tokens.foldl (fun n t => n + (WordPair.ofCodes .fixed).tokenSize t) start ≤
      start + 32 * tokens.length from
    Nat.le_trans (this _) (Nat.add_le_add_right hend _)
  induction h with
  | nil => exact fun start => Nat.le_refl start
  | cons ht _ ih =>
    intro start
    have hfirst := tokenSize_fixed_le ht
    rw [List.foldl_cons, List.length_cons]
    refine Nat.le_trans (ih _) ?_
    omega

/-! ### The codes made for tokens -/

/-- The end of a block and the bytes and lengths of tokens. -/
def firstSymbols (tokens : List Token) : List Nat :=
  endSymbol :: tokens.map fun t => t.first.symbol

/-- The distances of tokens. -/
def secondSymbols (tokens : List Token) : List Nat :=
  tokens.filterMap fun t => t.second?.map Coded.symbol

/-- The codes made for tokens are the best ones for these symbols, up to the last word. -/
theorem withoutZeros_optimalLengths (count : Nat) (symbols : List Nat) (hcount : 3 ≤ count)
    (hroom : count ≤ 32768) :
    IsComplete 15 (withoutZeros (optimalLengths 15 (tally count symbols))) ∧
      (withoutZeros (optimalLengths 15 (tally count symbols))).length ≤ count ∧
      ∀ s ∈ symbols, s < count →
        HasWord (withoutZeros (optimalLengths 15 (tally count symbols))) s := by
  obtain ⟨hlength, hcomplete, hwords⟩ :=
    optimalLengths_tally symbols (show 0 < 15 by decide) hcount hroom
  refine ⟨hcomplete.withoutZeros, ?_, fun s hs hlt => (hwords s hs hlt).withoutZeros⟩
  exact Nat.le_trans (length_withoutZeros_le _) (Nat.le_of_eq hlength)

/-- The codes made for tokens can be told. -/
theorem isTold_ofTokens (tokens : List Token) : (CodePair.ofTokens tokens).IsTold := by
  obtain ⟨hlengths, hlengthCount, hwords⟩ :=
    withoutZeros_optimalLengths 286 (firstSymbols tokens) (by decide) (by decide)
  obtain ⟨hdistances, hdistanceCount, -⟩ :=
    withoutZeros_optimalLengths 30 (secondSymbols tokens) (by decide) (by decide)
  exact ⟨hlengths, hdistances, hwords endSymbol List.mem_cons_self (by decide), hlengthCount,
    hdistanceCount⟩

/-- The codes made for tokens have words for them. -/
theorem covers_ofTokens (h : Describes tokens output after) :
    (CodePair.ofTokens tokens).Covers tokens := by
  obtain ⟨hlengths, -, hfirst⟩ :=
    withoutZeros_optimalLengths 286 (firstSymbols tokens) (by decide) (by decide)
  obtain ⟨hdistances, -, hsecond⟩ :=
    withoutZeros_optimalLengths 30 (secondSymbols tokens) (by decide) (by decide)
  refine ⟨hlengths.isCode, hdistances.isCode, hfirst endSymbol List.mem_cons_self (by decide),
    fun t ht => ?_, fun t ht d hd => ?_⟩
  · obtain ⟨_, hvalid⟩ := h.exists_isValid ht
    exact hfirst _ (List.mem_cons_of_mem _ (List.mem_map_of_mem ht)) (Token.first_fits hvalid).1
  · obtain ⟨_, hvalid⟩ := h.exists_isValid ht
    have hmem : d.symbol ∈ secondSymbols tokens := by
      refine List.mem_filterMap.2 ⟨t, ht, ?_⟩
      rw [Option.mem_def.1 hd]
      rfl
    exact hsecond _ hmem (Token.second?_fits hvalid hd).1

end Jarsmith.Deflate
