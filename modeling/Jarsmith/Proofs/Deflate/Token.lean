import Mathlib.Data.List.Chain
import Mathlib.Data.List.TakeWhile
import Jarsmith.Deflate.Block
import Jarsmith.Proofs.Deflate.Words

/-!
# Tokens are read back

A token adds bytes to those before it (`Token.expand`), and tokens that may stand there describe
what follows (`Describes`). A number is written as the last entry of a table that does not exceed it
and the difference, which fits the extra bits since the next entry is not farther away
(`Coded.ofTable_spec`). So **`symbols_bits`**: in codes that have words for them, the symbols of a
block are read as its tokens, each of which adds its bytes again.
-/

namespace Jarsmith.Deflate

/-! ### What tokens stand for -/

namespace Token

/-- The bytes after a token. -/
def expand (output : Array UInt8) : Token → Array UInt8
  | literal byte => output.push byte
  | copied length distance => copyMatch length distance output

/-- A token may stand after `size` bytes. -/
def IsValid (size : Nat) : Token → Prop
  | literal _ => True
  | copied length distance =>
    (3 ≤ length ∧ length ≤ 258) ∧ (1 ≤ distance ∧ distance ≤ 32768) ∧ distance ≤ size

/-- A token adds as many bytes as it stands for. -/
theorem exists_expand (t : Token) (output : Array UInt8) :
    ∃ added : Bytes, t.expand output = output ++ added.toArray ∧ added.length = t.size := by
  have hcopied : ∀ (length distance : Nat) (output : Array UInt8), ∃ added : Bytes,
      copyMatch length distance output = output ++ added.toArray ∧ added.length = length := by
    intro length distance
    induction length with
    | zero => exact fun output => ⟨[], Array.append_empty.symm, rfl⟩
    | succ length ih =>
      intro output
      obtain ⟨added, hadded, hlength⟩ :=
        ih (output.push (output.getD (output.size - distance) 0))
      refine ⟨output.getD (output.size - distance) 0 :: added, ?_, congrArg (· + 1) hlength⟩
      rw [copyMatch, hadded]
      simp
  cases t with
  | literal byte => exact ⟨[byte], by simp [expand], rfl⟩
  | copied length distance => exact hcopied length distance output

end Token

/-- After the bytes `output`, the tokens may stand, and give the bytes `after`. -/
inductive Describes : List Token → (output after : Array UInt8) → Prop where
  | nil {output : Array UInt8} : Describes [] output output
  | cons {t : Token} {tokens : List Token} {output after : Array UInt8}
      (ht : t.IsValid output.size) (h : Describes tokens (t.expand output) after) :
      Describes (t :: tokens) output after

namespace Describes

variable {as bs tokens : List Token} {output between after : Array UInt8} {t : Token}

theorem append (h₁ : Describes as output between) (h₂ : Describes bs between after) :
    Describes (as ++ bs) output after := by
  induction h₁ with
  | nil => exact h₂
  | cons ht _ ih => exact .cons ht (ih h₂)

theorem concat (h : Describes tokens output after) (ht : t.IsValid after.size) :
    Describes (tokens ++ [t]) output (t.expand after) := h.append (.cons ht .nil)

/-- Tokens that are taken apart describe what is between. -/
theorem of_append (h : Describes (as ++ bs) output after) :
    ∃ between, Describes as output between ∧ Describes bs between after := by
  induction as generalizing output with
  | nil => exact ⟨output, .nil, h⟩
  | cons t as ih =>
    cases h with
    | cons ht h =>
      obtain ⟨between, has, hbs⟩ := ih h
      exact ⟨between, .cons ht has, hbs⟩

theorem exists_isValid (h : Describes tokens output after) (ht : t ∈ tokens) :
    ∃ size, t.IsValid size := by
  induction h with
  | nil => simp at ht
  | cons hfirst _ ih =>
    rcases List.mem_cons.1 ht with rfl | ht
    · exact ⟨_, hfirst⟩
    · exact ih ht

theorem exists_added (h : Describes tokens output after) :
    ∃ added : Bytes, after = output ++ added.toArray ∧
      added.length = tokens.foldr (fun t n => t.size + n) 0 := by
  induction h with
  | nil => exact ⟨[], Array.append_empty.symm, rfl⟩
  | @cons t tokens output after _ _ ih =>
    obtain ⟨first, hfirst, hsize⟩ := t.exists_expand output
    obtain ⟨added, hadded, hlength⟩ := ih
    refine ⟨first ++ added, ?_, ?_⟩
    · rw [hadded, hfirst]
      simp
    · rw [List.length_append, List.foldr_cons, hsize, hlength]

end Describes

/-! ### Numbers in tables -/

/-- An entry of a table reaches up to the next one. -/
def Reaches (a b : Nat × Nat) : Prop := b.1 ≤ a.1 + Nat.pow 2 a.2

instance (a b : Nat × Nat) : Decidable (Reaches a b) :=
  inferInstanceAs (Decidable (b.1 ≤ a.1 + Nat.pow 2 a.2))

/-- A number is the last entry that does not exceed it, and a difference that fits its bits. The
table is closed by an entry beyond all numbers. -/
theorem Coded.ofTable_spec {table : Array (Nat × Nat)} {value bound : Nat} {first : Nat × Nat}
    (hfirst : table[0]? = some first) (hleast : first.1 ≤ value) (hvalue : value < bound)
    (hchain : (table.toList ++ [(bound, 0)]).IsChain Reaches) :
    ∃ entry, table[(ofTable table value).symbol]? = some entry ∧
      (ofTable table value).extraBits = entry.2 ∧
      (ofTable table value).extra < Nat.pow 2 entry.2 ∧
      entry.1 + (ofTable table value).extra = value := by
  have hsplit : table.toList = table.toList.takeWhile (fun entry => entry.1 ≤ value) ++
      table.toList.dropWhile (fun entry => entry.1 ≤ value) :=
    List.takeWhile_append_dropWhile.symm
  have hne : table.toList.takeWhile (fun entry => entry.1 ≤ value) ≠ [] := by
    have hhead : table.toList.head? = some first := by
      rw [List.head?_eq_getElem?, Array.getElem?_toList, hfirst]
    obtain ⟨rest, hrest⟩ := List.head?_eq_some_iff.1 hhead
    rw [hrest, List.takeWhile_cons_of_pos (by simpa using hleast)]
    exact List.cons_ne_nil _ _
  obtain ⟨before, entry, hbefore⟩ : ∃ before entry,
      table.toList.takeWhile (fun entry => entry.1 ≤ value) = before ++ [entry] :=
    ⟨_, _, (List.dropLast_append_getLast hne).symm⟩
  have hle : entry.1 ≤ value := by
    have hmem : entry ∈ table.toList.takeWhile (fun entry => entry.1 ≤ value) := by
      rw [hbefore]
      exact List.mem_append_right _ (List.mem_singleton_self _)
    simpa using List.mem_takeWhile_imp hmem
  -- the next entry is too large
  have hlt : value < entry.1 + Nat.pow 2 entry.2 := by
    rw [hsplit, hbefore, List.append_assoc, List.append_assoc] at hchain
    have hrest := (List.isChain_append.1 hchain).2.1
    cases hdrop : table.toList.dropWhile (fun entry => entry.1 ≤ value) with
    | nil =>
      rw [hdrop] at hrest
      have hreach : bound ≤ entry.1 + Nat.pow 2 entry.2 :=
        (List.isChain_cons_cons.1 hrest).1
      omega
    | cons next rest =>
      rw [hdrop] at hrest
      have hreach : next.1 ≤ entry.1 + Nat.pow 2 entry.2 := (List.isChain_cons_cons.1 hrest).1
      have hnext := List.head?_dropWhile_not (fun entry : Nat × Nat => entry.1 ≤ value) table.toList
      rw [hdrop, List.head?_cons] at hnext
      simp only [decide_eq_false_iff_not] at hnext
      omega
  have hsymbol : table[(ofTable table value).symbol]? = some entry := by
    have hplace : (ofTable table value).symbol = before.length := by
      show (table.toList.takeWhile fun entry => entry.1 ≤ value).length - 1 = before.length
      rw [hbefore, List.length_append, List.length_singleton, Nat.add_sub_cancel]
    rw [hplace, ← Array.getElem?_toList, hsplit, hbefore, List.append_assoc,
      List.getElem?_append_right (Nat.le_refl _), Nat.sub_self]
    rfl
  have hentry : table.getD (ofTable table value).symbol (0, 0) = entry := by
    rw [Array.getD_eq_getD_getElem?, hsymbol, Option.getD_some]
  have hextra : (ofTable table value).extra = value - entry.1 := by
    rw [← hentry]
    rfl
  refine ⟨entry, hsymbol, ?_, by omega, by omega⟩
  rw [← hentry]
  rfl

theorem isChain_lengthTable : (lengthTable.toList ++ [(259, 0)]).IsChain Reaches := by decide

theorem isChain_distanceTable : (distanceTable.toList ++ [(32769, 0)]).IsChain Reaches := by decide

namespace Token

variable {t : Token} {size : Nat}

/-- The symbol of a byte or length is one of the code's, and its extra bits fit. -/
theorem first_fits (h : t.IsValid size) :
    t.first.symbol < 286 ∧ t.first.extra < Nat.pow 2 t.first.extraBits := by
  cases t with
  | literal byte => exact ⟨Nat.lt_trans byte.toNat_lt (by decide), Nat.one_pos⟩
  | copied length distance =>
    obtain ⟨⟨hleast, hmost⟩, -, -⟩ := h
    obtain ⟨entry, hentry, hbits, hextra, -⟩ :=
      Coded.ofTable_spec rfl hleast (Nat.lt_succ_of_le hmost) isChain_lengthTable
    have hsymbol : (Coded.ofTable lengthTable length).symbol < 29 :=
      (Array.getElem?_eq_some_iff.1 hentry).1
    exact ⟨Nat.add_lt_add_right hsymbol 257, hbits ▸ hextra⟩

/-- The symbol of a distance is one of the code's, and its extra bits fit. -/
theorem second?_fits {c : Coded} (h : t.IsValid size) (hc : c ∈ t.second?) :
    c.symbol < 30 ∧ c.extra < Nat.pow 2 c.extraBits := by
  cases t with
  | literal byte => simp [second?] at hc
  | copied length distance =>
    obtain rfl := Option.some.inj hc
    obtain ⟨-, ⟨hleast, hmost⟩, -⟩ := h
    obtain ⟨entry, hentry, hbits, hextra, -⟩ :=
      Coded.ofTable_spec rfl hleast (Nat.lt_succ_of_le hmost) isChain_distanceTable
    exact ⟨(Array.getElem?_eq_some_iff.1 hentry).1, hbits ▸ hextra⟩

end Token

/-! ### Reading symbols

The equation of `symbols` for one symbol is too deep to be rewritten with, so the left side is
unfolded by evaluation. -/

section Symbols

variable {lengths distances : Code} {r r₁ r₂ r₃ r₄ : BitReader} {output : Array UInt8}
  {fuel s d length distance : Nat} {entry entry' : Nat × Nat}

theorem symbols_byte (hs : lengths.decode r = .symbol s r₁) (hbyte : s < 256) :
    symbols lengths distances (fuel + 1) r output =
      symbols lengths distances fuel r₁ (output.push s.toUInt8) := by
  conv => lhs; whnf
  rw [hs]
  exact if_pos hbyte

theorem symbols_end (hs : lengths.decode r = .symbol endSymbol r₁) :
    symbols lengths distances (fuel + 1) r output = .next r₁ output := by
  conv => lhs; whnf
  rw [hs]
  rfl

theorem symbols_copied (hs : lengths.decode r = .symbol (s + 257) r₁)
    (hentry : lengthTable[s]? = some entry) (hlength : extended? entry r₁ = some (length, r₂))
    (hd : distances.decode r₂ = .symbol d r₃) (hentry' : distanceTable[d]? = some entry')
    (hdistance : extended? entry' r₃ = some (distance, r₄)) (hsize : distance ≤ output.size) :
    symbols lengths distances (fuel + 1) r output =
      symbols lengths distances fuel r₄ (copyMatch length distance output) := by
  conv => lhs; whnf
  rw [hs]
  dsimp only
  rw [if_neg (by omega), if_neg (by omega), Nat.add_sub_cancel, hentry]
  dsimp only
  rw [hlength]
  dsimp only
  rw [hd]
  dsimp only
  rw [hentry']
  dsimp only
  rw [hdistance]
  exact if_neg (Nat.not_lt.2 hsize)

end Symbols

theorem extended?_bitsOf {entry : Nat × Nat} {extra : Nat} (h : extra < Nat.pow 2 entry.2)
    (rest : List Bool) :
    extended? entry (.ofBits (bitsOf entry.2 extra ++ rest)) =
      some (entry.1 + extra, .ofBits rest) := by
  rw [extended?, BitReader.bits?_bitsOf h]
  rfl

/-! ### Blocks of symbols -/

/-- The codes have words for the tokens and for the end of the block. -/
structure CodePair.Covers (c : CodePair) (tokens : List Token) : Prop where
  lengths : IsCode c.lengths
  distances : IsCode c.distances
  ending : HasWord c.lengths endSymbol
  first : ∀ t ∈ tokens, HasWord c.lengths t.first.symbol
  second : ∀ t ∈ tokens, ∀ d ∈ t.second?, HasWord c.distances d.symbol

theorem CodePair.Covers.tail {c : CodePair} {t : Token} {tokens : List Token}
    (h : c.Covers (t :: tokens)) : c.Covers tokens :=
  { h with
    first := (List.forall_mem_cons.1 h.first).2
    second := (List.forall_mem_cons.1 h.second).2 }

namespace WordPair

variable {c : CodePair} {t : Token} {tokens : List Token} {w : BitWriter}
  {output after : Array UInt8} {fuel : Nat}

/-- The bits of a token. -/
def tokenBits (p : WordPair) (t : Token) : List Bool :=
  p.lengths.bits t.first ++ (t.second?.map p.distances.bits).getD []

/-- The bits of tokens and the end of the block. -/
def bits (p : WordPair) (tokens : List Token) : List Bool :=
  tokens.flatMap p.tokenBits ++ p.lengths.bits ⟨endSymbol, 0, 0⟩

theorem adds_writeToken (hw : w.Settled) (hcovers : c.Covers (t :: tokens))
    (ht : t.IsValid output.size) :
    w.Adds ((ofCodes c).writeToken w t) ((ofCodes c).tokenBits t) := by
  have hmem : t ∈ t :: tokens := List.mem_cons_self
  have hfirst := Words.adds_write hw (hcovers.first t hmem) (Token.first_fits ht).2
  unfold writeToken tokenBits
  dsimp only
  split
  · next hnone =>
    rw [hnone, Option.map_none, Option.getD_none, List.append_nil]
    exact hfirst
  · next d hd =>
    rw [hd, Option.map_some, Option.getD_some]
    exact hfirst.trans (Words.adds_write hfirst.settled (hcovers.second t hmem d hd)
      (Token.second?_fits ht hd).2)

/-- Writing tokens adds their bits. -/
theorem adds_write (hw : w.Settled) (hcovers : c.Covers tokens)
    (h : Describes tokens output after) :
    w.Adds ((ofCodes c).write tokens w) ((ofCodes c).bits tokens) := by
  suffices w.Adds (tokens.foldl (ofCodes c).writeToken w)
      (tokens.flatMap (ofCodes c).tokenBits) from
    this.trans (Words.adds_write this.settled hcovers.ending Nat.one_pos)
  induction h generalizing w with
  | nil => exact .refl hw
  | cons ht h ih =>
    have hfirst := adds_writeToken hw hcovers ht
    exact hfirst.trans (ih hfirst.settled hcovers.tail)

/-- The symbols of a token are read, and add its bytes. -/
theorem symbols_tokenBits (hcovers : c.Covers (t :: tokens)) (ht : t.IsValid output.size)
    (rest : List Bool) :
    symbols (.ofLengths c.lengths) (.ofLengths c.distances) (fuel + 1)
        (.ofBits ((ofCodes c).tokenBits t ++ rest)) output =
      symbols (.ofLengths c.lengths) (.ofLengths c.distances) fuel (.ofBits rest)
        (t.expand output) := by
  have hfirst := Code.decode_word hcovers.lengths (hcovers.first t List.mem_cons_self)
  have hsecond := hcovers.second t List.mem_cons_self
  rw [tokenBits, List.append_assoc]
  cases t with
  | literal byte =>
    refine (symbols_byte (hfirst _) byte.toNat_lt).trans ?_
    exact congrArg (fun b => symbols _ _ fuel _ (output.push b)) UInt8.ofNat_toNat
  | copied length distance =>
    obtain ⟨⟨hleast, hmost⟩, ⟨hnear, hfar⟩, hsize⟩ := ht
    obtain ⟨entry, hentry, hbits, hextra, hlength⟩ :=
      Coded.ofTable_spec rfl hleast (Nat.lt_succ_of_le hmost) isChain_lengthTable
    obtain ⟨entry', hentry', hbits', hextra', hdistance⟩ :=
      Coded.ofTable_spec rfl hnear (Nat.lt_succ_of_le hfar) isChain_distanceTable
    -- length and distance are read each from a symbol and its extra bits
    have hread := extended?_bitsOf hextra
    have hread' := extended?_bitsOf hextra' rest
    rw [← hbits, hlength] at hread
    rw [← hbits', hdistance] at hread'
    exact symbols_copied (hfirst _) hentry (hread _)
      (Code.decode_word hcovers.distances (hsecond _ rfl) rest) hentry' hread' hsize

/-- **The symbols of a block** are read up to its end, and give the bytes that the tokens
describe. -/
theorem symbols_bits (hcovers : c.Covers tokens) (h : Describes tokens output after)
    (hfuel : tokens.length < fuel) (rest : List Bool) :
    symbols (.ofLengths c.lengths) (.ofLengths c.distances) fuel
        (.ofBits ((ofCodes c).bits tokens ++ rest)) output = .next (.ofBits rest) after := by
  rw [bits, List.append_assoc]
  induction h generalizing fuel with
  | nil =>
    obtain ⟨fuel, rfl⟩ := Nat.exists_eq_succ_of_ne_zero (Nat.ne_of_gt hfuel)
    exact symbols_end (Code.decode_word hcovers.lengths hcovers.ending rest)
  | cons ht h ih =>
    obtain ⟨fuel, rfl⟩ := Nat.exists_eq_succ_of_ne_zero (Nat.ne_of_gt (Nat.zero_lt_of_lt hfuel))
    rw [List.flatMap_cons, List.append_assoc, Nat.succ_eq_add_one, symbols_tokenBits hcovers ht]
    exact ih hcovers.tail (Nat.lt_of_succ_lt_succ hfuel)

end WordPair

end Jarsmith.Deflate
