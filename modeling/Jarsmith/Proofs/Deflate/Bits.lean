import Jarsmith.Deflate.BitReader
import Jarsmith.Deflate.BitWriter

/-!
# Bits that are written and read

A writer stands for the bits that it was given (`BitWriter.toBits`), and each way to write adds some
(`BitWriter.Adds`). A reader that has not looked at a bit of its last byte is given by the bits that
it still has (`BitReader.ofBits`), so that reading a bit takes one from the front of a list
(`bit?_ofBits`).

What was written is read in the same order: the bytes of a writer are a reader of its bits and of
zeros up to the next byte (`ofBytes_toBytes`). Where whole bytes begin can be told from the number
of bits alone, since the bits of both end with a whole byte (`rest_ofBits`).
-/

namespace Jarsmith.Deflate

-- In the definitions powers stand as `Nat.pow 2 n`, and the library's lemmas are about `2 ^ n`.

theorem two_pow_succ (n : Nat) : Nat.pow 2 (n + 1) = 2 * Nat.pow 2 n := Nat.mul_comm _ _

theorem two_pow_add (m n : Nat) : Nat.pow 2 (m + n) = Nat.pow 2 m * Nat.pow 2 n := Nat.pow_add 2 m n

theorem two_pow_pos (n : Nat) : 0 < Nat.pow 2 n := Nat.two_pow_pos n

/-! ### The bits of a number -/

/-- The lowest `n` bits of a number, the least significant one first. -/
def bitsOf : (n value : Nat) → List Bool
  | 0, _ => []
  | n + 1, value => decide (value % 2 = 1) :: bitsOf n (value / 2)

/-- The number that bits write, the least significant one first. -/
def numberOf : List Bool → Nat
  | [] => 0
  | b :: bs => b.toNat + 2 * numberOf bs

@[simp]
theorem length_bitsOf (n value : Nat) : (bitsOf n value).length = n := by
  induction n generalizing value with
  | zero => rfl
  | succ n ih => rw [bitsOf, List.length_cons, ih]

theorem toNat_decide_odd (value : Nat) : (decide (value % 2 = 1)).toNat = value % 2 := by
  rcases Nat.mod_two_eq_zero_or_one value with h | h <;> rw [h] <;> rfl

theorem numberOf_bitsOf {n value : Nat} (h : value < Nat.pow 2 n) :
    numberOf (bitsOf n value) = value := by
  induction n generalizing value with
  | zero =>
    have hvalue : value < 1 := h
    show 0 = value
    omega
  | succ n ih =>
    rw [two_pow_succ] at h
    have hhalf : value / 2 < Nat.pow 2 n := by omega
    rw [bitsOf, numberOf, toNat_decide_odd, ih hhalf]
    omega

theorem bitsOf_numberOf (bs : List Bool) : bitsOf bs.length (numberOf bs) = bs := by
  induction bs with
  | nil => rfl
  | cons b bs ih =>
    have hb : b.toNat < 2 := Bool.toNat_lt b
    have hhalf : (b.toNat + 2 * numberOf bs) / 2 = numberOf bs := by omega
    have hlast : (b.toNat + 2 * numberOf bs) % 2 = b.toNat := by omega
    rw [numberOf, List.length_cons, bitsOf, hhalf, hlast, ih]
    cases b <;> rfl

theorem numberOf_lt (bs : List Bool) : numberOf bs < Nat.pow 2 bs.length := by
  induction bs with
  | nil => decide
  | cons b bs ih =>
    have hb : b.toNat < 2 := Bool.toNat_lt b
    rw [numberOf, List.length_cons, two_pow_succ]
    omega

theorem numberOf_append (as bs : List Bool) :
    numberOf (as ++ bs) = numberOf as + Nat.pow 2 as.length * numberOf bs := by
  induction as with
  | nil =>
    show numberOf bs = 0 + 1 * numberOf bs
    omega
  | cons a as ih =>
    rw [List.cons_append, numberOf, numberOf, ih, List.length_cons, two_pow_succ, Nat.mul_add,
      Nat.mul_assoc, Nat.add_assoc]

/-- The bits of a number that is put together from two. -/
theorem bitsOf_add {low : Nat} (m n high : Nat) (h : low < Nat.pow 2 m) :
    bitsOf (m + n) (low + high * Nat.pow 2 m) = bitsOf m low ++ bitsOf n high := by
  induction m generalizing low with
  | zero =>
    have hlow : low = 0 := by
      have : low < 1 := h
      omega
    have hvalue : low + high * Nat.pow 2 0 = high := by
      rw [hlow, Nat.zero_add]
      exact Nat.mul_one high
    rw [hvalue, Nat.zero_add]
    rfl
  | succ m ih =>
    rw [two_pow_succ] at h
    have hhalf : low / 2 < Nat.pow 2 m := by omega
    have hvalue : low + high * Nat.pow 2 (m + 1) = low + 2 * (high * Nat.pow 2 m) := by
      rw [two_pow_succ, Nat.mul_left_comm]
    have hlast : (low + 2 * (high * Nat.pow 2 m)) % 2 = low % 2 := by omega
    have hrest : (low + 2 * (high * Nat.pow 2 m)) / 2 = low / 2 + high * Nat.pow 2 m := by omega
    rw [Nat.add_right_comm, hvalue, bitsOf, bitsOf, hlast, hrest, ih hhalf, List.cons_append]

theorem bitsOf_zero (n : Nat) : bitsOf n 0 = List.replicate n false := by
  induction n with
  | zero => rfl
  | succ n ih => rw [bitsOf, ih, List.replicate_succ]; rfl

/-- What is written item by item, each with a bit at least, has a bit for each item. -/
theorem length_le_flatMap {α : Type} {f : α → List Bool} {xs : List α}
    (h : ∀ x ∈ xs, 0 < (f x).length) : xs.length ≤ (xs.flatMap f).length := by
  induction xs with
  | nil => exact Nat.le_refl _
  | cons x xs ih =>
    obtain ⟨hx, hxs⟩ := List.forall_mem_cons.1 h
    have hrest := ih hxs
    rw [List.flatMap_cons, List.length_append, List.length_cons]
    omega

/-- The bits of bytes. -/
def bytesBits (bytes : Bytes) : List Bool := bytes.flatMap fun b => bitsOf 8 b.toNat

theorem bytesBits_append (as bs : Bytes) : bytesBits (as ++ bs) = bytesBits as ++ bytesBits bs :=
  List.flatMap_append

@[simp]
theorem length_bytesBits (bytes : Bytes) : (bytesBits bytes).length = 8 * bytes.length := by
  induction bytes with
  | nil => rfl
  | cons b bytes ih =>
    rw [bytesBits, List.flatMap_cons, List.length_append, length_bitsOf, List.length_cons]
    rw [bytesBits] at ih
    omega

/-- Bits that fill whole bytes are those of bytes. -/
theorem exists_bytesBits {bs : List Bool} (h : bs.length % 8 = 0) :
    ∃ bytes, bs = bytesBits bytes := by
  induction hn : bs.length / 8 generalizing bs with
  | zero =>
    have hnil : bs.length = 0 := by omega
    exact ⟨[], List.length_eq_zero_iff.1 hnil⟩
  | succ n ih =>
    -- the first eight bits are a byte, and the others are left to the induction
    have hlong : 8 ≤ bs.length := by omega
    have hlength : (bs.drop 8).length = bs.length - 8 := List.length_drop
    obtain ⟨bytes, hbytes⟩ : ∃ bytes, bs.drop 8 = bytesBits bytes := ih (by omega) (by omega)
    have htake : (bs.take 8).length = 8 := by
      rw [List.length_take]
      omega
    have hsmall : numberOf (bs.take 8) < 256 := by
      have := numberOf_lt (bs.take 8)
      rwa [htake] at this
    have hfirst : bitsOf 8 (numberOf (bs.take 8)).toUInt8.toNat = bs.take 8 := by
      have hnat : (numberOf (bs.take 8)).toUInt8.toNat = numberOf (bs.take 8) :=
        UInt8.toNat_ofNat_of_lt' hsmall
      have := bitsOf_numberOf (bs.take 8)
      rwa [htake, ← hnat] at this
    refine ⟨(numberOf (bs.take 8)).toUInt8 :: bytes, ?_⟩
    rw [bytesBits, List.flatMap_cons, hfirst, ← bytesBits, ← hbytes, List.take_append_drop]

/-! ### Readers -/

namespace BitReader

/-- Puts a bit before those still to be read. -/
def unread (b : Bool) (r : BitReader) : BitReader :=
  if r.count = 7 then ⟨0, 0, (b.toNat + 2 * r.pending).toUInt8 :: r.rest⟩
  else ⟨b.toNat + 2 * r.pending, r.count + 1, r.rest⟩

/-- The reader of bits of which the last ones fill whole bytes. -/
def ofBits (bs : List Bool) : BitReader := bs.foldr unread ⟨0, 0, []⟩

theorem ofBits_cons (b : Bool) (bs : List Bool) : ofBits (b :: bs) = (ofBits bs).unread b := rfl

/-- Less than a byte was begun, and no bits are kept that were read. -/
theorem settled_ofBits (bs : List Bool) :
    (ofBits bs).count < 8 ∧ (ofBits bs).pending < Nat.pow 2 (ofBits bs).count := by
  induction bs with
  | nil => decide
  | cons b bs ih =>
    obtain ⟨hcount, hpending⟩ := ih
    have hb : b.toNat < 2 := Bool.toNat_lt b
    rw [ofBits_cons, unread]
    split
    · show 0 < 8 ∧ 0 < 1
      omega
    · dsimp only
      rw [two_pow_succ]
      omega

@[simp]
theorem size_ofBits (bs : List Bool) : (ofBits bs).size = bs.length := by
  induction bs with
  | nil => rfl
  | cons b bs ih =>
    rw [size] at ih
    rw [ofBits_cons, unread, List.length_cons]
    split
    · rw [size, List.length_cons]
      dsimp only
      omega
    · rw [size]
      dsimp only
      omega

theorem count_ofBits (bs : List Bool) : (ofBits bs).count = bs.length % 8 := by
  have hcount := (settled_ofBits bs).1
  have hsize := size_ofBits bs
  rw [size] at hsize
  omega

/-- The next bit is the first one of those left. -/
theorem bit?_ofBits (b : Bool) (bs : List Bool) :
    (ofBits (b :: bs)).bit? = some (b.toNat, ofBits bs) := by
  obtain ⟨hcount, hpending⟩ := settled_ofBits bs
  have hb : b.toNat < 2 := Bool.toNat_lt b
  have hlast : (b.toNat + 2 * (ofBits bs).pending) % 2 = b.toNat := by omega
  have hhalf : (b.toNat + 2 * (ofBits bs).pending) / 2 = (ofBits bs).pending := by omega
  rw [ofBits_cons, unread]
  split
  · next hfull =>
    -- a byte is begun
    rw [hfull] at hpending
    have hbyte : b.toNat + 2 * (ofBits bs).pending < 256 := by
      have : (ofBits bs).pending < 128 := hpending
      omega
    have hnat : (b.toNat + 2 * (ofBits bs).pending).toUInt8.toNat =
        b.toNat + 2 * (ofBits bs).pending := UInt8.toNat_ofNat_of_lt' hbyte
    rw [bit?, if_pos rfl]
    dsimp only
    rw [hnat, hlast, hhalf, ← hfull]
  · rw [bit?, if_neg (Nat.succ_ne_zero _)]
    dsimp only
    rw [hlast, hhalf, Nat.add_sub_cancel]

/-- The next bits are the first ones of those left, as a number. -/
theorem bits?_ofBits (bs rest : List Bool) :
    (ofBits (bs ++ rest)).bits? bs.length = some (numberOf bs, ofBits rest) := by
  induction bs with
  | nil => rfl
  | cons b bs ih =>
    rw [List.cons_append, List.length_cons, bits?, bit?_ofBits]
    simp only [Option.bind_eq_bind, Option.bind_some, ih]
    rfl

/-- A number that was written is read. -/
theorem bits?_bitsOf {n value : Nat} (h : value < Nat.pow 2 n) (rest : List Bool) :
    (ofBits (bitsOf n value ++ rest)).bits? n = some (value, ofBits rest) := by
  have hread := bits?_ofBits (bitsOf n value) rest
  rwa [length_bitsOf, numberOf_bitsOf h] at hread

/-- Bits before those of a byte that was begun are put into it. -/
theorem foldr_unread_bitsOf {n : Nat} (value : Nat) {r : BitReader} (h : r.count + n < 8) :
    (bitsOf n value).foldr unread r =
      ⟨value % Nat.pow 2 n + Nat.pow 2 n * r.pending, r.count + n, r.rest⟩ := by
  induction n generalizing value with
  | zero =>
    have hvalue : value % Nat.pow 2 0 + Nat.pow 2 0 * r.pending = r.pending := by
      show value % 1 + 1 * r.pending = r.pending
      omega
    rw [hvalue]
    rfl
  | succ n ih =>
    have hpending : (decide (value % 2 = 1)).toNat +
        2 * (value / 2 % Nat.pow 2 n + Nat.pow 2 n * r.pending) =
          value % Nat.pow 2 (n + 1) + Nat.pow 2 (n + 1) * r.pending := by
      have hmod : value % (2 * Nat.pow 2 n) = value % 2 + 2 * (value / 2 % Nat.pow 2 n) :=
        Nat.mod_mul
      rw [toNat_decide_odd, two_pow_succ, hmod, Nat.mul_add, ← Nat.mul_assoc, Nat.add_assoc]
    rw [bitsOf, List.foldr_cons, ih _ (by omega), unread]
    dsimp only
    rw [if_neg (by omega), hpending, Nat.add_assoc]

/-- The bits of a byte before whole bytes are that byte. -/
theorem ofBits_byte {b : UInt8} {bs : List Bool} (h : (ofBits bs).count = 0) :
    ofBits (bitsOf 8 b.toNat ++ bs) = ⟨0, 0, b :: (ofBits bs).rest⟩ := by
  have hb : b.toNat < 256 := b.toNat_lt
  have hpending : (ofBits bs).pending = 0 := by
    have := (settled_ofBits bs).2
    rw [h] at this
    have : (ofBits bs).pending < 1 := this
    omega
  have hbyte : (decide (b.toNat % 2 = 1)).toNat + 2 * (b.toNat / 2 % Nat.pow 2 7) = b.toNat := by
    show _ + 2 * (b.toNat / 2 % 128) = _
    rw [toNat_decide_odd]
    omega
  -- seven bits are put into a byte that is begun, and the eighth completes it
  rw [ofBits, List.foldr_append, bitsOf, List.foldr_cons, ← ofBits,
    foldr_unread_bitsOf _ (by omega), unread]
  dsimp only
  rw [if_pos (by omega), hpending, Nat.mul_zero, Nat.add_zero, hbyte]
  congr 1
  exact congrArg (· :: _) (UInt8.ofNat_toNat)

theorem ofBytes_eq (bytes : Bytes) : ofBytes bytes = ofBits (bytesBits bytes) := by
  induction bytes with
  | nil => rfl
  | cons b bytes ih =>
    have hcount : (ofBits (bytesBits bytes)).count = 0 := by rw [← ih]; rfl
    show _ = ofBits (bitsOf 8 b.toNat ++ bytesBits bytes)
    rw [ofBits_byte hcount, ← ih]
    rfl

/-- Where less than a byte is before whole bytes, those are what is not begun. -/
theorem rest_ofBits {pad : List Bool} (h : pad.length < 8) (bytes : Bytes) :
    (ofBits (pad ++ bytesBits bytes)).rest = bytes := by
  induction pad with
  | nil =>
    rw [List.nil_append, ← ofBytes_eq]
    rfl
  | cons b pad ih =>
    rw [List.length_cons] at h
    -- the count of bits begun is that of the padding, so that no whole byte is begun by it
    have hcount := count_ofBits (pad ++ bytesBits bytes)
    rw [List.length_append, length_bytesBits] at hcount
    rw [List.cons_append, ofBits_cons, unread, if_neg (by omega)]
    exact ih (by omega)

end BitReader

/-! ### Writers -/

namespace BitWriter

/-- The bits that were written. -/
def toBits (w : BitWriter) : List Bool := bytesBits w.output.toList ++ bitsOf w.count w.pending

/-- Less than a byte was begun, and there is nothing above its bits. -/
structure Settled (w : BitWriter) : Prop where
  count : w.count < 8
  pending : w.pending < Nat.pow 2 w.count

/-- The writer `after` has some bits more. -/
structure Adds (w after : BitWriter) (bs : List Bool) : Prop where
  settled : after.Settled
  toBits : after.toBits = w.toBits ++ bs

variable {w between after : BitWriter} {as bs : List Bool}

theorem settled_empty : empty.Settled := by constructor <;> decide

theorem Adds.refl (hw : w.Settled) : Adds w w [] := ⟨hw, (List.append_nil _).symm⟩

theorem Adds.trans (h₁ : Adds w between as) (h₂ : Adds between after bs) :
    Adds w after (as ++ bs) where
  settled := h₂.settled
  toBits := by rw [h₂.toBits, h₁.toBits, List.append_assoc]

/-- What is written item by item. -/
theorem Adds.foldl {α : Type} {f : BitWriter → α → BitWriter} {g : α → List Bool} (xs : List α)
    (hw : w.Settled) (h : ∀ x ∈ xs, ∀ v : BitWriter, v.Settled → Adds v (f v x) (g x)) :
    Adds w (xs.foldl f w) (xs.flatMap g) := by
  induction xs generalizing w with
  | nil => exact .refl hw
  | cons x xs ih =>
    obtain ⟨hx, hxs⟩ := List.forall_mem_cons.1 h
    have hfirst := hx w hw
    exact hfirst.trans (ih hfirst.settled hxs)

theorem count_eq (hw : w.Settled) : w.count = w.toBits.length % 8 := by
  have hcount := hw.count
  rw [toBits, List.length_append, length_bytesBits, length_bitsOf]
  omega

theorem drain_toBits (output : Array UInt8) {pending count : Nat}
    (h : pending < Nat.pow 2 count) :
    (drain output pending count).Settled ∧
      (drain output pending count).toBits = bytesBits output.toList ++ bitsOf count pending := by
  induction count using Nat.strongRecOn generalizing output pending with
  | _ count ih =>
    rw [drain]
    split
    · next hlong =>
      -- the eight lowest bits are a byte
      have hpow : Nat.pow 2 count = 256 * Nat.pow 2 (count - 8) := by
        have := two_pow_add 8 (count - 8)
        rwa [show 8 + (count - 8) = count by omega] at this
      have hhigh : pending / 256 < Nat.pow 2 (count - 8) := by
        rw [hpow] at h
        exact Nat.div_lt_of_lt_mul h
      obtain ⟨hsettled, hbits⟩ :=
        ih (count - 8) (by omega) (output.push (pending % 256).toUInt8) hhigh
      refine ⟨hsettled, ?_⟩
      have hlow : pending % 256 < 256 := Nat.mod_lt _ (by decide)
      have hbyte : (pending % 256).toUInt8.toNat = pending % 256 := UInt8.toNat_ofNat_of_lt' hlow
      have hsplit : bitsOf count pending =
          bitsOf 8 (pending % 256) ++ bitsOf (count - 8) (pending / 256) := by
        have := bitsOf_add 8 (count - 8) (pending / 256) hlow
        have hvalue : pending % 256 + pending / 256 * Nat.pow 2 8 = pending := by
          show _ + _ * 256 = _
          omega
        rwa [hvalue, show 8 + (count - 8) = count by omega] at this
      rw [hbits, hsplit, Array.toList_push, bytesBits_append, List.append_assoc, bytesBits,
        bytesBits, List.flatMap_singleton, hbyte]
    · exact ⟨⟨by dsimp only; omega, h⟩, rfl⟩

/-- Writing a number adds its bits. -/
theorem adds_bits {n value : Nat} (hw : w.Settled) (h : value < Nat.pow 2 n) :
    Adds w (w.bits n value) (bitsOf n value) := by
  have hpending : w.pending + value * Nat.pow 2 w.count < Nat.pow 2 (w.count + n) := by
    have hlow := hw.pending
    have hle : (value + 1) * Nat.pow 2 w.count ≤ Nat.pow 2 n * Nat.pow 2 w.count :=
      Nat.mul_le_mul_right _ h
    rw [two_pow_add, Nat.mul_comm (Nat.pow 2 w.count)]
    rw [Nat.succ_mul] at hle
    omega
  obtain ⟨hsettled, hbits⟩ := drain_toBits w.output hpending
  refine ⟨hsettled, ?_⟩
  rw [bits, hbits, bitsOf_add _ _ _ hw.pending, toBits, List.append_assoc]

/-- How many bits fill the byte at hand. -/
def padding (w : BitWriter) : Nat := (8 - w.count) % 8

/-- The padding ends with the byte at hand. -/
theorem length_padding (hw : w.Settled) :
    (w.toBits ++ List.replicate w.padding false).length % 8 = 0 := by
  have hcount := count_eq hw
  rw [List.length_append, List.length_replicate, padding]
  omega

theorem padding_lt (w : BitWriter) : w.padding < 8 := Nat.mod_lt _ (by decide)

/-- Filling the byte at hand adds zeros, and then there is none at hand. -/
theorem adds_align (hw : w.Settled) :
    Adds w w.align (List.replicate w.padding false) ∧ w.align.count = 0 := by
  have hcount := hw.count
  rw [align]
  split
  · next hzero =>
    have hpadding : w.padding = 0 := by rw [padding, hzero]
    rw [hpadding]
    exact ⟨.refl hw, hzero⟩
  · have hpadding : w.padding = 8 - w.count := Nat.mod_eq_of_lt (by omega)
    have hadds := adds_bits (n := 8 - w.count) hw (two_pow_pos _)
    rw [bitsOf_zero, ← hpadding] at hadds
    refine ⟨by rwa [← hpadding], ?_⟩
    rw [← hpadding, count_eq hadds.settled, hadds.toBits, List.length_append,
      List.length_replicate, hpadding]
    have := count_eq hw
    omega

/-- Writing bytes adds zeros up to a whole byte, and then theirs. -/
theorem adds_bytes (hw : w.Settled) (added : Bytes) :
    Adds w (w.bytes added) (List.replicate w.padding false ++ bytesBits added) := by
  obtain ⟨halign, hcount⟩ := adds_align hw
  refine halign.trans ⟨?_, ?_⟩
  · exact ⟨halign.settled.count, halign.settled.pending⟩
  · rw [bytes, toBits, toBits, hcount, Array.toList_append, bytesBits_append]
    show _ ++ bytesBits added ++ [] = _ ++ [] ++ bytesBits added
    rw [List.append_nil, List.append_nil]

theorem count_bytes (hw : w.Settled) (added : Bytes) : (w.bytes added).count = 0 :=
  (adds_align hw).2

/-- The bytes of a writer are a reader of what was written. -/
theorem ofBytes_toBytes (hw : w.Settled) :
    BitReader.ofBytes w.toBytes = .ofBits (w.toBits ++ List.replicate w.padding false) := by
  obtain ⟨halign, hcount⟩ := adds_align hw
  have hbits := halign.toBits
  rw [toBits, hcount] at hbits
  rw [BitReader.ofBytes_eq, toBytes, ← hbits]
  exact congrArg BitReader.ofBits (List.append_nil _).symm

end BitWriter

end Jarsmith.Deflate
