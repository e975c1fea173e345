import Jarsmith.Bytes.Field

/-!
# What the bytes of a number are

Bytes are the digits of a number to the base 256. A number that fits a width has one form of that
width, and every sequence of bytes is the form of a number (`ofBig?_eq_some_iff`).
-/

namespace Jarsmith.Bytes

theorem length_ofLittle (width n : Nat) : (ofLittle width n).length = width := by
  induction width generalizing n with
  | zero => rfl
  | succ width ih => rw [ofLittle, List.length_cons, ih]

theorem little_ofLittle {width n : Nat} (h : n < Nat.pow 256 width) :
    little (ofLittle width n) = n := by
  induction width generalizing n with
  | zero =>
    have hn : n < 1 := h
    show 0 = n
    omega
  | succ width ih =>
    have hpow : Nat.pow 256 (width + 1) = Nat.pow 256 width * 256 := rfl
    have hdiv : n / 256 < Nat.pow 256 width := by omega
    have hdigit : (n % 256).toUInt8.toNat = n % 256 :=
      UInt8.toNat_ofNat_of_lt' (Nat.mod_lt _ (by decide))
    rw [ofLittle, little, ih hdiv, hdigit]
    omega

theorem ofLittle_little (bytes : Bytes) : ofLittle bytes.length (little bytes) = bytes := by
  induction bytes with
  | nil => rfl
  | cons b bytes ih =>
    have hb : b.toNat < 256 := b.toNat_lt
    have hmod : (b.toNat + 256 * little bytes) % 256 = b.toNat := by omega
    have hdiv : (b.toNat + 256 * little bytes) / 256 = little bytes := by omega
    rw [List.length_cons, ofLittle, little, hmod, hdiv, ih]
    congr 1
    exact UInt8.toNat_inj.1 (UInt8.toNat_ofNat_of_lt' hb)

theorem little_lt (bytes : Bytes) : little bytes < Nat.pow 256 bytes.length := by
  induction bytes with
  | nil => decide
  | cons b bytes ih =>
    have hb : b.toNat < 256 := b.toNat_lt
    have hpow : Nat.pow 256 (bytes.length + 1) = Nat.pow 256 bytes.length * 256 := rfl
    rw [little, List.length_cons]
    omega

theorem length_slice_le (bytes : Bytes) (offset count : Nat) :
    (slice bytes offset count).length ≤ count := List.length_take_le _ _

/-- What is read in a width fits it. -/
theorem littleAt_lt (bytes : Bytes) (offset width : Nat) :
    littleAt bytes offset width < Nat.pow 256 width := by
  have hlength := length_slice_le bytes offset width
  have hpow : Nat.pow 256 (slice bytes offset width).length ≤ Nat.pow 256 width :=
    Nat.pow_le_pow_right (by decide) hlength
  exact Nat.lt_of_lt_of_le (little_lt _) hpow

theorem big_eq_little (bytes : Bytes) : big bytes = little bytes.reverse := by
  unfold big
  rw [← List.foldr_reverse]
  induction bytes.reverse with
  | nil => rfl
  | cons b bytes ih =>
    rw [List.foldr_cons, ih, little]
    omega

theorem length_ofBig (width n : Nat) : (ofBig width n).length = width := by
  rw [ofBig, List.length_reverse, length_ofLittle]

theorem big_ofBig {width n : Nat} (h : n < Nat.pow 256 width) : big (ofBig width n) = n := by
  rw [big_eq_little, ofBig, List.reverse_reverse, little_ofLittle h]

theorem ofBig_big (bytes : Bytes) : ofBig bytes.length (big bytes) = bytes := by
  rw [big_eq_little, ofBig, ← List.length_reverse, ofLittle_little, List.reverse_reverse]

theorem big_lt (bytes : Bytes) : big bytes < Nat.pow 256 bytes.length := by
  rw [big_eq_little, ← List.length_reverse]
  exact little_lt _

/-- Bytes of a width are the form of the number that they write, and of no other. -/
theorem ofBig?_eq_some_iff {width : Nat} {n : Int} {bytes : Bytes} :
    ofBig? width n = some bytes ↔ bytes.length = width ∧ n = big bytes := by
  unfold ofBig?
  constructor
  · intro h
    split at h
    · next hfits =>
      obtain rfl := Option.some.inj h
      rw [length_ofBig, big_ofBig (by omega)]
      omega
    · simp at h
  · rintro ⟨rfl, rfl⟩
    have hfits := big_lt bytes
    rw [if_pos (by omega), Int.toNat_natCast, ofBig_big]

theorem ofBig_of_ofBig? {width n : Nat} {bytes : Bytes} (h : ofBig? width n = some bytes) :
    ofBig width n = bytes := by
  obtain ⟨rfl, hn⟩ := ofBig?_eq_some_iff.1 h
  rw [Int.ofNat.inj hn, ofBig_big]

end Jarsmith.Bytes
