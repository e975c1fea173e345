import Jarsmith.Text.Utf8

/-!
# Reading UTF-8 that was written

A character is read from its form (`decodeIn_encodePoint`), a surrogate only where the form has
surrogates. So the 16-bit units of a text come back from the modified form as they were written,
and a pair of surrogates is not joined (`decodeModified_encodeUnits`): what is read of a text is
the text itself only if it needs no pair (`length_units_eq_iff`).
-/

namespace Jarsmith

namespace Utf8

variable {form : Form} {a b c d : UInt8} {rest : List UInt8} {p : Nat}

/-! ### Characters of each length -/

theorem isTail_iff : isTail b = true ↔ 0x80 ≤ b.toNat ∧ b.toNat ≤ 0xBF := by
  simp [isTail, UInt8.le_iff_toNat_le]

theorem decodeIn_one (ha : a.toNat ≤ 0x7F) :
    decodeIn form (a :: rest) = (decodeIn form rest).map (a.toNat :: ·) := by
  rw [decodeIn.eq_def]
  exact if_pos (UInt8.le_iff_toNat_le.2 ha)

theorem decodeIn_longNul :
    decodeIn .modified (0xC0 :: 0x80 :: rest) = (decodeIn .modified rest).map (0 :: ·) := by
  rw [decodeIn.eq_def]
  rfl

theorem decodeIn_two (ha : 0xC2 ≤ a.toNat) (ha' : a.toNat ≤ 0xDF) (hb : isTail b = true) :
    decodeIn form (a :: b :: rest) = (decodeIn form rest).map (pointOfTwo a b :: ·) := by
  have hlow : ¬ a ≤ 0x7F := by rw [UInt8.le_iff_toNat_le]; simp; omega
  have hnul : ¬ a = 0xC0 := by rintro rfl; simp at ha
  have hrange : 0xC2 ≤ a ∧ a ≤ 0xDF := ⟨UInt8.le_iff_toNat_le.2 ha, UInt8.le_iff_toNat_le.2 ha'⟩
  rw [decodeIn.eq_def]
  simp [hlow, hnul, hrange, hb]

theorem decodeIn_three (ha : 0xE0 ≤ a.toNat) (ha' : a.toNat ≤ 0xEF)
    (hb : isSecondOfThree form a b = true) (hc : isTail c = true) :
    decodeIn form (a :: b :: c :: rest) = (decodeIn form rest).map (pointOfThree a b c :: ·) := by
  have hlow : ¬ a ≤ 0x7F := by rw [UInt8.le_iff_toNat_le]; simp; omega
  have hnul : ¬ a = 0xC0 := by rintro rfl; simp at ha
  have htwo : ¬ a ≤ 0xDF := by rw [UInt8.le_iff_toNat_le]; simp; omega
  have hrange : 0xE0 ≤ a ∧ a ≤ 0xEF := ⟨UInt8.le_iff_toNat_le.2 ha, UInt8.le_iff_toNat_le.2 ha'⟩
  rw [decodeIn.eq_def]
  simp [hlow, hnul, htwo, hrange, hb, hc]

theorem decodeIn_four (ha : 0xF0 ≤ a.toNat) (ha' : a.toNat ≤ 0xF4)
    (hb : isSecondOfFour a b = true) (hc : isTail c = true) (hd : isTail d = true) :
    decodeIn form (a :: b :: c :: d :: rest) =
      (decodeIn form rest).map (pointOfFour a b c d :: ·) := by
  have hlow : ¬ a ≤ 0x7F := by rw [UInt8.le_iff_toNat_le]; simp; omega
  have hnul : ¬ a = 0xC0 := by rintro rfl; simp at ha
  have htwo : ¬ a ≤ 0xDF := by rw [UInt8.le_iff_toNat_le]; simp; omega
  have hthree : ¬ a ≤ 0xEF := by rw [UInt8.le_iff_toNat_le]; simp; omega
  have hrange : 0xF0 ≤ a ∧ a ≤ 0xF4 := ⟨UInt8.le_iff_toNat_le.2 ha, UInt8.le_iff_toNat_le.2 ha'⟩
  rw [decodeIn.eq_def]
  simp [hlow, hnul, htwo, hthree, hrange, hb, hc, hd]

/-! ### The form of a character -/

theorem encodePoint_one (h : p < 0x80) : encodePoint p = [p.toUInt8] := if_pos h

theorem encodePoint_two (h : 0x80 ≤ p) (h' : p < 0x800) :
    encodePoint p = [(0xC0 + p / 0x40).toUInt8, (0x80 + p % 0x40).toUInt8] :=
  (if_neg (Nat.not_lt.2 h)).trans (if_pos h')

theorem encodePoint_three (h : 0x800 ≤ p) (h' : p < 0x10000) :
    encodePoint p =
      [(0xE0 + p / 0x1000).toUInt8, (0x80 + p / 0x40 % 0x40).toUInt8, (0x80 + p % 0x40).toUInt8] :=
  have hlow : ¬ p < 0x80 := by omega
  (if_neg hlow).trans ((if_neg (Nat.not_lt.2 h)).trans (if_pos h'))

theorem encodePoint_four (h : 0x10000 ≤ p) :
    encodePoint p =
      [(0xF0 + p / 0x40000).toUInt8, (0x80 + p / 0x1000 % 0x40).toUInt8,
        (0x80 + p / 0x40 % 0x40).toUInt8, (0x80 + p % 0x40).toUInt8] :=
  have h1 : ¬ p < 0x80 := by omega
  have h2 : ¬ p < 0x800 := by omega
  (if_neg h1).trans ((if_neg h2).trans (if_neg (Nat.not_lt.2 h)))

/-! ### Characters from their form

The bytes of a character are taken by the numbers that they are, since the bytes themselves are
numbers modulo 256. -/

theorem toNat_toUInt8 {n : Nat} (h : n < 256) : n.toUInt8.toNat = n := UInt8.toNat_ofNat_of_lt' h

theorem toNat_tail (n : Nat) : (0x80 + n % 0x40).toUInt8.toNat = 0x80 + n % 0x40 :=
  toNat_toUInt8 (by omega)

theorem isTail_tail (n : Nat) : isTail (0x80 + n % 0x40).toUInt8 = true := by
  rw [isTail_iff, toNat_tail]
  omega

theorem pointOfTwo_eq (ha : a.toNat = 0xC0 + p / 0x40) (hb : b.toNat = 0x80 + p % 0x40) :
    pointOfTwo a b = p := by
  have h : (a.toNat - 0xC0) * 0x40 + (b.toNat - 0x80) = p := by omega
  exact h

theorem pointOfThree_eq (ha : a.toNat = 0xE0 + p / 0x1000) (hb : b.toNat = 0x80 + p / 0x40 % 0x40)
    (hc : c.toNat = 0x80 + p % 0x40) : pointOfThree a b c = p := by
  have h : (a.toNat - 0xE0) * 0x1000 + (b.toNat - 0x80) * 0x40 + (c.toNat - 0x80) = p := by omega
  exact h

theorem pointOfFour_eq (ha : a.toNat = 0xF0 + p / 0x40000)
    (hb : b.toNat = 0x80 + p / 0x1000 % 0x40) (hc : c.toNat = 0x80 + p / 0x40 % 0x40)
    (hd : d.toNat = 0x80 + p % 0x40) : pointOfFour a b c d = p := by
  have h : (a.toNat - 0xF0) * 0x40000 + (b.toNat - 0x80) * 0x1000 + (c.toNat - 0x80) * 0x40 +
      (d.toNat - 0x80) = p := by omega
  exact h

/-- The form is no longer than needed, and that of a surrogate only where there are surrogates. -/
theorem isSecondOfThree_eq (hlow : 0x800 ≤ p) (ha : a.toNat = 0xE0 + p / 0x1000)
    (hb : b.toNat = 0x80 + p / 0x40 % 0x40)
    (hsurrogate : CodePoint.isSurrogate p = true → form.surrogates = true) :
    isSecondOfThree form a b = true := by
  unfold isSecondOfThree
  split
  · -- below 0xA0 the form would be one of a character of two bytes
    next h =>
    have hfirst : a.toNat = 0xE0 := congrArg UInt8.toNat h
    simp only [Bool.and_eq_true, decide_eq_true_eq, UInt8.le_iff_toNat_le]
    simp
    omega
  · split
    · -- from 0xA0 on the form would be one of a surrogate
      next h =>
      simp only [Bool.and_eq_true, decide_eq_true_eq, Bool.not_eq_true'] at h
      have hfirst : a.toNat = 0xED := congrArg UInt8.toNat h.1
      have hplain : ¬ CodePoint.isSurrogate p = true := fun hp => by simp [hsurrogate hp] at h
      have hbelow : ¬ (0xD800 ≤ p ∧ p ≤ 0xDFFF) := by
        simpa [CodePoint.isSurrogate] using hplain
      simp only [Bool.and_eq_true, decide_eq_true_eq, UInt8.le_iff_toNat_le]
      simp
      omega
    · rw [isTail_iff]
      omega

/-- The form is no longer than needed, and that of no number beyond U+10FFFF. -/
theorem isSecondOfFour_eq (hlow : 0x10000 ≤ p) (hhigh : p < 0x110000)
    (ha : a.toNat = 0xF0 + p / 0x40000) (hb : b.toNat = 0x80 + p / 0x1000 % 0x40) :
    isSecondOfFour a b = true := by
  unfold isSecondOfFour
  split
  · next h =>
    have hfirst : a.toNat = 0xF0 := congrArg UInt8.toNat h
    simp only [Bool.and_eq_true, decide_eq_true_eq, UInt8.le_iff_toNat_le]
    simp
    omega
  · split
    · next h =>
      have hfirst : a.toNat = 0xF4 := congrArg UInt8.toNat h
      simp only [Bool.and_eq_true, decide_eq_true_eq, UInt8.le_iff_toNat_le]
      simp
      omega
    · rw [isTail_iff]
      omega

/-- A character is read from its form; a surrogate has one only in forms with surrogates. -/
theorem decodeIn_encodePoint (hp : p < 0x110000)
    (hsurrogate : CodePoint.isSurrogate p = true → form.surrogates = true) :
    decodeIn form (encodePoint p ++ rest) = (decodeIn form rest).map (p :: ·) := by
  by_cases h1 : p < 0x80
  · have ha : p.toUInt8.toNat = p := toNat_toUInt8 (by omega)
    rw [encodePoint_one h1, List.singleton_append, decodeIn_one (by omega), ha]
  by_cases h2 : p < 0x800
  · have ha : (0xC0 + p / 0x40).toUInt8.toNat = 0xC0 + p / 0x40 := toNat_toUInt8 (by omega)
    rw [encodePoint_two (by omega) h2]
    refine (decodeIn_two (by omega) (by omega) (isTail_tail p)).trans ?_
    rw [pointOfTwo_eq ha (toNat_tail p)]
    rfl
  by_cases h3 : p < 0x10000
  · have ha : (0xE0 + p / 0x1000).toUInt8.toNat = 0xE0 + p / 0x1000 := toNat_toUInt8 (by omega)
    rw [encodePoint_three (by omega) h3]
    refine (decodeIn_three (by omega) (by omega)
      (isSecondOfThree_eq (by omega) ha (toNat_tail _) hsurrogate) (isTail_tail p)).trans ?_
    rw [pointOfThree_eq ha (toNat_tail _) (toNat_tail p)]
    rfl
  · have ha : (0xF0 + p / 0x40000).toUInt8.toNat = 0xF0 + p / 0x40000 := toNat_toUInt8 (by omega)
    rw [encodePoint_four (by omega)]
    refine (decodeIn_four (by omega) (by omega)
      (isSecondOfFour_eq (by omega) hp ha (toNat_tail _)) (isTail_tail _) (isTail_tail p)).trans ?_
    rw [pointOfFour_eq ha (toNat_tail _) (toNat_tail _) (toNat_tail p)]
    rfl

theorem decodeModified_encodeUnits {us : List CodePoint} (hus : ∀ u ∈ us, u < 0x10000) :
    decodeModified (encodeUnits us) = some us := by
  unfold decodeModified encodeUnits
  induction us with
  | nil => rw [List.flatMap_nil, decodeIn]
  | cons u us ih =>
    obtain ⟨hu, hus⟩ := List.forall_mem_cons.1 hus
    have hunit : decodeIn .modified (encodeUnit u ++ us.flatMap encodeUnit) =
        (decodeIn .modified (us.flatMap encodeUnit)).map (u :: ·) := by
      unfold encodeUnit
      split
      · -- NUL is the one unit with a form of its own
        next h =>
        rw [h]
        exact decodeIn_longNul
      · exact decodeIn_encodePoint (Nat.lt_trans hu (by decide)) fun _ => rfl
    rw [List.flatMap_cons, hunit, ih hus, Option.map_some]

/-! ### 16-bit units -/

/-- The 16-bit units of a code point: itself, or the two surrogates of its pair. -/
def unitsOf (c : CodePoint) : List CodePoint :=
  if c < 0x10000 then [c]
  else [0xD800 + (c - 0x10000) / 0x400, 0xDC00 + (c - 0x10000) % 0x400]

/-- The 16-bit units of a text. -/
def units (t : Text) : List CodePoint := t.flatMap unitsOf

theorem unitsOf_single (h : p < 0x10000) : unitsOf p = [p] := if_pos h

theorem unitsOf_pair (h : 0x10000 ≤ p) :
    unitsOf p = [0xD800 + (p - 0x10000) / 0x400, 0xDC00 + (p - 0x10000) % 0x400] :=
  if_neg (Nat.not_lt.2 h)

theorem lt_of_mem_unitsOf {u : Nat} (hp : p < 0x110000) (hu : u ∈ unitsOf p) : u < 0x10000 := by
  by_cases h : p < 0x10000
  · rw [unitsOf_single h, List.mem_singleton] at hu
    rwa [hu]
  · rw [unitsOf_pair (Nat.not_lt.1 h)] at hu
    have hcases : u = 0xD800 + (p - 0x10000) / 0x400 ∨ u = 0xDC00 + (p - 0x10000) % 0x400 := by
      simpa using hu
    omega

variable {t : Text}

theorem lt_of_mem_units (ht : ∀ c ∈ t, c < 0x110000) {u : CodePoint} (hu : u ∈ units t) :
    u < 0x10000 := by
  obtain ⟨c, hc, hu⟩ := List.mem_flatMap.1 hu
  exact lt_of_mem_unitsOf (ht c hc) hu

theorem length_le_length_units (t : Text) : t.length ≤ (units t).length := by
  induction t with
  | nil => exact Nat.le_refl 0
  | cons c t ih =>
    have hpos : 0 < (unitsOf c).length := by
      unfold unitsOf
      split <;> simp
    have hsplit : units (c :: t) = unitsOf c ++ units t := rfl
    rw [hsplit, List.length_append, List.length_cons]
    omega

/-- A text without pairs is the sequence of its units. -/
theorem units_eq_self (ht : ∀ c ∈ t, c < 0x10000) : units t = t := by
  induction t with
  | nil => rfl
  | cons c t ih =>
    obtain ⟨hc, ht⟩ := List.forall_mem_cons.1 ht
    show unitsOf c ++ units t = c :: t
    rw [unitsOf_single hc, ih ht, List.singleton_append]

/-- Every pair makes the sequence of units longer than the text. -/
theorem length_units_eq_iff : (units t).length = t.length ↔ ∀ c ∈ t, c < 0x10000 := by
  refine ⟨?_, fun ht => by rw [units_eq_self ht]⟩
  induction t with
  | nil => simp
  | cons c t ih =>
    intro heq
    have hsplit : units (c :: t) = unitsOf c ++ units t := rfl
    rw [hsplit, List.length_append, List.length_cons] at heq
    have hle := length_le_length_units t
    by_cases h : c < 0x10000
    · rw [unitsOf_single h, List.length_singleton] at heq
      exact List.forall_mem_cons.2 ⟨h, ih (by omega)⟩
    · rw [unitsOf_pair (Nat.not_lt.1 h), List.length_cons, List.length_singleton] at heq
      omega

end Utf8

end Jarsmith
