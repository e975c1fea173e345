import Jarsmith.FileSystem.Path
import Jarsmith.Proofs.Text.Utf8
import Jarsmith.Text.Blank
import Jarsmith.Text.Size

/-!
# Texts without surrogates

A text has a standard form exactly if no surrogate is in it (`Utf8.isSome_encode?_iff`). String
literals, numbers and sizes have none, and neither has what is read from the standard form
(`isScalar_of_decode`); and a text that is put together has one only if a part has one.
-/

namespace Jarsmith

variable {t u separator : Text} {ts : List Text}

/-- No code point of the text is a surrogate. -/
def Text.IsScalar (t : Text) : Prop := ∀ c ∈ t, c.isSurrogate = false

theorem CodePoint.isSurrogate_eq_false_iff {p : Nat} :
    isSurrogate p = false ↔ p < 0xD800 ∨ 0xDFFF < p := by
  unfold isSurrogate
  rw [Bool.and_eq_false_iff, decide_eq_false_iff_not, decide_eq_false_iff_not, Nat.not_le,
    Nat.not_le]

theorem Text.any_isSurrogate_eq_false_iff :
    t.any CodePoint.isSurrogate = false ↔ t.IsScalar := by
  simp [IsScalar]

theorem Utf8.isSome_encode?_iff : (encode? t).isSome = true ↔ t.IsScalar := by
  unfold encode?
  rw [← Text.any_isSurrogate_eq_false_iff]
  cases t.any CodePoint.isSurrogate <;> simp

namespace Text

/-! ### Texts that are put together -/

@[simp]
theorem isScalar_nil : IsScalar [] := fun _ h => absurd h List.not_mem_nil

@[simp]
theorem isScalar_append : (t ++ u).IsScalar ↔ t.IsScalar ∧ u.IsScalar := List.forall_mem_append

theorem isScalar_cons {c : CodePoint} :
    IsScalar (c :: t) ↔ c.isSurrogate = false ∧ t.IsScalar := List.forall_mem_cons

theorem isScalar_trim (p : CodePoint → Bool) (h : t.IsScalar) : (trim p t).IsScalar := by
  unfold trim trimEnd
  intro c hc
  have hc := (List.dropWhile_sublist p).subset (List.mem_reverse.1 hc)
  exact h c ((List.dropWhile_sublist p).subset (List.mem_reverse.1 hc))

@[simp]
theorem isScalar_ofString (s : String) : (ofString s).IsScalar := by
  intro c hc
  obtain ⟨char, -, rfl⟩ := List.mem_map.1 hc
  have hvalid : char.toNat < 0xD800 ∨ 0xDFFF < char.toNat ∧ char.toNat < 0x110000 := char.valid
  rw [CodePoint.isSurrogate_eq_false_iff]
  omega

@[simp]
theorem isScalar_ofNat (n : Nat) : (ofNat n).IsScalar := isScalar_ofString _

theorem isScalar_ofInt (n : Int) : (ofInt n).IsScalar := by
  cases n with
  | ofNat n => exact isScalar_ofNat n
  | negSucc n => exact isScalar_cons.2 ⟨rfl, isScalar_ofNat _⟩

theorem isScalar_onePlace (num den : Nat) : (onePlace num den).IsScalar :=
  isScalar_append.2 ⟨isScalar_ofNat _, isScalar_cons.2 ⟨rfl, isScalar_ofNat _⟩⟩

theorem isScalar_sizeIn {units : List Text} (h : ∀ unit ∈ units, unit.IsScalar)
    (bytes den : Nat) : (sizeIn bytes den units).IsScalar := by
  induction units generalizing den with
  | nil => exact isScalar_nil
  | cons unit units ih =>
    obtain ⟨hunit, hrest⟩ := List.forall_mem_cons.1 h
    have hshown : (onePlace bytes den ++ 0x20 :: unit).IsScalar :=
      isScalar_append.2 ⟨isScalar_onePlace _ _, isScalar_cons.2 ⟨rfl, hunit⟩⟩
    cases units with
    | nil => exact hshown
    | cons next rest =>
      unfold sizeIn
      split
      · exact hshown
      · exact ih hrest _

@[simp]
theorem isScalar_ofSize (size : Nat) : (ofSize size).IsScalar := by
  unfold ofSize ofSize?
  cases (Binary64.ofInt size).toInt? with
  | none => exact isScalar_append.2 ⟨isScalar_ofNat _, isScalar_ofString _⟩
  | some n =>
    rw [Option.map_some, Option.getD_some]
    split
    · exact isScalar_append.2 ⟨isScalar_ofInt _, isScalar_ofString _⟩
    · refine isScalar_sizeIn ?_ _ _
      simp [sizeUnits]

end Text

/-! ### Paths -/

namespace Utf8

variable {a b c d : UInt8}

theorem isSurrogate_pointOfTwo (ha : a.toNat ≤ 0xDF) (hb : isTail b = true) :
    CodePoint.isSurrogate (pointOfTwo a b) = false := by
  have hb := isTail_iff.1 hb
  rw [CodePoint.isSurrogate_eq_false_iff]
  unfold pointOfTwo
  omega

/-- A character of three bytes is no surrogate in the standard form. -/
theorem isSurrogate_pointOfThree (ha : 0xE0 ≤ a.toNat)
    (hb : isSecondOfThree .standard a b = true) (hc : isTail c = true) :
    CodePoint.isSurrogate (pointOfThree a b c) = false := by
  have hc := isTail_iff.1 hc
  rw [CodePoint.isSurrogate_eq_false_iff]
  unfold pointOfThree
  unfold isSecondOfThree at hb
  split at hb
  · next h =>
    have hfirst : a.toNat = 0xE0 := congrArg UInt8.toNat h
    simp only [Bool.and_eq_true, decide_eq_true_eq, UInt8.le_iff_toNat_le] at hb
    simp at hb
    omega
  · split at hb
    · next h =>
      simp only [Bool.and_eq_true, decide_eq_true_eq] at h
      have hfirst : a.toNat = 0xED := congrArg UInt8.toNat h.1
      simp only [Bool.and_eq_true, decide_eq_true_eq, UInt8.le_iff_toNat_le] at hb
      simp at hb
      omega
    · next _ h =>
      have hne : a.toNat ≠ 0xED := by
        intro heq
        obtain rfl : a = 0xED := UInt8.toNat_inj.1 heq
        exact h rfl
      have hb := isTail_iff.1 hb
      omega

theorem isSurrogate_pointOfFour (ha : 0xF0 ≤ a.toNat) (hb : isSecondOfFour a b = true) :
    CodePoint.isSurrogate (pointOfFour a b c d) = false := by
  rw [CodePoint.isSurrogate_eq_false_iff]
  unfold pointOfFour
  by_cases h : a = 0xF0
  · unfold isSecondOfFour at hb
    rw [if_pos h] at hb
    simp only [Bool.and_eq_true, decide_eq_true_eq, UInt8.le_iff_toNat_le] at hb
    simp at hb
    omega
  · have hne : a.toNat ≠ 0xF0 := fun heq => h (UInt8.toNat_inj.1 heq)
    omega

/-- What holds of every character of the standard form holds of what is read from it. -/
theorem forall_mem_of_decode {P : CodePoint → Prop} {bytes : List UInt8}
    (hone : ∀ a : UInt8, a.toNat ≤ 0x7F → P a.toNat)
    (htwo : ∀ a b : UInt8, a.toNat ≤ 0xDF → isTail b = true → P (pointOfTwo a b))
    (hthree : ∀ a b c : UInt8, 0xE0 ≤ a.toNat → a.toNat ≤ 0xEF →
      isSecondOfThree .standard a b = true → isTail c = true → P (pointOfThree a b c))
    (hfour : ∀ a b c d : UInt8, 0xF0 ≤ a.toNat → a.toNat ≤ 0xF4 → isSecondOfFour a b = true →
      isTail c = true → isTail d = true → P (pointOfFour a b c d))
    (h : decode bytes = some t) : ∀ p ∈ t, P p := by
  have hcons {rest : List UInt8} {t : Text} {p : CodePoint} (hp : P p)
      (ih : ∀ {t}, decodeIn .standard rest = some t → ∀ p ∈ t, P p)
      (h : (decodeIn .standard rest).map (p :: ·) = some t) : ∀ p ∈ t, P p := by
    obtain ⟨u, hu, rfl⟩ := Option.map_eq_some_iff.1 h
    exact List.forall_mem_cons.2 ⟨hp, ih hu⟩
  unfold decode at h
  fun_induction decodeIn .standard bytes generalizing t with
  | case1 =>
    obtain rfl := Option.some.inj h
    exact List.forall_mem_nil _
  | case2 a rest ha ih => exact hcons (hone a (UInt8.le_iff_toNat_le.1 ha)) ih h
  | case4 a _ b rest hnul => simp [Form.standard] at hnul
  | case5 a _ b rest _ ha hb ih =>
    simp only [Bool.and_eq_true, decide_eq_true_eq, UInt8.le_iff_toNat_le] at ha
    exact hcons (htwo a b ha.2 hb) ih h
  | case8 a _ b _ _ c rest ha hbc ih =>
    simp only [Bool.and_eq_true, decide_eq_true_eq, UInt8.le_iff_toNat_le] at ha hbc
    exact hcons (hthree a b c ha.1 ha.2 hbc.1 hbc.2) ih h
  | case11 a _ b _ _ c _ d rest hbcd ih =>
    simp only [Bool.and_eq_true, decide_eq_true_eq, UInt8.le_iff_toNat_le] at hbcd
    obtain ⟨⟨⟨⟨hlow, hhigh⟩, hb⟩, hc⟩, hd⟩ := hbcd
    exact hcons (hfour a b c d hlow hhigh hb hc hd) ih h
  | _ => simp at h

theorem isScalar_of_decode {bytes : List UInt8} (h : decode bytes = some t) : t.IsScalar := by
  refine forall_mem_of_decode (fun a ha => ?_) (fun _ _ => isSurrogate_pointOfTwo)
    (fun _ _ _ ha _ => isSurrogate_pointOfThree ha)
    (fun _ _ _ _ ha _ hb _ _ => isSurrogate_pointOfFour ha hb) h
  rw [CodePoint.isSurrogate_eq_false_iff]
  omega

theorem pointOfFour_lt (ha : 0xF0 ≤ a.toNat) (ha' : a.toNat ≤ 0xF4)
    (hb : isSecondOfFour a b = true) (hc : isTail c = true) (hd : isTail d = true) :
    pointOfFour a b c d < 0x110000 := by
  have hc := isTail_iff.1 hc
  have hd := isTail_iff.1 hd
  show (a.toNat - 0xF0) * 0x40000 + (b.toNat - 0x80) * 0x1000 + (c.toNat - 0x80) * 0x40 +
    (d.toNat - 0x80) < 0x110000
  unfold isSecondOfFour at hb
  split at hb
  · next h =>
    have hfirst : a.toNat = 0xF0 := congrArg UInt8.toNat h
    simp only [Bool.and_eq_true, decide_eq_true_eq, UInt8.le_iff_toNat_le] at hb
    simp at hb
    omega
  · split at hb
    · next h =>
      have hfirst : a.toNat = 0xF4 := congrArg UInt8.toNat h
      simp only [Bool.and_eq_true, decide_eq_true_eq, UInt8.le_iff_toNat_le] at hb
      simp at hb
      omega
    · next _ h =>
      have hne : a.toNat ≠ 0xF4 := fun heq => h (UInt8.toNat_inj.1 heq)
      have hb := isTail_iff.1 hb
      omega

/-- What is read from the standard form is in the range of code points. -/
theorem lt_of_decode {bytes : List UInt8} (h : decode bytes = some t) : ∀ p ∈ t, p < 0x110000 := by
  refine forall_mem_of_decode (fun a ha => ?_) (fun a b ha hb => ?_)
    (fun a b c _ ha _ hc => ?_) (fun _ _ _ _ => pointOfFour_lt) h
  · show a.toNat < 0x110000
    omega
  · have hb := isTail_iff.1 hb
    show (a.toNat - 0xC0) * 0x40 + (b.toNat - 0x80) < 0x110000
    omega
  · have hb := b.toNat_lt
    have hc := isTail_iff.1 hc
    show (a.toNat - 0xE0) * 0x1000 + (b.toNat - 0x80) * 0x40 + (c.toNat - 0x80) < 0x110000
    omega

/-- The standard form of a text without surrogates is read back. -/
theorem decode_encode (hscalar : t.IsScalar) (hrange : ∀ p ∈ t, p < 0x110000) :
    decode (t.flatMap encodePoint) = some t := by
  unfold decode
  induction t with
  | nil => rw [List.flatMap_nil, decodeIn]
  | cons p t ih =>
    obtain ⟨hp, ht⟩ := Text.isScalar_cons.1 hscalar
    obtain ⟨hlt, hrest⟩ := List.forall_mem_cons.1 hrange
    rw [List.flatMap_cons, decodeIn_encodePoint hlt fun h => absurd h (by simp [hp]), ih ht hrest,
      Option.map_some]

end Utf8

end Jarsmith
