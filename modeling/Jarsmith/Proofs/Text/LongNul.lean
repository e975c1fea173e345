import Jarsmith.Proofs.Text.Utf8

/-!
# NUL in two bytes

Class files write NUL as `C0 80`, so that no byte of a text is zero. One way to read such a text is
in two passes: shorten every `C0 80` to the byte `00` (`shortenNul`), and then read UTF-8 that may
hold surrogates. It gives what reading in one pass gives, on all bytes (`decodeIn_shortenNul`): no
character but the long NUL has the byte `C0` in it, and the byte `00` cannot continue a character,
so that the first pass neither breaks a character nor makes one.

What is read is said once, for every form, as characters one after another
(`decodeIn_eq_some_iff`). On the units of a text the first pass shortens the NULs and leaves every
other unit as it was (`shortenNul_encodeUnits`).
-/

namespace Jarsmith.Utf8

/-! ### Characters -/

/-- The bytes of one character. -/
inductive Character (form : Form) : List UInt8 → CodePoint → Prop
  | one {a : UInt8} : a.toNat ≤ 0x7F → Character form [a] a.toNat
  | longNul : form.longNul = true → Character form [0xC0, 0x80] 0
  | two {a b : UInt8} : 0xC2 ≤ a.toNat → a.toNat ≤ 0xDF → isTail b = true →
      Character form [a, b] (pointOfTwo a b)
  | three {a b c : UInt8} : 0xE0 ≤ a.toNat → a.toNat ≤ 0xEF → isSecondOfThree form a b = true →
      isTail c = true → Character form [a, b, c] (pointOfThree a b c)
  | four {a b c d : UInt8} : 0xF0 ≤ a.toNat → a.toNat ≤ 0xF4 → isSecondOfFour a b = true →
      isTail c = true → isTail d = true → Character form [a, b, c, d] (pointOfFour a b c d)

/-- The bytes of characters one after another. -/
inductive Characters (form : Form) : List UInt8 → Text → Prop
  | nil : Characters form [] []
  | cons {bytes rest : List UInt8} {p : CodePoint} {t : Text} : Character form bytes p →
      Characters form rest t → Characters form (bytes ++ rest) (p :: t)

variable {form : Form} {a b : UInt8} {bytes rest : List UInt8} {p : CodePoint} {t : Text}

theorem decodeIn_append (h : Character form bytes p) :
    decodeIn form (bytes ++ rest) = (decodeIn form rest).map (p :: ·) := by
  cases h with
  | one ha => exact decodeIn_one ha
  | longNul hform =>
    show decodeIn form (0xC0 :: 0x80 :: rest) = _
    rw [decodeIn.eq_def]
    simp [hform]
  | two ha ha' hb => exact decodeIn_two ha ha' hb
  | three ha ha' hb hc => exact decodeIn_three ha ha' hb hc
  | four ha ha' hb hc hd => exact decodeIn_four ha ha' hb hc hd

/-- Bytes are read exactly if they are characters one after another. -/
theorem decodeIn_eq_some_iff : decodeIn form bytes = some t ↔ Characters form bytes t := by
  constructor
  · intro h
    have hcons {bytes rest : List UInt8} {p : CodePoint} {t : Text}
        (hp : Character form bytes p) (ih : ∀ {t}, decodeIn form rest = some t →
          Characters form rest t) (h : (decodeIn form rest).map (p :: ·) = some t) :
        Characters form (bytes ++ rest) t := by
      obtain ⟨t, ht, rfl⟩ := Option.map_eq_some_iff.1 h
      exact .cons hp (ih ht)
    fun_induction decodeIn form bytes generalizing t with
    | case1 =>
      obtain rfl := Option.some.inj h
      exact .nil
    | case2 a rest ha ih => exact hcons (.one (UInt8.le_iff_toNat_le.1 ha)) ih h
    | case4 a _ b rest hnul ih =>
      simp only [Bool.and_eq_true, decide_eq_true_eq] at hnul
      obtain ⟨⟨rfl, rfl⟩, hform⟩ := hnul
      exact hcons (.longNul hform) ih h
    | case5 a _ b rest _ ha hb ih =>
      simp only [Bool.and_eq_true, decide_eq_true_eq, UInt8.le_iff_toNat_le] at ha
      exact hcons (.two ha.1 ha.2 hb) ih h
    | case8 a _ b _ _ c rest ha hb ih =>
      simp only [Bool.and_eq_true, decide_eq_true_eq, UInt8.le_iff_toNat_le] at ha hb
      exact hcons (.three ha.1 ha.2 hb.1 hb.2) ih h
    | case11 a _ b _ _ c _ d rest ha ih =>
      simp only [Bool.and_eq_true, decide_eq_true_eq, UInt8.le_iff_toNat_le] at ha
      obtain ⟨⟨⟨⟨ha, ha'⟩, hb⟩, hc⟩, hd⟩ := ha
      exact hcons (.four ha ha' hb hc hd) ih h
    | _ => simp at h
  · intro h
    induction h with
    | nil => rw [decodeIn]
    | cons hp _ ih => rw [decodeIn_append hp, ih, Option.map_some]

/-- A byte within a longer character: not one of ASCII, and not the one that only begins a NUL. -/
def IsInner (b : UInt8) : Prop := 0x80 ≤ b.toNat ∧ b ≠ 0xC0

theorem isInner_of_isTail (h : isTail b = true) : IsInner b := by
  rw [isTail_iff] at h
  refine ⟨h.1, ?_⟩
  rintro rfl
  simp at h

theorem isInner_of_le (h : 0xC2 ≤ b.toNat) : IsInner b := by
  refine ⟨by omega, ?_⟩
  rintro rfl
  simp at h

theorem isTail_of_isSecondOfThree (h : isSecondOfThree form a b = true) : isTail b = true := by
  rw [isTail_iff]
  unfold isSecondOfThree at h
  split at h
  · simp [UInt8.le_iff_toNat_le] at h
    omega
  · split at h
    · simp [UInt8.le_iff_toNat_le] at h
      omega
    · exact isTail_iff.1 h

theorem isTail_of_isSecondOfFour (h : isSecondOfFour a b = true) : isTail b = true := by
  rw [isTail_iff]
  unfold isSecondOfFour at h
  split at h
  · simp [UInt8.le_iff_toNat_le] at h
    omega
  · split at h
    · simp [UInt8.le_iff_toNat_le] at h
      omega
    · exact isTail_iff.1 h

/-- A character is a byte of ASCII, the long NUL, or made of inner bytes. The forms agree on the
last if they agree on surrogates. -/
theorem Character.cases_bytes (h : Character form bytes p) :
    (∃ a : UInt8, a.toNat ≤ 0x7F ∧ bytes = [a] ∧ p = a.toNat) ∨
    (bytes = [0xC0, 0x80] ∧ p = 0 ∧ form.longNul = true) ∨
    (∀ b ∈ bytes, IsInner b) ∧
      ∀ form', form'.surrogates = form.surrogates → Character form' bytes p := by
  cases h with
  | @one a ha => exact .inl ⟨a, ha, rfl, rfl⟩
  | longNul hform => exact .inr (.inl ⟨rfl, rfl, hform⟩)
  | two ha ha' hb =>
    refine .inr (.inr ⟨?_, fun form' _ => .two ha ha' hb⟩)
    simp [isInner_of_le ha, isInner_of_isTail hb]
  | three ha ha' hb hc =>
    refine .inr (.inr ⟨?_, fun form' hform => .three ha ha' ?_ hc⟩)
    · have hfirst := isInner_of_le (Nat.le_trans (by decide) ha)
      simp [hfirst, isInner_of_isTail (isTail_of_isSecondOfThree hb), isInner_of_isTail hc]
    · rw [← hb]
      unfold isSecondOfThree
      rw [hform]
  | four ha ha' hb hc hd =>
    refine .inr (.inr ⟨?_, fun form' _ => .four ha ha' hb hc hd⟩)
    have hfirst := isInner_of_le (Nat.le_trans (by decide) ha)
    simp [hfirst, isInner_of_isTail (isTail_of_isSecondOfFour hb), isInner_of_isTail hc,
      isInner_of_isTail hd]

/-! ### The first pass -/

/-- Every `C0 80` written as the one byte of NUL, from left to right. -/
def shortenNul : List UInt8 → List UInt8
  | [] => []
  | [a] => [a]
  | a :: b :: rest =>
    if a = 0xC0 ∧ b = 0x80 then 0 :: shortenNul rest else a :: shortenNul (b :: rest)

theorem shortenNul_longNul : shortenNul (0xC0 :: 0x80 :: rest) = 0 :: shortenNul rest := by
  rw [shortenNul, if_pos ⟨rfl, rfl⟩]

theorem shortenNul_cons (h : a ≠ 0xC0) : shortenNul (a :: rest) = a :: shortenNul rest := by
  cases rest with
  | nil => rfl
  | cons b rest => rw [shortenNul, if_neg fun hnul => h hnul.1]

theorem shortenNul_append (h : 0xC0 ∉ bytes) :
    shortenNul (bytes ++ rest) = bytes ++ shortenNul rest := by
  induction bytes with
  | nil => rfl
  | cons a bytes ih =>
    rw [List.mem_cons, not_or] at h
    rw [List.cons_append, shortenNul_cons (Ne.symm h.1), ih h.2, List.cons_append]

theorem shortenNul_eq_nil_iff : shortenNul bytes = [] ↔ bytes = [] := by
  fun_cases shortenNul bytes <;> simp

/-- The first byte was there before the first pass, or it is a NUL that was shortened. -/
theorem shortenNul_eq_cons (h : shortenNul bytes = a :: rest) :
    ∃ before, shortenNul before = rest ∧
      (bytes = a :: before ∨ a = 0 ∧ bytes = 0xC0 :: 0x80 :: before) := by
  unfold shortenNul at h
  split at h
  · simp at h
  · obtain ⟨rfl, rfl⟩ := List.cons.inj h
    exact ⟨[], rfl, .inl rfl⟩
  · split at h
    · next hnul =>
      obtain ⟨rfl, rfl⟩ := hnul
      obtain ⟨rfl, rfl⟩ := List.cons.inj h
      exact ⟨_, rfl, .inr ⟨rfl, rfl⟩⟩
    · obtain ⟨rfl, rfl⟩ := List.cons.inj h
      exact ⟨_, rfl, .inl rfl⟩

/-- The inner bytes were all there before the first pass, since none of them is a NUL. -/
theorem exists_of_shortenNul_eq_append (hbytes : ∀ b ∈ bytes, IsInner b)
    {all : List UInt8} (h : shortenNul all = bytes ++ rest) :
    ∃ before, all = bytes ++ before ∧ shortenNul before = rest := by
  induction bytes generalizing all with
  | nil => exact ⟨all, rfl, h⟩
  | cons a bytes ih =>
    obtain ⟨ha, hbytes⟩ := List.forall_mem_cons.1 hbytes
    obtain ⟨between, hbetween, rfl | ⟨rfl, -⟩⟩ := shortenNul_eq_cons h
    · obtain ⟨before, rfl, hbefore⟩ := ih hbytes hbetween
      exact ⟨before, rfl, hbefore⟩
    · exact absurd ha.1 (by decide)

/-! ### The second pass -/

/-- The form of the second pass: surrogates may be written, and NUL takes one byte. -/
def Form.lenient : Form := ⟨false, true⟩

/-- What the first pass makes of a character is one for the second, whatever follows it. -/
theorem exists_lenient (h : Character .modified bytes p) :
    ∃ short, Character .lenient short p ∧ ∀ rest, shortenNul (bytes ++ rest) =
      short ++ shortenNul rest := by
  obtain ⟨a, ha, rfl, rfl⟩ | ⟨rfl, rfl, -⟩ | ⟨hinner, hform⟩ := h.cases_bytes
  · have hne : a ≠ 0xC0 := by
      rintro rfl
      simp at ha
    exact ⟨[a], .one ha, fun rest => shortenNul_cons hne⟩
  · exact ⟨[0], .one (a := 0) (by decide), fun rest => shortenNul_longNul⟩
  · have hnone : 0xC0 ∉ bytes := fun hmem => (hinner _ hmem).2 rfl
    exact ⟨bytes, hform _ rfl, fun rest => shortenNul_append hnone⟩

/-- A character that the second pass finds was one before the first. -/
theorem exists_modified (h : Character .lenient bytes p) {all : List UInt8}
    (hall : shortenNul all = bytes ++ rest) :
    ∃ long before, Character .modified long p ∧ all = long ++ before ∧
      shortenNul before = rest := by
  obtain ⟨a, ha, rfl, rfl⟩ | ⟨-, -, hlong⟩ | ⟨hinner, hform⟩ := h.cases_bytes
  · -- a NUL of one byte may have been one of two, any other byte was as it is
    obtain ⟨before, hbefore, rfl | ⟨rfl, rfl⟩⟩ := shortenNul_eq_cons hall
    · exact ⟨[a], before, .one ha, rfl, hbefore⟩
    · exact ⟨[0xC0, 0x80], before, .longNul rfl, rfl, hbefore⟩
  · exact absurd hlong (by decide)
  · obtain ⟨before, rfl, hbefore⟩ := exists_of_shortenNul_eq_append hinner hall
    exact ⟨bytes, before, hform _ rfl, rfl, hbefore⟩

theorem characters_shortenNul_iff :
    Characters .lenient (shortenNul bytes) t ↔ Characters .modified bytes t := by
  constructor
  · intro h
    generalize hshort : shortenNul bytes = short at h
    induction h generalizing bytes with
    | nil =>
      obtain rfl : bytes = [] := shortenNul_eq_nil_iff.1 hshort
      exact .nil
    | cons hp _ ih =>
      obtain ⟨long, before, hlong, rfl, hbefore⟩ := exists_modified hp hshort
      exact .cons hlong (ih hbefore)
  · intro h
    induction h with
    | nil => exact .nil
    | cons hp _ ih =>
      obtain ⟨short, hshort, hpass⟩ := exists_lenient hp
      rw [hpass]
      exact .cons hshort ih

/-- Reading in two passes and in one give the same, on all bytes. -/
theorem decodeIn_shortenNul (bytes : List UInt8) :
    decodeIn .lenient (shortenNul bytes) = decodeModified bytes := by
  refine Option.ext fun t => ?_
  unfold decodeModified
  rw [decodeIn_eq_some_iff, decodeIn_eq_some_iff, characters_shortenNul_iff]

/-! ### The units of a text -/

theorem notMem_encodePoint {p : Nat} (hp : p < 0x10000) : 0xC0 ∉ encodePoint p := by
  have htail (n : Nat) : (0xC0 : UInt8) ≠ (0x80 + n % 0x40).toUInt8 :=
    (isInner_of_isTail (isTail_tail n)).2.symm
  have hfirst {n : Nat} (hn : n < 256) (hne : n ≠ 0xC0) : (0xC0 : UInt8) ≠ n.toUInt8 := by
    intro h
    have hnat := congrArg UInt8.toNat h
    rw [toNat_toUInt8 hn] at hnat
    exact hne hnat.symm
  by_cases h1 : p < 0x80
  · have ha := hfirst (n := p) (by omega) (by omega)
    rw [encodePoint_one h1, List.mem_singleton]
    exact ha
  by_cases h2 : p < 0x800
  · have ha := hfirst (n := 0xC0 + p / 0x40) (by omega) (by omega)
    rw [encodePoint_two (Nat.not_lt.1 h1) h2]
    simp only [List.mem_cons, ha, htail, List.not_mem_nil, or_self, not_false_eq_true]
  · have ha := hfirst (n := 0xE0 + p / 0x1000) (by omega) (by omega)
    rw [encodePoint_three (Nat.not_lt.1 h2) hp]
    simp only [List.mem_cons, ha, htail, List.not_mem_nil, or_self, not_false_eq_true]

/-- Of the units of a text the first pass shortens the NULs and leaves the others as they are. -/
theorem shortenNul_encodeUnits {us : List CodePoint} (hus : ∀ u ∈ us, u < 0x10000) :
    shortenNul (encodeUnits us) = us.flatMap encodePoint := by
  unfold encodeUnits
  induction us with
  | nil => rfl
  | cons u us ih =>
    obtain ⟨hu, hus⟩ := List.forall_mem_cons.1 hus
    rw [List.flatMap_cons, List.flatMap_cons, ← ih hus]
    unfold encodeUnit
    split
    · next hnul =>
      subst hnul
      exact shortenNul_longNul
    · exact shortenNul_append (notMem_encodePoint hu)

end Jarsmith.Utf8
