import Mathlib.Data.List.Induction
import Mathlib.Tactic.SplitIfs
import Jarsmith.Properties

/-!
# Keys and values with escapes

`escapeKey` and `escapeValue` write a key and a value as a store of properties does. Four passes of
the reader look at backslashes: that for continued lines, the search for the end of the key, the
search for the beginning of the value, and the one that undoes the escapes. All that they need to
know of an escaped text is `Escaped`: a backslash stands only before the letter of an escape, and
what stands for itself is none of the code points that a pass stops at.

So none of them is misled by an escaped text, and a line of a key, a separator and a value is read
as that key and that value (`entry_escaped`) and is not continued (`isContinued_escaped`).
-/

namespace Jarsmith.Properties

variable {c l : CodePoint} {t w rest key value separator : Text} {blanks : Bool}

/-! ### Writing -/

/-- The letter after the backslash where a code point is escaped. -/
def letter? (c : CodePoint) : Option CodePoint :=
  if c = 0x09 then some 0x74
  else if c = 0x0A then some 0x6E
  else if c = 0x0D then some 0x72
  else if c = 0x0C then some 0x66
  else if c = backslash ∨ c = 0x3D ∨ c = 0x3A ∨ c = 0x23 ∨ c = 0x21 then some c
  else none

/-- In a key, and where a value begins, a space is escaped as well. -/
def keyLetter? (c : CodePoint) : Option CodePoint := if c = 0x20 then some c else letter? c

/-- A code point as it is written. -/
def escapePoint (letter? : CodePoint → Option CodePoint) (c : CodePoint) : Text :=
  match letter? c with
  | some l => [backslash, l]
  | none => [c]

/-- A key as it is written. -/
def escapeKey (key : Text) : Text := key.flatMap (escapePoint keyLetter?)

/-- A value as it is written. -/
def escapeValue : (value : Text) → Text
  | [] => []
  | c :: t => escapePoint keyLetter? c ++ t.flatMap (escapePoint letter?)

/-- What stands between a key and its value: an equals sign or a colon among blanks, or, after a key
that is not empty, blanks alone. -/
inductive Separates (key : Text) : Text → Prop
  | mark {before after : Text} {c : CodePoint} : (∀ b ∈ before, isBlank b = true) →
      isSeparator c = true → (∀ b ∈ after, isBlank b = true) →
      Separates key (before ++ c :: after)
  | blanks {separator : Text} : key ≠ [] → separator ≠ [] → (∀ b ∈ separator, isBlank b = true) →
      Separates key separator

/-! ### Escaped texts -/

/-- The code point can stand for itself. -/
structure Plain (c : CodePoint) : Prop where
  backslash : c ≠ backslash
  lineFeed : c ≠ 0x0A
  carriageReturn : c ≠ 0x0D
  separator : isSeparator c = false
  comment : c ≠ 0x23 ∧ c ≠ 0x21

/-- The text `w` is a way to write `t`. Blanks stand for themselves only if `blanks` is set. -/
inductive Escaped (blanks : Bool) : (t w : Text) → Prop
  | nil : Escaped blanks [] []
  | raw {c : CodePoint} {t w : Text} : Plain c → (isBlank c = true → blanks = true) →
      Escaped blanks t w → Escaped blanks (c :: t) (c :: w)
  | letter {l : CodePoint} {t w : Text} : l ≠ 0x75 → l ≠ 0x0A → l ≠ 0x0D →
      Escaped blanks t w → Escaped blanks (unescapeLetter l :: t) (backslash :: l :: w)

theorem eq_unescapeLetter_of_letter? (h : letter? c = some l) :
    c = unescapeLetter l ∧ l ≠ 0x75 ∧ l ≠ 0x0A ∧ l ≠ 0x0D := by
  unfold letter? at h
  split_ifs at h with h₁ h₂ h₃ h₄ h₅ <;> obtain rfl := Option.some.inj h
  · exact ⟨h₁, by decide⟩
  · exact ⟨h₂, by decide⟩
  · exact ⟨h₃, by decide⟩
  · exact ⟨h₄, by decide⟩
  · rcases h₅ with rfl | rfl | rfl | rfl | rfl <;> decide

theorem plain_of_letter? (h : letter? c = none) : Plain c := by
  unfold letter? at h
  split_ifs at h with h₁ h₂ h₃ h₄ h₅
  simp only [not_or] at h₅
  obtain ⟨hbackslash, hequals, hcolon, hhash, hmark⟩ := h₅
  exact ⟨hbackslash, h₂, h₃, by simp [isSeparator, hequals, hcolon], hhash, hmark⟩

theorem plain_of_keyLetter? (h : keyLetter? c = none) : Plain c ∧ isBlank c = false := by
  unfold keyLetter? at h
  split_ifs at h with hspace
  refine ⟨plain_of_letter? h, ?_⟩
  unfold letter? at h
  split_ifs at h with htab _ _ hfeed
  simp [isBlank, hspace, htab, hfeed]

/-- A code point may be written as in a key anywhere. -/
theorem Escaped.keyPoint (h : Escaped blanks t w) (c : CodePoint) :
    Escaped blanks (c :: t) (escapePoint keyLetter? c ++ w) := by
  unfold escapePoint
  split
  · next l hl =>
    by_cases hspace : c = 0x20
    · obtain rfl : 0x20 = l := by simpa [keyLetter?, hspace] using hl
      rw [hspace]
      exact .letter (l := 0x20) (by decide) (by decide) (by decide) h
    · -- Every other letter is one of values as well.
      rw [keyLetter?, if_neg hspace] at hl
      obtain ⟨rfl, hu, hfeed, hreturn⟩ := eq_unescapeLetter_of_letter? hl
      exact .letter hu hfeed hreturn h
  · next hnone =>
    obtain ⟨hplain, hblank⟩ := plain_of_keyLetter? hnone
    exact .raw hplain (by simp [hblank]) h

theorem Escaped.valuePoint (h : Escaped true t w) (c : CodePoint) :
    Escaped true (c :: t) (escapePoint letter? c ++ w) := by
  unfold escapePoint
  split
  · next l hl =>
    obtain ⟨rfl, hu, hfeed, hreturn⟩ := eq_unescapeLetter_of_letter? hl
    exact .letter hu hfeed hreturn h
  · next hnone => exact .raw (plain_of_letter? hnone) (fun _ => rfl) h

theorem escaped_key (key : Text) : Escaped false key (escapeKey key) := by
  induction key with
  | nil => exact .nil
  | cons c key ih => exact ih.keyPoint c

theorem escaped_value (value : Text) : Escaped true value (escapeValue value) := by
  have hrest (t : Text) : Escaped true t (t.flatMap (escapePoint letter?)) := by
    induction t with
    | nil => exact .nil
    | cons c t ih => exact ih.valuePoint c
  cases value with
  | nil => exact .nil
  | cons c t => exact (hrest t).keyPoint c

/-! ### The four passes -/

namespace Escaped

/-- The escapes are undone. -/
theorem unescape_eq (h : Escaped blanks t w) : unescape w = .ok t := by
  induction h with
  | nil => rw [unescape]
  | raw hplain _ _ ih =>
    rw [unescape, ih]
    · rfl
    · exact fun _ h _ => hplain.backslash h
    · exact fun _ _ h _ => hplain.backslash h
  | letter hu _ _ _ ih =>
    rw [unescape, ih]
    · rfl
    · exact hu

/-- The key ends where the escaped text does, if a separator or a blank follows, or nothing. -/
theorem cutKey_eq (h : Escaped false t w)
    (hrest : ∀ c ∈ rest.head?, (isSeparator c || isBlank c) = true) :
    cutKey (w ++ rest) = (w, rest) := by
  induction h with
  | nil =>
    rw [List.nil_append]
    match rest with
    | [] => rw [cutKey]
    | [c] => rw [cutKey, if_pos (hrest c rfl)]
    | c :: d :: rest =>
      have hc := hrest c rfl
      have hne : c ≠ backslash := by
        rintro rfl
        exact absurd hc (by decide)
      rw [cutKey, if_neg hne, if_pos hc]
  | @raw c t w hplain hblank _ ih =>
    have hc : (isSeparator c || isBlank c) = false := by
      rw [hplain.separator, Bool.false_or, ← Bool.not_eq_true]
      exact fun h => Bool.false_ne_true (hblank h)
    -- A text of one code point is a case of its own in the search.
    cases hw : w ++ rest with
    | nil =>
      obtain ⟨rfl, rfl⟩ := List.append_eq_nil_iff.1 hw
      rw [List.cons_append, List.nil_append, cutKey, if_neg (by simp [hc])]
    | cons d after =>
      rw [hw] at ih
      rw [List.cons_append, hw, cutKey, if_neg hplain.backslash, if_neg (by simp [hc]), ih]
  | letter _ _ _ _ ih =>
    -- The backslash takes its letter along, even if that is a separator or a space.
    rw [List.cons_append, List.cons_append, cutKey, if_pos rfl, ih]

/-- No line ends in an escaped text. -/
theorem ne_lineEnd (h : Escaped blanks t w) : ∀ c ∈ w, c ≠ 0x0A ∧ c ≠ 0x0D := by
  induction h with
  | nil => simp
  | raw hplain _ _ ih => exact List.forall_mem_cons.2 ⟨⟨hplain.lineFeed, hplain.carriageReturn⟩, ih⟩
  | letter _ hfeed hreturn _ ih =>
    exact List.forall_mem_cons.2 ⟨by decide, List.forall_mem_cons.2 ⟨⟨hfeed, hreturn⟩, ih⟩⟩

end Escaped

/-- Whether the backslashes at the end are odd in number, after one more code point. -/
def oddAfter (odd : Bool) (c : CodePoint) : Bool := c == backslash && !odd

theorem isContinued_eq_foldl (line : Text) : isContinued line = line.foldl oddAfter false := by
  induction line using List.reverseRecOn with
  | nil => rfl
  | append_singleton line c ih =>
    rw [List.foldl_append, List.foldl_cons, List.foldl_nil, ← ih]
    unfold isContinued oddAfter
    rw [List.reverse_append, List.reverse_singleton, List.singleton_append, List.takeWhile_cons]
    cases c == backslash with
    | false => rfl
    | true =>
      rw [if_pos rfl, List.length_cons, Bool.true_and]
      generalize (line.reverse.takeWhile (· == backslash)).length = n
      rcases Nat.mod_two_eq_zero_or_one n with h | h
      · simp [Nat.add_mod, h]
      · simp [Nat.add_mod, h]

theorem Escaped.foldl_oddAfter (h : Escaped blanks t w) : w.foldl oddAfter false = false := by
  induction h with
  | nil => rfl
  | raw hplain _ _ ih =>
    rw [List.foldl_cons, show oddAfter false _ = false by simp [oddAfter, hplain.backslash], ih]
  | letter _ _ _ _ ih =>
    -- The letter ends the run of backslashes, or makes its number even if it is one itself.
    rw [List.foldl_cons, List.foldl_cons, show oddAfter (oddAfter false backslash) _ = false by
      simp [oddAfter], ih]

theorem foldl_oddAfter_of_ne (h : ∀ c ∈ t, c ≠ backslash) : t.foldl oddAfter false = false := by
  induction t with
  | nil => rfl
  | cons c t ih =>
    obtain ⟨hc, ht⟩ := List.forall_mem_cons.1 h
    rw [List.foldl_cons, show oddAfter false c = false by simp [oddAfter, hc], ih ht]

/-! ### Lines of a key and a value -/

/-- The code point begins a key or a value: it is no blank, no separator and no comment mark. -/
def Begins (c : CodePoint) : Prop :=
  isBlank c = false ∧ isSeparator c = false ∧ c ≠ 0x23 ∧ c ≠ 0x21

theorem begins_keyPoint (c : CodePoint) (w : Text) :
    ∃ d u, escapePoint keyLetter? c ++ w = d :: u ∧ Begins d := by
  unfold escapePoint
  split
  · exact ⟨_, _, rfl, by decide, by decide, by decide, by decide⟩
  · next hnone =>
    obtain ⟨hplain, hblank⟩ := plain_of_keyLetter? hnone
    exact ⟨_, _, rfl, hblank, hplain.separator, hplain.comment⟩

theorem Separates.eq_blank_or_separator (h : Separates key separator) :
    ∀ c ∈ separator, isBlank c = true ∨ isSeparator c = true := by
  cases h with
  | mark hbefore hc hafter =>
    intro b hb
    rcases List.mem_append.1 hb with hb | hb
    · exact .inl (hbefore b hb)
    · rcases List.mem_cons.1 hb with rfl | hb
      · exact .inr hc
      · exact .inl (hafter b hb)
  | blanks _ _ hblanks => exact fun b hb => .inl (hblanks b hb)

theorem ne_of_blank_or_separator (h : isBlank c = true ∨ isSeparator c = true) :
    c ≠ backslash ∧ c ≠ 0x0A ∧ c ≠ 0x0D ∧ c ≠ 0x23 ∧ c ≠ 0x21 := by
  simp only [isBlank, isSeparator, Bool.or_eq_true, beq_iff_eq] at h
  rcases h with ((rfl | rfl) | rfl) | rfl | rfl <;> decide

theorem Separates.ne_nil (h : Separates key separator) : separator ≠ [] := by
  cases h with
  | mark => simp
  | blanks _ hne _ => exact hne

/-- Where a value is looked for after a separator, it is found. -/
theorem trimValue_eq (h : Separates key separator) (value : Text) :
    trimValue (separator ++ escapeValue value) = escapeValue value := by
  -- A blank at the beginning of a value is escaped, so that it is not dropped.
  have hkeep : (escapeValue value).dropWhile isBlank = escapeValue value := by
    cases value with
    | nil => rfl
    | cons c t =>
      obtain ⟨d, u, hw, hblank, -⟩ := begins_keyPoint c (t.flatMap (escapePoint letter?))
      rw [escapeValue, hw, List.dropWhile_cons, hblank, if_neg Bool.false_ne_true]
  unfold trimValue
  cases h with
  | @mark before after c hbefore hc hafter =>
    have hblank : isBlank c = false := by
      simp only [isSeparator, Bool.or_eq_true, beq_iff_eq] at hc
      rcases hc with rfl | rfl <;> decide
    rw [List.append_assoc, List.dropWhile_append_of_pos hbefore, List.cons_append,
      List.dropWhile_cons, hblank, if_neg Bool.false_ne_true]
    dsimp only
    rw [if_pos hc, List.dropWhile_append_of_pos hafter, hkeep]
  | blanks _ _ hblanks =>
    -- No separator was found yet, and what begins the value is not taken for one.
    rw [List.dropWhile_append_of_pos hblanks, hkeep]
    cases value with
    | nil => rfl
    | cons c t =>
      obtain ⟨d, u, hw, -, hseparator, -⟩ := begins_keyPoint c (t.flatMap (escapePoint letter?))
      rw [escapeValue, hw]
      dsimp only
      rw [hseparator, if_neg Bool.false_ne_true]

/-- A line of a key, a separator and a value is read as that key and that value. -/
theorem entry_escaped (h : Separates key separator) (value : Text) :
    entry (escapeKey key ++ separator ++ escapeValue value) = .ok (key, value) := by
  have hrest : ∀ c ∈ (separator ++ escapeValue value).head?,
      (isSeparator c || isBlank c) = true := by
    obtain ⟨d, u, rfl⟩ := List.exists_cons_of_ne_nil h.ne_nil
    intro c hc
    obtain rfl : d = c := by simpa using hc
    rw [Bool.or_comm, Bool.or_eq_true]
    exact h.eq_blank_or_separator d List.mem_cons_self
  unfold entry
  rw [List.append_assoc, (escaped_key key).cutKey_eq hrest]
  dsimp only
  rw [(escaped_key key).unescape_eq, trimValue_eq h, (escaped_value value).unescape_eq]
  rfl

/-- Such a line is not continued. -/
theorem isContinued_escaped (h : Separates key separator) (value : Text) :
    isContinued (escapeKey key ++ separator ++ escapeValue value) = false := by
  have hseparator : separator.foldl oddAfter false = false :=
    foldl_oddAfter_of_ne fun c hc => (ne_of_blank_or_separator (h.eq_blank_or_separator c hc)).1
  rw [isContinued_eq_foldl, List.foldl_append, List.foldl_append,
    (escaped_key key).foldl_oddAfter, hseparator, (escaped_value value).foldl_oddAfter]

end Jarsmith.Properties
