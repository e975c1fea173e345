import Mathlib.Data.List.Forall2
import Mathlib.Data.List.TakeWhile
import Jarsmith.Proofs.Properties.Escape

/-!
# Property files that were written

`Written entries t` says that the text `t` is made of lines: one for each key and value in
`entries`, in their order, and any number of blank lines and comments between them. Such a text is
read back as what was written, each key with its last value (`parse_written`).

Each line is a logical line of its own, or none (`Written.forall₂_entry`): a line of a key and a
value is not continued, and a comment is dropped before anyone asks whether it is. A carriage return
at the end of a line may be taken together with the line feed of a blank line after it, and then
there is one blank line less.
-/

namespace Jarsmith.Properties

variable {t line ending rest key value separator indent : Text} {pair? : Option (Text × Text)}
  {entries : List (Text × Text)}

/-- The ways to end a line. -/
inductive EndsLine : Text → Prop
  | lineFeed : EndsLine [0x0A]
  | carriageReturn : EndsLine [0x0D]
  | both : EndsLine [0x0D, 0x0A]

/-- A line without its end, and the key and the value that are on it, if any. -/
inductive Line : Option (Text × Text) → Text → Prop
  | blank {indent : Text} : (∀ b ∈ indent, isBlank b = true) → Line none indent
  | comment {indent content : Text} {mark : CodePoint} : (∀ b ∈ indent, isBlank b = true) →
      mark = 0x23 ∨ mark = 0x21 → (∀ c ∈ content, c ≠ 0x0A ∧ c ≠ 0x0D) →
      Line none (indent ++ mark :: content)
  | entry {indent key separator value : Text} : (∀ b ∈ indent, isBlank b = true) →
      Separates key separator →
      Line (some (key, value)) (indent ++ (escapeKey key ++ separator ++ escapeValue value))

/-- The text is made of lines, on which the keys and values are. -/
inductive Written : List (Text × Text) → Text → Prop
  | nil : Written [] []
  | line {pair? : Option (Text × Text)} {line ending rest : Text}
      {entries : List (Text × Text)} : Line pair? line → EndsLine ending → Written entries rest →
      Written (pair?.toList ++ entries) (line ++ ending ++ rest)

/-! ### Natural lines -/

theorem naturalLines_cons {c : CodePoint} {lines : List Text} (hc : c ≠ 0x0A ∧ c ≠ 0x0D)
    (h : naturalLines t = line :: lines) : naturalLines (c :: t) = (c :: line) :: lines := by
  rw [naturalLines, if_neg (not_or.2 hc), h]
  exact fun _ heq _ => hc.2 heq

/-- A line ends where its end is, and the logical lines after it are those of what follows. -/
theorem exists_naturalLines (hline : ∀ c ∈ line, c ≠ 0x0A ∧ c ≠ 0x0D) (hending : EndsLine ending)
    (rest : Text) : ∃ lines, naturalLines (line ++ ending ++ rest) = line :: lines ∧
      logicalLinesFrom none lines = logicalLines rest := by
  induction line with
  | nil =>
    cases hending with
    | lineFeed => exact ⟨naturalLines rest, rfl, rfl⟩
    | both => exact ⟨naturalLines rest, rfl, rfl⟩
    | carriageReturn =>
      -- A line feed that follows belongs to this end. Without it there is one blank line less.
      match rest with
      | [] => exact ⟨naturalLines [], rfl, rfl⟩
      | c :: rest =>
        by_cases hc : c = 0x0A
        · exact ⟨naturalLines rest, by rw [hc]; rfl, by rw [hc]; rfl⟩
        · refine ⟨naturalLines (c :: rest), ?_, rfl⟩
          rw [List.nil_append, List.singleton_append, naturalLines, if_pos (.inr rfl)]
          exact fun t _ heq => hc (List.cons.inj heq).1
  | cons c line ih =>
    obtain ⟨hc, hline⟩ := List.forall_mem_cons.1 hline
    obtain ⟨lines, hlines, hlogical⟩ := ih hline
    exact ⟨lines, naturalLines_cons hc hlines, hlogical⟩

/-! ### Logical lines -/

theorem logicalLinesFrom_of_isIgnored (h : isIgnored (line.dropWhile isBlank) = true)
    (lines : List Text) :
    logicalLinesFrom none (line :: lines) = logicalLinesFrom none lines := by
  rw [logicalLinesFrom]
  dsimp only
  rw [h, Option.isNone_none, Bool.and_self, if_pos rfl]

theorem logicalLinesFrom_of_not_isContinued (h : isIgnored (line.dropWhile isBlank) = false)
    (hwhole : isContinued (line.dropWhile isBlank) = false) (lines : List Text) :
    logicalLinesFrom none (line :: lines) =
      line.dropWhile isBlank :: logicalLinesFrom none lines := by
  rw [logicalLinesFrom]
  dsimp only
  rw [h, Bool.and_false, if_neg Bool.false_ne_true, Option.getD_none, List.nil_append, hwhole,
    if_neg Bool.false_ne_true]

/-- After the blanks at its beginning, a line of a key and a value is one still. If the key is empty,
these are the blanks before the separator as well. -/
theorem exists_dropWhile_entry (hindent : ∀ b ∈ indent, isBlank b = true)
    (h : Separates key separator) (value : Text) : ∃ separator', Separates key separator' ∧
      (indent ++ (escapeKey key ++ separator ++ escapeValue value)).dropWhile isBlank =
        escapeKey key ++ separator' ++ escapeValue value ∧
      isIgnored (escapeKey key ++ separator' ++ escapeValue value) = false := by
  rw [List.dropWhile_append_of_pos hindent]
  cases key with
  | cons c key =>
    obtain ⟨d, u, hw, hblank, -, hhash, hmark⟩ :=
      begins_keyPoint c (key.flatMap (escapePoint keyLetter?))
    refine ⟨separator, h, ?_, ?_⟩
    · rw [escapeKey, List.flatMap_cons, hw, List.cons_append, List.cons_append,
        List.dropWhile_cons, hblank, if_neg Bool.false_ne_true]
    · rw [escapeKey, List.flatMap_cons, hw, List.cons_append, List.cons_append, isIgnored]
      simp [hhash, hmark]
  | nil =>
    -- Without a key the line begins with the separator, which is a mark.
    cases h with
    | blanks hne _ _ => exact absurd rfl hne
    | @mark before after c hbefore hc hafter =>
      have hfacts : isBlank c = false ∧ c ≠ 0x23 ∧ c ≠ 0x21 := by
        simp only [isSeparator, Bool.or_eq_true, beq_iff_eq] at hc
        rcases hc with rfl | rfl <;> decide
      obtain ⟨hblank, hhash, hmark⟩ := hfacts
      refine ⟨[] ++ c :: after, .mark (by simp) hc hafter, ?_, ?_⟩
      · rw [escapeKey, List.flatMap_nil, List.nil_append, List.nil_append, List.nil_append,
          List.append_assoc, List.dropWhile_append_of_pos hbefore, List.cons_append,
          List.dropWhile_cons, hblank, if_neg Bool.false_ne_true]
      · rw [escapeKey, List.flatMap_nil, List.nil_append, List.nil_append, List.cons_append,
          isIgnored]
        simp [hhash, hmark]

theorem Line.ne_lineEnd (h : Line pair? line) : ∀ c ∈ line, c ≠ 0x0A ∧ c ≠ 0x0D := by
  have hblank {c : CodePoint} (hc : isBlank c = true) : c ≠ 0x0A ∧ c ≠ 0x0D := by
    obtain ⟨-, hfeed, hreturn, -⟩ := ne_of_blank_or_separator (.inl hc)
    exact ⟨hfeed, hreturn⟩
  cases h with
  | blank hindent => exact fun c hc => hblank (hindent c hc)
  | comment hindent hmark hcontent =>
    refine List.forall_mem_append.2 ⟨fun c hc => hblank (hindent c hc), ?_⟩
    refine List.forall_mem_cons.2 ⟨?_, hcontent⟩
    rcases hmark with rfl | rfl <;> decide
  | @entry indent key separator value hindent hseparator =>
    refine List.forall_mem_append.2 ⟨fun c hc => hblank (hindent c hc), ?_⟩
    refine List.forall_mem_append.2 ⟨List.forall_mem_append.2 ⟨?_, fun c hc => ?_⟩, ?_⟩
    · exact (escaped_key key).ne_lineEnd
    · obtain ⟨-, hfeed, hreturn, -⟩ :=
        ne_of_blank_or_separator (hseparator.eq_blank_or_separator c hc)
      exact ⟨hfeed, hreturn⟩
    · exact (escaped_value value).ne_lineEnd

/-- The key and the value on a line are those of its logical line, and on a blank line or a comment
there is none. -/
theorem Line.logicalLinesFrom (h : Line pair? line) (lines : List Text) :
    ∃ own : List Text, logicalLinesFrom none (line :: lines) = own ++ logicalLinesFrom none lines ∧
      List.Forall₂ (fun line entry => Properties.entry line = .ok entry) own pair?.toList := by
  cases h with
  | blank hindent =>
    refine ⟨[], logicalLinesFrom_of_isIgnored ?_ lines, .nil⟩
    rw [List.dropWhile_eq_nil_iff.2 hindent]
    rfl
  | @comment indent content mark hindent hmark _ =>
    refine ⟨[], logicalLinesFrom_of_isIgnored ?_ lines, .nil⟩
    rw [List.dropWhile_append_of_pos hindent]
    rcases hmark with rfl | rfl <;> rfl
  | @entry indent key separator value hindent hseparator =>
    obtain ⟨separator', hseparator', hline, hignored⟩ :=
      exists_dropWhile_entry hindent hseparator value
    refine ⟨[escapeKey key ++ separator' ++ escapeValue value], ?_, .cons ?_ .nil⟩
    · rw [← hline] at hignored
      rw [logicalLinesFrom_of_not_isContinued hignored, hline, List.singleton_append]
      rw [hline]
      exact isContinued_escaped hseparator' value
    · exact entry_escaped hseparator' value

/-- The logical lines of a text that was written are those of its keys and values. -/
theorem Written.forall₂_entry (h : Written entries t) :
    List.Forall₂ (fun line entry => Properties.entry line = .ok entry) (logicalLines t) entries := by
  induction h with
  | nil => exact .nil
  | @line pair? line ending rest entries hline hending _ ih =>
    obtain ⟨lines, hlines, hlogical⟩ := exists_naturalLines hline.ne_lineEnd hending rest
    obtain ⟨own, hown, hentry⟩ := hline.logicalLinesFrom lines
    rw [logicalLines, hlines, hown, hlogical]
    exact List.rel_append hentry ih

/-! ### Keys with their last values -/

theorem map_fst_put (key value : Text) (properties : Properties) :
    (put key value properties).map Prod.fst = Text.insertNew (properties.map Prod.fst) key := by
  induction properties with
  | nil => rfl
  | cons p properties ih =>
    obtain ⟨k, v⟩ := p
    rw [put]
    split
    · next hkey => simp [Text.insertNew, hkey]
    · next hkey =>
      rw [List.map_cons, ih]
      unfold Text.insertNew
      simp only [List.map_cons, List.mem_cons, Ne.symm hkey, false_or]
      split <;> rfl

theorem lookup_cons (key value : Text) (properties : Properties) (k : Text) :
    List.lookup k ((key, value) :: properties) =
      if k = key then some value else properties.lookup k := by
  rw [List.lookup_cons]
  by_cases hk : k = key
  · rw [if_pos hk, beq_iff_eq.2 hk]
  · rw [if_neg hk, beq_false_of_ne hk]

theorem lookup_put (key value : Text) (properties : Properties) (k : Text) :
    (put key value properties).lookup k =
      if k = key then some value else properties.lookup k := by
  induction properties with
  | nil => rw [put, lookup_cons]
  | cons p properties ih =>
    obtain ⟨k', v⟩ := p
    rw [put]
    by_cases hkey : k' = key
    · rw [if_pos hkey, lookup_cons, lookup_cons, hkey]
      by_cases hk : k = key <;> simp [hk]
    · rw [if_neg hkey, lookup_cons, lookup_cons, ih]
      -- The value of a key that stands before is not the one that was set.
      by_cases hk : k = k'
      · simp [hk, hkey]
      · simp [hk]

/-- What all keys and values come to, one set after another. -/
def putAll (properties : Properties) (entries : List (Text × Text)) : Properties :=
  entries.foldl (fun properties entry => put entry.1 entry.2 properties) properties

theorem map_fst_putAll (entries : List (Text × Text)) :
    (putAll [] entries).map Prod.fst = Text.unique (entries.map Prod.fst) := by
  -- To set a key is to put it at the end of the keys unless it is there.
  suffices h : ∀ properties : Properties, (putAll properties entries).map Prod.fst =
      (entries.map Prod.fst).foldl Text.insertNew (properties.map Prod.fst) from h []
  induction entries with
  | nil => exact fun _ => rfl
  | cons entry entries ih =>
    intro properties
    rw [List.map_cons, List.foldl_cons, ← map_fst_put entry.1 entry.2]
    exact ih _

theorem lookup_putAll (entries : List (Text × Text)) (properties : Properties) (k : Text) :
    (putAll properties entries).lookup k = (entries.reverse.lookup k).or (properties.lookup k) := by
  induction entries generalizing properties with
  | nil => rfl
  | cons entry entries ih =>
    obtain ⟨key, value⟩ := entry
    -- What is set later is looked at first, and the first one that is set last of all.
    rw [List.reverse_cons, List.lookup_append, Option.or_assoc]
    refine (ih (put key value properties)).trans ?_
    rw [lookup_put, lookup_cons, List.lookup_nil]
    by_cases hk : k = key <;> simp [hk]

/-- A text whose logical lines are all keys and values is read as what they come to. -/
theorem parse_of_forall₂_entry (h : List.Forall₂ (fun line entry =>
    Properties.entry line = .ok entry) (logicalLines t) entries) :
    parse t = .ok (putAll [] entries) := by
  unfold parse
  generalize ([] : Properties) = properties
  generalize logicalLines t = lines at h
  induction h generalizing properties with
  | nil => rfl
  | cons hentry _ ih =>
    rw [List.foldlM_cons, hentry]
    exact ih _

/-- **Reading back what was written**: a text made of lines of escaped keys and values, with blank
lines and comments among them, is read as the keys, each once, in the order in which they first
occur, with the last value of each. -/
theorem parse_written (h : Written entries t) : ∃ properties, parse t = .ok properties ∧
    properties.map Prod.fst = Text.unique (entries.map Prod.fst) ∧
    ∀ key, properties.lookup key = entries.reverse.lookup key := by
  refine ⟨putAll [] entries, parse_of_forall₂_entry h.forall₂_entry, map_fst_putAll entries, ?_⟩
  intro key
  rw [lookup_putAll, List.lookup_nil, Option.or_none]

/-- A comment that ends in a backslash, a key with a space, a value with a space at its beginning and
a backslash at its end, a blank line the end of which is taken for that of the line before, and a key
that comes twice. -/
theorem parse_written_of_comment : ∃ properties,
    parse ("# c\\\n a\\ b \t:\\ x\\\\\r\nk v\r\nk=\r" : Text) = .ok properties ∧
      properties.lookup ("a b" : Text) = some (" x\\" : Text) ∧
      properties.lookup ("k" : Text) = some [] := by
  have hcomment : Line none ([] ++ 0x23 :: (" c\\" : Text)) :=
    .comment (by simp) (.inl rfl) (by decide)
  have hspace : Line (some ("a b", " x\\")) ((" " : Text) ++ (escapeKey "a b" ++
      ((" \t" : Text) ++ 0x3A :: []) ++ escapeValue " x\\")) :=
    .entry (by decide) (.mark (by decide) rfl (by simp))
  have hblank : Line none [] := .blank (by simp)
  have hblanks : Line (some ("k", "v")) ([] ++ (escapeKey "k" ++ (" " : Text) ++ escapeValue "v")) :=
    .entry (by simp) (.blanks (by decide) (by decide) (by decide))
  have hempty : Line (some ("k", [])) ([] ++ (escapeKey "k" ++ ([] ++ 0x3D :: []) ++ escapeValue [])) :=
    .entry (by simp) (.mark (by simp) rfl (by simp))
  have hwritten := Written.line hcomment .lineFeed (.line hspace .carriageReturn
    (.line hblank .lineFeed (.line hblanks .both (.line hempty .carriageReturn .nil))))
  obtain ⟨properties, hparse, -, hlookup⟩ := parse_written hwritten
  exact ⟨properties, (congrArg parse (by decide +kernel)).trans hparse,
    (hlookup _).trans (by decide +kernel), (hlookup _).trans (by decide +kernel)⟩

end Jarsmith.Properties
