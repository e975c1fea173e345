import Mathlib.Data.List.Induction
import Jarsmith.EntryPoint
import Jarsmith.Proofs.Properties.Continuation
import Jarsmith.Proofs.Text.Trim

/-!
# The names in service files

A line names what stands before its first number sign. In a service file a line feed, a carriage
return or both end a line. `ofServices` takes every line end for one, a form feed and a line
separator (U+2028) too. What it reads is therefore told line by line by `namesIn`, the names between
line ends (`namesIn_eq_flatMap`), and a line is read as one (`IsOneLine`) if no line end is in its
name and none in its comment is followed by a name.

What is written before a number sign and the comment are read apart (`namesIn_append_comment`), and
blanks around what is written do not count, whether they are line ends or not (`namesIn_blanks`).
-/

namespace Jarsmith.EntryPoint

open CodePoint

variable {t u line lead trail written comment text : Text} {lines : List Text} {data : Bytes}

/-! ### Names of lines -/

/-- What a line names: the part before the first number sign, without blanks at its ends. -/
def serviceName (line : Text) : Text := Text.trimBlanks (line.takeWhile (· ≠ 0x23))

/-- The names on lines; a line with nothing on it has none. -/
def serviceNames (lines : List Text) : List Text := (lines.map serviceName).filter (!·.isEmpty)

theorem serviceNames_append (lines lines' : List Text) :
    serviceNames (lines ++ lines') = serviceNames lines ++ serviceNames lines' := by
  rw [serviceNames, List.map_append, List.filter_append]
  rfl

theorem serviceNames_cons (line : Text) (lines : List Text) :
    serviceNames (line :: lines) = serviceNames [line] ++ serviceNames lines :=
  serviceNames_append [line] lines

theorem serviceNames_singleton (line : Text) :
    serviceNames [line] = if serviceName line = [] then [] else [serviceName line] := by
  by_cases h : serviceName line = [] <;> simp [serviceNames, h]

theorem isBlank_of_isLineEnd {c : CodePoint} (h : c.isLineEnd = true) : c.isBlank = true := by
  unfold isLineEnd at h
  unfold isBlank isWhiteSpace
  grind

theorem ne_numberSign_of_isBlank {c : CodePoint} (h : c.isBlank = true) : c ≠ 0x23 := by
  rintro rfl
  exact absurd h (by decide)

/-! ### Names between line ends -/

/-- The names in a text, where every line end ends a line. -/
def namesIn (t : Text) : List Text := serviceNames (t.splitOnP isLineEnd)

theorem namesIn_append_cons {c : CodePoint} (hc : c.isLineEnd = true) (t u : Text) :
    namesIn (t ++ c :: u) = namesIn t ++ namesIn u := by
  rw [namesIn, List.splitOnP_append_cons t u hc, serviceNames_append]
  rfl

theorem namesIn_of_no_lineEnd (h : ∀ c ∈ t, c.isLineEnd = false) :
    namesIn t = serviceNames [t] := by
  rw [namesIn, List.splitOnP_eq_singleton h]

theorem namesIn_nil : namesIn [] = [] := by
  rw [namesIn, List.splitOnP_nil]
  rfl

theorem serviceNames_linesFrom (begun t : Text) (h : ∀ c ∈ begun, c.isLineEnd = false) :
    serviceNames (Text.linesFrom begun t) = namesIn (begun.reverse ++ t) := by
  have hbegun (begun : Text) (h : ∀ c ∈ begun, c.isLineEnd = false) :
      namesIn begun.reverse = serviceNames [begun.reverse] :=
    namesIn_of_no_lineEnd fun c hc => h c (List.mem_reverse.1 hc)
  fun_induction Text.linesFrom begun t with
  | case1 begun hempty =>
    rw [List.isEmpty_iff.1 hempty]
    exact namesIn_nil.symm
  | case2 begun hempty => rw [List.append_nil, hbegun begun h]
  | case3 begun t ih =>
    rw [serviceNames_cons, ih (by simp), namesIn_append_cons rfl, hbegun begun h]
    have hfeed := namesIn_append_cons (c := 0x0A) rfl [] t
    rw [namesIn_nil] at hfeed
    exact congrArg _ hfeed.symm
  | case4 begun c t _ hc ih =>
    rw [serviceNames_cons, ih (by simp), namesIn_append_cons hc, hbegun begun h]
    rfl
  | case5 begun c t _ hc ih =>
    rw [ih (List.forall_mem_cons.2 ⟨Bool.eq_false_iff.2 hc, h⟩), List.reverse_cons,
      List.append_assoc]
    rfl

theorem serviceNames_lines (t : Text) : serviceNames t.lines = namesIn t :=
  serviceNames_linesFrom [] t (by simp)

/-- The names in a text are those in its lines. -/
theorem namesIn_eq_flatMap (t : Text) :
    namesIn t = (Properties.naturalLines t).flatMap namesIn := by
  -- The first line may have been begun before.
  have hbegun (begun : Text) : ∃ line lines, Properties.naturalLines t = line :: lines ∧
      namesIn (begun ++ t) = namesIn (begun ++ line) ++ lines.flatMap namesIn := by
    fun_induction Properties.naturalLines t generalizing begun with
    | case1 => exact ⟨[], [], rfl, (List.append_nil _).symm⟩
    | case2 t ih =>
      obtain ⟨line, lines, hlines, heq⟩ := ih []
      refine ⟨[], _, rfl, ?_⟩
      have hfeed := namesIn_append_cons (c := 0x0A) rfl [] t
      rw [namesIn_nil] at hfeed
      rw [namesIn_append_cons rfl, List.append_nil, hlines, List.flatMap_cons]
      exact congrArg _ (hfeed.trans heq)
    | case3 c t _ hc ih =>
      obtain ⟨line, lines, hlines, heq⟩ := ih []
      refine ⟨[], _, rfl, ?_⟩
      have hend : c.isLineEnd = true := by rcases hc with rfl | rfl <;> rfl
      rw [namesIn_append_cons hend, List.append_nil, hlines, List.flatMap_cons]
      exact congrArg _ heq
    | case4 c t _ hc hnone => exact absurd hnone (Properties.naturalLines_ne_nil t)
    | case5 c t _ hc first rest htail ih =>
      obtain ⟨line, lines, hlines, heq⟩ := ih (begun ++ [c])
      obtain ⟨rfl, rfl⟩ := List.cons.inj (htail.symm.trans hlines)
      exact ⟨c :: first, rest, rfl, by simpa using heq⟩
  obtain ⟨line, lines, hlines, heq⟩ := hbegun []
  rw [hlines, List.flatMap_cons]
  exact heq

/-! ### Blanks and comments -/

/-- What a line names is told by what stands before a number sign. -/
theorem serviceName_append (h : 0x23 ∉ written) (hcomment : ∀ c ∈ comment.head?, c = 0x23) :
    serviceName (written ++ comment) = written.trimBlanks := by
  have hkept : ∀ c ∈ written, decide (c ≠ 0x23) = true := by
    intro c hc
    rw [decide_eq_true_eq]
    rintro rfl
    exact h hc
  have hdropped : comment.takeWhile (· ≠ 0x23) = [] := by
    cases comment with
    | nil => rfl
    | cons c comment => exact List.takeWhile_cons_of_neg (by simp [hcomment c rfl])
  rw [serviceName, List.takeWhile_append_of_pos hkept, hdropped, List.append_nil]

/-- The last line of a text is open: what follows the text belongs to it. -/
theorem exists_last_line (t : Text) : ∃ names before line, t = before ++ line ∧
    (∀ c ∈ line, c.isLineEnd = false) ∧ ∀ u, namesIn (t ++ u) = names ++ namesIn (line ++ u) := by
  suffices h : (∀ c ∈ t, c.isLineEnd = false) ∨ ∃ before c line, t = before ++ c :: line ∧
      c.isLineEnd = true ∧ ∀ d ∈ line, d.isLineEnd = false by
    rcases h with h | ⟨before, c, line, rfl, hc, hline⟩
    · exact ⟨[], [], t, rfl, h, fun _ => rfl⟩
    · refine ⟨namesIn before, before ++ [c], line, by simp, hline, fun u => ?_⟩
      rw [List.append_assoc, List.cons_append, namesIn_append_cons hc]
  induction t with
  | nil => exact .inl (by simp)
  | cons c t ih =>
    rcases ih with ht | ⟨before, d, line, rfl, hd, hline⟩
    · cases hc : c.isLineEnd with
      | false => exact .inl (List.forall_mem_cons.2 ⟨hc, ht⟩)
      | true => exact .inr ⟨[], c, t, rfl, hc, ht⟩
    · exact .inr ⟨c :: before, d, line, rfl, hd, hline⟩

/-- The first line of a text may have been begun before. -/
theorem exists_first_line (t : Text) : ∃ names line after, t = line ++ after ∧
    (∀ c ∈ line, c.isLineEnd = false) ∧ ∀ u, namesIn (u ++ t) = namesIn (u ++ line) ++ names := by
  suffices h : (∀ c ∈ t, c.isLineEnd = false) ∨ ∃ line c after, t = line ++ c :: after ∧
      c.isLineEnd = true ∧ ∀ d ∈ line, d.isLineEnd = false by
    rcases h with h | ⟨line, c, after, rfl, hc, hline⟩
    · exact ⟨[], t, [], by simp, h, fun _ => (List.append_nil _).symm⟩
    · refine ⟨namesIn after, line, c :: after, rfl, hline, fun u => ?_⟩
      rw [← List.append_assoc, namesIn_append_cons hc]
  induction t with
  | nil => exact .inl (by simp)
  | cons c t ih =>
    cases hc : c.isLineEnd with
    | true => exact .inr ⟨[], c, t, rfl, hc, by simp⟩
    | false =>
      rcases ih with ht | ⟨line, d, after, rfl, hd, hline⟩
      · exact .inl (List.forall_mem_cons.2 ⟨hc, ht⟩)
      · exact .inr ⟨c :: line, d, after, rfl, hd, List.forall_mem_cons.2 ⟨hc, hline⟩⟩

/-- A line that begins with a number sign names nothing, and neither does an empty one. -/
theorem serviceName_comment (hcomment : ∀ c ∈ comment.head?, c = 0x23) :
    serviceName comment = [] := by
  have h : serviceName ([] ++ comment) = Text.trimBlanks [] :=
    serviceName_append List.not_mem_nil hcomment
  exact h

theorem serviceName_written (h : 0x23 ∉ written) : serviceName written = written.trimBlanks := by
  have h : serviceName (written ++ []) = written.trimBlanks := serviceName_append h (by simp)
  rwa [List.append_nil] at h

/-- The names before a comment, and those that line ends in the comment bring about. -/
theorem namesIn_append_comment (hwritten : 0x23 ∉ written)
    (hcomment : ∀ c ∈ comment.head?, c = 0x23) :
    namesIn (written ++ comment) = namesIn written ++ namesIn comment := by
  obtain ⟨names, before, last, rfl, hlast, hbefore⟩ := exists_last_line written
  obtain ⟨names', first, after, rfl, hfirst, hafter⟩ := exists_first_line comment
  have hlastName : 0x23 ∉ last := fun h => hwritten (List.mem_append_right _ h)
  have hfirstName : ∀ c ∈ first.head?, c = 0x23 := by
    cases first with
    | nil => simp
    | cons c first => exact hcomment
  -- Only the line on which the comment begins is put together from both.
  have hline : namesIn (last ++ first) = namesIn last ++ namesIn first := by
    rw [namesIn_of_no_lineEnd (List.forall_mem_append.2 ⟨hlast, hfirst⟩),
      namesIn_of_no_lineEnd hlast, namesIn_of_no_lineEnd hfirst, serviceNames_singleton,
      serviceNames_singleton, serviceNames_singleton, serviceName_append hlastName hfirstName,
      serviceName_written hlastName, serviceName_comment hfirstName, if_pos rfl, List.append_nil]
  calc namesIn (before ++ last ++ (first ++ after))
    _ = names ++ (namesIn last ++ namesIn first) ++ names' := by rw [hafter, hbefore, hline]
    _ = names ++ namesIn last ++ (namesIn first ++ names') := by simp only [List.append_assoc]
    _ = namesIn (before ++ last) ++ namesIn (first ++ after) := by
      have hwritten := hbefore []
      have hcomment := hafter []
      rw [List.append_nil, List.append_nil] at hwritten
      rw [List.nil_append, List.nil_append] at hcomment
      rw [hwritten, hcomment]

theorem namesIn_line (hline : ∀ c ∈ line, c.isLineEnd = false) (hwritten : 0x23 ∉ line) :
    namesIn line = if line.trimBlanks = [] then [] else [line.trimBlanks] := by
  rw [namesIn_of_no_lineEnd hline, serviceNames_singleton, serviceName_written hwritten]

theorem trimBlanks_cons {b : CodePoint} (hb : b.isBlank = true) (t : Text) :
    Text.trimBlanks (b :: t) = t.trimBlanks := by
  have hlead : ∀ c ∈ [b], c.isBlank = true := by simpa using hb
  exact Text.trim_append_left hlead t

theorem trimBlanks_append_singleton {b : CodePoint} (hb : b.isBlank = true) (t : Text) :
    Text.trimBlanks (t ++ [b]) = t.trimBlanks :=
  Text.trim_append (by simpa using hb) t

/-- A blank before what is written does not count, whether it ends a line or not. -/
theorem namesIn_cons_blank {b : CodePoint} (hb : b.isBlank = true) (ht : 0x23 ∉ t) :
    namesIn (b :: t) = namesIn t := by
  cases hend : b.isLineEnd with
  | true =>
    have h := namesIn_append_cons hend [] t
    rwa [namesIn_nil] at h
  | false =>
    obtain ⟨names, line, after, rfl, hline, hafter⟩ := exists_first_line t
    have hwritten : 0x23 ∉ line := fun h => ht (List.mem_append_left _ h)
    have hcons : namesIn (b :: line) = namesIn line := by
      rw [namesIn_line (List.forall_mem_cons.2 ⟨hend, hline⟩), namesIn_line hline hwritten,
        trimBlanks_cons hb]
      exact List.not_mem_cons_of_ne_of_not_mem (ne_numberSign_of_isBlank hb).symm hwritten
    calc namesIn (b :: (line ++ after))
      _ = namesIn (b :: line) ++ names := hafter [b]
      _ = namesIn (line ++ after) := by rw [hcons]; exact (hafter []).symm

theorem namesIn_append_blank {b : CodePoint} (hb : b.isBlank = true) (ht : 0x23 ∉ t) :
    namesIn (t ++ [b]) = namesIn t := by
  cases hend : b.isLineEnd with
  | true => rw [namesIn_append_cons hend, namesIn_nil, List.append_nil]
  | false =>
    obtain ⟨names, before, line, rfl, hline, hbefore⟩ := exists_last_line t
    have hwritten : 0x23 ∉ line := fun h => ht (List.mem_append_right _ h)
    have happend : namesIn (line ++ [b]) = namesIn line := by
      rw [namesIn_line (List.forall_mem_append.2 ⟨hline, by simpa using hend⟩),
        namesIn_line hline hwritten, trimBlanks_append_singleton hb]
      simpa [hwritten] using (ne_numberSign_of_isBlank hb).symm
    have hwhole := hbefore []
    rw [List.append_nil, List.append_nil] at hwhole
    rw [hbefore, happend, hwhole]

theorem numberSign_notMem_of_isBlank (h : ∀ c ∈ t, c.isBlank = true) : 0x23 ∉ t :=
  fun hmem => ne_numberSign_of_isBlank (h _ hmem) rfl

theorem namesIn_blanks (hlead : ∀ c ∈ lead, c.isBlank = true)
    (htrail : ∀ c ∈ trail, c.isBlank = true) (ht : 0x23 ∉ t) :
    namesIn (lead ++ t ++ trail) = namesIn t := by
  have hbefore : namesIn (lead ++ t) = namesIn t := by
    induction lead with
    | nil => rfl
    | cons b lead ih =>
      obtain ⟨hb, hlead⟩ := List.forall_mem_cons.1 hlead
      have hrest : 0x23 ∉ lead ++ t := by
        simpa [ht] using numberSign_notMem_of_isBlank hlead
      rw [List.cons_append, namesIn_cons_blank hb hrest, ih hlead]
  have hwritten : 0x23 ∉ lead ++ t := by simpa [ht] using numberSign_notMem_of_isBlank hlead
  rw [← hbefore]
  induction trail using List.reverseRecOn with
  | nil => rw [List.append_nil]
  | append_singleton trail b ih =>
    obtain ⟨htrail, hb⟩ := List.forall_mem_append.1 htrail
    have hrest : 0x23 ∉ lead ++ t ++ trail := by
      rw [List.mem_append, not_or]
      exact ⟨hwritten, numberSign_notMem_of_isBlank htrail⟩
    rw [← List.append_assoc, namesIn_append_blank (by simpa using hb) hrest, ih htrail]

/-- Where no line ends within it, what is written is one name. -/
theorem namesIn_written (hwritten : 0x23 ∉ written)
    (hname : ∀ c ∈ written.trimBlanks, c.isLineEnd = false) :
    namesIn written = serviceNames [written] := by
  obtain ⟨lead, trail, heq, hlead, htrail⟩ := Text.exists_eq_trim isBlank written
  have hkept : 0x23 ∉ written.trimBlanks := fun h => hwritten (Text.mem_of_mem_trim h)
  calc namesIn written
    _ = namesIn written.trimBlanks :=
      (congrArg namesIn heq).trans (namesIn_blanks hlead htrail hkept)
    _ = serviceNames [written] := by
      rw [namesIn_line hname hkept, serviceNames_singleton, serviceName_written hwritten,
        Text.trimBlanks, Text.trimBlanks, Text.trim_trim]

theorem isLineEnd_of_mem_splitOnP {piece : Text} (h : piece ∈ t.splitOnP isLineEnd) :
    ∀ c ∈ piece, c.isLineEnd = false := by
  induction t generalizing piece with
  | nil =>
    rw [List.splitOnP_nil] at h
    obtain rfl := List.mem_singleton.1 h
    simp
  | cons d t ih =>
    obtain ⟨first, rest, hpieces⟩ := List.exists_cons_of_ne_nil (List.splitOnP_ne_nil isLineEnd t)
    rw [List.splitOnP_cons_eq_if_modifyHead, hpieces] at h
    rw [hpieces] at ih
    split at h
    · rcases List.mem_cons.1 h with rfl | h
      · simp
      · exact ih h
    · next hd =>
      rw [List.modifyHead_cons] at h
      rcases List.mem_cons.1 h with rfl | h
      · exact List.forall_mem_cons.2 ⟨Bool.eq_false_iff.2 hd, ih List.mem_cons_self⟩
      · exact ih (List.mem_cons_of_mem _ h)

/-- No line end is in a name. -/
theorem isLineEnd_of_mem_namesIn {name : Text} (h : name ∈ namesIn t) :
    ∀ c ∈ name, c.isLineEnd = false := by
  obtain ⟨piece, hpiece, rfl⟩ := List.mem_map.1 (List.mem_filter.1 h).1
  intro c hc
  have hmem := (List.takeWhile_sublist _).subset (Text.mem_of_mem_trim hc)
  exact isLineEnd_of_mem_splitOnP hpiece c hmem

/-! ### Lines that are read as one -/

/-- The line is read as one line: no line end is in its name, and no line end in its comment brings
about another name. -/
structure IsOneLine (line : Text) : Prop where
  name : ∀ c ∈ serviceName line, c.isLineEnd = false
  comment : serviceNames (Text.lines (line.dropWhile (· ≠ 0x23))) = []

/-- A line is what is written on it and a comment. -/
theorem exists_eq_written_append (line : Text) : ∃ written comment, line = written ++ comment ∧
    0x23 ∉ written ∧ (∀ c ∈ comment.head?, c = 0x23) ∧
    line.dropWhile (· ≠ 0x23) = comment := by
  refine ⟨line.takeWhile (· ≠ 0x23), line.dropWhile (· ≠ 0x23),
    List.takeWhile_append_dropWhile.symm, fun h => ?_, fun c hc => ?_, rfl⟩
  · exact absurd (List.mem_takeWhile_imp h) (by simp)
  · have h := List.head?_dropWhile_not (· ≠ 0x23) line
    rw [Option.mem_def.1 hc] at h
    simpa using h

theorem namesIn_eq_serviceNames_iff (line : Text) :
    namesIn line = serviceNames [line] ↔ IsOneLine line := by
  obtain ⟨written, comment, rfl, hwritten, hcomment, hdrop⟩ := exists_eq_written_append line
  have hname : serviceName (written ++ comment) = written.trimBlanks :=
    serviceName_append hwritten hcomment
  have hsame : serviceNames [written ++ comment] = serviceNames [written] := by
    rw [serviceNames_singleton, serviceNames_singleton, hname, serviceName_written hwritten]
  have hparts := namesIn_append_comment hwritten hcomment
  constructor
  · intro heq
    by_cases hnil : written.trimBlanks = []
    · have hnone : serviceNames [written] = [] := by
        rw [serviceNames_singleton, serviceName_written hwritten, if_pos hnil]
      rw [hparts, hsame, hnone] at heq
      refine ⟨by simp [hname, hnil], ?_⟩
      rw [hdrop, serviceNames_lines]
      exact (List.append_eq_nil_iff.1 heq).2
    · -- The name of the line is found, and so it has no line end in it.
      have hmem : written.trimBlanks ∈ namesIn (written ++ comment) := by
        rw [heq, hsame, serviceNames_singleton, serviceName_written hwritten, if_neg hnil]
        exact List.mem_singleton_self _
      have hfree := isLineEnd_of_mem_namesIn hmem
      rw [hparts, hsame, namesIn_written hwritten hfree] at heq
      have hnone : namesIn comment = [] :=
        List.append_cancel_left (heq.trans (List.append_nil _).symm)
      exact ⟨by rwa [hname], by rw [hdrop, serviceNames_lines, hnone]⟩
  · rintro ⟨hfree, hnone⟩
    rw [hname] at hfree
    rw [hdrop, serviceNames_lines] at hnone
    rw [hparts, hnone, List.append_nil, hsame, namesIn_written hwritten hfree]

/-- Where no name is found there are blanks only. -/
theorem isBlank_of_namesIn_eq_nil (ht : 0x23 ∉ t) (h : namesIn t = []) :
    ∀ c ∈ t, c.isBlank = true := by
  -- A line may have been begun before.
  suffices hbegun : ∀ line : Text, (∀ c ∈ line, c.isLineEnd = false) → 0x23 ∉ line →
      namesIn (line ++ t) = [] → ∀ c ∈ line ++ t, c.isBlank = true from
    hbegun [] (by simp) (by simp) h
  clear h
  have hline (line : Text) (hfree : ∀ c ∈ line, c.isLineEnd = false) (hwritten : 0x23 ∉ line)
      (hnone : namesIn line = []) : ∀ c ∈ line, c.isBlank = true := by
    rw [namesIn_line hfree hwritten] at hnone
    split at hnone
    · next hnil => exact Text.trim_eq_nil_iff.1 hnil
    · simp at hnone
  induction t with
  | nil =>
    intro line hfree hwritten hnone
    rw [List.append_nil] at hnone ⊢
    exact hline line hfree hwritten hnone
  | cons d t ih =>
    intro line hfree hwritten hnone
    rw [List.mem_cons, not_or] at ht
    cases hd : d.isLineEnd with
    | true =>
      rw [namesIn_append_cons hd, List.append_eq_nil_iff] at hnone
      have hrest := ih ht.2 [] (by simp) (by simp) hnone.2
      exact List.forall_mem_append.2 ⟨hline line hfree hwritten hnone.1,
        List.forall_mem_cons.2 ⟨isBlank_of_isLineEnd hd, hrest⟩⟩
    | false =>
      have hmore := ih ht.2 (line ++ [d])
        (List.forall_mem_append.2 ⟨hfree, by simpa using hd⟩) (by simp [hwritten, ht.1])
      rw [List.append_assoc] at hmore
      exact hmore hnone

/-- A line has at least as many names as it has as one line. -/
theorem length_serviceNames_le (line : Text) :
    (serviceNames [line]).length ≤ (namesIn line).length := by
  rw [serviceNames_singleton]
  split
  · exact Nat.zero_le _
  · next hname =>
    refine List.length_pos_iff.2 fun hnone => hname ?_
    obtain ⟨written, comment, rfl, hwritten, hcomment, -⟩ := exists_eq_written_append line
    rw [namesIn_append_comment hwritten hcomment, List.append_eq_nil_iff] at hnone
    rw [serviceName_append hwritten hcomment]
    exact Text.trim_eq_nil_iff.2 (isBlank_of_namesIn_eq_nil hwritten hnone.1)

theorem flatMap_congr_of_length_le {α β : Type} {f g : α → List β} {xs : List α}
    (hle : ∀ x, (g x).length ≤ (f x).length) (h : xs.flatMap f = xs.flatMap g) :
    ∀ x ∈ xs, f x = g x := by
  have hall (xs : List α) : (xs.flatMap g).length ≤ (xs.flatMap f).length := by
    induction xs with
    | nil => exact Nat.le_refl _
    | cons x xs ih =>
      rw [List.flatMap_cons, List.flatMap_cons, List.length_append, List.length_append]
      exact Nat.add_le_add (hle x) ih
  induction xs with
  | nil => simp
  | cons x xs ih =>
    rw [List.flatMap_cons, List.flatMap_cons] at h
    have hlength := congrArg List.length h
    rw [List.length_append, List.length_append] at hlength
    have hx := hle x
    have hxs := hall xs
    obtain ⟨hhead, htail⟩ := List.append_inj h (by omega)
    exact List.forall_mem_cons.2 ⟨hhead, ih htail⟩

theorem serviceNames_eq_flatMap (lines : List Text) :
    serviceNames lines = lines.flatMap fun line => serviceNames [line] := by
  induction lines with
  | nil => rfl
  | cons line lines ih => rw [serviceNames_cons, List.flatMap_cons, ih]

/-- The names in a text are those of its lines exactly if each is read as one line. -/
theorem serviceNames_lines_eq_iff (text : Text) :
    serviceNames text.lines = serviceNames (Properties.naturalLines text) ↔
      ∀ line ∈ Properties.naturalLines text, IsOneLine line := by
  rw [serviceNames_lines, namesIn_eq_flatMap,
    serviceNames_eq_flatMap (Properties.naturalLines text)]
  refine ⟨fun h line hline => ?_, fun h => ?_⟩
  · exact (namesIn_eq_serviceNames_iff line).1
      (flatMap_congr_of_length_le length_serviceNames_le h line hline)
  · rw [List.flatMap_def, List.flatMap_def]
    exact congrArg List.flatten (List.map_congr_left fun line hline =>
      (namesIn_eq_serviceNames_iff line).2 (h line hline))

/-- A line without a line end of any kind is one line, whatever its comment is. -/
theorem isOneLine_of_isLineEnd (h : ∀ c ∈ line, c.isLineEnd = false) : IsOneLine line := by
  rw [← namesIn_eq_serviceNames_iff]
  exact namesIn_of_no_lineEnd h

/-- **The names in a service file**: they are the names of its lines, which line feeds and carriage
returns end, each once, in the order of their first occurrences, if each line is read as one. No
other file is read so: where a line is not read as one there are names that its lines do not have,
or names that are lost. -/
theorem services_read (h : Utf8.decode data = some text) :
    ofServices data = .ok (Text.unique (serviceNames text.lines)) ∧
    (serviceNames text.lines = serviceNames (Properties.naturalLines text) ↔
      ∀ line ∈ Properties.naturalLines text, IsOneLine line) ∧
    ((∀ line ∈ Properties.naturalLines text, IsOneLine line) →
      ofServices data = .ok (Text.unique (serviceNames (Properties.naturalLines text)))) := by
  have hread : ofServices data = .ok (Text.unique (serviceNames text.lines)) := by
    rw [ofServices, h]
    rfl
  have hsame := serviceNames_lines_eq_iff text
  refine ⟨hread, hsame, fun hlines => ?_⟩
  rw [hread, hsame.2 hlines]

/-- A service file with a line that is a comment, and with a name that is on two lines. -/
def Sample.services : Bytes :=
  [0x23, 0x20, 0x63, 0x0A,
    0x61, 0x2E, 0x42, 0x20, 0x23, 0x20, 0x78, 0x0D, 0x0A,
    0x61, 0x2E, 0x42, 0x0A]

theorem services_read_of_comments :
    Utf8.decode Sample.services = some "# c\na.B # x\r\na.B\n" ∧
    ofServices Sample.services = .ok ["a.B"] := by
  have hdecode : Utf8.decode Sample.services = some "# c\na.B # x\r\na.B\n" := by decide
  refine ⟨hdecode, (services_read hdecode).2.2 fun line hline => isOneLine_of_isLineEnd ?_⟩
  revert line
  decide

/-- After a line separator (U+2028) a comment is read as if it were another line. -/
theorem services_may_name_comment : ¬ ∀ (data : Bytes) (text : Text),
    Utf8.decode data = some text →
    ofServices data = .ok (Text.unique (serviceNames (Properties.naturalLines text))) := by
  intro h
  have hnone := h [0x23, 0x20, 0xE2, 0x80, 0xA8, 0x78] [0x23, 0x20, 0x2028, 0x78] (by decide)
  have hread : ofServices [0x23, 0x20, 0xE2, 0x80, 0xA8, 0x78] = .ok ["x"] := by rfl
  exact absurd (Except.ok.inj (hread.symm.trans hnone)) (by decide)

end Jarsmith.EntryPoint
