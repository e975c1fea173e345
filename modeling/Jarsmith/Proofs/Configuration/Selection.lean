import Jarsmith.Proofs.Configuration.Written
import Jarsmith.Proofs.Text.Unique

/-!
# Which artifacts the selectors of a task take

A selector is read off exactly the texts that are written for it (`ofText?_eq_some_iff`), so that a
list of texts is a list of selectors if each text has one of the three forms (`HasForm`), and a task
takes an artifact if a text of its list means it (`Means`), however the list is ordered, repeated or
padded with blanks (`selects_as_written`). A text with a surrogate is no text for validation,
whatever its form is.

An artifact can be named by selectors of its own exactly if no blank is in its names
(`selected_by_own_names`): validation keeps colons and stars out of them, but no blanks.
-/

namespace Jarsmith

open Checked

variable {t u first second : Text} {ts us : List Text} {d : Document}

/-! ### Trimmed texts -/

theorem CodePoint.isBlank_of_isWhiteSpace {c : CodePoint} (h : c.isWhiteSpace = true) :
    c.isBlank = true := by
  rw [isBlank, h, Bool.true_or]

theorem CodePoint.isSurrogate_of_isBlank {c : CodePoint} (h : c.isBlank = true) :
    c.isSurrogate = false := by
  rw [isSurrogate_eq_false_iff]
  unfold isBlank isWhiteSpace at h
  grind

namespace Text

theorem trimBlanks_trimWhiteSpace (t : Text) : t.trimWhiteSpace.trimBlanks = t.trimBlanks := by
  obtain ⟨lead, trail, heq, hlead, htrail⟩ := exists_eq_trim CodePoint.isWhiteSpace t
  have hlead' : ∀ c ∈ lead, c.isBlank = true := fun c hc =>
    CodePoint.isBlank_of_isWhiteSpace (hlead c hc)
  have htrail' : ∀ c ∈ trail, c.isBlank = true := fun c hc =>
    CodePoint.isBlank_of_isWhiteSpace (htrail c hc)
  calc t.trimWhiteSpace.trimBlanks
    _ = trimBlanks (lead ++ t.trimWhiteSpace ++ trail) := by
      rw [trimBlanks, trimBlanks, trim_append htrail', trim_append_left hlead']
    _ = t.trimBlanks := congrArg trimBlanks heq.symm

theorem isScalar_trimBlanks_iff : t.trimBlanks.IsScalar ↔ t.IsScalar := by
  refine ⟨fun h => ?_, isScalar_trim _⟩
  obtain ⟨lead, trail, heq, hlead, htrail⟩ := exists_eq_trim CodePoint.isBlank t
  rw [heq, isScalar_append, isScalar_append]
  exact ⟨⟨fun c hc => CodePoint.isSurrogate_of_isBlank (hlead c hc), h⟩,
    fun c hc => CodePoint.isSurrogate_of_isBlank (htrail c hc)⟩

theorem eq_of_cutFirst? {mark : CodePoint} (h : cutFirst? mark t = some (first, second)) :
    t = first ++ mark :: second := by
  induction t generalizing first with
  | nil => simp [cutFirst?] at h
  | cons c t ih =>
    rw [cutFirst?] at h
    split at h
    · next hc =>
      obtain ⟨rfl, rfl⟩ := Prod.mk.inj (Option.some.inj h)
      rw [hc, List.nil_append]
    · obtain ⟨⟨before, after⟩, hcut, heq⟩ := Option.map_eq_some_iff.1 h
      obtain ⟨rfl, rfl⟩ := Prod.mk.inj heq
      rw [ih hcut, List.cons_append]

theorem cutFirst?_append_cons {mark : CodePoint} (h : mark ∉ t) (u : Text) :
    cutFirst? mark (t ++ mark :: u) = some (t, u) := by
  induction t with
  | nil => simp [cutFirst?]
  | cons c t ih =>
    rw [List.mem_cons, not_or] at h
    rw [List.cons_append, cutFirst?, if_neg (Ne.symm h.1), ih h.2]
    rfl

/-- A text has two pieces exactly if they are what stands before and after its only mark. -/
theorem splitOn_eq_pair_iff {mark : CodePoint} :
    splitOn mark t = [first, second] ↔
      t = first ++ mark :: second ∧ mark ∉ first ∧ mark ∉ second := by
  constructor
  · intro h
    refine ⟨?_, notMem_of_mem_splitOn (h ▸ List.mem_cons_self),
      notMem_of_mem_splitOn (h ▸ List.mem_cons_of_mem first (List.mem_singleton_self second))⟩
    have hjoined := joinWith_splitOn mark t
    rw [h] at hjoined
    simpa [joinWith] using hjoined.symm
  · rintro ⟨rfl, hfirst, hsecond⟩
    rw [splitOn_append_cons, splitOn_of_notMem hfirst, splitOn_of_notMem hsecond]
    rfl

theorem eq_of_splitOn_append_cons {mark : CodePoint} {before after : Text}
    (h : splitOn mark (before ++ mark :: after) = [first, second]) :
    before = first ∧ after = second := by
  obtain ⟨p, ps, hbefore⟩ := List.exists_cons_of_ne_nil (splitOn_ne_nil mark before)
  obtain ⟨q, qs, hafter⟩ := List.exists_cons_of_ne_nil (splitOn_ne_nil mark after)
  rw [splitOn_append_cons, hbefore, hafter, List.cons_append, List.cons.injEq] at h
  -- Two pieces are one of each text.
  have hlengths := congrArg List.length h.2
  rw [List.length_append, List.length_cons, List.length_singleton] at hlengths
  obtain rfl : ps = [] := List.length_eq_zero_iff.1 (by omega)
  obtain ⟨rfl, -⟩ := List.cons.inj h.2
  obtain rfl : qs = [] := List.length_eq_zero_iff.1 (by omega)
  have hbefore' := joinWith_splitOn mark before
  have hafter' := joinWith_splitOn mark after
  rw [hbefore] at hbefore'
  rw [hafter] at hafter'
  exact ⟨hbefore'.symm.trans h.1, hafter'.symm⟩

end Text

/-! ### Lists of texts that are read -/

namespace Document

theorem checkText_text_eq_valid_iff :
    (text t).checkText = .valid u ↔ t.IsScalar ∧ u = t.trimWhiteSpace := by
  unfold checkText asText?
  dsimp only
  rw [← Text.any_isSurrogate_eq_false_iff]
  cases t.any CodePoint.isSurrogate with
  | true => simp [map_eq_valid, wrong]
  | false => simp [map_eq_valid, eq_comm]

theorem checkListOf_ofTexts_eq_valid_iff : (ofTexts ts).checkListOf checkText = .valid us ↔
    (∀ t ∈ ts, t.IsScalar) ∧ us = ts.map Text.trimWhiteSpace := by
  unfold ofTexts
  rw [checkListOf_list_eq_valid_iff]
  constructor
  · intro h
    induction h with
    | nil => simp
    | cons hfirst _ ih =>
      obtain ⟨hscalar, rfl⟩ := checkText_text_eq_valid_iff.1 hfirst
      exact ⟨List.forall_mem_cons.2 ⟨hscalar, ih.1⟩, by rw [List.map_cons, ← ih.2]⟩
  · rintro ⟨hscalar, rfl⟩
    rw [List.forall₂_map_right_iff, List.forall₂_same]
    exact fun t ht => checkText_text_eq_valid_iff.2 ⟨hscalar t ht, rfl⟩

end Document

/-! ### Selectors and their texts -/

namespace Selector

variable {s : Selector} {ss : List Selector} {groupId artifactId : Text}

theorem isName_iff : isName t = true ↔
    t ≠ [] ∧ ∀ c ∈ t, c ≠ colon ∧ c ≠ star ∧ c.isBlank = false := by
  simp [isName, isNamePoint, and_assoc]

theorem colon_notMem_of_isName (h : isName t = true) : colon ∉ t := fun hmem =>
  ((isName_iff.1 h).2 colon hmem).1 rfl

theorem ne_star_of_isName (h : isName t = true) : t ≠ [star] := by
  rintro rfl
  exact ((isName_iff.1 h).2 star (List.mem_singleton_self star)).2.1 rfl

/-- The names in a selector are such as may stand there. -/
def WellFormed : Selector → Prop
  | all => True
  | group g => isName g = true
  | artifact g a => isName g = true ∧ isName a = true

theorem ofText?_toText (h : s.WellFormed) : ofText? s.toText = some s := by
  cases s with
  | all => rfl
  | group g =>
    have hcut : Text.cutFirst? colon (group g).toText = some (g, [star]) :=
      Text.cutFirst?_append_cons (colon_notMem_of_isName h) [star]
    have hname : isName g = true := h
    simp [ofText?, hcut, hname, ne_star_of_isName hname]
  | artifact g a =>
    obtain ⟨hg, ha⟩ := h
    have hcut : Text.cutFirst? colon (artifact g a).toText = some (g, a) :=
      Text.cutFirst?_append_cons (colon_notMem_of_isName hg) a
    simp [ofText?, hcut, hg, ha, ne_star_of_isName hg, ne_star_of_isName ha]

theorem wellFormed_of_ofText? (h : ofText? t = some s) : s.WellFormed ∧ t = s.toText := by
  unfold ofText? at h
  obtain ⟨⟨first, second⟩, hcut, hparts⟩ := Option.bind_eq_some_iff.1 h
  clear h
  obtain rfl := Text.eq_of_cutFirst? hcut
  dsimp only at hparts
  split_ifs at hparts with hall hfirst hsecond hname
  · obtain rfl := Option.some.inj hparts
    obtain ⟨rfl, rfl⟩ := hall
    exact ⟨trivial, rfl⟩
  · obtain rfl := Option.some.inj hparts
    obtain rfl := hsecond
    exact ⟨hfirst, rfl⟩
  · obtain rfl := Option.some.inj hparts
    exact ⟨⟨hfirst, hname⟩, rfl⟩

/-- A selector is read off the one text that is written for it. -/
theorem ofText?_eq_some_iff : ofText? t = some s ↔ s.WellFormed ∧ t = s.toText := by
  refine ⟨wellFormed_of_ofText?, ?_⟩
  rintro ⟨hs, rfl⟩
  exact ofText?_toText hs

/-- A text of one of the three forms of selectors. -/
inductive HasForm (t : Text) : Prop
  | all (h : t = [star, colon, star])
  | group (g : Text) (h : t.splitOn colon = [g, [star]]) (hg : isName g = true)
  | artifact (g a : Text) (h : t.splitOn colon = [g, a]) (hg : isName g = true)
      (ha : isName a = true)

/-- What a text means as a selector: every artifact, those of a group, or one of a group. -/
def Means (t groupId artifactId : Text) : Prop :=
  t = [star, colon, star] ∨ t.splitOn colon = [groupId, [star]] ∨
    t.splitOn colon = [groupId, artifactId]

theorem splitOn_toText_group (h : isName t = true) :
    (group t).toText.splitOn colon = [t, [star]] :=
  Text.splitOn_eq_pair_iff.2 ⟨rfl, colon_notMem_of_isName h, by decide⟩

theorem splitOn_toText_artifact (ht : isName t = true) (hu : isName u = true) :
    (artifact t u).toText.splitOn colon = [t, u] :=
  Text.splitOn_eq_pair_iff.2 ⟨rfl, colon_notMem_of_isName ht, colon_notMem_of_isName hu⟩

theorem hasForm_iff : HasForm t ↔ ∃ s, ofText? t = some s := by
  simp only [ofText?_eq_some_iff]
  constructor
  · intro h
    cases h with
    | all h => exact ⟨.all, trivial, h⟩
    | group g h hg => exact ⟨.group g, hg, (Text.splitOn_eq_pair_iff.1 h).1⟩
    | artifact g a h hg ha => exact ⟨.artifact g a, ⟨hg, ha⟩, (Text.splitOn_eq_pair_iff.1 h).1⟩
  · rintro ⟨s, hs, rfl⟩
    cases s with
    | all => exact .all rfl
    | group g => exact .group g (splitOn_toText_group hs) hs
    | artifact g a => exact .artifact g a (splitOn_toText_artifact hs.1 hs.2) hs.1 hs.2

/-- A text with a name before its colon is not the one that means every artifact. -/
theorem append_colon_ne_all (ht : isName t = true) : t ++ colon :: u ≠ [star, colon, star] := by
  intro heq
  have hpieces := Text.cutFirst?_append_cons (colon_notMem_of_isName ht) u
  rw [heq] at hpieces
  exact ne_star_of_isName ht (Prod.mk.inj (Option.some.inj hpieces)).1.symm

/-- A selector takes the artifacts that its text means. -/
theorem accepts_iff_means (hs : s.WellFormed) :
    s.accepts groupId artifactId = true ↔ Means s.toText groupId artifactId := by
  unfold Means
  cases s with
  | all => exact iff_of_true rfl (.inl rfl)
  | group g =>
    have hall : (group g).toText ≠ [star, colon, star] := append_colon_ne_all hs
    rw [splitOn_toText_group hs]
    simp only [accepts, hall, false_or, decide_eq_true_eq, List.cons.injEq, and_true]
    exact ⟨.inl, fun h => h.elim id And.left⟩
  | artifact g a =>
    have hall : (artifact g a).toText ≠ [star, colon, star] := append_colon_ne_all hs.1
    rw [splitOn_toText_artifact hs.1 hs.2]
    simp [accepts, hall, ne_star_of_isName hs.2]

/-- The text of a selector is cut at its one colon. -/
theorem splitOn_toText_eq_iff (hs : s.WellFormed) :
    s.toText.splitOn colon = [first, second] ↔ s.toText = first ++ colon :: second := by
  refine ⟨fun h => (Text.splitOn_eq_pair_iff.1 h).1, fun h => ?_⟩
  obtain ⟨p, q, hpieces⟩ : ∃ p q, s.toText.splitOn colon = [p, q] := by
    cases s with
    | all => exact ⟨[star], [star], rfl⟩
    | group g => exact ⟨g, [star], splitOn_toText_group hs⟩
    | artifact g a => exact ⟨g, a, splitOn_toText_artifact hs.1 hs.2⟩
  obtain ⟨rfl, rfl⟩ := Text.eq_of_splitOn_append_cons (h ▸ hpieces)
  exact hpieces

theorem means_toText_iff (hs : s.WellFormed) : Means s.toText groupId artifactId ↔
    s.toText = all.toText ∨ s.toText = (group groupId).toText ∨
      s.toText = (artifact groupId artifactId).toText := by
  unfold Means
  rw [splitOn_toText_eq_iff hs, splitOn_toText_eq_iff hs]
  rfl

/-! ### Tasks -/

/-- A task that has nothing but selectors, which are written as texts. -/
def taskDocument (ts : List Text) : Document := .mapping [(.text field, .ofTexts ts)]

theorem ofTexts_eq_ok_iff :
    ofTexts us = .ok ss ↔ List.Forall₂ (fun u s => ofText? u.trimBlanks = some s) us ss := by
  induction us generalizing ss with
  | nil =>
    rw [List.forall₂_nil_left_iff]
    exact ⟨fun h => (Except.ok.inj h).symm, fun h => congrArg Except.ok h.symm⟩
  | cons u us ih =>
    rw [List.forall₂_cons_left_iff, ofTexts]
    cases hu : ofText? u.trimBlanks with
    | none => simp
    | some s =>
      dsimp only
      rw [Except.map_eq_ok]
      constructor
      · rintro ⟨rest, hrest, rfl⟩
        exact ⟨s, rest, rfl, ih.1 hrest, rfl⟩
      · rintro ⟨s', rest, hs', hrest, rfl⟩
        obtain rfl := Option.some.inj hs'
        exact ⟨rest, ih.2 hrest, rfl⟩

theorem checkAll_ofTexts_eq_valid_iff : checkAll (.ofTexts ts) = .valid ss ↔
    ts ≠ [] ∧ (∀ t ∈ ts, t.IsScalar) ∧
      ∃ parsed, List.Forall₂ (fun t s => ofText? t.trimBlanks = some s) ts parsed ∧
        ss = Text.unique parsed := by
  have hparse (parsed : List Selector) : ofTexts (ts.map Text.trimWhiteSpace) = .ok parsed ↔
      List.Forall₂ (fun t s => ofText? t.trimBlanks = some s) ts parsed := by
    rw [ofTexts_eq_ok_iff, List.forall₂_map_left_iff]
    simp only [Text.trimBlanks_trimWhiteSpace]
  unfold checkAll
  simp only [andThen_eq_valid, Document.checkSomeOf_eq_valid_iff,
    Document.checkListOf_ofTexts_eq_valid_iff]
  constructor
  · rintro ⟨us, ⟨⟨hscalar, rfl⟩, hne⟩, hread⟩
    split at hread
    · next parsed hparsed =>
      exact ⟨by simpa using hne, hscalar, parsed, (hparse parsed).1 hparsed, (valid.inj hread).symm⟩
    · exact absurd hread wrong_ne_valid
  · rintro ⟨hne, hscalar, parsed, hparsed, rfl⟩
    refine ⟨_, ⟨⟨hscalar, rfl⟩, by simpa using hne⟩, ?_⟩
    rw [(hparse parsed).2 hparsed]

theorem ofDocument_taskDocument (ts : List Text) :
    ofDocument (taskDocument ts) = .valid ss ↔ checkAll (.ofTexts ts) = .valid ss := by
  have hnames : Record.Unambiguous [field] := by decide
  have hread : ofDocument (taskDocument ts) =
      (Record.written [(field, some (.ofTexts ts))]).required field checkAll :=
    Document.checkRecord_written "TaskModel" (fun r => r.required field checkAll)
      [(field, some (.ofTexts ts))] hnames rfl
  have hgiven : (Record.written [(field, some (.ofTexts ts))]).given? field =
      some (field, .ofTexts ts) :=
    Record.given?_written [(field, some (.ofTexts ts))] hnames (List.mem_singleton_self _)
  rw [hread, Record.required, hgiven]
  exact under_eq_valid

theorem mem_parsed_iff (h : List.Forall₂ (fun t s => ofText? t.trimBlanks = some s) ts ss) :
    s ∈ ss ↔ ∃ t ∈ ts, ofText? t.trimBlanks = some s := by
  induction h with
  | nil => simp
  | cons hfirst _ ih =>
    rw [List.mem_cons, List.exists_mem_cons_iff, ih, hfirst, Option.some_inj, eq_comm]

theorem mem_iff_of_valid (h : ofDocument (taskDocument ts) = .valid ss) :
    s ∈ ss ↔ ∃ t ∈ ts, ofText? t.trimBlanks = some s := by
  obtain ⟨-, -, parsed, hparsed, rfl⟩ :=
    checkAll_ofTexts_eq_valid_iff.1 ((ofDocument_taskDocument ts).1 h)
  rw [Text.mem_unique, mem_parsed_iff hparsed]

theorem exists_parsed_iff :
    (∃ parsed, List.Forall₂ (fun t s => ofText? t.trimBlanks = some s) ts parsed) ↔
      ∀ t ∈ ts, HasForm t.trimBlanks := by
  induction ts with
  | nil => exact iff_of_true ⟨[], .nil⟩ (by simp)
  | cons t ts ih =>
    rw [List.forall_mem_cons, ← ih, hasForm_iff]
    constructor
    · rintro ⟨_, hparsed⟩
      obtain ⟨s, rest, hs, hrest, rfl⟩ := List.forall₂_cons_left_iff.1 hparsed
      exact ⟨⟨s, hs⟩, rest, hrest⟩
    · rintro ⟨⟨s, hs⟩, rest, hrest⟩
      exact ⟨s :: rest, .cons hs hrest⟩

/-- A task is accepted if it has a text, no text has a surrogate, and each has one of the forms. -/
theorem exists_valid_iff : (∃ ss, ofDocument (taskDocument ts) = .valid ss) ↔
    ts ≠ [] ∧ ∀ t ∈ ts, t.IsScalar ∧ HasForm t.trimBlanks := by
  simp only [ofDocument_taskDocument, checkAll_ofTexts_eq_valid_iff]
  rw [forall₂_and, ← exists_parsed_iff]
  constructor
  · rintro ⟨_, hne, hscalar, parsed, hparsed, -⟩
    exact ⟨hne, hscalar, parsed, hparsed⟩
  · rintro ⟨hne, hscalar, parsed, hparsed⟩
    exact ⟨_, hne, hscalar, parsed, hparsed, rfl⟩

/-- The selectors of a task are its trimmed texts, each once. -/
theorem map_toText_of_valid (h : ofDocument (taskDocument ts) = .valid ss) :
    ss.map toText = Text.unique (ts.map Text.trimBlanks) := by
  obtain ⟨-, -, parsed, hparsed, rfl⟩ :=
    checkAll_ofTexts_eq_valid_iff.1 ((ofDocument_taskDocument ts).1 h)
  have htexts : parsed.map toText = ts.map Text.trimBlanks := by
    clear h
    induction hparsed with
    | nil => rfl
    | cons hfirst _ ih => rw [List.map_cons, List.map_cons, ih, (wellFormed_of_ofText? hfirst).2]
  rw [← htexts]
  refine (Text.unique_map fun s hs s' hs' heq => ?_).symm
  have hparse (s : Selector) (hs : s ∈ parsed) : ofText? s.toText = some s := by
    obtain ⟨t, -, ht⟩ := (mem_iff_of_valid h).1 (Text.mem_unique.2 hs)
    exact ofText?_toText (wellFormed_of_ofText? ht).1
  exact Option.some.inj ((hparse s hs).symm.trans (heq ▸ hparse s' hs'))

theorem wellFormed_of_valid (h : ofDocument (taskDocument ts) = .valid ss) :
    ∀ s ∈ ss, s.WellFormed := by
  intro s hs
  obtain ⟨t, -, ht⟩ := (mem_iff_of_valid h).1 hs
  exact (wellFormed_of_ofText? ht).1

theorem selects_eq_true_iff {a : Artifact} :
    selects ss a = true ↔ ∃ s ∈ ss, s.accepts a.groupId a.artifactId = true := by
  rw [selects, List.any_eq_true]

/-- A task takes an artifact if one of its texts means it. -/
theorem selects_iff_means (h : ofDocument (taskDocument ts) = .valid ss) (a : Artifact) :
    selects ss a = true ↔ ∃ t ∈ ts, Means t.trimBlanks a.groupId a.artifactId := by
  have hmem (s : Selector) := mem_iff_of_valid (s := s) h
  obtain ⟨-, hforms⟩ := exists_valid_iff.1 ⟨ss, h⟩
  rw [selects_eq_true_iff]
  constructor
  · rintro ⟨s, hs, haccepts⟩
    obtain ⟨t, ht, hread⟩ := (hmem s).1 hs
    obtain ⟨hwell, heq⟩ := wellFormed_of_ofText? hread
    exact ⟨t, ht, heq ▸ (accepts_iff_means hwell).1 haccepts⟩
  · rintro ⟨t, ht, hmeans⟩
    obtain ⟨s, hread⟩ := hasForm_iff.1 (hforms t ht).2
    obtain ⟨hwell, heq⟩ := wellFormed_of_ofText? hread
    exact ⟨s, (hmem s).2 ⟨t, ht, hread⟩, (accepts_iff_means hwell).2 (heq ▸ hmeans)⟩

/-- A task takes an artifact if one of three texts is among those of its selectors. -/
theorem selects_iff_mem (h : ofDocument (taskDocument ts) = .valid ss) (a : Artifact) :
    selects ss a = true ↔ all.toText ∈ ss.map toText ∨ (group a.groupId).toText ∈ ss.map toText ∨
      a.id ∈ ss.map toText := by
  have hmeans (s : Selector) (hs : s ∈ ss) : s.accepts a.groupId a.artifactId = true ↔
      s.toText = all.toText ∨ s.toText = (group a.groupId).toText ∨ s.toText = a.id := by
    have hwell := wellFormed_of_valid h s hs
    rw [accepts_iff_means hwell, means_toText_iff hwell]
    rfl
  rw [selects_eq_true_iff]
  simp only [List.mem_map, ← exists_or, ← and_or_left]
  exact exists_congr fun s => and_congr_right (hmeans s)

/-- **What a task takes**: the texts of a task are accepted if there is one, none of them has a
surrogate and each has, without the blanks at its ends, one of the three forms. The selectors are
then the trimmed texts, each once; an artifact is taken if one of the texts means it, which is so if
one of three texts that are made of its names is among the selectors. Lists with the same trimmed
texts, in any order and however often, are accepted alike and take the same artifacts. -/
theorem selects_as_written (ts : List Text) :
    ((∃ ss, ofDocument (taskDocument ts) = .valid ss) ↔
      ts ≠ [] ∧ ∀ t ∈ ts, t.IsScalar ∧ HasForm t.trimBlanks) ∧
    (∀ ss, ofDocument (taskDocument ts) = .valid ss →
      ss.map toText = Text.unique (ts.map Text.trimBlanks) ∧
      ∀ a : Artifact,
        (selects ss a = true ↔ ∃ t ∈ ts, Means t.trimBlanks a.groupId a.artifactId) ∧
        (selects ss a = true ↔ all.toText ∈ ss.map toText ∨
          (group a.groupId).toText ∈ ss.map toText ∨ a.id ∈ ss.map toText)) ∧
    (∀ ts' : List Text, (∀ t, t ∈ ts'.map Text.trimBlanks ↔ t ∈ ts.map Text.trimBlanks) →
      ((∃ ss, ofDocument (taskDocument ts') = .valid ss) ↔
        ∃ ss, ofDocument (taskDocument ts) = .valid ss) ∧
      ∀ ss ss', ofDocument (taskDocument ts) = .valid ss →
        ofDocument (taskDocument ts') = .valid ss' → ∀ a, selects ss' a = selects ss a) := by
  refine ⟨exists_valid_iff, fun ss h => ⟨map_toText_of_valid h, fun a =>
    ⟨selects_iff_means h a, selects_iff_mem h a⟩⟩, fun ts' hsame => ⟨?_, ?_⟩⟩
  · -- Whether a text is accepted is told by what is left of it when it is trimmed.
    have htrimmed (us : List Text) : (∀ u ∈ us, u.IsScalar ∧ HasForm u.trimBlanks) ↔
        ∀ t ∈ us.map Text.trimBlanks, t.IsScalar ∧ HasForm t := by
      simp only [List.forall_mem_map, Text.isScalar_trimBlanks_iff]
    have hempty (us : List Text) : us ≠ [] ↔ ∃ t, t ∈ us.map Text.trimBlanks := by
      constructor
      · intro hne
        obtain ⟨u, hu⟩ := List.exists_mem_of_ne_nil us hne
        exact ⟨u.trimBlanks, List.mem_map_of_mem hu⟩
      · rintro ⟨t, ht⟩ rfl
        exact absurd ht List.not_mem_nil
    rw [exists_valid_iff, exists_valid_iff, htrimmed, htrimmed, hempty, hempty]
    simp only [hsame]
  · intro ss ss' h h' a
    have hmeans (us : List Text) : (∃ t ∈ us, Means t.trimBlanks a.groupId a.artifactId) ↔
        ∃ t ∈ us.map Text.trimBlanks, Means t a.groupId a.artifactId := by
      simp
    rw [Bool.eq_iff_iff, selects_iff_means h, selects_iff_means h', hmeans, hmeans]
    simp only [hsame]

/-- A list in which one text is padded and another one is written twice. -/
def Sample.selectorTexts : List Text := [" g:* ", "h:a", "\u0085h:a"]

theorem selects_as_written_of_padded : ∃ ss,
    ofDocument (taskDocument Sample.selectorTexts) = .valid ss ∧
    ss.map toText = (["g:*", "h:a"] : List Text) ∧
    selects ss ⟨"g", "b", "1", archiveType, "/b.jar"⟩ = true ∧
    selects ss ⟨"h", "b", "1", archiveType, "/b.jar"⟩ = false ∧
    ∃ ss', ofDocument (taskDocument ["h:a", "g:*"]) = .valid ss' ∧
      ∀ a, selects ss' a = selects ss a := by
  have hread : ofDocument (taskDocument Sample.selectorTexts) =
      .valid [group "g", artifact "h" "a"] := by rfl
  have hread' : ofDocument (taskDocument ["h:a", "g:*"]) =
      .valid [artifact "h" "a", group "g"] := by rfl
  obtain ⟨-, hselects, hsame⟩ := selects_as_written Sample.selectorTexts
  obtain ⟨htexts, htakes⟩ := hselects _ hread
  refine ⟨_, hread, htexts.trans (by decide), ?_, ?_, _, hread', ?_⟩
  · exact (htakes _).1.2 ⟨" g:* ", by decide, .inr (.inl (by decide))⟩
  · rw [← Bool.not_eq_true, (htakes _).2]
    decide
  · have htrimmed : Sample.selectorTexts.map Text.trimBlanks =
        (["g:*", "h:a", "h:a"] : List Text) := by decide
    have htrimmed' : (["h:a", "g:*"] : List Text).map Text.trimBlanks =
        (["h:a", "g:*"] : List Text) := by decide
    have hmem (t : Text) : t ∈ (["h:a", "g:*"] : List Text).map Text.trimBlanks ↔
        t ∈ Sample.selectorTexts.map Text.trimBlanks := by
      rw [htrimmed, htrimmed']
      simp only [List.mem_cons, List.not_mem_nil, or_false]
      tauto
    exact (hsame _ hmem).2 _ _ hread hread'

/-- A text with a surrogate is refused though it has the form of a selector. -/
theorem form_may_be_refused : ¬ ∀ ts : List Text, ts ≠ [] →
    ((∃ ss, ofDocument (taskDocument ts) = .valid ss) ↔ ∀ t ∈ ts, HasForm t.trimBlanks) := by
  intro h
  have hform : HasForm (Text.trimBlanks [0xD800, colon, star]) :=
    .group [0xD800] (by decide) (by decide)
  have hall := (h [[0xD800, colon, star]] (by simp)).2 (List.forall_mem_singleton.2 hform)
  obtain ⟨-, hscalar⟩ := exists_valid_iff.1 hall
  exact absurd ((List.forall_mem_singleton.1 hscalar).1 0xD800 List.mem_cons_self) (by decide)

/-! ### Selectors made of the names of an artifact -/

end Selector

/-- What validation ensures of the name of a group or an artifact. -/
structure IsIdentifier (t : Text) : Prop where
  ne_nil : t ≠ []
  colon_notMem : Selector.colon ∉ t
  star_notMem : Selector.star ∉ t
  isScalar : t.IsScalar

theorem isIdentifier_of_checkIdentifier (h : checkIdentifier d = .valid t) : IsIdentifier t := by
  obtain ⟨hname, hmarks⟩ := guard_eq_valid.1 h
  obtain ⟨-, hempty⟩ := guard_eq_valid.1 hname
  rw [not_or] at hmarks
  exact ⟨by simpa using hempty, hmarks.1, hmarks.2, isScalar_of_checkIdentifier h⟩

theorem Artifact.isIdentifier_of_ofDocument {a : Artifact} (h : ofDocument d = .valid a) :
    IsIdentifier a.groupId ∧ IsIdentifier a.artifactId := by
  obtain ⟨r, -, hgroup, hartifact, -⟩ := exists_record_of_ofDocument h
  obtain ⟨d₁, hgroup⟩ := Record.exists_of_required hgroup
  obtain ⟨d₂, hartifact⟩ := Record.exists_of_required hartifact
  exact ⟨isIdentifier_of_checkIdentifier hgroup, isIdentifier_of_checkIdentifier hartifact⟩

namespace Selector

variable {s : Selector} {ss : List Selector} {a : Artifact}

/-- The name of a group or an artifact may stand in a selector exactly if no blank is in it. -/
theorem isName_iff_of_isIdentifier (h : IsIdentifier t) :
    isName t = true ↔ ∀ c ∈ t, c.isBlank = false := by
  rw [isName_iff]
  refine ⟨fun hname c hc => (hname.2 c hc).2.2, fun hblank => ⟨h.ne_nil, fun c hc => ?_⟩⟩
  refine ⟨?_, ?_, hblank c hc⟩
  · rintro rfl
    exact h.colon_notMem hc
  · rintro rfl
    exact h.star_notMem hc

theorem isBlank_eq_false_of_mem_toText (hs : s.WellFormed) :
    ∀ c ∈ s.toText, c.isBlank = false := by
  have hname (t : Text) (h : isName t = true) : ∀ c ∈ t, c.isBlank = false := fun c hc =>
    ((isName_iff.1 h).2 c hc).2.2
  cases s with
  | all => decide
  | group g => exact List.forall_mem_append.2 ⟨hname g hs, by decide⟩
  | artifact g a =>
    exact List.forall_mem_append.2 ⟨hname g hs.1, List.forall_mem_cons.2 ⟨rfl, hname a hs.2⟩⟩

theorem trimBlanks_toText (hs : s.WellFormed) : s.toText.trimBlanks = s.toText :=
  Text.trim_of_forall (isBlank_eq_false_of_mem_toText hs)

/-- A task of a single text has a single selector. -/
theorem ofDocument_singleton_eq_valid_iff : ofDocument (taskDocument [t]) = .valid ss ↔
    t.IsScalar ∧ ∃ s, ofText? t.trimBlanks = some s ∧ ss = [s] := by
  rw [ofDocument_taskDocument, checkAll_ofTexts_eq_valid_iff, List.forall_mem_singleton]
  constructor
  · rintro ⟨-, hscalar, parsed, hparsed, rfl⟩
    obtain ⟨s, rest, hs, hrest, rfl⟩ := List.forall₂_cons_left_iff.1 hparsed
    obtain rfl := List.forall₂_nil_left_iff.1 hrest
    exact ⟨hscalar, s, hs, rfl⟩
  · rintro ⟨hscalar, s, hs, rfl⟩
    exact ⟨List.cons_ne_nil t [], hscalar, [s], .cons hs .nil, rfl⟩

theorem selects_singleton {a : Artifact} :
    selects [s] a = true ↔ s.accepts a.groupId a.artifactId = true := by
  simp [selects]

theorem ofDocument_toText (hs : s.WellFormed) (hscalar : s.toText.IsScalar) :
    ofDocument (taskDocument [s.toText]) = .valid [s] := by
  refine ofDocument_singleton_eq_valid_iff.2 ⟨hscalar, s, ?_, rfl⟩
  rw [trimBlanks_toText hs]
  exact ofText?_toText hs

/-- A selector that takes the artifact but not each of its group has both names of the artifact. -/
theorem wellFormed_artifact_of_accepts (hs : s.WellFormed) (ha : IsIdentifier a.artifactId)
    (h : ∀ b : Artifact, s.accepts b.groupId b.artifactId = true ↔
      b.groupId = a.groupId ∧ b.artifactId = a.artifactId) :
    (artifact a.groupId a.artifactId).WellFormed := by
  have htaken := (h a).2 ⟨rfl, rfl⟩
  -- Another artifact of the group is not taken.
  have hother : s.accepts a.groupId [] ≠ true := fun htaken =>
    ha.ne_nil ((h { a with artifactId := [] }).1 htaken).2.symm
  cases s with
  | all => exact absurd rfl hother
  | group g => exact absurd htaken hother
  | artifact g x =>
    obtain ⟨rfl, rfl⟩ : g = a.groupId ∧ x = a.artifactId := by simpa [accepts] using htaken
    exact hs

theorem isName_of_accepts (hs : s.WellFormed) (hne : s ≠ all)
    (h : s.accepts a.groupId a.artifactId = true) : isName a.groupId = true := by
  cases s with
  | all => exact absurd rfl hne
  | group g =>
    obtain rfl : g = a.groupId := by simpa [accepts] using h
    exact hs
  | artifact g x =>
    obtain ⟨rfl, -⟩ : g = a.groupId ∧ x = a.artifactId := by simpa [accepts] using h
    exact hs.1

/-- The selector of the artifact's group is accepted and takes that group alone exactly if no blank
is in the name of the group. -/
theorem group_selected_iff (ha : IsIdentifier a.groupId) :
    (∃ ss, ofDocument (taskDocument [a.groupId ++ [colon, star]]) = .valid ss ∧
      ∀ b : Artifact, selects ss b = true ↔ b.groupId = a.groupId) ↔
      ∀ c ∈ a.groupId, c.isBlank = false := by
  rw [← isName_iff_of_isIdentifier ha]
  constructor
  · rintro ⟨ss, hread, htakes⟩
    obtain ⟨-, s, hs, rfl⟩ := ofDocument_singleton_eq_valid_iff.1 hread
    simp only [selects_singleton] at htakes
    refine isName_of_accepts (wellFormed_of_ofText? hs).1 ?_ ((htakes a).2 rfl)
    rintro rfl
    exact ha.ne_nil ((htakes { a with groupId := [] }).1 rfl).symm
  · intro hname
    have hwell : (group a.groupId).WellFormed := hname
    have hscalar : (group a.groupId).toText.IsScalar :=
      Text.isScalar_append.2 ⟨ha.isScalar,
        Text.isScalar_cons.2 ⟨rfl, Text.isScalar_cons.2 ⟨rfl, Text.isScalar_nil⟩⟩⟩
    have hread := ofDocument_toText hwell hscalar
    refine ⟨[group a.groupId], hread, fun b => ?_⟩
    rw [selects_singleton, eq_comm (a := b.groupId)]
    simp [accepts]

/-- The selector of the artifact itself is accepted and takes that artifact alone exactly if no
blank is in its names. -/
theorem artifact_selected_iff (hgroup : IsIdentifier a.groupId)
    (hartifact : IsIdentifier a.artifactId) :
    (∃ ss, ofDocument (taskDocument [a.id]) = .valid ss ∧
      ∀ b : Artifact, selects ss b = true ↔
        b.groupId = a.groupId ∧ b.artifactId = a.artifactId) ↔
      (∀ c ∈ a.groupId, c.isBlank = false) ∧ ∀ c ∈ a.artifactId, c.isBlank = false := by
  rw [← isName_iff_of_isIdentifier hgroup, ← isName_iff_of_isIdentifier hartifact]
  constructor
  · rintro ⟨ss, hread, htakes⟩
    obtain ⟨-, s, hs, rfl⟩ := ofDocument_singleton_eq_valid_iff.1 hread
    simp only [selects_singleton] at htakes
    exact wellFormed_artifact_of_accepts (wellFormed_of_ofText? hs).1 hartifact htakes
  · intro hnames
    have hwell : (artifact a.groupId a.artifactId).WellFormed := hnames
    have hscalar : (artifact a.groupId a.artifactId).toText.IsScalar :=
      Text.isScalar_append.2 ⟨hgroup.isScalar, Text.isScalar_cons.2 ⟨rfl, hartifact.isScalar⟩⟩
    have hread := ofDocument_toText hwell hscalar
    refine ⟨[artifact a.groupId a.artifactId], hread, fun b => ?_⟩
    rw [selects_singleton, eq_comm (a := b.groupId), eq_comm (a := b.artifactId)]
    simp [accepts]

/-- **Artifacts that can be named**: for an artifact that validation accepts, the selector of its
group is accepted and takes that group alone exactly if no blank is in the name of the group, and
the selector of the artifact is accepted and takes it alone exactly if no blank is in either name.
An artifact with a blank in the name of its group is taken by no task but one for all artifacts. -/
theorem selected_by_own_names (h : Artifact.ofDocument d = .valid a) :
    ((∃ ss, ofDocument (taskDocument [a.groupId ++ [colon, star]]) = .valid ss ∧
      ∀ b : Artifact, selects ss b = true ↔ b.groupId = a.groupId) ↔
      ∀ c ∈ a.groupId, c.isBlank = false) ∧
    ((∃ ss, ofDocument (taskDocument [a.id]) = .valid ss ∧
      ∀ b : Artifact, selects ss b = true ↔
        b.groupId = a.groupId ∧ b.artifactId = a.artifactId) ↔
      (∀ c ∈ a.groupId, c.isBlank = false) ∧ ∀ c ∈ a.artifactId, c.isBlank = false) ∧
    (∀ ts ss, ofDocument (taskDocument ts) = .valid ss → selects ss a = true →
      (∀ c ∈ a.groupId, c.isBlank = false) ∨ ∃ t ∈ ts, t.trimBlanks = all.toText) := by
  obtain ⟨hgroup, hartifact⟩ := Artifact.isIdentifier_of_ofDocument h
  refine ⟨group_selected_iff hgroup, artifact_selected_iff hgroup hartifact,
    fun ts ss hread htaken => ?_⟩
  obtain ⟨s, hs, haccepts⟩ := selects_eq_true_iff.1 htaken
  obtain ⟨t, ht, htext⟩ := (mem_iff_of_valid hread).1 hs
  obtain ⟨hwell, heq⟩ := wellFormed_of_ofText? htext
  by_cases hall : s = all
  · subst hall
    exact .inr ⟨t, ht, heq⟩
  · exact .inl ((isName_iff_of_isIdentifier hgroup).1 (isName_of_accepts hwell hall haccepts))

/-- The document of an artifact of the given names. -/
def Sample.artifactDocument (groupId artifactId : Text) : Document := .mapping [
  (.text "groupId", .text groupId), (.text "artifactId", .text artifactId),
  (.text "version", .text "1"), (.text "file", .text "/a.jar")]

theorem selected_by_own_names_of_dotted :
    Artifact.ofDocument (Sample.artifactDocument "com.example" "app") =
      .valid ⟨"com.example", "app", "1", archiveType, "/a.jar"⟩ ∧
    (∃ ss, ofDocument (taskDocument ["com.example:*"]) = .valid ss ∧
      ∀ b : Artifact, selects ss b = true ↔ b.groupId = "com.example") ∧
    ∃ ss, ofDocument (taskDocument ["com.example:app"]) = .valid ss ∧
      ∀ b : Artifact, selects ss b = true ↔ b.groupId = "com.example" ∧ b.artifactId = "app" := by
  have hread : Artifact.ofDocument (Sample.artifactDocument "com.example" "app") =
      .valid ⟨"com.example", "app", "1", archiveType, "/a.jar"⟩ := by rfl
  obtain ⟨hgroup, hartifact, -⟩ := selected_by_own_names hread
  exact ⟨hread, hgroup.2 (by decide), hartifact.2 ⟨by decide, by decide⟩⟩

/-- An artifact may have a blank in the name of its group, but no selector may. -/
theorem own_names_may_be_refused : ¬ ∀ (d : Document) (a : Artifact),
    Artifact.ofDocument d = .valid a →
    ∃ ss, ofDocument (taskDocument [a.groupId ++ [colon, star]]) = .valid ss := by
  intro h
  have hread : Artifact.ofDocument (Sample.artifactDocument "a b" "x") =
      .valid ⟨"a b", "x", "1", archiveType, "/a.jar"⟩ := by rfl
  obtain ⟨ss, hss⟩ := h _ _ hread
  obtain ⟨-, s, hs, -⟩ := ofDocument_singleton_eq_valid_iff.1 hss
  have hnone : ofText? (Text.trimBlanks (("a b" : Text) ++ [colon, star])) = none := by decide
  exact absurd (hs.symm.trans hnone) (Option.some_ne_none s)

end Selector

end Jarsmith
