import Mathlib.Data.List.Basic
import Jarsmith.FileSystem.Environment
import Jarsmith.Proofs.FileSystem.PathText

/-!
# White space around texts that are expanded

Variables and a tilde are replaced in a text as it is written, with the white space at its ends.
There is no white space in a name that a dollar sign begins, so that what is added at either end of
the text stays there (`filled_append`, `filled_append_left`). White space before the text hides a
tilde (`replace_append_left`), and white space after it comes to stand in the name of a user if no
slash ends that name (`replaceHome_append`).

So white space after a text that ends with a name is found at the end of the path and dropped from
it again (`ofText_trim_expand_append`), and white space before one that begins with a name stays in
the middle of the path (`ofText_trim_expand_append_left`).
-/

namespace Jarsmith

namespace Text

variable {t rest name trail : Text}

/-! ### Cutting a text with another one after it -/

theorem cutFirst?_of_notMem {mark : CodePoint} (h : mark ∉ t) : cutFirst? mark t = none := by
  induction t with
  | nil => rfl
  | cons c t ih =>
    rw [List.mem_cons, not_or] at h
    rw [cutFirst?, if_neg (Ne.symm h.1), ih h.2]
    rfl

theorem cutFirst?_append {mark : CodePoint} (htrail : mark ∉ trail) (t : Text) :
    cutFirst? mark (t ++ trail) =
      (cutFirst? mark t).map fun (name, rest) => (name, rest ++ trail) := by
  induction t with
  | nil => exact cutFirst?_of_notMem htrail
  | cons c t ih =>
    rw [List.cons_append, cutFirst?, cutFirst?]
    split
    · rfl
    · rw [ih, Option.map_map, Option.map_map]
      rfl

theorem length_of_cutFirst? {mark : CodePoint} (h : cutFirst? mark t = some (name, rest)) :
    rest.length < t.length := by
  induction t generalizing name with
  | nil => simp [cutFirst?] at h
  | cons c t ih =>
    rw [cutFirst?] at h
    split at h
    · obtain ⟨rfl, rfl⟩ := Prod.mk.inj (Option.some.inj h)
      exact Nat.lt_succ_self _
    · obtain ⟨⟨before, after⟩, hcut, heq⟩ := Option.map_eq_some_iff.1 h
      obtain ⟨rfl, rfl⟩ := Prod.mk.inj heq
      exact Nat.lt_succ_of_lt (ih hcut)

end Text

namespace Environment

variable {env : Environment} {t rest name lead trail : Text}

/-! ### Variables -/

theorem isNamePoint_of_isWhiteSpace {c : CodePoint} (h : c.isWhiteSpace = true) :
    isNamePoint c = false := by
  -- No white space is a printing ASCII character.
  have hrange : c ≤ 0x20 ∨ 0x85 ≤ c := by
    unfold CodePoint.isWhiteSpace at h
    grind
  unfold isNamePoint CodePoint.isLetter CodePoint.isDigit
  grind

theorem takeWhile_isNamePoint_append (htrail : ∀ c ∈ trail, c.isWhiteSpace = true) (t : Text) :
    (t ++ trail).takeWhile isNamePoint = t.takeWhile isNamePoint := by
  have hnone : trail.takeWhile isNamePoint = [] := by
    cases trail with
    | nil => rfl
    | cons c trail =>
      have hc := isNamePoint_of_isWhiteSpace (htrail c List.mem_cons_self)
      exact List.takeWhile_cons_of_neg (by simp [hc])
  rw [List.takeWhile_append, hnone, List.append_nil]
  split
  · next hall => exact ((List.takeWhile_prefix _).eq_of_length hall).symm
  · rfl

theorem cutVariable?_of_head? (h : t.head? ≠ some 0x7B) :
    cutVariable? t = if (t.takeWhile isNamePoint).isEmpty then none
      else some (t.takeWhile isNamePoint, t.drop (t.takeWhile isNamePoint).length) := by
  unfold cutVariable?
  split
  · simp at h
  · rfl

/-- White space after a text belongs to no name of a variable in it. -/
theorem cutVariable?_append (htrail : ∀ c ∈ trail, c.isWhiteSpace = true) (t : Text) :
    cutVariable? (t ++ trail) =
      (cutVariable? t).map fun (name, rest) => (name, rest ++ trail) := by
  by_cases hbrace : t.head? = some 0x7B
  · obtain ⟨t, rfl⟩ := List.head?_eq_some_iff.1 hbrace
    exact Text.cutFirst?_append (Text.notMem_of_isWhiteSpace rfl htrail) t
  · have hbrace' := Text.head?_append_ne rfl htrail hbrace
    have hdrop : (t ++ trail).drop (t.takeWhile isNamePoint).length =
        t.drop (t.takeWhile isNamePoint).length ++ trail :=
      List.drop_append_of_le_length (List.takeWhile_sublist _).length_le
    rw [cutVariable?_of_head? hbrace, cutVariable?_of_head? hbrace',
      takeWhile_isNamePoint_append htrail, hdrop]
    split <;> rfl

theorem length_of_cutVariable? (h : cutVariable? t = some (name, rest)) :
    rest.length < t.length := by
  by_cases hbrace : t.head? = some 0x7B
  · obtain ⟨t, rfl⟩ := List.head?_eq_some_iff.1 hbrace
    exact Nat.lt_succ_of_lt (Text.length_of_cutFirst? h)
  · rw [cutVariable?_of_head? hbrace] at h
    split at h
    · simp at h
    · next hname =>
      obtain ⟨rfl, rfl⟩ := Prod.mk.inj (Option.some.inj h)
      have hname := List.length_pos_iff.2 (mt List.isEmpty_iff.2 hname)
      have hle := (List.takeWhile_sublist isNamePoint (l := t)).length_le
      rw [List.length_drop]
      omega

theorem replaceVariables_of_notMem (h : 0x24 ∉ t) (fuel : Nat) :
    env.replaceVariables fuel t = t := by
  induction fuel generalizing t with
  | zero => rfl
  | succ fuel ih =>
    cases t with
    | nil => rfl
    | cons c t =>
      rw [List.mem_cons, not_or] at h
      rw [replaceVariables, if_neg (Ne.symm h.1), ih h.2]

/-- White space after a text stays after it. -/
theorem replaceVariables_append (htrail : ∀ c ∈ trail, c.isWhiteSpace = true)
    {fuel fuel' : Nat} (hfuel : t.length < fuel) (hfuel' : (t ++ trail).length < fuel') :
    env.replaceVariables fuel' (t ++ trail) = env.replaceVariables fuel t ++ trail := by
  induction fuel generalizing t fuel' with
  | zero => omega
  | succ fuel ih =>
    cases t with
    | nil => exact replaceVariables_of_notMem (Text.notMem_of_isWhiteSpace rfl htrail) fuel'
    | cons c t =>
      obtain ⟨fuel', rfl⟩ : ∃ n, fuel' = n + 1 := ⟨fuel' - 1, by omega⟩
      simp only [List.cons_append, List.length_cons, List.length_append] at hfuel hfuel' ⊢
      rw [replaceVariables, replaceVariables]
      split
      · rw [cutVariable?_append htrail]
        cases hcut : cutVariable? t with
        | none =>
          have hrest : env.replaceVariables fuel' (t ++ trail) =
              env.replaceVariables fuel t ++ trail :=
            ih (by omega) (by rw [List.length_append]; omega)
          simp only [Option.map_none, hrest, List.cons_append]
        | some found =>
          obtain ⟨name, rest⟩ := found
          have hlength := length_of_cutVariable? hcut
          have hrest : env.replaceVariables fuel' (rest ++ trail) =
              env.replaceVariables fuel rest ++ trail :=
            ih (by omega) (by rw [List.length_append]; omega)
          have hwritten : (t ++ trail).take ((t ++ trail).length - (rest ++ trail).length) =
              t.take (t.length - rest.length) := by
            rw [List.length_append, List.length_append, Nat.add_sub_add_right]
            exact List.take_append_of_le_length (Nat.sub_le _ _)
          simp only [Option.map_some, hrest, hwritten, List.append_assoc]
      · rw [ih (by omega) (by rw [List.length_append]; omega), List.cons_append]

theorem replaceVariables_append_left (hlead : ∀ c ∈ lead, c.isWhiteSpace = true) (fuel : Nat)
    (t : Text) : env.replaceVariables (lead.length + fuel) (lead ++ t) =
      lead ++ env.replaceVariables fuel t := by
  induction lead with
  | nil => rw [List.length_nil, Nat.zero_add, List.nil_append, List.nil_append]
  | cons c lead ih =>
    obtain ⟨hc, hlead⟩ := List.forall_mem_cons.1 hlead
    have hdollar : c ≠ 0x24 := by
      rintro rfl
      exact absurd hc (by decide)
    rw [List.length_cons, Nat.add_right_comm, List.cons_append, replaceVariables, if_neg hdollar,
      ih hlead, List.cons_append]

/-- The text with its variables replaced. -/
def filled (env : Environment) (t : Text) : Text := env.replaceVariables (t.length + 1) t

theorem filled_append (htrail : ∀ c ∈ trail, c.isWhiteSpace = true) (t : Text) :
    env.filled (t ++ trail) = env.filled t ++ trail :=
  replaceVariables_append htrail (Nat.lt_succ_self _) (Nat.lt_succ_self _)

theorem filled_append_left (hlead : ∀ c ∈ lead, c.isWhiteSpace = true) (t : Text) :
    env.filled (lead ++ t) = lead ++ env.filled t := by
  unfold filled
  rw [List.length_append, Nat.add_assoc, replaceVariables_append_left hlead]

/-! ### The tilde -/

theorem replaceHome_of_head? (h : t.head? ≠ some 0x7E) : env.replaceHome t = t := by
  unfold replaceHome
  split
  · simp at h
  · rfl

/-- White space after a text stays after it, unless it comes to stand in the name of a user. -/
theorem replaceHome_append (htrail : ∀ c ∈ trail, c.isWhiteSpace = true)
    (hhome : t.head? = some 0x7E → Path.slash ∈ t) :
    env.replaceHome (t ++ trail) = env.replaceHome t ++ trail := by
  by_cases htilde : t.head? = some 0x7E
  · obtain ⟨rest, rfl⟩ := List.head?_eq_some_iff.1 htilde
    have hslash : Path.slash ∈ rest :=
      (List.mem_cons.1 (hhome htilde)).resolve_left (by decide)
    -- The name of the user ends before the slash, and so does not reach the white space.
    have hlength : (rest.takeWhile (· ≠ Path.slash)).length < rest.length := by
      refine lt_of_le_of_ne (List.takeWhile_sublist _).length_le fun hall => ?_
      rw [← (List.takeWhile_prefix _).eq_of_length hall] at hslash
      simpa using List.mem_takeWhile_imp hslash
    have huser : (rest ++ trail).takeWhile (· ≠ Path.slash) = rest.takeWhile (· ≠ Path.slash) := by
      rw [List.takeWhile_append, if_neg hlength.ne]
    have hdrop : (rest ++ trail).drop (rest.takeWhile (· ≠ Path.slash)).length =
        rest.drop (rest.takeWhile (· ≠ Path.slash)).length ++ trail :=
      List.drop_append_of_le_length hlength.le
    have hpath (home : Text) : home ++ rest.drop (rest.takeWhile (· ≠ Path.slash)).length ≠ [] := by
      intro hnil
      have hrest := List.drop_eq_nil_iff.1 (List.append_eq_nil_iff.1 hnil).2
      omega
    unfold replaceHome
    simp only [List.cons_append]
    rw [huser, hdrop]
    split
    · rfl
    · next home _ =>
      have hpath := hpath (Text.trimEnd (· == Path.slash) home)
      have hpath' := List.append_ne_nil_of_left_ne_nil hpath trail
      rw [← List.append_assoc, if_neg (mt List.isEmpty_iff.1 hpath'),
        if_neg (mt List.isEmpty_iff.1 hpath)]
  · rw [replaceHome_of_head? htilde, replaceHome_of_head? (Text.head?_append_ne rfl htrail htilde)]

/-- White space before a text stays before it, and hides a tilde. -/
theorem replace_append_left (hlead : ∀ c ∈ lead, c.isWhiteSpace = true) (hne : lead ≠ [])
    (t : Text) :
    env.replace (lead ++ t) = lead ++ env.filled t := by
  have htilde : (lead ++ env.filled t).head? ≠ some 0x7E := by
    rw [List.head?_append_of_ne_nil _ hne]
    exact fun h => Text.notMem_of_isWhiteSpace rfl hlead (List.mem_of_mem_head? h)
  have hreplace : env.replace (lead ++ t) = env.replaceHome (env.filled (lead ++ t)) := rfl
  rw [hreplace, filled_append_left hlead, replaceHome_of_head? htilde]

/-! ### What texts mean, seen from a directory -/

section

variable {directory : Text}

/-- The place from which the parts of a path are gone through. -/
def startOf (directory : Text) (p : Path) : Place :=
  if p.isAbsolute then [] else Path.descend [] (Path.ofText directory).parts

theorem isPart_of_mem_startOf (directory : Text) (p : Path) :
    ∀ part ∈ startOf directory p, Path.IsPart part := by
  unfold startOf
  split
  · simp
  · exact Path.isPart_of_mem_descend (by simp) fun part => Path.isPart_of_mem_ofText

theorem expand_eq (hdirectory : (Path.ofText directory).isAbsolute = true) (root : Place)
    (t : Text) : env.expand root (some (Path.ofText directory)) t =
      ⟨1, Path.descend (startOf directory (Path.ofText (env.replace t)))
        (Path.ofText (env.replace t)).parts⟩ := by
  unfold expand startOf Path.under Path.resolve
  dsimp only
  split
  · rfl
  · have hwhole : Path.isAbsolute ⟨(Path.ofText directory).slashes,
        (Path.ofText directory).parts ++ (Path.ofText (env.replace t)).parts⟩ = true := hdirectory
    rw [if_pos hwhole, Path.descend_append]

theorem isPart_of_mem_expand (hdirectory : (Path.ofText directory).isAbsolute = true)
    (root : Place) (t : Text) :
    ∀ part ∈ (env.expand root (some (Path.ofText directory)) t).parts, Path.IsPart part := by
  rw [expand_eq hdirectory]
  exact Path.isPart_of_mem_descend (isPart_of_mem_startOf directory _)
    fun part => Path.isPart_of_mem_ofText

/-- With its variables and its tilde replaced, the text ends in the name of something, and no white
space ends this name. -/
structure EndsWithName (env : Environment) (t : Text) : Prop where
  home : (env.filled t).head? = some 0x7E →
    Path.slash ∈ env.filled t
  isPart : Path.IsPart (Path.lastPiece (env.replace t))
  notWhiteSpace : ∀ c ∈ (Path.lastPiece (env.replace t)).getLast?, c.isWhiteSpace = false

theorem replace_append (h : env.EndsWithName t) (htrail : ∀ c ∈ trail, c.isWhiteSpace = true) :
    env.replace (t ++ trail) = env.replace t ++ trail := by
  have hreplace : env.replace (t ++ trail) = env.replaceHome (env.filled (t ++ trail)) := rfl
  rw [hreplace, filled_append htrail, replaceHome_append htrail h.home]
  rfl

/-- White space after such a text is added to the last part of the path that it means. -/
theorem expand_append (hdirectory : (Path.ofText directory).isAbsolute = true) (root : Place)
    (h : env.EndsWithName t) : ∃ front, (∀ part ∈ front, Path.IsPart part) ∧
      ∀ trail : Text, (∀ c ∈ trail, c.isWhiteSpace = true) →
        env.expand root (some (Path.ofText directory)) (t ++ trail) =
          ⟨1, front ++ [Path.lastPiece (env.replace t) ++ trail]⟩ := by
  obtain ⟨front, hfront, hparts⟩ := Path.exists_parts_append h.isPart
  refine ⟨Path.descend (startOf directory (Path.ofText (env.replace t))) front,
    Path.isPart_of_mem_descend (isPart_of_mem_startOf directory _) hfront, ?_⟩
  intro trail htrail
  -- What is added at the end does not change where the path starts.
  have hstart : startOf directory (Path.ofText (env.replace t ++ trail)) =
      startOf directory (Path.ofText (env.replace t)) := by
    have hne : env.replace t ≠ [] := by
      intro hnil
      refine h.isPart.2.1 ?_
      rw [hnil]
      rfl
    unfold startOf
    rw [Path.isAbsolute_ofText, Path.isAbsolute_ofText, List.head?_append_of_ne_nil _ hne]
  have hlast : Path.lastPiece (env.replace t) ++ trail ≠ Path.dotDot :=
    (Path.isPart_append h.isPart htrail).2.2.2
  rw [expand_eq hdirectory, replace_append h htrail, hstart, hparts trail htrail,
    Path.descend_append]
  exact congrArg (Path.mk 1) (if_neg hlast)

/-- White space after such a text is dropped from the path again. -/
theorem ofText_trim_expand_append (hdirectory : (Path.ofText directory).isAbsolute = true)
    (root : Place) (h : env.EndsWithName t) (htrail : ∀ c ∈ trail, c.isWhiteSpace = true) :
    Path.ofText (env.expand root (some (Path.ofText directory)) (t ++ trail)).toText.trimWhiteSpace
      = env.expand root (some (Path.ofText directory)) t := by
  obtain ⟨front, hfront, hexpand⟩ := expand_append hdirectory root h
  obtain ⟨hslash, -⟩ := Path.isPart_append h.isPart htrail
  obtain ⟨-, hempty, hdot, -⟩ := h.isPart
  have hwhole := hexpand [] (by simp)
  rw [List.append_nil, List.append_nil] at hwhole
  rw [hexpand trail htrail, Path.ofText_trim_toText hfront hslash, Text.trimEnd_append htrail,
    Text.trimEnd_eq_self_iff.2 h.notWhiteSpace, hwhole]
  simp [hempty, hdot]

/-- With its variables replaced, the text begins with the name of something, and no white space
begins this name; and it never goes up. -/
structure BeginsWithName (env : Environment) (t : Text) : Prop where
  isPart : Path.IsPart (Path.firstPiece (env.filled t))
  notHome : (Path.firstPiece (env.filled t)).head? ≠ some 0x7E
  notWhiteSpace : ∀ c ∈ (Path.firstPiece (env.filled t)).head?,
    c.isWhiteSpace = false
  notUp : Path.dotDot ∉ (Path.ofText (env.filled t)).parts

/-- White space before such a text is added to the first part of the path that it means. -/
theorem expand_append_left (hdirectory : (Path.ofText directory).isAbsolute = true) (root : Place)
    (h : env.BeginsWithName t) : ∃ start rest, (∀ part ∈ start, Path.IsPart part) ∧
      (∀ part ∈ rest, Path.IsPart part) ∧
      ∀ lead : Text, (∀ c ∈ lead, c.isWhiteSpace = true) →
        env.expand root (some (Path.ofText directory)) (lead ++ t) =
          ⟨1, start ++ (lead ++ Path.firstPiece (env.filled t)) :: rest⟩ := by
  obtain ⟨rest, hparts⟩ := Path.exists_parts_append_left h.isPart
  have hhead := Path.head?_of_firstPiece h.isPart.2.1
  have hwhole := hparts [] (by simp)
  rw [List.nil_append, List.nil_append] at hwhole
  have hup := h.notUp
  rw [hwhole, List.mem_cons, not_or] at hup
  have hrest : ∀ part ∈ rest, Path.IsPart part := by
    intro part hpart
    refine Path.isPart_of_mem_ofText (hwhole ▸ List.mem_cons_of_mem _ hpart) ?_
    rintro rfl
    exact hup.2 hpart
  refine ⟨Path.descend [] (Path.ofText directory).parts, rest,
    Path.isPart_of_mem_descend (by simp) fun part => Path.isPart_of_mem_ofText, hrest, ?_⟩
  intro lead hlead
  have hreplace : env.replace (lead ++ t) = lead ++ env.filled t := by
    by_cases hne : lead = []
    · subst hne
      exact replaceHome_of_head? (hhead ▸ h.notHome)
    · exact replace_append_left hlead hne t
  have hrelative : (Path.ofText (lead ++ env.filled t)).isAbsolute =
      false := by
    rw [Path.isAbsolute_ofText, beq_eq_false_iff_ne]
    cases lead with
    | nil =>
      rw [List.nil_append, hhead]
      exact fun hslash => h.isPart.1 (List.mem_of_mem_head? hslash)
    | cons c lead =>
      rintro hslash
      have hc := hlead c List.mem_cons_self
      rw [Option.some.inj hslash] at hc
      exact absurd hc (by decide)
  have hup' : Path.dotDot ∉
      (lead ++ Path.firstPiece (env.filled t)) :: rest := by
    rw [List.mem_cons, not_or]
    exact ⟨(Path.isPart_append_left h.isPart hlead).2.2.2.symm, hup.2⟩
  rw [expand_eq hdirectory, hreplace, startOf, hrelative, hparts lead hlead,
    Path.descend_of_notMem hup']
  rfl

/-- White space before such a text stays in the path. -/
theorem ofText_trim_expand_append_left (hdirectory : (Path.ofText directory).isAbsolute = true)
    (root : Place) (h : env.BeginsWithName t) (hlead : ∀ c ∈ lead, c.isWhiteSpace = true)
    (hne : lead ≠ []) :
    Path.ofText (env.expand root (some (Path.ofText directory)) (lead ++ t)).toText.trimWhiteSpace
      ≠ env.expand root (some (Path.ofText directory)) t := by
  obtain ⟨start, rest, hstart, hrest, hexpand⟩ := expand_append_left hdirectory root h
  have hpart := Path.isPart_append_left h.isPart hlead
  have hwhole := hexpand [] (by simp)
  rw [List.nil_append, List.nil_append] at hwhole
  rw [hexpand lead hlead, hwhole]
  intro heq
  rcases List.eq_nil_or_concat rest with rfl | ⟨rest, last, rfl⟩
  · -- The first part is the last one too, and what is left of it begins with white space.
    rw [Path.ofText_trim_toText hstart hpart.1] at heq
    have hkept := List.append_cancel_left (Path.mk.inj heq).2
    have hfirst := List.mem_singleton.1 (List.mem_of_mem_filter (hkept ▸ List.mem_singleton_self _))
    obtain ⟨trail, htrim, -⟩ := Text.exists_eq_trimEnd CodePoint.isWhiteSpace
      (lead ++ Path.firstPiece (env.filled t))
    rw [← hfirst] at htrim
    obtain ⟨b, lead, rfl⟩ := List.exists_cons_of_ne_nil hne
    obtain ⟨c, first, hc⟩ := List.exists_cons_of_ne_nil h.isPart.2.1
    have hnot := h.notWhiteSpace
    rw [hc] at htrim hnot
    have hblank := hlead b List.mem_cons_self
    rw [(List.cons.inj htrim).1, hnot c rfl] at hblank
    exact Bool.false_ne_true hblank
  · rw [List.concat_eq_append] at heq hrest
    obtain ⟨hrest, hlast⟩ := List.forall_mem_append.1 hrest
    have hfront := List.forall_mem_append.2 ⟨hstart, List.forall_mem_cons.2 ⟨hpart, hrest⟩⟩
    rw [← List.cons_append, ← List.append_assoc, Path.ofText_trim_toText hfront
      (hlast last List.mem_cons_self).1, List.append_assoc] at heq
    have hfirst := (List.cons.inj (List.append_cancel_left (Path.mk.inj heq).2)).1
    exact hne (List.append_left_eq_self.1 hfirst)

end

end Environment

end Jarsmith
