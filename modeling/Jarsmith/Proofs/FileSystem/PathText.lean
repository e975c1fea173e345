import Mathlib.Data.List.Basic
import Jarsmith.Proofs.FileSystem.Place
import Jarsmith.Proofs.Text.Lines
import Jarsmith.Proofs.Text.Trim

/-!
# Paths and white space

White space after a text becomes a part of the last part of the path that the text writes
(`exists_parts_append`), and white space before it a part of the first one
(`exists_parts_append_left`), as long as there is a name where it is added. When white space is
dropped from the text of a path that begins at the root, its last part alone is changed
(`ofText_trim_toText`).
-/

namespace Jarsmith

namespace Path

variable {p : Path} {place parts front : List Text} {part last t lead trail : Text}

/-! ### Parts -/

theorem isPart_of_mem_ofText (h : part ∈ (ofText t).parts) (hup : part ≠ dotDot) :
    IsPart part := by
  obtain ⟨hpiece, hkept⟩ := List.mem_filter.1 h
  have hname : part ≠ [] ∧ part ≠ dot := by simpa using hkept
  exact ⟨Text.notMem_of_mem_splitOn hpiece, hname.1, hname.2, hup⟩

theorem descend_append (place parts more : List Text) :
    descend place (parts ++ more) = descend (descend place parts) more := List.foldl_append

theorem isPart_of_mem_descend (hplace : ∀ part ∈ place, IsPart part)
    (hparts : ∀ part ∈ parts, part ≠ dotDot → IsPart part) :
    ∀ part ∈ descend place parts, IsPart part := by
  induction parts generalizing place with
  | nil => exact hplace
  | cons part parts ih =>
    obtain ⟨hpart, hparts⟩ := List.forall_mem_cons.1 hparts
    refine ih (fun other hother => ?_) hparts
    dsimp only at hother
    split at hother
    · exact hplace other ((List.dropLast_sublist place).subset hother)
    · next hup =>
      rcases List.mem_append.1 hother with hother | hother
      · exact hplace other hother
      · obtain rfl := List.mem_singleton.1 hother
        exact hpart hup

theorem isAbsolute_ofText (t : Text) : (ofText t).isAbsolute = (t.head? == some slash) := by
  cases t with
  | nil => rfl
  | cons c t =>
    by_cases hc : c = slash
    · subst hc
      unfold isAbsolute ofText keptSlashes
      split <;> simp_all
    · have hnone : keptSlashes (c :: t) = 0 := by
        unfold keptSlashes
        split <;> simp_all
      simp [isAbsolute, ofText, hnone, hc]

/-! ### White space at the ends of parts -/

/-- A text with white space in it is neither one dot nor two. -/
theorem isPart_of_isWhiteSpace {c : CodePoint} (hslash : slash ∉ t) (hmem : c ∈ t)
    (hc : c.isWhiteSpace = true) : IsPart t := by
  have hdot : c ≠ 0x2E := by
    rintro rfl
    exact absurd hc (by decide)
  refine ⟨hslash, List.ne_nil_of_mem hmem, ?_, ?_⟩
  · rintro rfl
    exact hdot (List.eq_of_mem_replicate (n := 1) hmem)
  · rintro rfl
    exact hdot (List.eq_of_mem_replicate (n := 2) hmem)

theorem isPart_append (h : IsPart t) (htrail : ∀ c ∈ trail, c.isWhiteSpace = true) :
    IsPart (t ++ trail) := by
  cases trail with
  | nil => rwa [List.append_nil]
  | cons c trail =>
    refine isPart_of_isWhiteSpace ?_ (List.mem_append_right t List.mem_cons_self)
      (htrail c List.mem_cons_self)
    rw [List.mem_append, not_or]
    exact ⟨h.1, Text.notMem_of_isWhiteSpace rfl htrail⟩

theorem isPart_append_left (h : IsPart t) (hlead : ∀ c ∈ lead, c.isWhiteSpace = true) :
    IsPart (lead ++ t) := by
  cases lead with
  | nil => rwa [List.nil_append]
  | cons c lead =>
    refine isPart_of_isWhiteSpace ?_ (List.mem_append_left t List.mem_cons_self)
      (hlead c List.mem_cons_self)
    rw [List.mem_append, not_or]
    exact ⟨Text.notMem_of_isWhiteSpace rfl hlead, h.1⟩

/-- What stands after the last slash of a text. -/
def lastPiece (t : Text) : Text := (t.splitOn slash).getLast?.getD []

/-- White space after a text that ends in the name of something is added to its last part. -/
theorem exists_parts_append (h : IsPart (lastPiece t)) :
    ∃ front : List Text, (∀ part ∈ front, part ≠ dotDot → IsPart part) ∧
      ∀ trail : Text, (∀ c ∈ trail, c.isWhiteSpace = true) →
        (ofText (t ++ trail)).parts = front ++ [lastPiece t ++ trail] := by
  obtain ⟨pieces, last, hsplit⟩ := Text.exists_splitOn_append slash t
  have hlast : lastPiece t = last := by
    have hwhole := hsplit [] List.not_mem_nil
    rw [List.append_nil, List.append_nil] at hwhole
    rw [lastPiece, hwhole, List.getLast?_concat, Option.getD_some]
  have hparts (trail : Text) (htrail : ∀ c ∈ trail, c.isWhiteSpace = true) :
      (ofText (t ++ trail)).parts =
        pieces.filter (fun part => !part.isEmpty && part != dot) ++ [lastPiece t ++ trail] := by
    obtain ⟨-, hempty, hdot, -⟩ := isPart_append h htrail
    have hkept : [lastPiece t ++ trail].filter (fun part => !part.isEmpty && part != dot) =
        [lastPiece t ++ trail] := by
      rw [List.filter_eq_self]
      simpa using ⟨by simpa using hempty, hdot⟩
    unfold ofText
    rw [hsplit trail (Text.notMem_of_isWhiteSpace rfl htrail), ← hlast, List.filter_append,
      hkept]
  refine ⟨_, fun part hpart => isPart_of_mem_ofText (t := t) ?_, hparts⟩
  have hwhole := hparts [] (by simp)
  rw [List.append_nil] at hwhole
  rw [hwhole]
  exact List.mem_append_left _ hpart

/-- What stands before the first slash of a text. -/
def firstPiece (t : Text) : Text := (t.splitOn slash).head?.getD []

theorem splitOn_append_left (hlead : slash ∉ lead) (t : Text) : ∃ pieces,
    Text.splitOn slash t = firstPiece t :: pieces ∧
    Text.splitOn slash (lead ++ t) = (lead ++ firstPiece t) :: pieces := by
  obtain ⟨first, pieces, hsplit⟩ := List.exists_cons_of_ne_nil (Text.splitOn_ne_nil slash t)
  have hfirst : firstPiece t = first := by
    rw [firstPiece, hsplit, List.head?_cons, Option.getD_some]
  refine ⟨pieces, by rw [hsplit, hfirst], ?_⟩
  induction lead with
  | nil => rw [List.nil_append, List.nil_append, hsplit, hfirst]
  | cons c lead ih =>
    rw [List.mem_cons, not_or] at hlead
    rw [List.cons_append, Text.splitOn, if_neg (Ne.symm hlead.1), ih hlead.2]
    rfl

theorem head?_of_firstPiece (h : firstPiece t ≠ []) : t.head? = (firstPiece t).head? := by
  cases t with
  | nil => exact absurd rfl h
  | cons c t =>
    by_cases hc : c = slash
    · subst hc
      exact absurd (by rw [firstPiece, Text.splitOn_cons_self]; rfl) h
    · obtain ⟨piece, pieces, -, hsplit⟩ := Text.splitOn_cons_of_ne hc t
      rw [firstPiece, hsplit]
      rfl

/-- White space before a text that begins with the name of something is added to its first part. -/
theorem exists_parts_append_left (h : IsPart (firstPiece t)) :
    ∃ rest : List Text, ∀ lead : Text, (∀ c ∈ lead, c.isWhiteSpace = true) →
      (ofText (lead ++ t)).parts = (lead ++ firstPiece t) :: rest := by
  have hnone : slash ∉ ([] : Text) := List.not_mem_nil
  obtain ⟨pieces, hsplit, -⟩ := splitOn_append_left hnone t
  refine ⟨pieces.filter fun part => !part.isEmpty && part != dot, fun lead hlead => ?_⟩
  obtain ⟨-, hempty, hdot, -⟩ := isPart_append_left h hlead
  obtain ⟨pieces', hsplit', hlead'⟩ :=
    splitOn_append_left (Text.notMem_of_isWhiteSpace rfl hlead) t
  obtain rfl : pieces' = pieces := (List.cons.inj (hsplit'.symm.trans hsplit)).2
  have hkept : (!(lead ++ firstPiece t).isEmpty && lead ++ firstPiece t != dot) = true := by
    simpa using ⟨by simpa using hempty, hdot⟩
  unfold ofText
  rw [hlead']
  exact List.filter_cons_of_pos (p := fun part : Text => !part.isEmpty && part != dot) hkept

/-! ### Texts of paths without white space at their ends -/

theorem keptSlashes_cons (h : t.head? ≠ some slash) : keptSlashes (slash :: t) = 1 := by
  unfold keptSlashes
  split <;> simp_all

theorem toText_concat (front : List Text) (last : Text) :
    toText ⟨1, front ++ [last]⟩ = Text.joinWith [slash] ([] :: front) ++ slash :: last := by
  have hjoined : Text.joinWith [slash] ([] :: (front ++ [last])) =
      slash :: Text.joinWith [slash] (front ++ [last]) := by
    cases front <;> rfl
  rw [← Text.joinWith_concat slash (List.cons_ne_nil [] front), List.cons_append, hjoined]
  rfl

/-- The text of a path from the root, with any text in place of its last part. -/
theorem ofText_joinWith (hfront : ∀ part ∈ front, IsPart part) (hlast : slash ∉ last) :
    ofText (Text.joinWith [slash] ([] :: front) ++ slash :: last) =
      ⟨1, front ++ [last].filter fun part => !part.isEmpty && part != dot⟩ := by
  have hmarks : ∀ part ∈ [] :: front, slash ∉ part :=
    List.forall_mem_cons.2 ⟨List.not_mem_nil, fun part hpart => (hfront part hpart).1⟩
  have hpieces : Text.splitOn slash (Text.joinWith [slash] ([] :: front) ++ slash :: last) =
      [] :: front ++ [last] := by
    rw [Text.splitOn_append_cons, (Text.splitOn_joinWith_eq_iff (List.cons_ne_nil _ _)).2 hmarks,
      Text.splitOn_of_notMem hlast]
  have hkept : front.filter (fun part => !part.isEmpty && part != dot) = front :=
    List.filter_eq_self.2 fun part hpart => by
      obtain ⟨-, hempty, hdot, -⟩ := hfront part hpart
      simp [hempty, hdot]
  -- What follows the slash at the beginning is the first part, and there is no slash in it.
  have hslashes : keptSlashes (Text.joinWith [slash] ([] :: front) ++ slash :: last) = 1 := by
    cases front with
    | nil =>
      refine keptSlashes_cons fun hhead => hlast ?_
      exact List.mem_of_mem_head? hhead
    | cons part front =>
      obtain ⟨hslash, hempty, -⟩ := hfront part List.mem_cons_self
      obtain ⟨c, part, rfl⟩ := List.exists_cons_of_ne_nil hempty
      have hc : c ≠ slash := fun h => hslash (h ▸ List.mem_cons_self)
      have hhead : (Text.joinWith [slash] ((c :: part) :: front) ++ slash :: last).head? ≠
          some slash := by
        cases front <;> simpa [Text.joinWith] using hc
      exact keptSlashes_cons hhead
  unfold ofText
  rw [hpieces, hslashes, List.filter_append, List.filter_cons, hkept]
  rfl

/-- What is left of a path from the root when white space is dropped from its text. -/
theorem ofText_trim_toText (hfront : ∀ part ∈ front, IsPart part) (hlast : slash ∉ last) :
    ofText (toText ⟨1, front ++ [last]⟩).trimWhiteSpace =
      ⟨1, front ++ [Text.trimEnd CodePoint.isWhiteSpace last].filter
        fun part => !part.isEmpty && part != dot⟩ := by
  have hend : slash ∉ Text.trimEnd CodePoint.isWhiteSpace last := by
    obtain ⟨trail, heq, -⟩ := Text.exists_eq_trimEnd CodePoint.isWhiteSpace last
    rw [heq, List.mem_append, not_or] at hlast
    exact hlast.1
  have hstart : ∀ c ∈ (Text.joinWith [slash] ([] :: front) ++ slash :: last).head?,
      c.isWhiteSpace = false := by
    cases front <;> simp [Text.joinWith] <;> rfl
  rw [toText_concat, Text.trimWhiteSpace, Text.trim, Text.dropWhile_eq_self_of_head? hstart,
    Text.trimEnd_append_cons rfl, ofText_joinWith hfront hend]

/-- A path from the root is its text again exactly if no white space ends its last part. -/
theorem ofText_trim_toText_eq_iff (hslashes : p.slashes = 1)
    (hparts : ∀ part ∈ p.parts, IsPart part) :
    ofText p.toText.trimWhiteSpace = p ↔ ∀ c ∈ p.name.getLast?, c.isWhiteSpace = false := by
  obtain ⟨slashes, parts⟩ := p
  dsimp only at hslashes hparts
  subst hslashes
  rcases List.eq_nil_or_concat parts with rfl | ⟨front, last, rfl⟩
  · simp only [name, List.getLast?_nil, Option.getD_none, Option.not_mem_none, false_implies,
      implies_true, iff_true]
    rfl
  · rw [List.concat_eq_append] at hparts ⊢
    obtain ⟨hfront, hlast⟩ := List.forall_mem_append.1 hparts
    obtain ⟨hslash, hempty, hdot, -⟩ := List.forall_mem_singleton.1 hlast
    have hname : name ⟨1, front ++ [last]⟩ = last := by simp [name]
    rw [ofText_trim_toText hfront hslash, hname, ← Text.trimEnd_eq_self_iff]
    constructor
    · intro heq
      have hkept := List.append_cancel_left (Path.mk.inj heq).2
      exact (List.mem_singleton.1
        (List.mem_of_mem_filter (hkept ▸ List.mem_singleton_self last))).symm
    · intro heq
      rw [heq]
      simp [hempty, hdot]

end Path

end Jarsmith
