import Jarsmith.Proofs.FileSystem.PathText

/-!
# Paths that are read off their own texts

A path is what its text writes (`ofText_toText`), and nothing stands in its text that was not in the
text that it was read off (`toText_ofText_sublist`). So a path is found again in its text without
the white space at its ends exactly if there is no such white space (`reread_ofText_eq_iff`): what
is dropped from the text does not come back.
-/

namespace Jarsmith

namespace Text

variable {separator t : Text} {ts us : List Text}

theorem joinWith_sublist (h : ts.Sublist us) :
    (joinWith separator ts).Sublist (joinWith separator us) := by
  induction h with
  | slnil => exact List.Sublist.refl _
  | @cons ts us u h ih =>
    cases us with
    | nil =>
      rw [List.eq_nil_of_sublist_nil h]
      exact List.nil_sublist _
    | cons next rest =>
      rw [joinWith_cons separator u (List.cons_ne_nil next rest)]
      exact ih.trans (List.sublist_append_right _ _)
  | @cons_cons ts us u h ih =>
    cases us with
    | nil =>
      rw [List.eq_nil_of_sublist_nil h]
    | cons next rest =>
      rw [joinWith_cons separator u (List.cons_ne_nil next rest)]
      cases ts with
      | nil =>
        rw [List.append_assoc]
        exact List.sublist_append_left u _
      | cons first others =>
        rw [joinWith_cons separator u (List.cons_ne_nil first others)]
        exact ih.append_left (u ++ separator)

theorem trim_sublist (p : CodePoint → Bool) (t : Text) : (trim p t).Sublist t := by
  obtain ⟨lead, trail, heq, -⟩ := exists_eq_trim p t
  conv_rhs => rw [heq]
  exact (List.sublist_append_right lead _).trans (List.sublist_append_left _ trail)

end Text

namespace Path

variable {p : Path} {k : Nat} {parts : List Text} {t : Text}

/-- A piece of a text that is a part of the path. -/
def isKept (piece : Text) : Bool := !piece.isEmpty && piece != dot

theorem parts_ofText (t : Text) : (ofText t).parts = (t.splitOn slash).filter isKept := rfl

/-! ### Slashes at the beginning -/

theorem keptSlashes_le (t : Text) : keptSlashes t ≤ 2 := by
  unfold keptSlashes
  split <;> decide

theorem keptSlashes_of_head? (h : t.head? ≠ some slash) : keptSlashes t = 0 := by
  unfold keptSlashes
  split <;> simp_all

theorem keptSlashes_replicate (hk : k ≤ 2) (h : t.head? ≠ some slash) :
    keptSlashes (List.replicate k slash ++ t) = k := by
  match k, hk with
  | 0, _ => exact keptSlashes_of_head? h
  | 1, _ => exact keptSlashes_cons h
  | 2, _ =>
    change keptSlashes (slash :: slash :: t) = 2
    unfold keptSlashes
    split
    · next heq =>
      obtain rfl := (List.cons.inj (List.cons.inj heq).2).2
      exact absurd rfl h
    · rfl
    · next rest hrest heq => exact absurd (List.cons.inj heq).2.symm (hrest t)
    · next hrest => exact absurd rfl (hrest (slash :: t))

theorem filter_splitOn_replicate (k : Nat) (t : Text) :
    (Text.splitOn slash (List.replicate k slash ++ t)).filter isKept =
      (t.splitOn slash).filter isKept := by
  induction k with
  | zero => rfl
  | succ k ih =>
    rw [List.replicate_succ, List.cons_append, Text.splitOn_cons_self, ← ih]
    rfl

/-- What a path does not keep of a text are slashes at its beginning and pieces. -/
theorem exists_eq_replicate_append (t : Text) : ∃ rest,
    t = List.replicate (keptSlashes t) slash ++ rest ∧
      (ofText t).parts = (rest.splitOn slash).filter isKept := by
  obtain ⟨rest, heq⟩ : ∃ rest, t = List.replicate (keptSlashes t) slash ++ rest := by
    unfold keptSlashes
    split
    · next rest => exact ⟨slash :: slash :: rest, rfl⟩
    · next rest _ => exact ⟨rest, rfl⟩
    · next rest _ _ => exact ⟨rest, rfl⟩
    · exact ⟨_, rfl⟩
  refine ⟨rest, heq, ?_⟩
  rw [← filter_splitOn_replicate (keptSlashes t) rest, ← heq, parts_ofText]

/-! ### Texts of paths -/

theorem ofText_toText_of_kept (hk : k ≤ 2)
    (hparts : ∀ part ∈ parts, slash ∉ part ∧ isKept part = true) :
    ofText (toText ⟨k, parts⟩) = ⟨k, parts⟩ := by
  have hpieces : (Text.splitOn slash (Text.joinWith [slash] parts)).filter isKept = parts := by
    cases parts with
    | nil => rfl
    | cons part rest =>
      rw [(Text.splitOn_joinWith_eq_iff (List.cons_ne_nil part rest)).2 fun part hpart =>
        (hparts part hpart).1]
      exact List.filter_eq_self.2 fun part hpart => (hparts part hpart).2
  have hhead : (Text.joinWith [slash] parts).head? ≠ some slash := by
    cases parts with
    | nil => simp [Text.joinWith]
    | cons part rest =>
      obtain ⟨hslash, hkept⟩ := hparts part List.mem_cons_self
      obtain ⟨c, part, rfl⟩ := List.exists_cons_of_ne_nil (l := part) (by
        rintro rfl
        exact absurd hkept (by decide))
      have hc : c ≠ slash := fun hc => hslash (hc ▸ List.mem_cons_self)
      cases rest <;> simpa [Text.joinWith] using hc
  unfold toText
  split
  · next hdot =>
    obtain ⟨hzero, hempty⟩ := hdot
    dsimp only at hzero hempty
    rw [hzero, List.isEmpty_iff.1 hempty]
    rfl
  · have hslashes := keptSlashes_replicate hk hhead
    have hkept := (filter_splitOn_replicate k (Text.joinWith [slash] parts)).trans hpieces
    exact congr (congrArg Path.mk hslashes) hkept

/-- A path that was read off a text is what its own text writes. -/
theorem ofText_toText (t : Text) : ofText (ofText t).toText = ofText t := by
  refine ofText_toText_of_kept (keptSlashes_le t) fun part hpart => ?_
  obtain ⟨hpiece, hkept⟩ := List.mem_filter.1 hpart
  exact ⟨Text.notMem_of_mem_splitOn hpiece, hkept⟩

/-- Nothing stands in the text of a path that was not in the text that it was read off. -/
theorem toText_ofText_sublist (h : t ≠ []) : (ofText t).toText.Sublist t := by
  unfold toText
  split
  · next hdot =>
    -- The first piece begins with no slash and is not kept, so that it is a dot.
    obtain ⟨hzero, hempty⟩ := hdot
    obtain ⟨c, t, rfl⟩ := List.exists_cons_of_ne_nil h
    have hc : c ≠ slash := by
      rintro rfl
      have habsolute := isAbsolute_ofText (slash :: t)
      rw [isAbsolute, hzero] at habsolute
      exact absurd habsolute (by simp)
    obtain ⟨piece, pieces, -, hsplit⟩ := Text.splitOn_cons_of_ne hc t
    have hnone : isKept (c :: piece) ≠ true := by
      have hall := List.filter_eq_nil_iff.1 (List.isEmpty_iff.1 hempty)
      exact hall (c :: piece) (hsplit ▸ List.mem_cons_self)
    have hdot : c :: piece = dot := by simpa [isKept] using hnone
    obtain rfl : c = 0x2E := (List.cons.inj hdot).1
    exact List.singleton_sublist.2 List.mem_cons_self
  · obtain ⟨rest, heq, hparts⟩ := exists_eq_replicate_append t
    have hjoined : (Text.joinWith [slash] (ofText t).parts).Sublist
        (Text.joinWith [slash] (rest.splitOn slash)) := by
      rw [hparts]
      exact Text.joinWith_sublist List.filter_sublist
    rw [Text.joinWith_splitOn] at hjoined
    conv_rhs => rw [heq]
    exact hjoined.append_left _

/-! ### Texts without the white space at their ends -/

/-- The path that is read off the text of `p` without the white space at its ends. -/
def reread (p : Path) : Path := ofText p.toText.trimWhiteSpace

/-- A path that was read off a text is read again exactly if its text is. -/
theorem reread_ofText_eq_iff (t : Text) :
    (ofText t).reread = ofText t ↔ (ofText t).toText.trimWhiteSpace = (ofText t).toText := by
  constructor
  · intro hread
    have htrimmed := Text.trim_sublist CodePoint.isWhiteSpace (ofText t).toText
    by_cases hempty : (ofText t).toText.trimWhiteSpace = []
    · rw [reread, hempty] at hread
      rw [← hread] at hempty
      exact absurd hempty (by decide)
    · -- What is read has nothing but what was left of the text, which so was the whole text.
      have hkept := toText_ofText_sublist hempty
      rw [← reread, hread] at hkept
      exact htrimmed.antisymm hkept
  · intro htrimmed
    rw [reread, htrimmed, ofText_toText]

end Path

end Jarsmith
