import Jarsmith.Archive.UnitName

/-!
# The members for a class

A class loader looks for a class `p.C` in the member `p/C.class`, its plain member, and for version
`n` of the platform in `META-INF/versions/n/p/C.class`. The names of both are made from that of the
class, and `unitName?` gives the class back (`unitName?_plainName`, `unitName?_overrideName`).
-/

namespace Jarsmith

namespace Text

theorem dropStart?_append (start t : Text) : dropStart? start (start ++ t) = some t := by
  induction start with
  | nil => rfl
  | cons c start ih =>
    rw [List.cons_append, dropStart?, if_pos rfl]
    exact ih

theorem dropStart?_append_of_some {start t rest u : Text} (h : dropStart? start t = some rest) :
    dropStart? start (t ++ u) = some (rest ++ u) := by
  induction start generalizing t with
  | nil =>
    obtain rfl := Option.some.inj h
    rfl
  | cons a start ih =>
    cases t with
    | nil => simp [dropStart?] at h
    | cons c t =>
      rw [dropStart?] at h
      rw [List.cons_append, dropStart?]
      split at h
      · next hac => rw [if_pos hac, ih h]
      · simp at h

theorem dropStart?_append_of_none {start t u : Text} {c : CodePoint}
    (h : dropStart? start t = none) (hc : c ∉ start) : dropStart? start (t ++ c :: u) = none := by
  induction start generalizing t with
  | nil => simp [dropStart?] at h
  | cons a start ih =>
    have hac : a ≠ c := fun heq => hc (heq ▸ List.mem_cons_self)
    cases t with
    | nil => rw [List.nil_append, dropStart?, if_neg hac]
    | cons b t =>
      rw [dropStart?] at h
      rw [List.cons_append, dropStart?]
      split
      · next hab =>
        rw [if_pos hab] at h
        exact ih h fun hmem => hc (List.mem_cons_of_mem _ hmem)
      · rfl

theorem dropEnd?_append (t ending : Text) : dropEnd? ending (t ++ ending) = some t := by
  unfold dropEnd?
  rw [List.reverse_append, dropStart?_append, Option.map_some, List.reverse_reverse]

theorem isDecimal_of_mem_ofNat {n : Nat} {c : CodePoint} (h : c ∈ ofNat n) :
    c.isDecimal = true := by
  obtain ⟨char, hchar, rfl⟩ := List.mem_map.1 h
  rw [Nat.toList_repr] at hchar
  have hdigit := Nat.isDigit_of_mem_toDigits (by decide) (by decide) hchar
  rw [Char.isDigit_iff_toNat] at hdigit
  refine List.any_eq_true.2 ⟨0x30, by decide, ?_⟩
  rw [Bool.and_eq_true, decide_eq_true_eq, decide_eq_true_eq]
  exact hdigit

theorem ofNat_ne_nil (n : Nat) : ofNat n ≠ [] := by
  intro h
  have hempty : (Nat.repr n).toList = [] := List.map_eq_nil_iff.1 h
  rw [Nat.toList_repr] at hempty
  exact Nat.toDigits_ne_nil hempty

/-- Exchanging two code points for each other and back. -/
theorem replace_replace {a b : CodePoint} {t : Text} (h : b ∉ t) :
    (t.replace a b).replace b a = t := by
  unfold replace
  rw [List.map_map]
  refine (List.map_congr_left fun c hc => ?_).trans (List.map_id t)
  have hcb : c ≠ b := fun heq => h (heq ▸ hc)
  by_cases hca : c = a
  · simp [hca]
  · simp [hca, hcb]

end Text

namespace Archive

/-- The name of the plain member of a class. -/
def plainName (X : Text) : Text := X.replace 0x2E 0x2F ++ classEnding

/-- The name of the member of a class for one version of the platform. -/
def overrideName (n : Nat) (X : Text) : Text :=
  versionsFolder ++ (Text.ofNat n ++ 0x2F :: plainName X)

variable {X name : Text}

theorem belowVersion?_overrideName (n : Nat) (X : Text) :
    belowVersion? (overrideName n X) = some (plainName X) := by
  have hdigits : (Text.ofNat n ++ 0x2F :: plainName X).takeWhile CodePoint.isDecimal =
      Text.ofNat n := by
    rw [List.takeWhile_append_of_pos fun c hc => Text.isDecimal_of_mem_ofNat hc,
      List.takeWhile_cons_of_neg (by decide), List.append_nil]
  have hrest : (Text.ofNat n ++ 0x2F :: plainName X).dropWhile CodePoint.isDecimal =
      0x2F :: plainName X := by
    rw [List.dropWhile_append_of_pos fun c hc => Text.isDecimal_of_mem_ofNat hc,
      List.dropWhile_cons_of_neg (by decide)]
  unfold belowVersion? overrideName
  rw [Text.dropStart?_append, Option.bind_eq_bind, Option.bind_some, hdigits, hrest]
  simp [Text.ofNat_ne_nil]

/-- The class of a member below the folders of versions, if the name ends as it must. -/
theorem unitName?_of_ending {base : Text} (h : Text.dropEnd? classEnding name = some base) :
    unitName? name = (Text.dropEnd? classEnding ((belowVersion? name).getD name)).map
      (·.replace 0x2F 0x2E) := by
  unfold unitName?
  rw [h]
  cases Text.dropEnd? classEnding ((belowVersion? name).getD name) <;> rfl

theorem unitName?_overrideName (n : Nat) (hX : 0x2F ∉ X) :
    unitName? (overrideName n X) = some X := by
  have hending : Text.dropEnd? classEnding (overrideName n X) =
      some (versionsFolder ++ (Text.ofNat n ++ 0x2F :: X.replace 0x2E 0x2F)) := by
    rw [← Text.dropEnd?_append (versionsFolder ++ _) classEnding]
    simp [overrideName, plainName]
  rw [unitName?_of_ending hending, belowVersion?_overrideName, Option.getD_some, plainName,
    Text.dropEnd?_append, Option.map_some, Text.replace_replace hX]

/-- A member that stands in no folder of a version defines the class of its whole path. -/
theorem unitName?_append_classEnding {base : Text}
    (h : isVersioned (base ++ classEnding) = false) :
    unitName? (base ++ classEnding) = some (base.replace 0x2F 0x2E) := by
  have hbelow : belowVersion? (base ++ classEnding) = none := by simpa [isVersioned] using h
  have hending := Text.dropEnd?_append base classEnding
  rw [unitName?_of_ending hending, hbelow, Option.getD_none, hending, Option.map_some]

theorem unitName?_plainName (hX : 0x2F ∉ X) (hplain : isVersioned (plainName X) = false) :
    unitName? (plainName X) = some X := by
  rw [plainName, unitName?_append_classEnding hplain, Text.replace_replace hX]

/-- What is no path below a folder of a version is none with the ending of a class either. -/
theorem isVersioned_append_classEnding {N : Text} (h : isVersioned N = false) :
    isVersioned (N ++ classEnding) = false := by
  have hending : classEnding = 0x2E :: ("class" : Text) := by decide
  unfold isVersioned belowVersion? at h ⊢
  simp only [Option.bind_eq_bind] at h ⊢
  cases hstart : Text.dropStart? versionsFolder N with
  | none =>
    rw [hending, Text.dropStart?_append_of_none hstart (by decide)]
    rfl
  | some rest =>
    rw [hstart] at h
    rw [Text.dropStart?_append_of_some hstart, Option.bind_some]
    rw [Option.bind_some] at h
    cases hdrop : rest.dropWhile CodePoint.isDecimal with
    | nil =>
      rw [List.dropWhile_append, hdrop, List.isEmpty_nil, if_pos rfl]
      split <;> rfl
    | cons c path =>
      have htake : (rest ++ classEnding).takeWhile CodePoint.isDecimal =
          rest.takeWhile CodePoint.isDecimal := by
        rw [List.takeWhile_append, if_neg]
        have hsplit := congrArg List.length (List.takeWhile_append_dropWhile (l := rest)
          (p := CodePoint.isDecimal))
        rw [hdrop, List.length_append, List.length_cons] at hsplit
        omega
      rw [List.dropWhile_append, hdrop, htake, List.isEmpty_cons, if_neg Bool.false_ne_true,
        List.cons_append]
      rw [hdrop] at h
      split
      · rfl
      · next hdigits =>
        rw [if_neg hdigits] at h
        split at h
        · simp at h
        · next hslash =>
          split
          · next heq =>
            obtain ⟨rfl, -⟩ := List.cons.inj heq
            exact absurd rfl (hslash path)
          · rfl

end Archive

end Jarsmith
