import Jarsmith.Proofs.Archive.ReadBack
import Jarsmith.Proofs.ClassGraph.Loading

/-!
# Graphs of archives with fewer classes

`OpenArchive.Reduced K a a'` says that `a'` is `a` without the members of some classes, none of
which `K` holds of; what is left may be stored in other bytes, as long as it names the same classes.
Then what is found in `a'` is what is found in `a` of the classes of `K` (`readingOf_of_reduced`).

Where every archive of a scan is reduced, each by a set of classes of its own, a class that is kept
everywhere has one definition in both graphs (`Represents.agreeAt`), whichever archive gives it. If
all classes that are reached are kept everywhere, the same are reached after the reduction
(`reaches_iff_of_agreeAt`).
-/

namespace Jarsmith

namespace OpenArchive

/-- The member `m'` of `a'` stands for the member `m` of `a`: it has its name, names the same
classes if it is a class file, and has the same data unless it defines a class. -/
structure Replaces (a a' : OpenArchive) (m m' : Archive.Member) : Prop where
  name : m'.name = m.name
  dependencies : ∀ data self references, a.read m = .ok data →
    ClassFile.dependencies data = .ok (self, references) →
    ∃ data', a'.read m' = .ok data' ∧ ClassFile.dependencies data' = .ok (self, references)
  read : Archive.isClass m.name = false → ∀ data, a.read m = .ok data → a'.read m' = .ok data

/-- The member stays if only the classes of `K` do. -/
def staysFor (K : Text → Bool) (m : Archive.Member) : Bool := (Archive.unitName? m.name).all K

theorem staysFor_of_none {K : Text → Bool} {m : Archive.Member}
    (h : Archive.unitName? m.name = none) : staysFor K m = true := by
  rw [staysFor, h]
  rfl

theorem staysFor_of_some {K : Text → Bool} {m : Archive.Member} {X : Text}
    (h : Archive.unitName? m.name = some X) : staysFor K m = K X := by
  rw [staysFor, h]
  rfl

/-- The members of `a'` stand for those of `a`, but for classes that are not in `K`. -/
def Reduced (K : Text → Bool) (a a' : OpenArchive) : Prop :=
  List.Forall₂ (Replaces a a') (a.archive.members.filter (staysFor K)) a'.archive.members

end OpenArchive

open OpenArchive

namespace ClassGraph

variable {K : Text → Bool} {a a' : OpenArchive} {g g' : ClassGraph} {X r : Text}

/-! ### What is found in an archive -/

theorem unitMembers_cons_of_none {m : Archive.Member} (h : Archive.unitName? m.name = none)
    (ms : List Archive.Member) : unitMembers (m :: ms) = unitMembers ms :=
  List.filterMap_cons_none (by rw [h]; rfl)

theorem unitMembers_cons_of_some {m : Archive.Member} (h : Archive.unitName? m.name = some X)
    (ms : List Archive.Member) : unitMembers (m :: ms) = (m, X) :: unitMembers ms :=
  List.filterMap_cons_some (by rw [h]; rfl)

theorem readMembers_cons_of_hasFound {m : Archive.Member × Text} {f : Found} (hf : HasFound a m f)
    (ms : List (Archive.Member × Text)) :
    (readMembers a (m :: ms)).failure? = (readMembers a ms).failure? ∧
      (readMembers a (m :: ms)).found = f :: (readMembers a ms).found := by
  obtain ⟨m, name⟩ := m
  obtain ⟨data, self, references, hread, hdeps, rfl⟩ := hf
  simp only [readMembers, hread, hdeps, and_self]

theorem HasFound.of_replaces {m m' : Archive.Member} {f : Found} (hf : HasFound a (m, X) f)
    (h : Replaces a a' m m') : HasFound a' (m', X) f := by
  obtain ⟨data, self, references, hread, hdeps, rfl⟩ := hf
  obtain ⟨data', hread', hdeps'⟩ := h.dependencies data self references hread hdeps
  exact ⟨data', self, references, hread', hdeps', by rw [h.name]⟩

/-- Members that are read are read as well in an archive where others stand for them, and of those
that do not stay nothing is found. -/
theorem readMembers_of_forall₂_replaces {ms ms' : List Archive.Member}
    (h : List.Forall₂ (Replaces a a') (ms.filter (staysFor K)) ms')
    (hfailure : (readMembers a (unitMembers ms)).failure? = none) :
    (readMembers a' (unitMembers ms')).failure? = none ∧
      (readMembers a' (unitMembers ms')).found =
        (readMembers a (unitMembers ms)).found.filter fun f => K f.name := by
  induction ms generalizing ms' with
  | nil =>
    obtain rfl := List.forall₂_nil_left_iff.1 h
    exact ⟨rfl, rfl⟩
  | cons m ms ih =>
    cases hunit : Archive.unitName? m.name with
    | none =>
      -- the member stays, and nothing is found in either archive
      rw [List.filter_cons_of_pos (staysFor_of_none hunit)] at h
      obtain ⟨m', ms', hm', hms', rfl⟩ := List.forall₂_cons_left_iff.1 h
      have hunit' : Archive.unitName? m'.name = none := by rw [hm'.name, hunit]
      rw [unitMembers_cons_of_none hunit] at hfailure ⊢
      rw [unitMembers_cons_of_none hunit']
      exact ih hms' hfailure
    | some X =>
      rw [unitMembers_cons_of_some hunit] at hfailure ⊢
      obtain ⟨f, hf, hrest, hfound⟩ := readMembers_cons hfailure
      have hname : f.name = X := hf.name_eq
      have hstays : staysFor K m = K X := staysFor_of_some hunit
      rw [hfound]
      cases hK : K X with
      | false =>
        -- the member goes, and with it what was found of it
        rw [List.filter_cons_of_neg (by rw [hstays, hK]; exact Bool.false_ne_true)] at h
        rw [List.filter_cons_of_neg (by rw [hname, hK]; exact Bool.false_ne_true)]
        exact ih h hrest
      | true =>
        rw [List.filter_cons_of_pos (hstays.trans hK)] at h
        obtain ⟨m', ms', hm', hms', rfl⟩ := List.forall₂_cons_left_iff.1 h
        have hunit' : Archive.unitName? m'.name = some X := by rw [hm'.name, hunit]
        obtain ⟨hfailure', hfound'⟩ :=
          readMembers_cons_of_hasFound (hf.of_replaces hm') (unitMembers ms')
        obtain ⟨ihfailure, ihfound⟩ := ih hms' hrest
        rw [unitMembers_cons_of_some hunit', hfailure', hfound', ihfound,
          List.filter_cons_of_pos (by rw [hname, hK])]
        exact ⟨ihfailure, rfl⟩

/-- In a reduced archive what is left of the classes is found as before. -/
theorem readingOf_of_reduced (h : Reduced K a a') (hfailure : (readingOf a).failure? = none) :
    (readingOf a').failure? = none ∧
      (readingOf a').found = (readingOf a).found.filter fun f => K f.name :=
  readMembers_of_forall₂_replaces h hfailure

/-! ### One class in two graphs -/

theorem any_filter_name (found : List Found) (hX : K X = true) :
    (found.filter fun f => K f.name).any (·.name = X) = found.any (·.name = X) := by
  rw [List.any_filter]
  congr 1
  funext f
  by_cases hname : f.name = X
  · rw [hname, hX, Bool.true_and]
  · simp [hname]

theorem counted_filter_name (found : List Found) (hX : K X = true) :
    counted (found.filter fun f => K f.name) X = counted found X := by
  have hfilter (found : List Found) : (found.filter fun f => K f.name).filter (·.name = X) =
      found.filter (·.name = X) := by
    rw [List.filter_filter]
    congr 1
    funext f
    by_cases hname : f.name = X
    · rw [hname, hX, Bool.and_true]
    · simp [hname]
  have hplain : ((found.filter fun f => K f.name).filter (!·.isVersioned)).find? (·.name = X) =
      (found.filter (!·.isVersioned)).find? (·.name = X) := by
    rw [← List.head?_filter, List.filter_comm (fun f : Found => !f.isVersioned), hfilter,
      List.head?_filter]
  have hversioned : ((found.filter fun f => K f.name).filter (·.isVersioned)).filter (·.name = X) =
      (found.filter (·.isVersioned)).filter (·.name = X) := by
    rw [List.filter_comm (fun f : Found => f.isVersioned), hfilter]
  unfold counted versionedReferences
  rw [hplain, hversioned]

/-- What is known of a class before and after: `r'` is what is left of the reading `r`, and the
class is left. -/
def Keeps (X : Text) (r r' : Path × List Found) : Prop :=
  ∃ K : Text → Bool, K X = true ∧ r'.2 = r.2.filter fun f => K f.name

/-- The first archive that has a class is still the first one, and counts what it counted. -/
theorem find?_of_keeps {readings readings' : List (Path × List Found)}
    (h : List.Forall₂ (Keeps X) readings readings') :
    (readings.find? (fun r => r.2.any (·.name = X)) = none ∧
      readings'.find? (fun r => r.2.any (·.name = X)) = none) ∨
    ∃ r r', readings.find? (fun r => r.2.any (·.name = X)) = some r ∧
      readings'.find? (fun r => r.2.any (·.name = X)) = some r' ∧
      counted r'.2 X = counted r.2 X := by
  induction h with
  | nil => exact .inl ⟨rfl, rfl⟩
  | @cons r r' _ _ hr _ ih =>
    obtain ⟨K, hX, hfound⟩ := hr
    have hany : r'.2.any (·.name = X) = r.2.any (·.name = X) := by
      rw [hfound, any_filter_name _ hX]
    rw [List.find?_cons, List.find?_cons, hany]
    cases r.2.any (·.name = X) with
    | true => exact .inr ⟨r, r', rfl, rfl, by rw [hfound, counted_filter_name _ hX]⟩
    | false => exact ih

/-- Both graphs define the class, with the same references, or neither does. -/
structure AgreeAt (g g' : ClassGraph) (X : Text) : Prop where
  defines : g'.defines X = g.defines X
  references : ∀ r, (∃ d, g'.find? X = some d ∧ r ∈ d.references) ↔
    ∃ d, g.find? X = some d ∧ r ∈ d.references

theorem defines_eq_isSome (g : ClassGraph) (X : Text) : g.defines X = (g.find? X).isSome := by
  rw [Bool.eq_iff_iff, defines_iff, isSome_find?_iff]

/-- The graphs agree on a class that is kept everywhere. -/
theorem Represents.agreeAt {readings readings' : List (Path × List Found)}
    (hg : Represents g readings) (hg' : Represents g' readings')
    (h : List.Forall₂ (Keeps X) readings readings') : AgreeAt g g' X := by
  rcases find?_of_keeps h with ⟨hnone, hnone'⟩ | ⟨first, first', hfirst, hfirst', hcounted⟩
  · have hX := hg.find?_eq_none hnone
    have hX' := hg'.find?_eq_none hnone'
    exact ⟨by rw [defines_eq_isSome, defines_eq_isSome, hX, hX'], by simp [hX, hX']⟩
  · obtain ⟨d, hd, -, hreferences⟩ := hg.exists_definition hfirst
    obtain ⟨d', hd', -, hreferences'⟩ := hg'.exists_definition hfirst'
    refine ⟨by rw [defines_eq_isSome, defines_eq_isSome, hd, hd']; rfl, fun r => ?_⟩
    simp only [hd, hd', Option.some.injEq, exists_eq_left', hreferences, hreferences', hcounted]

/-- The classes of the graph are those that were found anywhere. -/
theorem Represents.defines_iff {readings : List (Path × List Found)} (hg : Represents g readings) :
    g.defines X = true ↔ ∃ r ∈ readings, ∃ f ∈ r.2, f.name = X := by
  rw [defines_eq_isSome, Option.isSome_iff_exists]
  constructor
  · rintro ⟨d, hd⟩
    obtain ⟨r, hr, -, hfound⟩ := hg.exists_of_find? hd
    exact ⟨r, hr, hfound⟩
  · rintro ⟨r, hr, f, hf, rfl⟩
    exact hg.exists_find? hr hf

/-- Where archives only lose classes, so does the graph. -/
theorem Represents.defines_of_forall₂ {readings readings' : List (Path × List Found)}
    (hg : Represents g readings) (hg' : Represents g' readings')
    (h : List.Forall₂ (fun r r' => ∀ f ∈ r'.2, f ∈ r.2) readings readings')
    (hX : g'.defines X = true) : g.defines X = true := by
  obtain ⟨r', hr', f, hf, hname⟩ := hg'.defines_iff.1 hX
  obtain ⟨r, hr, hsub⟩ := exists_mem_of_forall₂ h hr'
  exact hg.defines_iff.2 ⟨r, hr, f, hsub f hf, hname⟩

/-! ### What is reached -/

/-- If the graphs agree on what is reached, the same is reached in both. -/
theorem reaches_iff_of_agreeAt {start : List Text} (h : ∀ X, g.Reaches start X → AgreeAt g g' X)
    (hdefines : ∀ X, g'.defines X = true → g.defines X = true) :
    g'.Reaches start X ↔ g.Reaches start X := by
  -- a path is followed class by class; the class that it comes from is reached in `g` in both
  -- directions, so that the graphs agree on it
  constructor
  · intro hX
    induction hX with
    | entry hname => exact .entry hname
    | @reference d r _ hfind hr hdefines' ih =>
      obtain ⟨d₀, hfind₀, hr₀⟩ := ((h _ ih).references r).1 ⟨d, hfind, hr⟩
      have hname := name_of_find? hfind₀
      exact .reference (hname ▸ ih) (hname ▸ hfind₀) hr₀ (hdefines r hdefines')
  · intro hX
    induction hX with
    | entry hname => exact .entry hname
    | @reference d r hd hfind hr hdefines' ih =>
      obtain ⟨d', hfind', hr'⟩ := ((h _ hd).references r).2 ⟨d, hfind, hr⟩
      have hname := name_of_find? hfind'
      have hreached : g.Reaches start r := .reference hd hfind hr hdefines'
      exact .reference (hname ▸ ih) (hname ▸ hfind') hr' ((h r hreached).defines.trans hdefines')

end ClassGraph

end Jarsmith
