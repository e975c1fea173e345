import Mathlib.Data.List.Pairwise
import Jarsmith.Proofs.ClassGraph.Scan

/-!
# Graphs without duplicates

A scan records a duplicate where a definition comes too late. It records none exactly if what was
read is `Unrepeated`: no archive has two plain members for a class, and no class is in two archives,
except that an archive that comes twice may have a class in versioned members only
(`exists_unrepeated`).

That says nothing of an order. Where it holds there is one archive to a class, so that it does not
matter which one comes first (`find?_of_perm`), and archives in another order have the same classes
(`Represents.sameClasses_of_perm`).
-/

namespace Jarsmith.ClassGraph

variable {g g' : ClassGraph} {d : Definition} {X : Text} {archive : Path} {s : Scan}
  {found : List Found} {readings readings' : List (Path × List Found)}

/-! ### What is recorded -/

theorem duplicates_add_eq_nil_iff :
    (g.add d).duplicates = [] ↔ g.duplicates = [] ∧ g.find? d.name = none := by
  unfold add
  split
  · next hdefines =>
    rw [defines_iff, ← isSome_find?_iff] at hdefines
    obtain ⟨first, hfirst⟩ := Option.isSome_iff_exists.1 hdefines
    simp [hfirst]
  · next hdefines =>
    rw [defines_iff, ← isSome_find?_iff] at hdefines
    simp only [Option.isSome_iff_ne_none, not_not] at hdefines
    simp [hdefines]

namespace Scan

theorem duplicates_foldl_define_eq_nil_iff (s : Scan) (archive : Path) (found : List Found) :
    (found.foldl (fun s f => s.define ⟨f.name, archive, f.references⟩) s).graph.duplicates = [] ↔
      s.graph.duplicates = [] ∧ (found.map (·.name)).Nodup ∧
        ∀ f ∈ found, s.graph.find? f.name = none := by
  induction found generalizing s with
  | nil => simp
  | cons f found ih =>
    rw [List.foldl_cons, ih, graph_define, duplicates_add_eq_nil_iff, List.map_cons,
      List.nodup_cons, List.forall_mem_cons]
    -- After the first one is defined, the others must be defined nowhere and be none of its name.
    have hlater : (∀ f' ∈ found, (s.graph.add ⟨f.name, archive, f.references⟩).find? f'.name =
        none) ↔ f.name ∉ found.map (·.name) ∧ ∀ f' ∈ found, s.graph.find? f'.name = none := by
      simp only [find?_add, Option.or_eq_none_iff, ite_eq_right_iff, reduceCtorEq, imp_false,
        List.mem_map, not_exists, not_and]
      constructor
      · exact fun h => ⟨fun f' hf' heq => (h f' hf').2 heq.symm, fun f' hf' => (h f' hf').1⟩
      · exact fun h f' hf' => ⟨h.2 f' hf', fun heq => h.1 f' hf' heq.symm⟩
    rw [hlater]
    tauto

theorem duplicates_merge_eq_nil_iff {name : Text} {references : List Text} :
    (merge archive s (name, references)).graph.duplicates = [] ↔
      s.graph.duplicates = [] ∧ ∀ d, s.graph.find? name = some d → d.archive = archive := by
  unfold merge
  dsimp only
  cases hfind : s.graph.find? name with
  | none =>
    dsimp only
    rw [graph_define, duplicates_add_eq_nil_iff]
    simp [hfind]
  | some d =>
    dsimp only
    by_cases harchive : d.archive = archive
    · rw [if_pos harchive]
      simp [extend, harchive]
    · rw [if_neg harchive, graph_define, duplicates_add_eq_nil_iff]
      simp [hfind, harchive]

theorem duplicates_foldl_merge_eq_nil_iff (s : Scan) (archive : Path)
    {versioned : List (Text × List Text)} (hnodup : (versioned.map Prod.fst).Nodup) :
    (versioned.foldl (merge archive) s).graph.duplicates = [] ↔ s.graph.duplicates = [] ∧
      ∀ X ∈ versioned.map Prod.fst, ∀ d, s.graph.find? X = some d → d.archive = archive := by
  induction versioned generalizing s with
  | nil => simp
  | cons v versioned ih =>
    obtain ⟨name, references⟩ := v
    rw [List.map_cons, List.nodup_cons] at hnodup
    rw [List.foldl_cons, ih _ hnodup.2, duplicates_merge_eq_nil_iff, List.map_cons,
      List.forall_mem_cons, and_assoc]
    -- The classes that follow are others, so that they are found as before.
    have hlater (X : Text) (hX : X ∈ versioned.map Prod.fst) :
        (merge archive s (name, references)).graph.find? X = s.graph.find? X := by
      have hne : name ≠ X := fun heq => hnodup.1 (heq ▸ hX)
      rw [find?_merge, if_neg hne]
    refine and_congr_right fun _ => and_congr_right fun _ => ?_
    exact forall₂_congr fun X hX => by rw [hlater X hX]

end Scan

theorem mem_versionedClasses {found : List Found} : X ∈ (versionedClasses found).map Prod.fst ↔
    ∃ f ∈ found, f.isVersioned = true ∧ f.name = X := by
  unfold versionedClasses
  rw [List.map_map, show Prod.fst ∘ _ = id from rfl, List.map_id, Text.mem_unique]
  simp [and_assoc]

/-- No class has two plain members. -/
def Distinct (found : List Found) : Prop := ((found.filter (!·.isVersioned)).map (·.name)).Nodup

/-- Taking in an archive records nothing if no class comes twice there, and none has a definition,
but for those of versioned members that have it in the same archive. -/
theorem duplicates_addReading_eq_nil_iff {r : Reading} (h : r.failure? = none) :
    (s.add archive r).graph.duplicates = [] ↔ s.graph.duplicates = [] ∧ Distinct r.found ∧
      ∀ f ∈ r.found, ∀ d, s.graph.find? f.name = some d →
        d.archive = archive ∧ f.isVersioned = true := by
  unfold Scan.add
  rw [h]
  dsimp only
  rw [Scan.duplicates_foldl_merge_eq_nil_iff _ _ (nodup_versionedClasses _),
    Scan.duplicates_foldl_define_eq_nil_iff, and_assoc, and_assoc]
  refine and_congr_right fun _ => and_congr_right fun _ => ?_
  constructor
  · rintro ⟨hplain, hversioned⟩ f hf d hd
    cases hf' : f.isVersioned with
    | false =>
      -- Where there is a definition before, a plain member is a duplicate.
      have hnone := hplain f (List.mem_filter.2 ⟨hf, by simp [hf']⟩)
      exact absurd (hd.symm.trans hnone) (Option.some_ne_none d)
    | true =>
      refine ⟨hversioned f.name (mem_versionedClasses.2 ⟨f, hf, hf', rfl⟩) d ?_, rfl⟩
      rw [Scan.find?_foldl_define]
      exact Option.or_eq_some_iff.2 (.inl hd)
  · intro hall
    constructor
    · intro f hf
      obtain ⟨hf, hplain⟩ := List.mem_filter.1 hf
      refine Option.eq_none_iff_forall_ne_some.2 fun d hd => ?_
      rw [(hall f hf d hd).2] at hplain
      exact absurd hplain (by decide)
    · intro X hX d hd
      obtain ⟨f, hf, -, rfl⟩ := mem_versionedClasses.1 hX
      rw [Scan.find?_foldl_define] at hd
      -- It was defined before, or by a plain member of this archive.
      rcases Option.or_eq_some_iff.1 hd with hbefore | ⟨-, hplain⟩
      · exact (hall f hf d hbefore).1
      · obtain ⟨f', -, rfl⟩ := Option.map_eq_some_iff.1 hplain
        rfl

/-! ### What has no duplicates -/

/-- A class that both have is one that a single archive has, in versioned members only. -/
def Apart (b c : Path × List Found) : Prop :=
  ∀ f ∈ b.2, ∀ f' ∈ c.2, f.name = f'.name →
    b.1 = c.1 ∧ f.isVersioned = true ∧ f'.isVersioned = true

theorem Apart.symm {b c : Path × List Found} (h : Apart b c) : Apart c b := by
  intro f hf f' hf' hname
  obtain ⟨hpath, hversioned', hversioned⟩ := h f' hf' f hf hname.symm
  exact ⟨hpath.symm, hversioned, hversioned'⟩

/-- No class is defined twice. -/
structure Unrepeated (readings : List (Path × List Found)) : Prop where
  distinct : ∀ b ∈ readings, Distinct b.2
  apart : readings.Pairwise Apart

namespace Unrepeated

theorem of_perm (h : Unrepeated readings) (hperm : readings.Perm readings') :
    Unrepeated readings' where
  distinct b hb := h.distinct b (hperm.mem_iff.2 hb)
  apart := (hperm.pairwise_iff Apart.symm).1 h.apart

/-- All that have a class are one archive. -/
theorem path_eq (h : Unrepeated readings) {b c : Path × List Found} (hb : b ∈ readings)
    (hc : c ∈ readings) {f f' : Found} (hf : f ∈ b.2) (hf' : f' ∈ c.2) (hname : f.name = f'.name) :
    b.1 = c.1 := by
  let R (b c : Path × List Found) : Prop :=
    ∀ f ∈ b.2, ∀ f' ∈ c.2, f.name = f'.name → b.1 = c.1
  have : Std.Symm R := ⟨fun _ _ hR f hf f' hf' hname => (hR f' hf' f hf hname.symm).symm⟩
  have hpairwise : readings.Pairwise R :=
    h.apart.imp fun hapart f hf f' hf' hname => (hapart f hf f' hf' hname).1
  have hall := hpairwise.forall_of_forall fun _ _ _ _ _ _ _ => rfl
  exact hall hb hc f hf f' hf' hname

theorem append_singleton_iff {c : Path × List Found} : Unrepeated (readings ++ [c]) ↔
    Unrepeated readings ∧ Distinct c.2 ∧ ∀ b ∈ readings, Apart b c := by
  constructor
  · rintro ⟨hdistinct, hapart⟩
    obtain ⟨hreadings, -, hlast⟩ := List.pairwise_append.1 hapart
    exact ⟨⟨fun b hb => hdistinct b (List.mem_append_left _ hb), hreadings⟩,
      hdistinct c (by simp), fun b hb => hlast b hb c (by simp)⟩
  · rintro ⟨⟨hdistinct, hapart⟩, hc, hlast⟩
    refine ⟨fun b hb => ?_, List.pairwise_append.2 ⟨hapart, List.pairwise_singleton _ _, ?_⟩⟩
    · rcases List.mem_append.1 hb with hb | hb
      · exact hdistinct b hb
      · rwa [List.mem_singleton.1 hb]
    · intro b hb c' hc'
      rw [List.mem_singleton.1 hc']
      exact hlast b hb

end Unrepeated

/-- Taking in an archive keeps it that nothing is recorded exactly if no class is defined twice. -/
theorem Represents.duplicates_add_eq_nil_iff (hg : Represents s.graph readings)
    (hiff : s.graph.duplicates = [] ↔ Unrepeated readings) {r : Reading} (hr : r.failure? = none)
    (hsame : ∀ found, (archive, found) ∈ readings → found = r.found) :
    (s.add archive r).graph.duplicates = [] ↔ Unrepeated (readings ++ [(archive, r.found)]) := by
  rw [duplicates_addReading_eq_nil_iff hr, hiff, Unrepeated.append_singleton_iff]
  refine and_congr_right fun hbefore => and_congr_right fun _ => ?_
  constructor
  · intro hall b hb f hf f' hf' hname
    -- The class has a definition, so that this archive is the one that it is in, and `b` as well.
    obtain ⟨d, hd⟩ := hg.exists_find? hb hf
    obtain ⟨harchive, hversioned'⟩ := hall f' hf' d (hname ▸ hd)
    obtain ⟨c, hc, howner, f₀, hf₀, hname₀⟩ := hg.exists_of_find? hd
    have hpath : b.1 = archive :=
      (hbefore.path_eq hb hc hf hf₀ hname₀.symm).trans (howner.symm.trans harchive)
    have hfound : b.2 = r.found := hsame b.2 (hpath ▸ hb)
    exact ⟨hpath, (hall f (hfound ▸ hf) d hd).2, hversioned'⟩
  · intro hall f hf d hd
    obtain ⟨b, hb, howner, f₀, hf₀, hname⟩ := hg.exists_of_find? hd
    obtain ⟨hpath, -, hversioned⟩ := hall b hb f₀ hf₀ f hf hname
    exact ⟨howner.trans hpath, hversioned⟩

/-- The graph of archives, if there is one, is that of their class members, and has no duplicates
exactly if no class is defined twice. -/
theorem exists_unrepeated {files : FileSystem} {paths : List Path}
    (h : (ofArchives files paths).outcome.1 = .ok g) :
    ∃ opened : List OpenArchive, paths.map (OpenArchive.load files) = opened.map .ok ∧
      (∀ a ∈ opened, (readingOf a).failure? = none) ∧
      Represents g (opened.map fun a => (a.path, (readingOf a).found)) ∧
      (g.duplicates = [] ↔ Unrepeated (opened.map fun a => (a.path, (readingOf a).found))) := by
  refine ofArchives_induction (P := fun g readings =>
    Represents g readings ∧ (g.duplicates = [] ↔ Unrepeated readings)) ?_ ?_ h
  · exact ⟨represents_empty, iff_of_true rfl ⟨by simp, .nil⟩⟩
  · intro s archive r readings ⟨hg, hiff⟩ hr hsame
    exact ⟨hg.add hr hsame, hg.duplicates_add_eq_nil_iff hiff hr hsame⟩

/-! ### Another order -/

/-- In any order the same archive is the first that has a class. -/
theorem find?_of_perm (h : Unrepeated readings)
    (hsame : ∀ b ∈ readings, ∀ c ∈ readings, b.1 = c.1 → b = c) (hperm : readings.Perm readings')
    (X : Text) : readings'.find? (fun r => r.2.any (·.name = X)) =
      readings.find? fun r => r.2.any (·.name = X) := by
  cases hfind : readings.find? fun r => r.2.any (·.name = X) with
  | none =>
    rw [List.find?_eq_none] at hfind ⊢
    exact fun b hb => hfind b (hperm.mem_iff.2 hb)
  | some b =>
    -- Whichever comes first now has the class too, so that both are at one path.
    have hb := List.mem_of_find?_eq_some hfind
    have hany := List.find?_some (p := fun r : Path × List Found => r.2.any (·.name = X)) hfind
    cases hfind' : readings'.find? fun r => r.2.any (·.name = X) with
    | none => exact absurd hany (List.find?_eq_none.1 hfind' b (hperm.mem_iff.1 hb))
    | some c =>
      have hc := hperm.mem_iff.2 (List.mem_of_find?_eq_some hfind')
      have hany' := List.find?_some (p := fun r : Path × List Found => r.2.any (·.name = X)) hfind'
      obtain ⟨f, hf, hname⟩ := List.any_eq_true.1 hany
      obtain ⟨f', hf', hname'⟩ := List.any_eq_true.1 hany'
      rw [decide_eq_true_eq] at hname hname'
      rw [hsame c hc b hb (h.path_eq hc hb hf' hf (hname'.trans hname.symm))]

/-- Both graphs have the same classes, each in the same archive and with the same references. -/
structure SameClasses (g g' : ClassGraph) : Prop where
  archive : ∀ X, (g'.find? X).map (·.archive) = (g.find? X).map (·.archive)
  references : ∀ X r, (∃ d, g'.find? X = some d ∧ r ∈ d.references) ↔
    ∃ d, g.find? X = some d ∧ r ∈ d.references

namespace SameClasses

theorem symm (h : SameClasses g g') : SameClasses g' g :=
  ⟨fun X => (h.archive X).symm, fun X r => (h.references X r).symm⟩

theorem toExtends (h : SameClasses g g') : Extends g g' := by
  intro X d hd
  have hX := h.archive X
  rw [hd, Option.map_some] at hX
  obtain ⟨d', hd', -⟩ := Option.map_eq_some_iff.1 hX
  refine ⟨d', hd', fun r hr => ?_⟩
  obtain ⟨d'', hd'', hr'⟩ := (h.references X r).2 ⟨d, hd, hr⟩
  rwa [Option.some.inj (hd'.symm.trans hd'')]

/-- The same is reached from the same entry points. -/
theorem reaches_iff (h : SameClasses g g') {start start' : List Text}
    (hstart : ∀ X, X ∈ start' ↔ X ∈ start) : g'.Reaches start' X ↔ g.Reaches start X :=
  ⟨.mono h.symm.toExtends fun _ => (hstart _).1, .mono h.toExtends fun _ => (hstart _).2⟩

theorem mem_names_iff (h : SameClasses g g') : X ∈ g'.names ↔ X ∈ g.names := by
  rw [← defines_iff, ← defines_iff]
  exact ⟨h.symm.toExtends.defines, h.toExtends.defines⟩

end SameClasses

theorem Represents.sameClasses_of_perm (hg : Represents g readings)
    (hg' : Represents g' readings') (h : Unrepeated readings)
    (hsame : ∀ b ∈ readings, ∀ c ∈ readings, b.1 = c.1 → b = c)
    (hperm : readings.Perm readings') : SameClasses g g' := by
  have hboth (X : Text) : (g.find? X = none ∧ g'.find? X = none) ∨ ∃ d d', g.find? X = some d ∧
      g'.find? X = some d' ∧ d'.archive = d.archive ∧ ∀ r, r ∈ d'.references ↔ r ∈ d.references := by
    have hfirst' := find?_of_perm h hsame hperm X
    cases hfirst : readings.find? (fun r => r.2.any (·.name = X)) with
    | none =>
      rw [hfirst] at hfirst'
      exact .inl ⟨hg.find?_eq_none hfirst, hg'.find?_eq_none hfirst'⟩
    | some r =>
      rw [hfirst] at hfirst'
      obtain ⟨d, hd, harchive, hreferences⟩ := hg.exists_definition hfirst
      obtain ⟨d', hd', harchive', hreferences'⟩ := hg'.exists_definition hfirst'
      exact .inr ⟨d, d', hd, hd', harchive'.trans harchive.symm,
        fun ref => (hreferences' ref).trans (hreferences ref).symm⟩
  refine ⟨fun X => ?_, fun X r => ?_⟩
  · rcases hboth X with ⟨hnone, hnone'⟩ | ⟨d, d', hd, hd', harchive, -⟩
    · rw [hnone, hnone']
    · rw [hd, hd', Option.map_some, Option.map_some, harchive]
  · rcases hboth X with ⟨hnone, hnone'⟩ | ⟨d, d', hd, hd', -, hreferences⟩
    · simp [hnone, hnone']
    · simp [hd, hd', hreferences]

end Jarsmith.ClassGraph
