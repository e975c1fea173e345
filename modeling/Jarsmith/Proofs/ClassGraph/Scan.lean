import Jarsmith.ClassGraph.Scan
import Jarsmith.Proofs.Archive.ReadBack
import Jarsmith.Proofs.ClassGraph.Reachability
import Jarsmith.Proofs.Log.Traced

/-!
# The graph of a scan

`Represents g readings` says what the graph `g` of the archives read so far is: a class is defined
by the first archive that has a member for it, and it refers to what its first plain member and its
versioned members there name (`counted`). It holds of no archives, and the scan of an archive keeps
it (`Represents.add`), so it holds of a scan that succeeds (`represents_of_ofArchives`), as does
whatever else taking in an archive keeps (`addArchives_induction`).

The effect of each part of a scan is told by what is found for a name after it.
-/

namespace Jarsmith.ClassGraph

variable {g : ClassGraph} {name X : Text} {archive : Path} {s : Scan} {found : List Found}

/-! ### Adding definitions -/

/-- The first definition of a class counts. -/
theorem find?_add (g : ClassGraph) (d : Definition) (X : Text) :
    (g.add d).find? X = (g.find? X).or (if d.name = X then some d else none) := by
  unfold add
  split
  · next hdefines =>
    rw [defines_iff, ← isSome_find?_iff] at hdefines
    by_cases hX : d.name = X
    · rw [hX] at hdefines
      obtain ⟨first, hfirst⟩ := Option.isSome_iff_exists.1 hdefines
      rw [hfirst, Option.some_or]
      exact hfirst
    · rw [if_neg hX, Option.or_none]
      rfl
  · unfold find?
    rw [List.find?_append, List.find?_singleton]
    simp

theorem find?_extend (g : ClassGraph) (name : Text) (references : List Text) (X : Text) :
    (g.extend name references).find? X = (g.find? X).map fun d =>
      if X = name then { d with references := Text.unique (d.references ++ references) }
      else d := by
  unfold extend find?
  dsimp only
  rw [List.find?_map]
  have hpred : ((fun d : Definition => decide (d.name = X)) ∘ fun d : Definition =>
      if d.name = name then { d with references := Text.unique (d.references ++ references) }
      else d) = fun d => decide (d.name = X) := by
    funext d
    simp only [Function.comp_apply]
    split <;> rfl
  rw [hpred]
  cases hfind : g.definitions.find? (fun d => decide (d.name = X)) with
  | none => rfl
  | some d =>
    have hname : d.name = X := by simpa using List.find?_some hfind
    simp only [Option.map_some, hname]

namespace Scan

@[simp]
theorem graph_define (s : Scan) (d : Definition) : (s.define d).graph = s.graph.add d := rfl

/-- After definitions were added, the first one counts that there is. -/
theorem find?_foldl_define (s : Scan) (archive : Path) (found : List Found) (X : Text) :
    (found.foldl (fun s f => s.define ⟨f.name, archive, f.references⟩) s).graph.find? X =
      (s.graph.find? X).or
        ((found.find? (·.name = X)).map fun f => ⟨X, archive, f.references⟩) := by
  induction found generalizing s with
  | nil => simp
  | cons f found ih =>
    rw [List.foldl_cons, ih, graph_define, find?_add, List.find?_cons]
    by_cases hX : f.name = X
    · rw [if_pos hX, decide_eq_true hX, Option.or_assoc, hX]
      rfl
    · rw [if_neg hX, decide_eq_false hX, Option.or_none]

/-- What is found for a class after versioned members of it were merged, from what was found
before. -/
def merged (archive : Path) (X : Text) (references : List Text) :
    Option Definition → Option Definition
  | none => some ⟨X, archive, references⟩
  | some d =>
    if d.archive = archive then
      some { d with references := Text.unique (d.references ++ references) }
    else some d

theorem find?_merge (s : Scan) (archive : Path) (name : Text) (references : List Text)
    (X : Text) : (merge archive s (name, references)).graph.find? X =
      if name = X then merged archive X references (s.graph.find? X) else s.graph.find? X := by
  unfold merge
  dsimp only
  cases hfind : s.graph.find? name with
  | none =>
    dsimp only
    rw [graph_define, find?_add]
    by_cases hX : name = X
    · rw [if_pos hX, if_pos hX, ← hX, hfind]
      rfl
    · rw [if_neg hX, if_neg hX, Option.or_none]
  | some d =>
    dsimp only
    by_cases harchive : d.archive = archive
    · rw [if_pos harchive, find?_extend]
      by_cases hX : name = X
      · rw [if_pos hX, ← hX, hfind]
        simp [merged, harchive]
      · rw [if_neg hX]
        simp [Ne.symm hX]
    · rw [if_neg harchive, graph_define, find?_add]
      by_cases hX : name = X
      · rw [if_pos hX, ← hX, hfind]
        simp [merged, harchive]
      · rw [if_neg hX, if_neg hX, Option.or_none]

theorem find?_foldl_merge (s : Scan) (archive : Path) {versioned : List (Text × List Text)}
    (hnodup : (versioned.map Prod.fst).Nodup) (X : Text) :
    (versioned.foldl (merge archive) s).graph.find? X =
      match versioned.find? (·.1 = X) with
      | none => s.graph.find? X
      | some v => merged archive X v.2 (s.graph.find? X) := by
  induction versioned generalizing s with
  | nil => rfl
  | cons v versioned ih =>
    obtain ⟨name, references⟩ := v
    obtain ⟨hname, hnodup⟩ := List.nodup_cons.1 hnodup
    rw [List.foldl_cons, ih _ hnodup, find?_merge, List.find?_cons]
    -- No class is listed twice, so that the rest of the list does not touch this one again.
    by_cases hX : name = X
    · have hnone : versioned.find? (·.1 = X) = none := by
        rw [List.find?_eq_none]
        intro v hv hvX
        refine hname (List.mem_map.2 ⟨v, hv, ?_⟩)
        rw [hX]
        simpa using hvX
      rw [hnone, if_pos hX, decide_eq_true hX]
    · rw [if_neg hX, decide_eq_false hX]

end Scan

/-! ### One archive -/

/-- What the versioned members of a class name, each once. -/
def versionedReferences (found : List Found) (X : Text) : List Text :=
  Text.unique (((found.filter (·.isVersioned)).filter (·.name = X)).flatMap (·.references))

/-- What counts as references of a class among what was read of its archive: those of the first
plain member, and those of all versioned ones. -/
def counted (found : List Found) (X : Text) : List Text :=
  (((found.filter (!·.isVersioned)).find? (·.name = X)).map (·.references)).getD [] ++
    versionedReferences found X

theorem nodup_versionedClasses (found : List Found) :
    ((versionedClasses found).map Prod.fst).Nodup := by
  unfold versionedClasses
  rw [List.map_map, show Prod.fst ∘ _ = id from rfl, List.map_id]
  exact Text.nodup_unique _

theorem find?_versionedClasses (found : List Found) (X : Text) :
    (versionedClasses found).find? (·.1 = X) =
      if found.any (fun f => f.isVersioned && f.name = X) then
        some (X, versionedReferences found X)
      else none := by
  unfold versionedClasses
  dsimp only
  rw [List.find?_map]
  have hcomp : ((fun v : Text × List Text => decide (v.1 = X)) ∘ fun name =>
      (name, Text.unique (((found.filter (·.isVersioned)).filter (·.name = name)).flatMap
        (·.references)))) = fun name => decide (name = X) := rfl
  rw [hcomp]
  have hmem : X ∈ Text.unique ((found.filter (·.isVersioned)).map (·.name)) ↔
      found.any (fun f => f.isVersioned && f.name = X) = true := by
    simp [and_assoc]
  split
  · next hany =>
    have hfind : (Text.unique ((found.filter (·.isVersioned)).map (·.name))).find?
        (fun name => decide (name = X)) = some X := by
      cases hfind : (Text.unique ((found.filter (·.isVersioned)).map (·.name))).find?
          (fun name => decide (name = X)) with
      | none => simpa using List.find?_eq_none.1 hfind X (hmem.2 hany)
      | some name =>
        have hname : name = X := by simpa using List.find?_some hfind
        rw [hname]
    rw [hfind]
    rfl
  · next hany =>
    rw [Option.map_eq_none_iff, List.find?_eq_none]
    intro name hname hX
    have hX : name = X := by simpa using hX
    exact hany (hmem.1 (hX ▸ hname))

/-- What is found for a class after an archive was taken in. -/
theorem find?_addReading (s : Scan) (archive : Path) {r : Reading} (h : r.failure? = none)
    (X : Text) : (s.add archive r).graph.find? X =
      let plain := (s.graph.find? X).or (((r.found.filter (!·.isVersioned)).find? (·.name = X)).map
        fun f => ⟨X, archive, f.references⟩)
      if r.found.any (fun f => f.isVersioned && f.name = X) then
        Scan.merged archive X (versionedReferences r.found X) plain
      else plain := by
  unfold Scan.add
  rw [h]
  dsimp only
  rw [Scan.find?_foldl_merge _ _ (nodup_versionedClasses _), find?_versionedClasses,
    Scan.find?_foldl_define]
  split
  · next hnone =>
    split at hnone
    · simp at hnone
    · next hany => rw [if_neg hany]
  · next v hsome =>
    split at hsome
    · next hany =>
      obtain rfl := Option.some.inj hsome
      rw [if_pos hany]
    · simp at hsome

/-- The graph is the one of what was read, archive by archive. -/
def Represents (g : ClassGraph) (readings : List (Path × List Found)) : Prop :=
  ∀ X, match readings.find? fun r => r.2.any (·.name = X) with
    | none => g.find? X = none
    | some (archive, found) => ∃ references, g.find? X = some ⟨X, archive, references⟩ ∧
        ∀ r, r ∈ references ↔ r ∈ counted found X

theorem represents_empty : Represents empty [] := fun _ => rfl

theorem mem_versionedReferences {r : Text} : r ∈ versionedReferences found X ↔
    ∃ f ∈ found, f.isVersioned = true ∧ f.name = X ∧ r ∈ f.references := by
  unfold versionedReferences
  rw [Text.mem_unique, List.mem_flatMap]
  constructor
  · rintro ⟨f, hf, hr⟩
    rw [List.mem_filter, List.mem_filter] at hf
    exact ⟨f, hf.1.1, hf.1.2, by simpa using hf.2, hr⟩
  · rintro ⟨f, hf, hversioned, hname, hr⟩
    refine ⟨f, ?_, hr⟩
    rw [List.mem_filter, List.mem_filter]
    exact ⟨⟨hf, hversioned⟩, by simpa using hname⟩

theorem mem_counted {r : Text} : r ∈ counted found X ↔
    (∃ f, (found.filter (!·.isVersioned)).find? (·.name = X) = some f ∧ r ∈ f.references) ∨
      r ∈ versionedReferences found X := by
  unfold counted
  rw [List.mem_append]
  cases (found.filter (!·.isVersioned)).find? (·.name = X) <;> simp

theorem any_name_iff (found : List Found) (X : Text) :
    found.any (·.name = X) = (((found.filter (!·.isVersioned)).find? (·.name = X)).isSome ||
      found.any fun f => f.isVersioned && f.name = X) := by
  rw [Bool.eq_iff_iff]
  simp only [List.any_eq_true, Bool.or_eq_true, List.find?_isSome, List.mem_filter,
    Bool.and_eq_true]
  constructor
  · rintro ⟨f, hf, hname⟩
    cases hversioned : f.isVersioned with
    | false => exact Or.inl ⟨f, ⟨hf, by simp [hversioned]⟩, hname⟩
    | true => exact Or.inr ⟨f, hf, hversioned, hname⟩
  · rintro (⟨f, ⟨hf, -⟩, hname⟩ | ⟨f, hf, -, hname⟩)
    · exact ⟨f, hf, hname⟩
    · exact ⟨f, hf, hname⟩

/-- Taking in an archive keeps the representation. An archive that was read before was found to hold
the same then. -/
theorem Represents.add {readings : List (Path × List Found)} (h : Represents s.graph readings)
    {r : Reading} (hr : r.failure? = none)
    (hsame : ∀ found, (archive, found) ∈ readings → found = r.found) :
    Represents (s.add archive r).graph (readings ++ [(archive, r.found)]) := by
  intro X
  have hX := h X
  rw [List.find?_append, find?_addReading s archive hr]
  dsimp only
  cases hbefore : readings.find? (fun r => r.2.any (·.name = X)) with
  | some reading =>
    -- The class has a definition. It is extended only if the archive is the one that it is in.
    obtain ⟨owner, found⟩ := reading
    rw [hbefore] at hX
    obtain ⟨references, hfind, hreferences⟩ := hX
    rw [Option.some_or, hfind, Option.some_or]
    dsimp only
    split
    · unfold Scan.merged
      dsimp only
      split
      · next howner =>
        obtain rfl : owner = archive := howner
        obtain rfl := hsame found (List.mem_of_find?_eq_some hbefore)
        refine ⟨_, rfl, fun ref => ?_⟩
        rw [Text.mem_unique, List.mem_append, hreferences]
        exact or_iff_left_of_imp fun hversioned => mem_counted.2 (Or.inr hversioned)
      · exact ⟨references, rfl, hreferences⟩
    · exact ⟨references, rfl, hreferences⟩
  | none =>
    -- The class has no definition. It gets one if anything is found for it here.
    rw [hbefore] at hX
    dsimp only at hX
    rw [Option.none_or, hX, Option.none_or, List.find?_singleton, any_name_iff]
    cases hplain : (r.found.filter (!·.isVersioned)).find? (·.name = X) with
    | none =>
      cases r.found.any fun f => f.isVersioned && f.name = X with
      | false => rfl
      | true =>
        refine ⟨_, rfl, fun ref => ?_⟩
        rw [mem_counted, hplain]
        simp
    | some f =>
      cases hany : r.found.any fun f => f.isVersioned && f.name = X with
      | false =>
        refine ⟨_, rfl, fun ref => ?_⟩
        rw [mem_counted, hplain, mem_versionedReferences]
        have hnone : ¬ ∃ f ∈ r.found, f.isVersioned = true ∧ f.name = X ∧ ref ∈ f.references := by
          rintro ⟨f, hf, hversioned, hname, -⟩
          rw [List.any_eq_false] at hany
          exact hany f hf (by simp [hversioned, hname])
        simp [hnone]
      | true =>
        refine ⟨Text.unique (f.references ++ versionedReferences r.found X), ?_, fun ref => ?_⟩
        · simp [Scan.merged]
        · rw [mem_counted, hplain]
          simp

namespace Represents

variable {readings : List (Path × List Found)} {r : Path × List Found}

/-- A class that was found nowhere is not defined. -/
theorem find?_eq_none (hg : Represents g readings)
    (h : readings.find? (fun r => r.2.any (·.name = X)) = none) : g.find? X = none := by
  have hX := hg X
  rwa [h] at hX

/-- A class belongs to the first archive in which it was found, and refers to what counts there. -/
theorem exists_definition (hg : Represents g readings)
    (h : readings.find? (fun r => r.2.any (·.name = X)) = some r) :
    ∃ d, g.find? X = some d ∧ d.archive = r.1 ∧ ∀ ref, ref ∈ d.references ↔ ref ∈ counted r.2 X := by
  have hX := hg X
  rw [h] at hX
  obtain ⟨references, hfind, hreferences⟩ := hX
  exact ⟨_, hfind, rfl, hreferences⟩

/-- A class of the graph was found in the archive that it belongs to. -/
theorem exists_of_find? (hg : Represents g readings) {d : Definition} (h : g.find? X = some d) :
    ∃ b ∈ readings, d.archive = b.1 ∧ ∃ f ∈ b.2, f.name = X := by
  cases hfirst : readings.find? (fun r => r.2.any (·.name = X)) with
  | none => exact absurd (h.symm.trans (hg.find?_eq_none hfirst)) (Option.some_ne_none d)
  | some b =>
    obtain ⟨d', hd', harchive, -⟩ := hg.exists_definition hfirst
    obtain rfl := Option.some.inj (h.symm.trans hd')
    have hany := List.find?_some (p := fun r : Path × List Found => r.2.any (·.name = X)) hfirst
    obtain ⟨f, hf, hname⟩ := List.any_eq_true.1 hany
    exact ⟨b, List.mem_of_find?_eq_some hfirst, harchive, f, hf, by simpa using hname⟩

/-- A class that was found is one of the graph. -/
theorem exists_find? (hg : Represents g readings) (hr : r ∈ readings) {f : Found} (hf : f ∈ r.2) :
    ∃ d, g.find? f.name = some d := by
  cases hfirst : readings.find? (fun r => r.2.any (·.name = f.name)) with
  | none =>
    refine absurd ?_ (List.find?_eq_none.1 hfirst r hr)
    exact List.any_eq_true.2 ⟨f, hf, by simp⟩
  | some b =>
    obtain ⟨d, hd, -⟩ := hg.exists_definition hfirst
    exact ⟨d, hd⟩

end Represents

/-! ### All archives -/

/-- What a member that was read was found to hold. -/
def HasFound (a : OpenArchive) (m : Archive.Member × Text) (f : Found) : Prop :=
  ∃ data self references, a.read m.1 = .ok data ∧
    ClassFile.dependencies data = .ok (self, references) ∧
    f = ⟨m.2, Archive.isVersioned m.1.name, references.filter (· ≠ m.2)⟩

theorem HasFound.name_eq {a : OpenArchive} {m : Archive.Member × Text} {f : Found}
    (h : HasFound a m f) : f.name = m.2 := by
  obtain ⟨data, self, references, -, -, rfl⟩ := h
  rfl

theorem HasFound.eq {a : OpenArchive} {m : Archive.Member × Text} {f f' : Found}
    (h : HasFound a m f) (h' : HasFound a m f') : f = f' := by
  obtain ⟨data, self, references, hread, hdeps, rfl⟩ := h
  obtain ⟨data', self', references', hread', hdeps', rfl⟩ := h'
  obtain rfl : data = data' := Except.ok.inj (hread.symm.trans hread')
  obtain ⟨-, rfl⟩ := Prod.mk.inj (Except.ok.inj (hdeps.symm.trans hdeps'))
  rfl

theorem readMembers_cons {a : OpenArchive} {m : Archive.Member × Text}
    {ms : List (Archive.Member × Text)} (h : (readMembers a (m :: ms)).failure? = none) :
    ∃ f, HasFound a m f ∧ (readMembers a ms).failure? = none ∧
      (readMembers a (m :: ms)).found = f :: (readMembers a ms).found := by
  obtain ⟨m, name⟩ := m
  simp only [readMembers] at h ⊢
  cases hread : a.read m with
  | error e => simp [hread] at h
  | ok data =>
    rw [hread] at h
    dsimp only at h ⊢
    cases hdeps : ClassFile.dependencies data with
    | error e => simp [hdeps] at h
    | ok deps =>
      obtain ⟨self, references⟩ := deps
      rw [hdeps] at h
      exact ⟨_, ⟨data, self, references, hread, hdeps, rfl⟩, h, rfl⟩

theorem readMembers_append {a : OpenArchive} {before after : List (Archive.Member × Text)}
    (h : (readMembers a (before ++ after)).failure? = none) :
    (readMembers a before).failure? = none ∧ (readMembers a after).failure? = none ∧
      (readMembers a (before ++ after)).found =
        (readMembers a before).found ++ (readMembers a after).found := by
  induction before with
  | nil => exact ⟨rfl, h, rfl⟩
  | cons m before ih =>
    rw [List.cons_append] at h ⊢
    obtain ⟨f, hf, hrest, hfound⟩ := readMembers_cons h
    obtain ⟨hbefore, hafter, happend⟩ := ih hrest
    have hhead : (readMembers a (m :: before)).failure? = none ∧
        (readMembers a (m :: before)).found = f :: (readMembers a before).found := by
      obtain ⟨m, name⟩ := m
      obtain ⟨data, self, references, hread, hdeps, rfl⟩ := hf
      simp only [readMembers, hread, hdeps, hbefore, and_self]
    exact ⟨hhead.1, hafter, by rw [hfound, happend, hhead.2, List.cons_append]⟩

/-- Where no member fails, what was found is what the members hold. -/
theorem mem_found_iff {a : OpenArchive} {ms : List (Archive.Member × Text)} {f : Found}
    (h : (readMembers a ms).failure? = none) :
    f ∈ (readMembers a ms).found ↔ ∃ m ∈ ms, HasFound a m f := by
  induction ms with
  | nil => simp [readMembers]
  | cons m ms ih =>
    obtain ⟨f', hf', hrest, hfound⟩ := readMembers_cons h
    simp only [hfound, List.mem_cons, exists_eq_or_imp, ih hrest]
    constructor
    · rintro (rfl | hf)
      · exact Or.inl hf'
      · exact Or.inr hf
    · rintro (hf | hf)
      · exact Or.inl (hf.eq hf')
      · exact Or.inr hf

theorem exists_found {a : OpenArchive} {ms : List (Archive.Member × Text)}
    (h : (readMembers a ms).failure? = none) {m : Archive.Member × Text} (hm : m ∈ ms) :
    ∃ f ∈ (readMembers a ms).found, HasFound a m f := by
  induction ms with
  | nil => simp at hm
  | cons m' ms ih =>
    obtain ⟨f, hf, hrest, hfound⟩ := readMembers_cons h
    rw [hfound]
    rcases List.mem_cons.1 hm with rfl | hm
    · exact ⟨f, List.mem_cons_self, hf⟩
    · obtain ⟨f', hf', hhas⟩ := ih hrest hm
      exact ⟨f', List.mem_cons_of_mem _ hf', hhas⟩

/-- What is read of the class members of an archive. -/
def readingOf (a : OpenArchive) : Reading := readMembers a (classMembers a.archive)

theorem mem_classMembers {a : Archive} {m : Archive.Member} :
    (m, X) ∈ classMembers a ↔ m ∈ a.members ∧ Archive.unitName? m.name = some X := by
  unfold classMembers
  rw [List.mem_filterMap]
  constructor
  · rintro ⟨m', hm', h⟩
    obtain ⟨name, hname, heq⟩ := Option.map_eq_some_iff.1 h
    obtain ⟨rfl, rfl⟩ := Prod.mk.inj heq
    exact ⟨hm', hname⟩
  · rintro ⟨hm, hname⟩
    exact ⟨m, hm, by rw [hname]; rfl⟩

/-- A class is found in an archive exactly if some member there is mapped to it. -/
theorem any_found_iff {a : OpenArchive} (h : (readingOf a).failure? = none) :
    (readingOf a).found.any (·.name = X) = true ↔
      ∃ m ∈ a.archive.members, Archive.unitName? m.name = some X := by
  rw [List.any_eq_true]
  constructor
  · rintro ⟨f, hf, hname⟩
    obtain ⟨⟨m, name⟩, hm, hhas⟩ := (mem_found_iff h).1 hf
    have hX : f.name = X := by simpa using hname
    exact ⟨m, mem_classMembers.1 (hX ▸ hhas.name_eq ▸ hm)⟩
  · rintro ⟨m, hm⟩
    obtain ⟨f, hf, hhas⟩ := exists_found h (mem_classMembers.2 hm)
    exact ⟨f, hf, by simpa using hhas.name_eq⟩

/-- Every class that an archive has a member for is one of the graph. -/
theorem mem_names_of_represents {opened : List OpenArchive} {a : OpenArchive}
    {m : Archive.Member}
    (hg : Represents g (opened.map fun a => (a.path, (readingOf a).found)))
    (hfailure : ∀ a ∈ opened, (readingOf a).failure? = none) (ha : a ∈ opened)
    (hm : m ∈ a.archive.members) (hunit : Archive.unitName? m.name = some X) : X ∈ g.names := by
  obtain ⟨f, hf, hhas⟩ := exists_found (hfailure a ha) (mem_classMembers.2 ⟨hm, hunit⟩)
  obtain ⟨d, hd⟩ := hg.exists_find? (List.mem_map.2 ⟨a, ha, rfl⟩) hf
  rw [← isSome_find?_iff, ← show f.name = X from hhas.name_eq, hd]
  rfl

/-- Taking in the reading of an archive keeps `P`, which is about the graph and the readings so far.
An archive that was read before was found to hold the same then. -/
def KeptByAdd (P : ClassGraph → List (Path × List Found) → Prop) : Prop :=
  ∀ (s : Scan) (archive : Path) (r : Reading) (readings : List (Path × List Found)),
    P s.graph readings → r.failure? = none →
    (∀ found, (archive, found) ∈ readings → found = r.found) →
    P (s.add archive r).graph (readings ++ [(archive, r.found)])

/-- A scan that succeeds has opened all archives and read all their class members. What taking in an
archive keeps holds after it of the graph and of what was read. -/
theorem addArchives_induction {P : ClassGraph → List (Path × List Found) → Prop}
    (hP : KeptByAdd P) {files : FileSystem} {paths : List Path} {s s' : Scan}
    (before : List OpenArchive) (hload : ∀ a ∈ before, OpenArchive.load files a.path = .ok a)
    (h : P s.graph (before.map fun a => (a.path, (readingOf a).found)))
    (hrun : s.addArchives files paths = (s', .ok ())) :
    ∃ opened : List OpenArchive, paths.map (OpenArchive.load files) = opened.map .ok ∧
      (∀ a ∈ opened, (readingOf a).failure? = none) ∧
      P s'.graph ((before ++ opened).map fun a => (a.path, (readingOf a).found)) := by
  -- `before` grows by the archive that was read. That each of them is still what its path leads to
  -- is needed where a path comes twice: the second time the same is found as the first time.
  induction paths generalizing s before with
  | nil =>
    obtain rfl : s = s' := (Prod.ext_iff.1 hrun).1
    exact ⟨[], rfl, by simp, by simpa using h⟩
  | cons p paths ih =>
    unfold Scan.addArchives Scan.addArchive at hrun
    cases hp : OpenArchive.load files p with
    | error e => simp [hp] at hrun
    | ok a =>
      have hpath := (OpenArchive.load_eq_ok.1 hp).1
      rw [hp] at hrun
      dsimp only at hrun
      cases hfailure : (readMembers a (classMembers a.archive)).failure? with
      | some e => simp [hfailure] at hrun
      | none =>
        rw [hfailure] at hrun
        have hnext : P (s.add p (readingOf a)).graph
            (before.map (fun a => (a.path, (readingOf a).found)) ++
              [(p, (readingOf a).found)]) := hP _ _ _ _ h hfailure fun found hfound => by
          obtain ⟨b, hb, heq⟩ := List.mem_map.1 hfound
          obtain ⟨hbp, rfl⟩ := Prod.mk.inj heq
          have hab := hload b hb
          rw [hbp, hp] at hab
          rw [Except.ok.inj hab]
        rw [show [(p, (readingOf a).found)] = [a].map fun a => (a.path, (readingOf a).found) by
          simp [hpath], ← List.map_append] at hnext
        have hload' : ∀ b ∈ before ++ [a], OpenArchive.load files b.path = .ok b := by
          intro b hb
          rcases List.mem_append.1 hb with hb | hb
          · exact hload b hb
          · rw [List.mem_singleton.1 hb, hpath, hp]
        obtain ⟨opened, hopened, hfailures, hrep⟩ := ih (before ++ [a]) hload' hnext hrun
        refine ⟨a :: opened, by rw [List.map_cons, List.map_cons, hp, hopened], ?_, ?_⟩
        · intro b hb
          rcases List.mem_cons.1 hb with rfl | hb
          · exact hfailure
          · exact hfailures b hb
        · rwa [List.append_assoc, List.singleton_append] at hrep

/-- The same of the graph of archives, if there is one. -/
theorem ofArchives_induction {P : ClassGraph → List (Path × List Found) → Prop}
    (hempty : P empty []) (hP : KeptByAdd P) {files : FileSystem} {paths : List Path}
    (h : (ofArchives files paths).outcome.1 = .ok g) :
    ∃ opened : List OpenArchive, paths.map (OpenArchive.load files) = opened.map .ok ∧
      (∀ a ∈ opened, (readingOf a).failure? = none) ∧
      P g (opened.map fun a => (a.path, (readingOf a).found)) := by
  unfold ofArchives at h
  cases hrun : Scan.start.addArchives files paths with
  | mk s result =>
    rw [hrun] at h
    dsimp only at h
    have hlast : Traced.Blind (do Traced.report s.finished; return s.graph : Traced ClassGraph) :=
      .bind (.report _) fun _ => .pure _
    obtain ⟨_, -, h⟩ := (Traced.outcome_bind_eq_ok fun _ => .bind (.lift result) fun _ => hlast).1 h
    obtain ⟨_, hresult, h⟩ := (Traced.outcome_bind_eq_ok fun _ => hlast).1 h
    obtain rfl : result = .ok () := hresult
    obtain rfl : s.graph = g := Except.ok.inj h
    exact addArchives_induction hP [] (by simp) hempty hrun

/-- The graph of archives, if there is one, is that of their class members. -/
theorem represents_of_ofArchives {files : FileSystem} {paths : List Path}
    (h : (ofArchives files paths).outcome.1 = .ok g) :
    ∃ opened : List OpenArchive, paths.map (OpenArchive.load files) = opened.map .ok ∧
      (∀ a ∈ opened, (readingOf a).failure? = none) ∧
      Represents g (opened.map fun a => (a.path, (readingOf a).found)) :=
  ofArchives_induction represents_empty (fun _ _ _ _ hrep hr hsame => hrep.add hr hsame) h

theorem addArchives_eq_ok {files : FileSystem} {paths : List Path} {opened : List OpenArchive}
    (h : paths.map (OpenArchive.load files) = opened.map .ok)
    (hfailure : ∀ a ∈ opened, (readingOf a).failure? = none) (s : Scan) :
    (s.addArchives files paths).2 = .ok () := by
  induction paths generalizing opened s with
  | nil => rfl
  | cons p paths ih =>
    obtain ⟨a, opened, rfl⟩ := List.exists_cons_of_length_pos (l := opened) (by
      have hlength := congrArg List.length h
      rw [List.length_map, List.length_map, List.length_cons] at hlength
      omega)
    obtain ⟨hload, h⟩ := List.cons.inj h
    obtain ⟨hread, hfailure⟩ := List.forall_mem_cons.1 hfailure
    unfold Scan.addArchives Scan.addArchive
    rw [hload]
    dsimp only
    rw [show (readMembers a (classMembers a.archive)).failure? = none from hread]
    exact ih h hfailure _

/-- Archives that can be opened and whose class members can be read have a graph. -/
theorem exists_ofArchives {files : FileSystem} {paths : List Path} {opened : List OpenArchive}
    (h : paths.map (OpenArchive.load files) = opened.map .ok)
    (hfailure : ∀ a ∈ opened, (readingOf a).failure? = none) :
    ∃ g, (ofArchives files paths).outcome.1 = .ok g := by
  have hrun := addArchives_eq_ok h hfailure Scan.start
  unfold ofArchives
  dsimp only
  rw [hrun]
  exact ⟨_, rfl⟩

end Jarsmith.ClassGraph
