import Mathlib.Data.List.Find
import Mathlib.Data.List.Forall2
import Mathlib.Data.List.Nodup
import Jarsmith.Proofs.ClassGraph.Duplicate
import Jarsmith.Proofs.ClassGraph.Loading
import Jarsmith.Proofs.Result

/-!
# The graph of archives, member by member

`Represents` tells the graph by what was read. Here it is told by the members of the archives: which
classes there are, where each of them belongs, what it refers to, and how often each archive is
recorded for defining a class too late (`ofArchives_definitions`).

The records are counted along the scan. Where the archive is a new one, a class that has a
definition is recorded once for each plain member and once for all versioned members; a class that
has none is defined by the first of the plain members, and the versioned ones are merged into it
(`count_duplicates_addReading`).
-/

namespace Jarsmith

namespace ClassGraph

variable {g : ClassGraph} {X : Text} {archive p : Path} {s : Scan} {found : List Found}
  {readings : List (Path × List Found)}

/-! ### How often a class is recorded -/

/-- The definitions of a class in an archive that come too late: all of them if the class is defined
before, where the versioned members are one definition, and else the plain members but the first. -/
def tooLate (isDefined : Bool) (plain : Nat) (hasVersioned : Bool) : Nat :=
  if isDefined then plain + hasVersioned.toNat else plain - 1

theorem count_duplicates_add (g : ClassGraph) (d : Definition) (X : Text) (p : Path) :
    (g.add d).duplicates.count (X, p) = g.duplicates.count (X, p) +
      if d.name = X ∧ d.archive = p ∧ (g.find? X).isSome then 1 else 0 := by
  unfold add
  split
  · next hdefines =>
    rw [defines_iff, ← isSome_find?_iff] at hdefines
    rw [List.count_append, List.count_singleton]
    congr 1
    refine if_congr ?_ rfl rfl
    rw [beq_iff_eq, Prod.mk.injEq]
    constructor
    · rintro ⟨rfl, rfl⟩
      exact ⟨rfl, rfl, hdefines⟩
    · exact fun h => ⟨h.1, h.2.1⟩
  · next hdefines =>
    rw [defines_iff, ← isSome_find?_iff] at hdefines
    rw [if_neg]
    · rfl
    · rintro ⟨rfl, -, hsome⟩
      exact hdefines hsome

namespace Scan

/-- Where plain definitions are added, all of a class are recorded but for one, and that one too if
the class is defined before. -/
theorem count_duplicates_foldl_define (s : Scan) (archive : Path) (found : List Found) (X : Text)
    (p : Path) :
    (found.foldl (fun s f => s.define ⟨f.name, archive, f.references⟩) s).graph.duplicates.count
        (X, p) = s.graph.duplicates.count (X, p) +
      if archive = p then
        tooLate (s.graph.find? X).isSome (found.countP (·.name = X)) false
      else 0 := by
  induction found generalizing s with
  | nil => simp [tooLate]
  | cons f found ih =>
    rw [List.foldl_cons, ih, graph_define, count_duplicates_add, find?_add, List.countP_cons,
      Nat.add_assoc]
    congr 1
    by_cases harchive : archive = p
    · by_cases hX : f.name = X
      · cases hsome : (s.graph.find? X).isSome <;> simp [tooLate, hX, harchive]
        omega
      · simp [tooLate, hX, harchive]
    · simp [harchive]

/-- The class belongs to another archive. -/
def isElsewhere (s : Scan) (archive : Path) (X : Text) : Bool :=
  (s.graph.find? X).any fun d => d.archive ≠ archive

theorem count_duplicates_merge (s : Scan) (archive : Path) (name : Text) (references : List Text)
    (X : Text) (p : Path) :
    (merge archive s (name, references)).graph.duplicates.count (X, p) =
      s.graph.duplicates.count (X, p) +
        if name = X ∧ archive = p ∧ s.isElsewhere archive X then 1 else 0 := by
  unfold merge isElsewhere
  dsimp only
  cases hfind : s.graph.find? name with
  | none =>
    dsimp only
    rw [graph_define, count_duplicates_add]
    by_cases hX : name = X
    · simp [← hX, hfind]
    · simp [hX]
  | some d =>
    dsimp only
    by_cases harchive : d.archive = archive
    · rw [if_pos harchive]
      by_cases hX : name = X
      · simp [← hX, hfind, harchive, extend]
      · simp [hX, extend]
    · rw [if_neg harchive, graph_define, count_duplicates_add]
      by_cases hX : name = X
      · simp [← hX, hfind, harchive]
      · simp [hX]

/-- Where the classes of versioned members are merged, those are recorded that belong to another
archive. -/
theorem count_duplicates_foldl_merge (s : Scan) (archive : Path)
    {versioned : List (Text × List Text)} (hnodup : (versioned.map Prod.fst).Nodup) (X : Text)
    (p : Path) :
    (versioned.foldl (merge archive) s).graph.duplicates.count (X, p) =
      s.graph.duplicates.count (X, p) +
        if X ∈ versioned.map Prod.fst ∧ archive = p ∧ s.isElsewhere archive X then 1 else 0 := by
  induction versioned generalizing s with
  | nil => simp
  | cons v versioned ih =>
    obtain ⟨name, references⟩ := v
    obtain ⟨hname, hnodup⟩ := List.nodup_cons.1 hnodup
    rw [List.foldl_cons, ih _ hnodup, count_duplicates_merge, Nat.add_assoc]
    congr 1
    by_cases hX : name = X
    · -- no other of the classes that follow is this one
      have hnone : X ∉ versioned.map Prod.fst := hX ▸ hname
      simp [hX, hnone]
    · have hsame : (merge archive s (name, references)).isElsewhere archive X =
          s.isElsewhere archive X := by
        unfold isElsewhere
        rw [find?_merge, if_neg hX]
      rw [if_neg fun h => hX h.1, Nat.zero_add]
      refine if_congr ?_ rfl rfl
      rw [hsame, List.map_cons, List.mem_cons, or_iff_right (Ne.symm hX)]

end Scan

/-- Where an archive is taken in to which no class belongs yet, what comes too late is recorded. -/
theorem count_duplicates_addReading {r : Reading} (h : r.failure? = none)
    (hnew : ∀ d, s.graph.find? X = some d → d.archive ≠ archive) (p : Path) :
    (s.add archive r).graph.duplicates.count (X, p) = s.graph.duplicates.count (X, p) +
      if archive = p then
        tooLate (s.graph.find? X).isSome
          ((r.found.filter (!·.isVersioned)).countP (·.name = X))
          (r.found.any fun f => f.isVersioned && f.name = X)
      else 0 := by
  unfold Scan.add
  rw [h]
  dsimp only
  rw [Scan.count_duplicates_foldl_merge _ _ (nodup_versionedClasses _),
    Scan.count_duplicates_foldl_define, Nat.add_assoc]
  congr 1
  have hversioned : X ∈ (versionedClasses r.found).map Prod.fst ↔
      (r.found.any fun f => f.isVersioned && f.name = X) = true := by
    rw [mem_versionedClasses]
    simp
  simp only [hversioned]
  unfold Scan.isElsewhere
  rw [Scan.find?_foldl_define]
  dsimp only
  cases hfind : s.graph.find? X with
  | none =>
    -- a plain member may define the class, but then it belongs to this archive
    have helsewhere : ∀ first : Option Found,
        (first.map fun f => (⟨X, archive, f.references⟩ : Definition)).any
          (fun d => d.archive ≠ archive) = false := by
      intro first
      cases first <;> simp
    rw [Option.none_or, helsewhere]
    simp [tooLate]
  | some d =>
    have hne := hnew d hfind
    rw [Option.some_or]
    by_cases harchive : archive = p
    · subst harchive
      cases r.found.any fun f => f.isVersioned && f.name = X <;> simp [tooLate, hne]
    · simp [harchive]

/-! ### No class is defined twice -/

theorem names_add (g : ClassGraph) (d : Definition) :
    (g.add d).names = if g.defines d.name then g.names else g.names ++ [d.name] := by
  unfold add
  split
  · rfl
  · exact List.map_append

theorem nodup_names_add (h : g.names.Nodup) (d : Definition) : (g.add d).names.Nodup := by
  rw [names_add]
  split
  · exact h
  · next hdefines =>
    rw [defines_iff] at hdefines
    exact List.nodup_append.2 ⟨h, List.nodup_singleton _, fun X hX Y hY heq =>
      hdefines (List.mem_singleton.1 hY ▸ heq ▸ hX)⟩

theorem names_extend (g : ClassGraph) (name : Text) (references : List Text) :
    (g.extend name references).names = g.names := by
  unfold extend names
  rw [List.map_map]
  refine List.map_congr_left fun d _ => ?_
  dsimp only [Function.comp_apply]
  split <;> rfl

theorem Scan.nodup_names_merge {v : Text × List Text} (h : s.graph.names.Nodup) :
    (merge archive s v).graph.names.Nodup := by
  obtain ⟨name, references⟩ := v
  unfold merge
  dsimp only
  split
  · split
    · rw [names_extend]
      exact h
    · exact nodup_names_add h _
  · exact nodup_names_add h _

/-- Taking in an archive gives no class a second definition. -/
theorem nodup_names_addReading {r : Reading} (h : s.graph.names.Nodup) :
    (s.add archive r).graph.names.Nodup := by
  have hplain (found : List Found) : ∀ s : Scan, s.graph.names.Nodup →
      (found.foldl (fun s f => s.define ⟨f.name, archive, f.references⟩) s).graph.names.Nodup := by
    induction found with
    | nil => exact fun _ h => h
    | cons f found ih => exact fun s h => ih _ (nodup_names_add h _)
  have hversioned (versioned : List (Text × List Text)) : ∀ s : Scan, s.graph.names.Nodup →
      (versioned.foldl (Scan.merge archive) s).graph.names.Nodup := by
    induction versioned with
    | nil => exact fun _ h => h
    | cons v versioned ih => exact fun s h => ih _ (Scan.nodup_names_merge h)
  unfold Scan.add
  dsimp only
  split
  · exact hplain _ _ h
  · exact hversioned _ _ (hplain _ _ h)

/-! ### What was recorded after a scan -/

/-- The records are those of the definitions that come too late, archive by archive. -/
structure Records (g : ClassGraph) (readings : List (Path × List Found)) : Prop where
  count : ∀ before b after, readings = before ++ b :: after → ∀ X,
    g.duplicates.count (X, b.1) = tooLate (before.any fun r => r.2.any (·.name = X))
      ((b.2.filter (!·.isVersioned)).countP (·.name = X))
      (b.2.any fun f => f.isVersioned && f.name = X)
  known : ∀ d ∈ g.duplicates, d.2 ∈ readings.map Prod.fst

/-- A class has a definition exactly if it was found somewhere. -/
theorem Represents.isSome_find? (hg : Represents g readings) :
    (g.find? X).isSome = readings.any fun r => r.2.any (·.name = X) := by
  rw [Bool.eq_iff_iff, List.any_eq_true, ← List.find?_isSome]
  cases hfirst : readings.find? (fun r => r.2.any (·.name = X)) with
  | none =>
    rw [hg.find?_eq_none hfirst]
    rfl
  | some b =>
    obtain ⟨d, hd, -⟩ := hg.exists_definition hfirst
    rw [hd]
    rfl

/-- Taking in a new archive records what comes too late there. -/
theorem Records.add {r : Reading} (hrecords : Records s.graph readings)
    (hg : Represents s.graph readings) (hr : r.failure? = none)
    (hnew : archive ∉ readings.map Prod.fst) :
    Records (s.add archive r).graph (readings ++ [(archive, r.found)]) := by
  have hcount (X : Text) (p : Path) := count_duplicates_addReading (X := X) hr (fun d hd heq => by
    obtain ⟨b, hb, howner, -⟩ := hg.exists_of_find? hd
    exact hnew (List.mem_map.2 ⟨b, hb, howner.symm.trans heq⟩)) p
  have hknown : ∀ d ∈ (s.add archive r).graph.duplicates,
      d.2 ∈ (readings ++ [(archive, r.found)]).map Prod.fst := by
    rintro ⟨X, p⟩ hd
    rw [List.map_append, List.mem_append]
    by_cases hp : archive = p
    · exact .inr (List.mem_singleton.2 hp.symm)
    · have hpos := List.count_pos_iff.2 hd
      rw [hcount, if_neg hp, Nat.add_zero] at hpos
      exact .inl (hrecords.known _ (List.count_pos_iff.1 hpos))
  refine ⟨fun before b after hsplit X => ?_, hknown⟩
  rw [hcount]
  rcases List.eq_nil_or_concat after with rfl | ⟨after, last, rfl⟩
  · -- the new archive: nothing was recorded for it before
    obtain ⟨rfl, hb⟩ := List.append_inj' hsplit rfl
    obtain rfl : (archive, r.found) = b := List.singleton_inj.1 hb
    have hzero : s.graph.duplicates.count (X, archive) = 0 :=
      List.count_eq_zero.2 fun hd => hnew (hrecords.known _ hd)
    rw [if_pos rfl, hzero, Nat.zero_add, hg.isSome_find?]
  · -- an archive before it: nothing is recorded for it now
    have hreadings : readings = before ++ b :: after := by
      rw [List.concat_eq_append, ← List.cons_append, ← List.append_assoc] at hsplit
      exact (List.append_inj' hsplit rfl).1
    have hne : archive ≠ b.1 := by
      rintro rfl
      exact hnew (List.mem_map.2 ⟨b, by simp [hreadings], rfl⟩)
    rw [if_neg hne, Nat.add_zero, hrecords.count before b after hreadings]

/-- Archives that were opened stand where they were looked for. -/
theorem paths_of_load {files : FileSystem} {paths : List Path} {opened : List OpenArchive}
    (h : paths.map (OpenArchive.load files) = opened.map .ok) : opened.map (·.path) = paths := by
  induction paths generalizing opened with
  | nil => rw [List.map_eq_nil_iff.1 h.symm, List.map_nil]
  | cons path paths ih =>
    obtain ⟨a, opened, rfl, ha, hopened⟩ := List.map_eq_cons_iff.1 h.symm
    rw [List.map_cons, (OpenArchive.load_eq_ok.1 ha.symm).1, ih hopened.symm]

/-- The graph of archives in distinct places has each class once, and the records of the definitions
that come too late. -/
theorem exists_records {files : FileSystem} {paths : List Path} (hpaths : paths.Nodup)
    (h : (ofArchives files paths).outcome.1 = .ok g) :
    ∃ opened : List OpenArchive, paths.map (OpenArchive.load files) = opened.map .ok ∧
      (∀ a ∈ opened, (readingOf a).failure? = none) ∧
      Represents g (opened.map fun a => (a.path, (readingOf a).found)) ∧ g.names.Nodup ∧
      Records g (opened.map fun a => (a.path, (readingOf a).found)) := by
  let P (g : ClassGraph) (readings : List (Path × List Found)) : Prop :=
    Represents g readings ∧ g.names.Nodup ∧ ((readings.map Prod.fst).Nodup → Records g readings)
  have hempty : P empty [] := by
    refine ⟨represents_empty, List.nodup_nil, fun _ => ⟨fun before b after hsplit => ?_, ?_⟩⟩
    · simp at hsplit
    · simp [empty]
  have hadd : KeptByAdd P := by
    intro s archive r readings ⟨hg, hnames, hrecords⟩ hr hsame
    refine ⟨hg.add hr hsame, nodup_names_addReading hnames, fun hnodup => ?_⟩
    rw [List.map_append] at hnodup
    obtain ⟨hreadings, -, hdisjoint⟩ := List.nodup_append.1 hnodup
    exact (hrecords hreadings).add hg hr fun harchive =>
      hdisjoint archive harchive archive (List.mem_singleton_self _) rfl
  obtain ⟨opened, hopened, hfailure, hg, hnames, hrecords⟩ := ofArchives_induction hempty hadd h
  refine ⟨opened, hopened, hfailure, hg, hnames, hrecords ?_⟩
  rw [List.map_map]
  exact (paths_of_load hopened).symm ▸ hpaths

end ClassGraph

/-! ### The members for a class -/

namespace OpenArchive

/-- Some member of the archive defines the class. -/
def defines (a : OpenArchive) (X : Text) : Bool :=
  a.archive.members.any fun m => Archive.unitName? m.name = some X

/-- The members of an archive that define a class, in order. -/
def units (a : OpenArchive) (X : Text) : List Archive.Member :=
  a.archive.members.filter fun m => Archive.unitName? m.name = some X

/-- The plain members of an archive for a class. -/
def plainUnits (a : OpenArchive) (X : Text) : List Archive.Member :=
  (a.units X).filter fun m => !Archive.isVersioned m.name

/-- The versioned members of an archive for a class. -/
def versionedUnits (a : OpenArchive) (X : Text) : List Archive.Member :=
  (a.units X).filter fun m => Archive.isVersioned m.name

/-- The members that make up one definition of a class: the first plain one, and the versioned
ones. -/
def definingUnits (a : OpenArchive) (X : Text) : List Archive.Member :=
  (a.plainUnits X).head?.toList ++ a.versionedUnits X

/-- The class file in a member refers to these classes. -/
def RefersTo (a : OpenArchive) (m : Archive.Member) (references : List Text) : Prop :=
  ∃ data self, a.read m = .ok data ∧ ClassFile.dependencies data = .ok (self, references)

end OpenArchive

namespace ClassGraph

variable {g : ClassGraph} {X r : Text} {a : OpenArchive}

theorem forall₂_hasFound {ms : List (Archive.Member × Text)}
    (h : (readMembers a ms).failure? = none) :
    List.Forall₂ (HasFound a) ms (readMembers a ms).found := by
  induction ms with
  | nil => exact .nil
  | cons m ms ih =>
    obtain ⟨f, hf, hrest, hfound⟩ := readMembers_cons h
    rw [hfound]
    exact .cons hf (ih hrest)

theorem filter_classMembers (a : OpenArchive) (X : Text) :
    (classMembers a.archive).filter (fun m => m.2 = X) = (a.units X).map (·, X) := by
  unfold classMembers OpenArchive.units
  induction a.archive.members with
  | nil => rfl
  | cons m ms ih =>
    rw [List.filterMap_cons, List.filter_cons]
    cases hunit : Archive.unitName? m.name with
    | none => simpa using ih
    | some Y =>
      by_cases hX : Y = X
      · simpa [hX] using ih
      · simpa [hX] using ih

/-- What was found for a class is what its members hold, one by one. -/
theorem forall₂_units (h : (readingOf a).failure? = none) (X : Text) :
    List.Forall₂ (fun m f => HasFound a (m, X) f) (a.units X)
      ((readingOf a).found.filter (·.name = X)) := by
  have hall := List.rel_filter (p := fun m => m.2 = X) (q := fun f : Found => f.name = X)
    (fun m f hf => by simp [hf.name_eq]) (forall₂_hasFound h)
  rwa [filter_classMembers, List.forall₂_map_left_iff] at hall

theorem forall₂_plainUnits (h : (readingOf a).failure? = none) (X : Text) :
    List.Forall₂ (fun m f => HasFound a (m, X) f) (a.plainUnits X)
      (((readingOf a).found.filter (!·.isVersioned)).filter (·.name = X)) := by
  rw [List.filter_comm]
  exact List.rel_filter (fun m f hf => by simp [hf.isVersioned_eq]) (forall₂_units h X)

theorem forall₂_versionedUnits (h : (readingOf a).failure? = none) (X : Text) :
    List.Forall₂ (fun m f => HasFound a (m, X) f) (a.versionedUnits X)
      (((readingOf a).found.filter (·.name = X)).filter (·.isVersioned)) :=
  List.rel_filter (fun m f hf => by simp [hf.isVersioned_eq]) (forall₂_units h X)

theorem countP_plain (h : (readingOf a).failure? = none) (X : Text) :
    ((readingOf a).found.filter (!·.isVersioned)).countP (·.name = X) =
      (a.plainUnits X).length := by
  rw [List.countP_eq_length_filter, (forall₂_plainUnits h X).length_eq]

theorem any_versioned (h : (readingOf a).failure? = none) (X : Text) :
    ((readingOf a).found.any fun f => f.isVersioned && f.name = X) =
      !(a.versionedUnits X).isEmpty := by
  have hlength := (forall₂_versionedUnits h X).length_eq
  rw [Bool.eq_iff_iff, Bool.not_eq_true', List.isEmpty_eq_false_iff, ← List.length_pos_iff, hlength,
    List.length_pos_iff_exists_mem, List.any_eq_true]
  simp [and_assoc, and_comm]

theorem any_found (h : (readingOf a).failure? = none) (X : Text) :
    (readingOf a).found.any (·.name = X) = a.defines X := by
  rw [Bool.eq_iff_iff, any_found_iff h]
  simp [OpenArchive.defines]

theorem HasFound.exists_refersTo {m : Archive.Member} {f : Found} (h : HasFound a (m, X) f) :
    ∃ references, a.RefersTo m references := by
  obtain ⟨data, self, references, hread, hdeps, -⟩ := h
  exact ⟨references, data, self, hread, hdeps⟩

/-- What is found in a member is what it refers to, but for the class itself. -/
theorem HasFound.mem_references_iff {m : Archive.Member} {f : Found} (h : HasFound a (m, X) f) :
    r ∈ f.references ↔ r ≠ X ∧ ∃ references, a.RefersTo m references ∧ r ∈ references := by
  obtain ⟨data, self, references, hread, hdeps, rfl⟩ := h
  rw [List.mem_filter, decide_eq_true_eq, and_comm]
  refine and_congr_right fun _ => ⟨fun hr => ⟨references, ⟨data, self, hread, hdeps⟩, hr⟩, ?_⟩
  rintro ⟨references', ⟨data', self', hread', hdeps'⟩, hr⟩
  obtain rfl : data = data' := Except.ok.inj (hread.symm.trans hread')
  obtain ⟨-, rfl⟩ := Prod.mk.inj (Except.ok.inj (hdeps.symm.trans hdeps'))
  exact hr

theorem exists_references_iff {ms : List Archive.Member} {found : List Found}
    (h : List.Forall₂ (fun m f => HasFound a (m, X) f) ms found) :
    (∃ f ∈ found, r ∈ f.references) ↔
      r ≠ X ∧ ∃ m ∈ ms, ∃ references, a.RefersTo m references ∧ r ∈ references := by
  induction h with
  | nil => simp
  | cons hf _ ih =>
    simp only [List.mem_cons, exists_eq_or_imp, ih, hf.mem_references_iff, and_or_left]

theorem forall₂_head {R : Archive.Member → Found → Prop} {ms : List Archive.Member}
    {found : List Found} (h : List.Forall₂ R ms found) :
    List.Forall₂ R ms.head?.toList found.head?.toList := by
  cases h with
  | nil => exact .nil
  | cons hf _ => exact .cons hf .nil

/-- The findings for the defining members. -/
theorem forall₂_definingUnits (h : (readingOf a).failure? = none) (X : Text) :
    List.Forall₂ (fun m f => HasFound a (m, X) f) (a.definingUnits X)
      ((((readingOf a).found.filter (!·.isVersioned)).find? (·.name = X)).toList ++
        ((readingOf a).found.filter (·.name = X)).filter (·.isVersioned)) := by
  refine List.rel_append ?_ (forall₂_versionedUnits h X)
  rw [← List.head?_filter]
  exact forall₂_head (forall₂_plainUnits h X)

/-- What counts as references of a class is what its defining members refer to. -/
theorem mem_counted_iff (h : (readingOf a).failure? = none) : r ∈ counted (readingOf a).found X ↔
    r ≠ X ∧ ∃ m ∈ a.definingUnits X, ∃ references, a.RefersTo m references ∧ r ∈ references := by
  have hcounted : r ∈ counted (readingOf a).found X ↔
      ∃ f ∈ (((readingOf a).found.filter (!·.isVersioned)).find? (·.name = X)).toList ++
        ((readingOf a).found.filter (·.name = X)).filter (·.isVersioned), r ∈ f.references := by
    rw [mem_counted, mem_versionedReferences]
    simp only [List.mem_append, Option.mem_toList, List.mem_filter, decide_eq_true_eq,
      or_and_right, exists_or, and_assoc, and_left_comm]
  rw [hcounted, exists_references_iff (forall₂_definingUnits h X)]

/-- **The graph of archives, member by member.** A class is one of the graph if some archive has a
member for it, and it belongs to the first such archive. It refers to what the first plain member
and the versioned members there refer to, but for itself. All further definitions are recorded, each
with its archive, and nothing else is. -/
theorem ofArchives_definitions {files : FileSystem} {paths : List Path} (hpaths : paths.Nodup)
    (h : (ofArchives files paths).outcome.1 = .ok g) :
    ∃ opened : List OpenArchive, paths.map (OpenArchive.load files) = opened.map .ok ∧
      g.names.Nodup ∧ (∀ X, X ∈ g.names ↔ ∃ a ∈ opened, a.defines X = true) ∧
      (∀ X d, g.find? X = some d → ∃ a, opened.find? (·.defines X) = some a ∧ d.archive = a.path ∧
        (∀ m ∈ a.definingUnits X, ∃ references, a.RefersTo m references) ∧
        ∀ r, r ∈ d.references ↔ r ≠ X ∧
          ∃ m ∈ a.definingUnits X, ∃ references, a.RefersTo m references ∧ r ∈ references) ∧
      (∀ before a after, opened = before ++ a :: after → ∀ X,
        g.duplicates.count (X, a.path) = tooLate (before.any (·.defines X))
          (a.plainUnits X).length (!(a.versionedUnits X).isEmpty)) ∧
      ∀ d ∈ g.duplicates, d.2 ∈ paths := by
  obtain ⟨opened, hopened, hfailure, hg, hnames, hrecords⟩ := exists_records hpaths h
  have hfound (X : Text) (a : OpenArchive) (ha : a ∈ opened) :
      (readingOf a).found.any (·.name = X) = a.defines X := any_found (hfailure a ha) X
  have hany (X : Text) (as : List OpenArchive) (has : ∀ a ∈ as, a ∈ opened) :
      (as.map fun a => (a.path, (readingOf a).found)).any (fun r => r.2.any (·.name = X)) =
        as.any (·.defines X) := by
    rw [List.any_map, Bool.eq_iff_iff, List.any_eq_true, List.any_eq_true]
    exact exists_congr fun a => and_congr_right fun ha => by
      rw [Function.comp_apply, hfound X a (has a ha)]
  refine ⟨opened, hopened, hnames, fun X => ?_, fun X d hd => ?_, fun before a after hsplit X => ?_,
    fun d hd => ?_⟩
  · rw [← isSome_find?_iff, hg.isSome_find?, hany X opened fun _ h => h, List.any_eq_true]
  · have hfirst : (opened.map fun a => (a.path, (readingOf a).found)).find?
        (fun r => r.2.any (·.name = X)) =
          (opened.find? (·.defines X)).map fun a => (a.path, (readingOf a).found) := by
      rw [List.find?_map]
      exact congrArg _ (List.find?_congr fun a ha => hfound X a ha)
    cases hfind : opened.find? (·.defines X) with
    | none =>
      rw [hfind] at hfirst
      exact absurd (hd.symm.trans (hg.find?_eq_none hfirst)) (Option.some_ne_none d)
    | some a =>
      rw [hfind] at hfirst
      have ha := hfailure a (List.mem_of_find?_eq_some hfind)
      obtain ⟨d', hd', harchive, hreferences⟩ := hg.exists_definition hfirst
      obtain rfl := Option.some.inj (hd.symm.trans hd')
      refine ⟨a, rfl, harchive, ?_, fun r => (hreferences r).trans (mem_counted_iff ha)⟩
      have hunits := (forall₂_definingUnits ha X).imp fun m f hf => And.intro hf.exists_refersTo hf
      exact ((List.forall₂_and_left _ _).1 hunits).1
  · have ha : a ∈ opened := by simp [hsplit]
    have hreadings := congrArg (List.map fun a => (a.path, (readingOf a).found)) hsplit
    rw [List.map_append, List.map_cons] at hreadings
    have hbefore := hany X before fun b hb => hsplit ▸ List.mem_append_left _ hb
    rw [hrecords.count _ _ _ hreadings, hbefore, countP_plain (hfailure a ha),
      any_versioned (hfailure a ha)]
  · have hknown := hrecords.known d hd
    rw [List.map_map] at hknown
    exact paths_of_load hopened ▸ hknown

/-- An archive with two plain members and an override for `X`, and one with a plain member and two
overrides. -/
def Sample.repeated : FileSystem :=
  let override (v : Text) : Text := "META-INF/versions/" ++ v ++ "/X.class"
  Jarsmith.Sample.files
    (Archive.encode [
      Jarsmith.Sample.member (override "9") (Jarsmith.Sample.classFile "X" ["V"]),
      Jarsmith.Sample.member "X.class" (Jarsmith.Sample.classFile "X" ["Y"]),
      Jarsmith.Sample.member "X.class" (Jarsmith.Sample.classFile "X" ["Z"])])
    (Archive.encode [
      Jarsmith.Sample.member (override "9") (Jarsmith.Sample.classFile "X" []),
      Jarsmith.Sample.member (override "11") (Jarsmith.Sample.classFile "X" []),
      Jarsmith.Sample.member "X.class" (Jarsmith.Sample.classFile "X" [])])

/-- The second plain member of the first archive comes too late, and so do the plain member and the
overrides of the second one. -/
theorem ofArchives_definitions_of_repeated : ∃ g,
    (ofArchives Sample.repeated ["/a", "/b"]).outcome.1 = .ok g ∧
      g.duplicates.count (("X" : Text), ("/a" : Path)) = 1 ∧
        g.duplicates.count (("X" : Text), ("/b" : Path)) = 2 := by
  have hpaths : (["/a", "/b"] : List Path).Nodup := by decide
  have hfacts : (openAll Sample.repeated ["/a", "/b"]).map (fun a => (a.path, a.defines "X",
      (a.plainUnits "X").length, (a.versionedUnits "X").isEmpty)) =
        [(("/a" : Path), true, 2, false), (("/b" : Path), true, 1, false)] := by decide +kernel
  have hsome : (ofArchives Sample.repeated ["/a", "/b"]).outcome.1.toOption.isSome = true := by
    decide +kernel
  obtain ⟨g, hg⟩ := Option.isSome_iff_exists.1 hsome
  have hg := Except.toOption_eq_some.1 hg
  obtain ⟨opened, hopened, -, -, -, hcount, -⟩ := ofArchives_definitions hpaths hg
  rw [openAll_eq hopened] at hfacts
  obtain ⟨a, rest, rfl, ha, hrest⟩ := List.map_eq_cons_iff.1 hfacts
  obtain ⟨b, rest, rfl, hb, hnil⟩ := List.map_eq_cons_iff.1 hrest
  obtain rfl := List.map_eq_nil_iff.1 hnil
  simp only [Prod.mk.injEq] at ha hb
  obtain ⟨ha, hadefines, haplain, haversioned⟩ := ha
  obtain ⟨hb, -, hbplain, hbversioned⟩ := hb
  -- what the general theorem says of the two archives
  have hfirst := hcount [] a [b] rfl "X"
  have hsecond := hcount [a] b [] rfl "X"
  rw [ha, haplain, haversioned] at hfirst
  rw [hb, hbplain, hbversioned, List.any_cons, hadefines] at hsecond
  exact ⟨g, hg, hfirst, hsecond⟩

end ClassGraph

end Jarsmith
