import Mathlib.Data.List.Basic
import Jarsmith.Archive.Encode
import Jarsmith.Proofs.Archive.UnitName
import Jarsmith.Proofs.ClassGraph.Scan
import Jarsmith.Proofs.Retention

/-!
# What a class loader needs

A class loader for version `v` of the platform looks for a class in one archive after another. In
the first one that has it for this version it takes the override for the highest version up to `v`,
and the plain member if there is none (`loaded?`).

The graph knows one definition of a class, that of the first archive with any member for it. If the
loader finds one that is counted there (`Counted`), everything that it refers to is kept with the
class: `references_kept`. It need not be: an archive that has the class only for a later version
hides the definition that the loader takes from a later archive (`references_may_be_lost`).
-/

namespace Jarsmith

namespace OpenArchive

variable {a : OpenArchive} {m : Archive.Member} {X : Text} {v : Nat}

/-- The override of a class for the highest version from 9 up to `v`. -/
def override? (a : OpenArchive) (X : Text) : (v : Nat) → Option Archive.Member
  | 0 => none
  | v + 1 =>
    if 9 ≤ v + 1 then (a.member? (Archive.overrideName (v + 1) X)).or (a.override? X v) else none

/-- The plain member of a class. -/
def plain? (a : OpenArchive) (X : Text) : Option Archive.Member :=
  if Archive.isVersioned (Archive.plainName X) then none else a.member? (Archive.plainName X)

/-- The member that defines a class for version `v`. No class has a slash in its name. -/
def definition? (a : OpenArchive) (v : Nat) (X : Text) : Option Archive.Member :=
  if 0x2F ∈ X then none else (a.override? X v).or (a.plain? X)

theorem member?_eq_some {name : Text} (h : a.member? name = some m) :
    m ∈ a.archive.members ∧ m.name = name := by
  unfold member? at h
  exact ⟨List.mem_reverse.1 (List.mem_of_find?_eq_some h), by simpa using List.find?_some h⟩

theorem override?_eq_some (h : a.override? X v = some m) :
    m ∈ a.archive.members ∧ ∃ n, m.name = Archive.overrideName n X := by
  induction v with
  | zero => simp [override?] at h
  | succ v ih =>
    unfold override? at h
    split at h
    · rcases Option.or_eq_some_iff.1 h with hmember | ⟨-, hrest⟩
      · obtain ⟨hm, hname⟩ := member?_eq_some hmember
        exact ⟨hm, v + 1, hname⟩
      · exact ih hrest
    · simp at h

/-- The member that a loader takes is one that is mapped to the class. -/
theorem definition?_eq_some (h : a.definition? v X = some m) :
    m ∈ a.archive.members ∧ Archive.unitName? m.name = some X := by
  unfold definition? at h
  split at h
  · simp at h
  · next hX =>
    rcases Option.or_eq_some_iff.1 h with hoverride | ⟨-, hplain⟩
    · obtain ⟨hm, n, hname⟩ := override?_eq_some hoverride
      exact ⟨hm, hname ▸ Archive.unitName?_overrideName n hX⟩
    · unfold plain? at hplain
      split at hplain
      · simp at hplain
      · next hversioned =>
        obtain ⟨hm, hname⟩ := member?_eq_some hplain
        exact ⟨hm, hname ▸ Archive.unitName?_plainName hX (by simpa using hversioned)⟩

end OpenArchive

/-- The archives at paths, as far as they can be opened. -/
def openAll (files : FileSystem) (archives : List Path) : List OpenArchive :=
  archives.filterMap fun p => (OpenArchive.load files p).toOption

/-- Where a class loader for version `v` finds a class: in the first archive that has it. -/
def loaded? (opened : List OpenArchive) (v : Nat) (X : Text) :
    Option (OpenArchive × Archive.Member) :=
  opened.findSome? fun a => (a.definition? v X).map (a, ·)

/-- The member `m` of the archive `a` is one of those whose references count for the class: no
archive before has a member for the class, and if the member is a plain one, it is the first such
in its archive. -/
structure Counted (opened : List OpenArchive) (X : Text) (a : OpenArchive) (m : Archive.Member) :
    Prop where
  first : ∃ before after, opened = before ++ a :: after ∧
    ∀ b ∈ before, ∀ m' ∈ b.archive.members, Archive.unitName? m'.name ≠ some X
  plain : Archive.isVersioned m.name = false →
    ∃ before after, a.archive.members = before ++ m :: after ∧
      ∀ m' ∈ before, Archive.unitName? m'.name = some X → Archive.isVersioned m'.name = true

variable {opened : List OpenArchive} {v : Nat} {X r : Text} {a : OpenArchive} {m : Archive.Member}

theorem loaded?_eq_some (h : loaded? opened v X = some (a, m)) :
    a ∈ opened ∧ m ∈ a.archive.members ∧ Archive.unitName? m.name = some X := by
  obtain ⟨b, hb, hdefinition⟩ := List.exists_of_findSome?_eq_some h
  obtain ⟨m', hm', heq⟩ := Option.map_eq_some_iff.1 hdefinition
  obtain ⟨rfl, rfl⟩ := Prod.mk.inj heq
  exact ⟨hb, OpenArchive.definition?_eq_some hm'⟩

namespace ClassGraph

variable {g : ClassGraph}

theorem HasFound.isVersioned_eq {m : Archive.Member × Text} {f : Found} (h : HasFound a m f) :
    f.isVersioned = Archive.isVersioned m.1.name := by
  obtain ⟨data, self, references, -, -, rfl⟩ := h
  rfl

/-- The members that define classes, as `classMembers` gives them. -/
def unitMembers (ms : List Archive.Member) : List (Archive.Member × Text) :=
  ms.filterMap fun m => (Archive.unitName? m.name).map (m, ·)

theorem mem_unitMembers {ms : List Archive.Member} {p : Archive.Member × Text}
    (h : p ∈ unitMembers ms) : p.1 ∈ ms ∧ Archive.unitName? p.1.name = some p.2 := by
  obtain ⟨m, hm, heq⟩ := List.mem_filterMap.1 h
  obtain ⟨name, hname, rfl⟩ := Option.map_eq_some_iff.1 heq
  exact ⟨hm, hname⟩

/-- The first plain member for a class is the first thing found for it that is plain. -/
theorem find?_plain {f : Found} {before after : List Archive.Member}
    (hfailure : (readingOf a).failure? = none) (hsplit : a.archive.members = before ++ m :: after)
    (hbefore : ∀ m' ∈ before, Archive.unitName? m'.name = some X →
      Archive.isVersioned m'.name = true)
    (hunit : Archive.unitName? m.name = some X) (hplain : Archive.isVersioned m.name = false)
    (hf : HasFound a (m, X) f) :
    ((readingOf a).found.filter (!·.isVersioned)).find? (·.name = X) = some f := by
  have hmembers : classMembers a.archive =
      unitMembers before ++ (m, X) :: unitMembers after := by
    unfold classMembers unitMembers
    rw [hsplit, List.filterMap_append, List.filterMap_cons_some (by rw [hunit]; rfl)]
  unfold readingOf at hfailure ⊢
  rw [hmembers] at hfailure ⊢
  obtain ⟨hfirst, hrest, hfound⟩ := readMembers_append hfailure
  obtain ⟨f', hf', -, hcons⟩ := readMembers_cons hrest
  obtain rfl : f' = f := hf'.eq hf
  rw [hfound, hcons, List.filter_append, List.find?_append]
  have hnone : ((readMembers a (unitMembers before)).found.filter (!·.isVersioned)).find?
      (·.name = X) = none := by
    rw [List.find?_eq_none]
    intro g hg hname
    obtain ⟨hg, hgplain⟩ := List.mem_filter.1 hg
    obtain ⟨⟨m', name⟩, hm', hhas⟩ := (mem_found_iff hfirst).1 hg
    obtain ⟨hm', hunit'⟩ := mem_unitMembers hm'
    have hX : name = X := by simpa [hhas.name_eq] using hname
    have hversioned := hbefore m' hm' (hX ▸ hunit')
    simp [hhas.isVersioned_eq, hversioned] at hgplain
  have hfplain : (!f'.isVersioned) = true := by simp [hf.isVersioned_eq, hplain]
  rw [hnone, Option.none_or, List.filter_cons_of_pos (by exact hfplain), List.find?_cons,
    decide_eq_true hf.name_eq]

/-- What a counted member names is among the references of the class. -/
theorem mem_counted_of_hasFound {f : Found} (hfailure : (readingOf a).failure? = none)
    (hm : m ∈ a.archive.members) (hunit : Archive.unitName? m.name = some X)
    (hcounted : Counted opened X a m) (hf : HasFound a (m, X) f) (hr : r ∈ f.references) :
    r ∈ counted (readingOf a).found X := by
  rw [mem_counted, mem_versionedReferences]
  cases hversioned : Archive.isVersioned m.name with
  | true =>
    obtain ⟨f', hf', hhas⟩ := exists_found hfailure (mem_classMembers.2 ⟨hm, hunit⟩)
    rw [hhas.eq hf] at hf'
    exact Or.inr ⟨f, hf', hf.isVersioned_eq.trans hversioned, hf.name_eq, hr⟩
  | false =>
    obtain ⟨before, after, hsplit, hbefore⟩ := hcounted.plain hversioned
    exact Or.inl ⟨f, find?_plain hfailure hsplit hbefore hunit hversioned hf, hr⟩

/-- Everything that a counted member names is a reference of its class in the graph. -/
theorem exists_find?_of_counted {f : Found}
    (hg : Represents g (opened.map fun a => (a.path, (readingOf a).found)))
    (hfailure : ∀ a ∈ opened, (readingOf a).failure? = none)
    (hm : m ∈ a.archive.members) (hunit : Archive.unitName? m.name = some X)
    (hcounted : Counted opened X a m) (hf : HasFound a (m, X) f) :
    ∃ d, g.find? X = some d ∧ ∀ r ∈ f.references, r ∈ d.references := by
  obtain ⟨before, after, hsplit, hbefore⟩ := hcounted.first
  have ha : a ∈ opened := by simp [hsplit]
  have hfind : (opened.map fun a => (a.path, (readingOf a).found)).find?
      (fun r => r.2.any (·.name = X)) = some (a.path, (readingOf a).found) := by
    rw [hsplit, List.map_append, List.find?_append, List.map_cons, List.find?_cons,
      (any_found_iff (hfailure a ha)).2 ⟨m, hm, hunit⟩]
    have hnone : (before.map fun a => (a.path, (readingOf a).found)).find?
        (fun r => r.2.any (·.name = X)) = none := by
      rw [List.find?_eq_none]
      intro reading hreading hany
      obtain ⟨b, hb, rfl⟩ := List.mem_map.1 hreading
      have hbopened : b ∈ opened := hsplit ▸ List.mem_append_left _ hb
      obtain ⟨m', hm', hunit'⟩ := (any_found_iff (hfailure b hbopened)).1 hany
      exact hbefore b hb m' hm' hunit'
    rw [hnone, Option.none_or]
  obtain ⟨d, hd, -, hreferences⟩ := hg.exists_definition hfind
  exact ⟨d, hd, fun r hr => (hreferences r).2
    (mem_counted_of_hasFound (hfailure a ha) hm hunit hcounted hf hr)⟩

end ClassGraph

theorem openAll_eq {files : FileSystem} {archives : List Path}
    (h : archives.map (OpenArchive.load files) = opened.map .ok) :
    openAll files archives = opened := by
  unfold openAll
  rw [← Function.comp_def, ← List.filterMap_map, h, List.filterMap_map]
  exact List.filterMap_some

/-- **What a class loader needs is kept.** Where an analysis succeeds, a class is kept, and the
loader for a version finds a definition of it that is counted, every class that this definition
refers to is kept too. -/
theorem references_kept {t : MinifyTask} {files : FileSystem} {archives : List Path}
    {retention : Retention} (h : (Retention.analyze t files archives).outcome.1 = .ok retention) :
    archives.map (OpenArchive.load files) = (openAll files archives).map .ok ∧
      ∀ v X a m, loaded? (openAll files archives) v X = some (a, m) →
        Counted (openAll files archives) X a m → retention.reachability.isRemovable X = false →
        ∃ data self references, a.read m = .ok data ∧
          ClassFile.dependencies data = .ok (self, references) ∧
          ∀ r ∈ references, retention.reachability.isRemovable r = false := by
  obtain ⟨hgraph, -, hreachability⟩ := Retention.analyze_eq_ok h
  obtain ⟨opened, hopened, hfailure, hrep⟩ := ClassGraph.represents_of_ofArchives hgraph
  rw [openAll_eq hopened]
  refine ⟨hopened, fun v X a m hloaded hcounted hkept => ?_⟩
  obtain ⟨ha, hm, hunit⟩ := loaded?_eq_some hloaded
  have hX := ClassGraph.mem_names_of_represents hrep hfailure ha hm hunit
  have hreaches (r : Text) : retention.reachability.isRemovable r = false ↔
      (r ∈ retention.graph.names → retention.graph.Reaches retention.entryPoints r) := by
    rw [hreachability, ← Bool.not_eq_true, ClassGraph.isRemovable_iff, not_and, Classical.not_not]
  obtain ⟨f, -, hf⟩ := ClassGraph.exists_found (hfailure a ha)
    (ClassGraph.mem_classMembers.2 ⟨hm, hunit⟩)
  obtain ⟨d, hd, hreferences⟩ :=
    ClassGraph.exists_find?_of_counted hrep hfailure hm hunit hcounted hf
  obtain ⟨data, self, references, hread, hdeps, rfl⟩ := hf
  refine ⟨data, self, references, hread, hdeps, fun r hr => ?_⟩
  by_cases heq : r = X
  · rwa [heq]
  · have hname := ClassGraph.name_of_find? hd
    refine (hreaches r).2 fun hnames => .reference (d := d) ?_ (hname ▸ hd) ?_ ?_
    · exact hname ▸ (hreaches X).1 hkept hX
    · exact hreferences r (List.mem_filter.2 ⟨hr, by simpa using heq⟩)
    · exact ClassGraph.defines_iff.2 hnames

/-! ### Overrides that hide a definition -/

namespace Sample

/-- The class file of a class that refers to others. -/
def classFile (name : Text) (references : List Text) : Bytes :=
  let constants (p : Text × Nat) : Bytes :=
    [1, 0, p.1.length.toUInt8] ++ p.1.map (·.toUInt8) ++ [7, 0, (2 * p.2 + 1).toUInt8]
  [0xCA, 0xFE, 0xBA, 0xBE, 0, 0, 0, 52, 0, (2 * references.length + 3).toUInt8] ++
    (name :: references).zipIdx.flatMap constants ++ [0, 0, 0, 2, 0, 0, 0, 0, 0, 0, 0, 0, 0, 0]

/-- A member whose data stand as they are. -/
def member (name : Text) (data : Bytes) : Archive.NewMember where
  entry := ⟨name, Archive.storedMethod, 0x21, 0, [], [], 0, 0, 1⟩
  data := data
  level := .standard

/-- The archive of the class `X`, which refers to `Y`, and of `Y`. -/
def archive : Bytes :=
  Archive.encode [member "X.class" (classFile "X" ["Y"]), member "Y.class" (classFile "Y" [])]

/-- The archive of an override of `X` for version 21. -/
def override : Bytes :=
  Archive.encode [member "META-INF/versions/21/X.class" (classFile "X" [])]

/-- Two archives in the root directory. -/
def files (first second : Bytes) : FileSystem :=
  ⟨[(["a"], .file first), (["b"], .file second)], []⟩

/-- The task to keep what is reached from `X`. -/
def task : MinifyTask := ⟨[.all], ["X"], [], []⟩

end Sample

/-- What the definition refers to that the loader finds. -/
def loadedReferences? (opened : List OpenArchive) (v : Nat) (X : Text) : Option (List Text) := do
  let (a, m) ← loaded? opened v X
  let data ← (a.read m).toOption
  let (_, references) ← (ClassFile.dependencies data).toOption
  return references

theorem loadedReferences?_eq_some {references : List Text}
    (h : loadedReferences? opened v X = some references) :
    ∃ a m data self, loaded? opened v X = some (a, m) ∧ a.read m = .ok data ∧
      ClassFile.dependencies data = .ok (self, references) := by
  unfold loadedReferences? at h
  cases hloaded : loaded? opened v X with
  | none => simp [hloaded] at h
  | some p =>
    obtain ⟨a, m⟩ := p
    cases hread : a.read m with
    | error e => simp [hloaded, hread, Except.toOption] at h
    | ok data =>
      cases hdeps : ClassFile.dependencies data with
      | error e => simp [hloaded, hread, hdeps, Except.toOption] at h
      | ok deps =>
        obtain ⟨self, references'⟩ := deps
        obtain rfl : references' = references := by
          simpa [hloaded, hread, hdeps, Except.toOption] using h
        exact ⟨a, m, data, self, rfl, hread, hdeps⟩

theorem exists_analyze (t : MinifyTask) (files : FileSystem) (archives : List Path) (X : Text)
    {b : Bool} (h : ((Retention.analyze t files archives).outcome.1.toOption.map
      fun r => r.reachability.isRemovable X) = some b) :
    ∃ retention, (Retention.analyze t files archives).outcome.1 = .ok retention ∧
      retention.reachability.isRemovable X = b := by
  cases hrun : (Retention.analyze t files archives).outcome.1 with
  | error e => simp [hrun, Except.toOption] at h
  | ok retention => exact ⟨retention, rfl, by simpa [hrun, Except.toOption] using h⟩

/-- With the override in a later archive, `Y` is kept with `X`. -/
theorem references_kept_of_first :
    ∃ retention, (Retention.analyze Sample.task (Sample.files Sample.archive Sample.override)
        ["/a", "/b"]).outcome.1 = .ok retention ∧
      retention.reachability.isRemovable "Y" = false := by
  obtain ⟨retention, h, hX⟩ := exists_analyze Sample.task
    (Sample.files Sample.archive Sample.override) ["/a", "/b"] "X" (b := false) (by decide +kernel)
  have hreferences : loadedReferences?
      (openAll (Sample.files Sample.archive Sample.override) ["/a", "/b"]) 11 "X" =
        some [("Y" : Text)] := by
    decide +kernel
  obtain ⟨a, m, data, self, hloaded, hread, hdeps⟩ := loadedReferences?_eq_some hreferences
  -- The member that the loader takes is the first one of the first archive.
  have hfirst : ∀ a ∈ (openAll (Sample.files Sample.archive Sample.override) ["/a", "/b"]).head?,
      a.archive.members ≠ [] ∧ a.definition? 11 "X" = a.archive.members.head? := by decide +kernel
  obtain ⟨b, rest, hopened⟩ := List.exists_cons_of_length_pos
    (l := openAll (Sample.files Sample.archive Sample.override) ["/a", "/b"]) (by decide +kernel)
  obtain ⟨-, hkept⟩ := references_kept h
  rw [hopened] at hfirst hloaded hkept
  obtain ⟨hne, hhead⟩ := hfirst b rfl
  obtain ⟨m', after, hmembers⟩ := List.exists_cons_of_ne_nil hne
  rw [hmembers, List.head?_cons] at hhead
  have hloaded' : loaded? (b :: rest) 11 "X" = some (b, m') := by
    unfold loaded?
    rw [List.findSome?_cons, hhead]
    rfl
  obtain ⟨rfl, rfl⟩ := Prod.mk.inj (Option.some.inj (hloaded'.symm.trans hloaded))
  obtain ⟨data', self', references, hread', hdeps', hall⟩ := hkept 11 "X" b m' hloaded
    ⟨⟨[], rest, rfl, by simp⟩, fun _ => ⟨[], after, hmembers, by simp⟩⟩ hX
  obtain rfl : data = data' := Except.ok.inj (hread.symm.trans hread')
  obtain ⟨-, rfl⟩ := Prod.mk.inj (Except.ok.inj (hdeps.symm.trans hdeps'))
  exact ⟨retention, h, hall "Y" (by decide)⟩

/-- With the override in the first archive, the loader for version 11 takes `X` from the second one
and needs `Y`, which is removed. -/
theorem references_may_be_lost :
    ¬ ∀ (t : MinifyTask) (files : FileSystem) (archives : List Path) (retention : Retention)
        (v : Nat) (X : Text) (a : OpenArchive) (m : Archive.Member) (data : Bytes) (self : Text)
        (references : List Text) (r : Text),
      9 ≤ v → archives.Nodup →
      (∀ a ∈ openAll files archives, (a.archive.members.map (·.name)).Nodup) →
      (Retention.analyze t files archives).outcome.1 = .ok retention →
      loaded? (openAll files archives) v X = some (a, m) →
      retention.reachability.isRemovable X = false → a.read m = .ok data →
      ClassFile.dependencies data = .ok (self, references) → r ∈ references →
      (loaded? (openAll files archives) v r).isSome = true →
      retention.reachability.isRemovable r = false := by
  intro hall
  obtain ⟨retention, h, hY⟩ := exists_analyze Sample.task
    (Sample.files Sample.override Sample.archive) ["/a", "/b"] "Y" (b := true) (by decide +kernel)
  obtain ⟨retention', h', hX⟩ := exists_analyze Sample.task
    (Sample.files Sample.override Sample.archive) ["/a", "/b"] "X" (b := false) (by decide +kernel)
  obtain rfl : retention' = retention := Except.ok.inj (h'.symm.trans h)
  have hreferences : loadedReferences?
      (openAll (Sample.files Sample.override Sample.archive) ["/a", "/b"]) 11 "X" =
        some [("Y" : Text)] := by
    decide +kernel
  obtain ⟨a, m, data, self, hloaded, hread, hdeps⟩ := loadedReferences?_eq_some hreferences
  have hfalse := hall _ _ _ _ 11 "X" a m data self ["Y"] "Y" (by decide) (by decide +kernel)
    (by decide +kernel) h hloaded hX hread hdeps (by decide) (by decide +kernel)
  rw [hY] at hfalse
  exact Bool.noConfusion hfalse

end Jarsmith
