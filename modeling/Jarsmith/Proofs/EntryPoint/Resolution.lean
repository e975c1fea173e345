import Jarsmith.Proofs.ClassGraph.Loading
import Jarsmith.Proofs.EntryPoint.Origin
import Jarsmith.Proofs.EntryPoint.Services
import Jarsmith.Proofs.Text.Unique

/-!
# Entry points as one list

Names that are found twice are dropped within a member, within an archive, and from the whole. It
would be the same to put down everything that is configured and that the archives name, in order
(`namedAt`), and to drop repetitions then (`resolve_eq_unique`): so each of the steps is told up to
repetitions (`unique_of_ofMembers`, `unique_of_ofArchive`).

Entry points cannot be told exactly if an archive fails (`FailsAt`), and where no members are to be
looked for no archive is opened.
-/

namespace Jarsmith

/-- The last of the members of a name. -/
def OpenArchive.lastNamed? (a : OpenArchive) (name : Text) : Option Archive.Member :=
  (a.archive.members.filter (·.name = name)).getLast?

theorem OpenArchive.member?_eq_lastNamed? (a : OpenArchive) (name : Text) :
    a.member? name = a.lastNamed? name := by
  rw [member?, lastNamed?, List.getLast?_eq_head?_reverse, ← List.filter_reverse,
    List.head?_filter]

namespace EntryPoint

variable {a : OpenArchive} {read : Bytes → Except Fault (List Text)}
  {names? : Bytes → Option (List Text)} {name : Text} {names found : List Text} {m : Archive.Member}
  {data : Bytes}

/-! ### Members -/

/-- The values in a property file that are not empty, without blanks at their ends. -/
def propertyValues? (data : Bytes) : Option (List Text) := do
  let text ← Utf8.decode data
  let properties ← (Properties.parse text).toOption
  return (properties.map fun (_, value) => value.trimBlanks).filter (!·.isEmpty)

/-- The names on the lines of a service file. -/
def serviceNames? (data : Bytes) : Option (List Text) :=
  (Utf8.decode data).map fun text => serviceNames text.lines

/-- What is read of data are the names in them, each once. -/
def ReadsUnique (read : Bytes → Except Fault (List Text)) (names? : Bytes → Option (List Text)) :
    Prop :=
  ∀ data found, read data = .ok found ↔
    ∃ names, names? data = some names ∧ found = Text.unique names

theorem readsUnique_ofProperties : ReadsUnique ofProperties propertyValues? := by
  intro data found
  unfold ofProperties propertyValues?
  cases Utf8.decode data with
  | none => simp
  | some text =>
    cases hparse : Properties.parse text with
    | error e => simp [hparse, Except.toOption]
    | ok properties => simp [hparse, Except.toOption, eq_comm]

theorem readsUnique_ofServices : ReadsUnique ofServices serviceNames? := by
  intro data found
  unfold ofServices serviceNames?
  cases Utf8.decode data with
  | none => simp
  | some text =>
    show Except.ok (Text.unique (serviceNames text.lines)) = .ok found ↔ _
    simp [eq_comm]

/-- The names in a member; none if it cannot be read, or if what it holds cannot be decoded. -/
def memberNames? (a : OpenArchive) (names? : Bytes → Option (List Text)) (m : Archive.Member) :
    Option (List Text) :=
  match a.read m with
  | .ok data => names? data
  | .error _ => none

/-- The names in the last member of a name; an archive without such a member names nothing there. -/
def namesUnder (a : OpenArchive) (names? : Bytes → Option (List Text)) (name : Text) : List Text :=
  ((a.lastNamed? name).bind (memberNames? a names?)).getD []

theorem memberNames?_of_read (h : a.read m = .ok data) : memberNames? a names? m = names? data := by
  rw [memberNames?, h]

theorem namesUnder_of_none (h : a.lastNamed? name = none) : namesUnder a names? name = [] := by
  rw [namesUnder, h]
  rfl

theorem namesUnder_of_some (h : a.lastNamed? name = some m)
    (hnames : memberNames? a names? m = some names) : namesUnder a names? name = names := by
  rw [namesUnder, h, Option.bind_some, hnames, Option.getD_some]

/-- What is found in the members of some names, up to repetitions. -/
theorem unique_of_ofMembers (hread : ReadsUnique read names?)
    (hrun : (ofMembers a read names).outcome.1 = .ok found) :
    Text.unique found = Text.unique (names.flatMap (namesUnder a names?)) := by
  induction names generalizing found with
  | nil =>
    obtain rfl := Except.ok.inj hrun
    rfl
  | cons name names ih =>
    rw [List.flatMap_cons]
    cases hm : a.member? name with
    | none =>
      rw [ofMembers_of_none hm] at hrun
      rw [namesUnder_of_none (a.member?_eq_lastNamed? name ▸ hm), List.nil_append]
      exact ih hrun
    | some m =>
      obtain ⟨data, first, rest, hdata, hfirst, hrest, rfl⟩ := (ofMembers_of_some hm).1 hrun
      obtain ⟨values, hvalues, rfl⟩ := (hread data first).1 hfirst
      rw [namesUnder_of_some (a.member?_eq_lastNamed? name ▸ hm)
        ((memberNames?_of_read hdata).trans hvalues)]
      exact Text.unique_append_congr (Text.unique_unique values) (ih hrest)

/-- The members of some names can be read if each one that is there can. -/
theorem exists_ofMembers_iff (hread : ReadsUnique read names?) :
    (∃ found, (ofMembers a read names).outcome.1 = .ok found) ↔
      ∀ name ∈ names, ∀ m, a.lastNamed? name = some m → memberNames? a names? m ≠ none := by
  induction names with
  | nil => exact iff_of_true ⟨[], rfl⟩ (by simp)
  | cons name names ih =>
    rw [List.forall_mem_cons, ← ih, ← a.member?_eq_lastNamed? name]
    cases hm : a.member? name with
    | none =>
      rw [ofMembers_of_none hm]
      simp
    | some m =>
      simp only [ofMembers_of_some hm, Option.some.injEq, forall_eq', Option.ne_none_iff_exists']
      constructor
      · rintro ⟨_, data, first, rest, hdata, hfirst, hrest, -⟩
        obtain ⟨values, hvalues, -⟩ := (hread data first).1 hfirst
        exact ⟨⟨values, (memberNames?_of_read hdata).trans hvalues⟩, rest, hrest⟩
      · rintro ⟨⟨values, hvalues⟩, rest, hrest⟩
        unfold memberNames? at hvalues
        split at hvalues
        · next data hdata =>
          exact ⟨_, data, _, rest, hdata, (hread data _).2 ⟨values, hvalues, rfl⟩, hrest, rfl⟩
        · simp at hvalues

/-! ### Archives -/

variable {t : MinifyTask} {files : FileSystem} {p : Path} {archives : List Path}

/-- What an archive names in the members that a task has for that: first in its property files, then
in its service files. -/
def namedIn (t : MinifyTask) (a : OpenArchive) : List Text :=
  t.propertyMembers.flatMap (namesUnder a propertyValues?) ++
    t.serviceMembers.flatMap (namesUnder a serviceNames?)

/-- What the archive at a path names; nothing if there is none that can be opened. -/
def namedAt (t : MinifyTask) (files : FileSystem) (p : Path) : List Text :=
  match OpenArchive.load files p with
  | .ok a => namedIn t a
  | .error _ => []

/-- The task has members to look for. -/
def LooksInside (t : MinifyTask) : Prop := t.propertyMembers ≠ [] ∨ t.serviceMembers ≠ []

/-- The archive at a path cannot be opened, or one of the members to look for is there but cannot be
read or decoded. -/
inductive FailsAt (t : MinifyTask) (files : FileSystem) (p : Path) : Prop
  | opening (e : Fault) (h : OpenArchive.load files p = .error e)
  | property (a : OpenArchive) (name : Text) (m : Archive.Member)
      (ha : OpenArchive.load files p = .ok a) (hname : name ∈ t.propertyMembers)
      (hm : a.lastNamed? name = some m) (h : memberNames? a propertyValues? m = none)
  | service (a : OpenArchive) (name : Text) (m : Archive.Member)
      (ha : OpenArchive.load files p = .ok a) (hname : name ∈ t.serviceMembers)
      (hm : a.lastNamed? name = some m) (h : memberNames? a serviceNames? m = none)

theorem isEmpty_ofTask_eq_false_iff : ((Sources.ofTask t).propertyMembers.isEmpty &&
    (Sources.ofTask t).serviceMembers.isEmpty) = false ↔ LooksInside t := by
  unfold Sources.ofTask LooksInside
  rw [Bool.and_eq_false_iff, List.isEmpty_eq_false_iff, List.isEmpty_eq_false_iff, ne_eq, ne_eq,
    Text.unique_eq_nil_iff, Text.unique_eq_nil_iff]

/-- What is found in an archive, up to repetitions. -/
theorem unique_of_ofArchive
    (hrun : ((Sources.ofTask t).ofArchive files p).outcome.1 = .ok found) (h : LooksInside t) :
    Text.unique found = Text.unique (namedAt t files p) := by
  obtain ⟨a, properties, services, hload, hproperties, hservices, rfl⟩ :=
    ((Sources.ofTask t).ofArchive_eq_ok (isEmpty_ofTask_eq_false_iff.2 h)).1 hrun
  have hproperties := unique_of_ofMembers readsUnique_ofProperties hproperties
  have hservices := unique_of_ofMembers readsUnique_ofServices hservices
  have hnamed : namedAt t files p = namedIn t a := by rw [namedAt, hload]
  -- A member that the task has twice is looked into once, which gives the same.
  rw [hnamed, Text.unique_unique]
  exact Text.unique_append_congr
    (hproperties.trans (Text.unique_flatMap_unique _ _))
    (hservices.trans (Text.unique_flatMap_unique _ _))

theorem exists_ofArchive_iff (h : LooksInside t) :
    (∃ found, ((Sources.ofTask t).ofArchive files p).outcome.1 = .ok found) ↔
      ¬ FailsAt t files p := by
  have hopened := isEmpty_ofTask_eq_false_iff.2 h
  constructor
  · rintro ⟨found, hrun⟩ hfails
    obtain ⟨a, properties, services, hload, hproperties, hservices, -⟩ :=
      ((Sources.ofTask t).ofArchive_eq_ok hopened).1 hrun
    cases hfails with
    | opening e he => cases hload.symm.trans he
    | property a' name m ha hname hm hnone =>
      obtain rfl := Except.ok.inj (ha.symm.trans hload)
      exact (exists_ofMembers_iff readsUnique_ofProperties).1 ⟨properties, hproperties⟩ name
        (Text.mem_unique.2 hname) m hm hnone
    | service a' name m ha hname hm hnone =>
      obtain rfl := Except.ok.inj (ha.symm.trans hload)
      exact (exists_ofMembers_iff readsUnique_ofServices).1 ⟨services, hservices⟩ name
        (Text.mem_unique.2 hname) m hm hnone
  · intro hnot
    cases hload : OpenArchive.load files p with
    | error e => exact absurd (.opening e hload) hnot
    | ok a =>
      obtain ⟨properties, hproperties⟩ := (exists_ofMembers_iff readsUnique_ofProperties).2
        fun name hname m hm hnone =>
          hnot (.property a name m hload (Text.mem_unique.1 hname) hm hnone)
      obtain ⟨services, hservices⟩ := (exists_ofMembers_iff readsUnique_ofServices).2
        fun name hname m hm hnone =>
          hnot (.service a name m hload (Text.mem_unique.1 hname) hm hnone)
      exact ⟨_, ((Sources.ofTask t).ofArchive_eq_ok hopened).2
        ⟨a, properties, services, hload, hproperties, hservices, rfl⟩⟩

/-- Without members to look for no archive is opened, so that the files do not matter. -/
theorem ofArchive_of_not_looksInside (h : ¬ LooksInside t) (files : FileSystem) (p : Path) :
    (Sources.ofTask t).ofArchive files p = (return []) := by
  rw [← isEmpty_ofTask_eq_false_iff, Bool.not_eq_false] at h
  unfold Sources.ofArchive
  rw [h, if_pos rfl]

theorem namedAt_of_not_looksInside (h : ¬ LooksInside t) (files : FileSystem) (p : Path) :
    namedAt t files p = [] := by
  obtain ⟨hproperties, hservices⟩ := not_or.1 h
  unfold namedAt namedIn
  rw [not_not.1 hproperties, not_not.1 hservices]
  split <;> rfl

/-! ### The whole classpath -/

/-- Everything that is found, with its repetitions: what is configured, and then what the archives
name, in their order. -/
def namedInAll (t : MinifyTask) (files : FileSystem) (archives : List Path) : List Text :=
  t.entryPoints ++ archives.flatMap (namedAt t files)

theorem unique_flatten_of_forall₂ {lists : List (List Text)}
    (h : List.Forall₂ (fun p list => ((Sources.ofTask t).ofArchive files p).outcome.1 = .ok list)
      archives lists) :
    Text.unique lists.flatten = Text.unique (archives.flatMap (namedAt t files)) := by
  induction h with
  | nil => rfl
  | @cons p list archives lists hlist _ ih =>
    rw [List.flatten_cons, List.flatMap_cons]
    refine Text.unique_append_congr ?_ ih
    by_cases hlooks : LooksInside t
    · exact unique_of_ofArchive hlist hlooks
    · -- Then nothing is found, and no member is there that could name anything.
      rw [ofArchive_of_not_looksInside hlooks] at hlist
      rw [namedAt_of_not_looksInside hlooks]
      obtain rfl := Except.ok.inj hlist
      rfl

/-- **Entry points of a classpath**: if they are found, they are everything that is configured and
that the archives name, in order, each once. They are not found exactly if there are members to look
for and some archive fails, and if there are none the files do not matter. -/
theorem resolve_eq_unique (t : MinifyTask) (files : FileSystem) (archives : List Path) :
    (∀ found, ((Sources.ofTask t).resolve files archives).outcome.1 = .ok found →
      found.Nodup ∧ found = Text.unique (namedInAll t files archives)) ∧
    ((∃ e, ((Sources.ofTask t).resolve files archives).outcome.1 = .error e) ↔
      LooksInside t ∧ ∃ p ∈ archives, FailsAt t files p) ∧
    (¬ LooksInside t → ∀ files', (Sources.ofTask t).resolve files archives =
      (Sources.ofTask t).resolve files' archives) := by
  refine ⟨fun found hrun => ?_, ?_, fun h files' => ?_⟩
  · obtain ⟨lists, hlists, rfl⟩ := Sources.resolve_eq_ok_iff.1 hrun
    refine ⟨Text.nodup_unique _, ?_⟩
    exact Text.unique_append_congr (Text.unique_unique t.entryPoints)
      (unique_flatten_of_forall₂ hlists)
  · have hfound : (∃ e, ((Sources.ofTask t).resolve files archives).outcome.1 = .error e) ↔
        ¬ ∃ found, ((Sources.ofTask t).resolve files archives).outcome.1 = .ok found := by
      cases ((Sources.ofTask t).resolve files archives).outcome.1 <;> simp
    rw [hfound, Sources.exists_resolve_iff]
    by_cases hlooks : LooksInside t
    · simp only [exists_ofArchive_iff hlooks, hlooks, true_and, not_forall, not_not, exists_prop]
    · refine iff_of_false (not_not.2 fun p _ => ⟨[], ?_⟩) fun h => hlooks h.1
      rw [ofArchive_of_not_looksInside hlooks]
      rfl
  · unfold Sources.resolve
    rw [funext (ofArchive_of_not_looksInside h files),
      funext (ofArchive_of_not_looksInside h files')]

/-- The task of finding entry points in a property file and in two service files. -/
def Sample.resolution : MinifyTask :=
  ⟨[.all], ["p.M", "p.M"], ["a.properties"], ["x.Service", "y.Service"]⟩

/-- The data of a text in ASCII. -/
def Sample.ascii (t : Text) : Bytes := t.map (·.toUInt8)

/-- Two archives, the first of which has two members of one name. -/
def Sample.resolutionFiles : FileSystem := Sample.files
  (Archive.encode [Sample.member "x.Service" (Sample.ascii "p.Old\n"),
    Sample.member "x.Service" (Sample.ascii "p.A\np.B\n")])
  (Archive.encode [Sample.member "x.Service" (Sample.ascii "p.B\np.C\n"),
    Sample.member "a.properties" (Sample.ascii "k = p.D \nl=p.A\n")])

theorem resolve_eq_unique_of_two :
    ((Sources.ofTask Sample.resolution).resolve Sample.resolutionFiles
      ["/a", "/b"]).outcome.1.toOption = some (["p.M", "p.A", "p.B", "p.D", "p.C"] : List Text) ∧
    Text.unique (namedInAll Sample.resolution Sample.resolutionFiles ["/a", "/b"]) =
      (["p.M", "p.A", "p.B", "p.D", "p.C"] : List Text) ∧
    ∃ e, ((Sources.ofTask Sample.resolution).resolve Sample.resolutionFiles
      ["/a", "/c"]).outcome.1 = .error e := by
  have hfound : ((Sources.ofTask Sample.resolution).resolve Sample.resolutionFiles
      ["/a", "/b"]).outcome.1.toOption =
        some (["p.M", "p.A", "p.B", "p.D", "p.C"] : List Text) := by
    decide +kernel
  refine ⟨hfound, ?_, ?_⟩
  · have hrun : ((Sources.ofTask Sample.resolution).resolve Sample.resolutionFiles
        ["/a", "/b"]).outcome.1 = .ok (["p.M", "p.A", "p.B", "p.D", "p.C"] : List Text) := by
      revert hfound
      cases ((Sources.ofTask Sample.resolution).resolve Sample.resolutionFiles
        ["/a", "/b"]).outcome.1 <;> simp [Except.toOption]
    exact ((resolve_eq_unique _ _ _).1 _ hrun).2.symm
  · refine (resolve_eq_unique _ _ _).2.1.2 ⟨.inl (by decide), "/c", by decide, ?_⟩
    exact .opening _ rfl

end EntryPoint

end Jarsmith
