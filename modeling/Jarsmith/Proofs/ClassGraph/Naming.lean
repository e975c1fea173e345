import Jarsmith.Proofs.ClassFile.Reference
import Jarsmith.Proofs.ClassGraph.Loading
import Jarsmith.Proofs.Text.Utf8

/-!
# Classes as pools and as archives name them

A class is known by the name of its member, and it is referred to by a text in a constant pool. Both
give the name with dots. The text in the pool has the 16-bit units of the name, which are not joined
where it is read, so the two agree exactly on the names that need no pair of surrogates. A class of
such a name is kept with what refers to it (`named_class_kept`); one of another name may be removed
(`named_class_may_be_lost`).
-/

namespace Jarsmith

open ClassFile

variable {N : Text}

namespace ClassFile

/-- The constant at an index is a class, and its name is written in modified UTF-8. -/
def ConstantPool.HasClass (pool : ConstantPool) (index : Nat) (N : Text) : Prop :=
  ∃ k u, pool.getTagged index Tag.classRef = .ok k ∧
    pool.getTagged (k.indexAt 0) Tag.utf8 = .ok u ∧
    u.payload.drop 2 = Utf8.encodeUnits (Utf8.units N)

/-- The name of a class is read as its units. -/
theorem ConstantPool.HasClass.exists_utf8 {pool : ConstantPool} {index : Nat}
    (h : pool.HasClass index N) (hN : ∀ c ∈ N, c < 0x110000) :
    ∃ k, (index, k) ∈ pool.constants ∧ k.tag = Tag.classRef ∧
      pool.className index = pool.utf8 (k.indexAt 0) ∧
      pool.utf8 (k.indexAt 0) = .ok (Utf8.units N) := by
  obtain ⟨k, u, hk, hu, hpayload⟩ := h
  obtain ⟨hmem, htag⟩ := getTagged_eq_ok hk
  have hunits := Utf8.decodeModified_encodeUnits fun u hu => Utf8.lt_of_mem_units hN hu
  refine ⟨k, hmem, htag, ?_, ?_⟩
  · unfold className
    rw [hk]
    rfl
  · unfold utf8
    rw [hu, Except.bind_eq_ok]
    refine ⟨u, rfl, ?_⟩
    rw [hpayload, hunits]
    rfl

/-- With dots, the units of a name are the name itself exactly if it needs no pair. -/
theorem dotted_units_eq_iff : dotted (Utf8.units N) = dotted N ↔ ∀ c ∈ N, c < 0x10000 := by
  constructor
  · -- a slash is one unit as a dot is, so that only the lengths are compared
    intro h
    have hlength := congrArg List.length h
    unfold dotted Text.replace at hlength
    rw [List.length_map, List.length_map] at hlength
    exact Utf8.length_units_eq_iff.1 hlength
  · intro hN
    rw [Utf8.units_eq_self hN]

/-- A class of a class constant is a reference, unless it is the class itself. -/
theorem mem_references_of_hasClass {c : ClassFile} {names : List Text} {self : Text} {index : Nat}
    (h : references c = .ok names) (hself : name c = .ok self) (hN : ∀ c ∈ N, c < 0x10000)
    (harray : N.head? ≠ some 0x5B) (hclass : c.pool.HasClass index N) (hne : dotted N ≠ self) :
    dotted N ∈ names := by
  obtain ⟨k, hk, htag, -, hname⟩ := hclass.exists_utf8
    fun c hc => Nat.lt_trans (hN c hc) (by decide)
  rw [Utf8.units_eq_self hN] at hname
  refine (mem_references_iff h hself).2 ⟨hne, index, .classConstant hk htag hname ?_⟩
  unfold constantNames
  rw [if_neg harray]
  exact List.mem_singleton_self _

end ClassFile

/-- What a class member of an archive that was analysed refers to can be told. -/
theorem exists_dependencies_of_analyze {t : MinifyTask} {files : FileSystem}
    {archives : List Path} {retention : Retention} {X : Text} {a : OpenArchive}
    {m : Archive.Member} {data : Bytes}
    (h : (Retention.analyze t files archives).outcome.1 = .ok retention)
    (ha : a ∈ openAll files archives) (hm : m ∈ a.archive.members)
    (hunit : Archive.unitName? m.name = some X) (hread : a.read m = .ok data) :
    ∃ self references, dependencies data = .ok (self, references) := by
  obtain ⟨hgraph, -, -⟩ := Retention.analyze_eq_ok h
  obtain ⟨opened, hopened, hfailure, -⟩ := ClassGraph.represents_of_ofArchives hgraph
  rw [openAll_eq hopened] at ha
  obtain ⟨f, -, data', self, references, hread', hdeps, -⟩ :=
    ClassGraph.exists_found (hfailure a ha) (ClassGraph.mem_classMembers.2 ⟨hm, hunit⟩)
  obtain rfl : data' = data := Except.ok.inj (hread'.symm.trans hread)
  exact ⟨self, references, hdeps⟩

/-- What a class that is kept refers to is kept, if its references are counted. -/
theorem isRemovable_eq_false_of_counted {t : MinifyTask} {files : FileSystem}
    {archives : List Path} {retention : Retention} {X r : Text} {a : OpenArchive}
    {m : Archive.Member} {data : Bytes} {self : Text} {references : List Text}
    (h : (Retention.analyze t files archives).outcome.1 = .ok retention)
    (ha : a ∈ openAll files archives) (hm : m ∈ a.archive.members)
    (hunit : Archive.unitName? m.name = some X) (hcounted : Counted (openAll files archives) X a m)
    (hkept : retention.reachability.isRemovable X = false) (hread : a.read m = .ok data)
    (hdeps : dependencies data = .ok (self, references)) (hr : r ∈ references) :
    retention.reachability.isRemovable r = false := by
  obtain ⟨hgraph, -, hreachability⟩ := Retention.analyze_eq_ok h
  obtain ⟨opened, hopened, hfailure, hrep⟩ := ClassGraph.represents_of_ofArchives hgraph
  rw [openAll_eq hopened] at ha hcounted
  have hkeptIff (r : Text) : retention.reachability.isRemovable r = false ↔
      (r ∈ retention.graph.names → retention.graph.Reaches retention.entryPoints r) := by
    rw [hreachability, ← Bool.not_eq_true, ClassGraph.isRemovable_iff, not_and, Classical.not_not]
  obtain ⟨d, hd, hreferences⟩ := ClassGraph.exists_find?_of_counted hrep hfailure hm hunit hcounted
    ⟨data, self, references, hread, hdeps, rfl⟩
  by_cases heq : r = X
  -- references of a class to itself are not recorded
  · rwa [heq]
  · have hX := ClassGraph.mem_names_of_represents hrep hfailure ha hm hunit
    have hname := ClassGraph.name_of_find? hd
    refine (hkeptIff r).2 fun hnames => .reference (d := d) ?_ (hname ▸ hd) ?_ ?_
    · exact hname ▸ (hkeptIff X).1 hkept hX
    · exact hreferences r (List.mem_filter.2 ⟨hr, by simpa using heq⟩)
    · exact ClassGraph.defines_iff.2 hnames

/-- **Names of pools and names of members.** A class constant for `N` gives the name of the class of
the member for `N` exactly if `N` needs no pair of surrogates. A class of such a name is kept
wherever a class that is kept refers to it. -/
theorem named_class_kept (hN : ∀ c ∈ N, c < 0x110000) (hplain : Archive.isVersioned N = false) :
    (∀ (pool : ConstantPool) (index : Nat), pool.HasClass index N →
      ∃ name, pool.className index = .ok name ∧
        (Archive.unitName? (N ++ Archive.classEnding) = some (dotted name) ↔
          ∀ c ∈ N, c < 0x10000)) ∧
      ∀ (t : MinifyTask) (files : FileSystem) (archives : List Path) (retention : Retention)
        (X : Text) (a : OpenArchive) (m : Archive.Member) (data : Bytes) (c : ClassFile)
        (self : Text) (index : Nat),
        (Retention.analyze t files archives).outcome.1 = .ok retention →
        a ∈ openAll files archives → m ∈ a.archive.members → Archive.unitName? m.name = some X →
        Counted (openAll files archives) X a m → retention.reachability.isRemovable X = false →
        a.read m = .ok data → decode data = .ok c → name c = .ok self → self ≠ dotted N →
        N.head? ≠ some 0x5B → c.pool.HasClass index N → (∀ c ∈ N, c < 0x10000) →
        retention.reachability.isRemovable (dotted N) = false ∧
          ∀ b ∈ openAll files archives, ∀ m' ∈ b.archive.members,
            m'.name = N ++ Archive.classEnding → retention.keeps m'.name = true := by
  have hunitName : Archive.unitName? (N ++ Archive.classEnding) = some (dotted N) :=
    Archive.unitName?_append_classEnding (Archive.isVersioned_append_classEnding hplain)
  constructor
  · intro pool index hclass
    obtain ⟨k, -, -, hclassName, hutf8⟩ := hclass.exists_utf8 hN
    refine ⟨Utf8.units N, hclassName.trans hutf8, ?_⟩
    rw [hunitName, Option.some.injEq, eq_comm]
    exact dotted_units_eq_iff
  · intro t files archives retention X a m data c self index h ha hm hunit hcounted hkept hread hc
      hself hne harray hclass hpoints
    obtain ⟨self', references, hdeps⟩ := exists_dependencies_of_analyze h ha hm hunit hread
    obtain ⟨c', hc', hself', hreferences⟩ := dependencies_eq_ok_iff.1 hdeps
    obtain rfl : c' = c := Except.ok.inj (hc'.symm.trans hc)
    obtain rfl : self' = self := Except.ok.inj (hself'.symm.trans hself)
    have hremovable := isRemovable_eq_false_of_counted h ha hm hunit hcounted hkept hread hdeps
      (mem_references_of_hasClass hreferences hself hpoints harray hclass hne.symm)
    refine ⟨hremovable, fun b _ m' _ hname => ?_⟩
    unfold Retention.keeps
    rw [hname, hunitName]
    exact congrArg (! ·) hremovable

namespace Sample

/-- The class file of a class that refers to another one, with names of any code points. -/
def namedClassFile (name reference : Text) : Bytes :=
  let constants (name : Text) (index : UInt8) : Bytes :=
    let form := Utf8.encodeUnits (Utf8.units name)
    [1, 0, form.length.toUInt8] ++ form ++ [7, 0, index]
  [0xCA, 0xFE, 0xBA, 0xBE, 0, 0, 0, 52, 0, 5] ++ constants name 1 ++ constants reference 3 ++
    [0, 0, 0, 2, 0, 0, 0, 0, 0, 0, 0, 0, 0, 0]

/-- The archive of the class `X`, which refers to another one, and of that. -/
def namedArchive (reference : Text) : Bytes :=
  Archive.encode [member "X.class" (namedClassFile "X" reference),
    member (reference ++ Archive.classEnding) (namedClassFile reference "X")]

/-- The first member of the first archive, with the class file in it. -/
def first? (opened : List OpenArchive) :
    Option (OpenArchive × Archive.Member × Bytes × ClassFile) := do
  let a ← opened.head?
  let m ← a.archive.members.head?
  let data ← (a.read m).toOption
  return (a, m, data, ← (decode data).toOption)

theorem first?_eq_some {opened : List OpenArchive} {a : OpenArchive} {m : Archive.Member}
    {data : Bytes} {c : ClassFile} (h : first? opened = some (a, m, data, c)) :
    a ∈ opened ∧ m ∈ a.archive.members ∧ (∀ X, Counted opened X a m) ∧ a.read m = .ok data ∧
      decode data = .ok c := by
  unfold first? at h
  simp only [Option.bind_eq_bind, Option.bind_eq_some_iff, Except.toOption_eq_some,
    Option.pure_def, Option.some.injEq, Prod.mk.injEq] at h
  obtain ⟨_, ha, _, hm, _, hread, _, hc, rfl, rfl, rfl, rfl⟩ := h
  refine ⟨List.mem_of_mem_head? ha, List.mem_of_mem_head? hm, fun X => ⟨?_, fun _ => ?_⟩, hread, hc⟩
  · obtain ⟨rest, rfl⟩ := List.head?_eq_some_iff.1 ha
    exact ⟨[], rest, rfl, by simp⟩
  · obtain ⟨after, hafter⟩ := List.head?_eq_some_iff.1 hm
    exact ⟨[], after, hafter, by simp⟩

/-- The first class `X` of the first archive is one with the name `X` that has a class constant for
`N`, whose form is `form`, at the index 4. -/
theorem hasClass_of_first? (opened : List OpenArchive) (form : Bytes)
    (h : (first? opened).map (fun p =>
      (Archive.unitName? p.2.1.name, (name p.2.2.2).toOption,
        (p.2.2.2.pool.getTagged 4 Tag.classRef).toOption,
        (p.2.2.2.pool.getTagged 3 Tag.utf8).toOption)) =
      some (some ("X" : Text), some ("X" : Text), some (⟨Tag.classRef, [0, 3]⟩ : Constant),
        some (⟨Tag.utf8, form⟩ : Constant)))
    (hform : form.drop 2 = Utf8.encodeUnits (Utf8.units N)) :
    ∃ a m data c, a ∈ opened ∧ m ∈ a.archive.members ∧ Archive.unitName? m.name = some "X" ∧
      Counted opened "X" a m ∧ a.read m = .ok data ∧ decode data = .ok c ∧
      name c = .ok "X" ∧ c.pool.HasClass 4 N := by
  obtain ⟨⟨a, m, data, c⟩, hfirst, hfacts⟩ := Option.map_eq_some_iff.1 h
  obtain ⟨ha, hm, hcounted, hread, hc⟩ := first?_eq_some hfirst
  simp only [Prod.mk.injEq, Except.toOption_eq_some] at hfacts
  obtain ⟨hunit, hself, hk, hu⟩ := hfacts
  exact ⟨a, m, data, c, ha, hm, hunit, hcounted "X", hread, hc, hself, _, _, hk, hu, hform⟩

end Sample

/-- The class `é/Y` is kept with `X`, which refers to it. -/
theorem named_class_kept_accented : ∃ retention,
    (Retention.analyze Sample.task (Sample.files (Sample.namedArchive "é/Y") []) ["/a"]).outcome.1 =
        .ok retention ∧
      retention.reachability.isRemovable "é.Y" = false := by
  obtain ⟨retention, h, hX⟩ := exists_analyze Sample.task
    (Sample.files (Sample.namedArchive "é/Y") []) ["/a"] "X" (b := false) (by decide +kernel)
  obtain ⟨a, m, data, c, ha, hm, hunit, hcounted, hread, hc, hself, hclass⟩ :=
    Sample.hasClass_of_first? (N := "é/Y")
      (openAll (Sample.files (Sample.namedArchive "é/Y") []) ["/a"])
      [0, 4, 0xC3, 0xA9, 0x2F, 0x59] (by decide +kernel) (by decide +kernel)
  obtain ⟨-, hkept⟩ := named_class_kept (N := "é/Y") (by decide) (by decide +kernel)
  obtain ⟨hremovable, -⟩ := hkept _ _ _ retention "X" a m data c "X" 4 h ha hm hunit hcounted hX
    hread hc hself (by decide) (by decide) hclass (by decide)
  exact ⟨retention, h, hremovable⟩

/-- The class U+10000 is removed though `X` refers to it: its name is read as two surrogates. -/
theorem named_class_may_be_lost :
    ¬ ∀ (t : MinifyTask) (files : FileSystem) (archives : List Path) (retention : Retention)
        (N X : Text) (a : OpenArchive) (m : Archive.Member) (data : Bytes) (c : ClassFile)
        (self : Text) (index : Nat),
      N ≠ [] → (∀ c ∈ N, c < 0x110000 ∧ ¬ (0xD800 ≤ c ∧ c < 0xE000) ∧ c ∉ [0x2E, 0x3B, 0x5B]) →
      Archive.isVersioned N = false →
      (Retention.analyze t files archives).outcome.1 = .ok retention →
      a ∈ openAll files archives → m ∈ a.archive.members → Archive.unitName? m.name = some X →
      Counted (openAll files archives) X a m → retention.reachability.isRemovable X = false →
      a.read m = .ok data → decode data = .ok c → name c = .ok self → self ≠ dotted N →
      c.pool.HasClass index N →
      (∃ b ∈ openAll files archives, ∃ m' ∈ b.archive.members,
        m'.name = N ++ Archive.classEnding) →
      retention.reachability.isRemovable (dotted N) = false := by
  intro hall
  obtain ⟨retention, h, hN⟩ := exists_analyze Sample.task
    (Sample.files (Sample.namedArchive [0x10000]) []) ["/a"] [0x10000] (b := true)
    (by decide +kernel)
  obtain ⟨retention', h', hX⟩ := exists_analyze Sample.task
    (Sample.files (Sample.namedArchive [0x10000]) []) ["/a"] "X" (b := false) (by decide +kernel)
  obtain rfl : retention' = retention := Except.ok.inj (h'.symm.trans h)
  -- the form that is checked is that of the surrogates U+D800 and U+DC00
  obtain ⟨a, m, data, c, ha, hm, hunit, hcounted, hread, hc, hself, hclass⟩ :=
    Sample.hasClass_of_first? (N := [0x10000])
      (openAll (Sample.files (Sample.namedArchive [0x10000]) []) ["/a"])
      [0, 6, 0xED, 0xA0, 0x80, 0xED, 0xB0, 0x80] (by decide +kernel) (by decide +kernel)
  have hmember : ∃ b ∈ openAll (Sample.files (Sample.namedArchive [0x10000]) []) ["/a"],
      ∃ m' ∈ b.archive.members, m'.name = [0x10000] ++ Archive.classEnding := by decide +kernel
  have hfalse := hall _ _ _ retention' [0x10000] "X" a m data c "X" 4 (by decide) (by decide)
    (by decide +kernel) h ha hm hunit hcounted hX hread hc hself (by decide) hclass hmember
  have hsame : dotted [0x10000] = [0x10000] := by decide
  rw [hsame, hN] at hfalse
  exact Bool.noConfusion hfalse

end Jarsmith
