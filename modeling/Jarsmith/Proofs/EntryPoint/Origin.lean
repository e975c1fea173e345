import Jarsmith.Proofs.EntryPoint

/-!
# Where entry points come from

The entry points of a classpath are those configured and those that some archive holds
(`mem_resolve_iff`); what an archive holds is in a member that is looked for (`mem_ofMembers_iff`).
The order of the archives does not matter for that (`exists_resolve_of_perm`), and with more members
to look for an archive holds the same and more (`ofArchive_subset`).
-/

namespace Jarsmith.EntryPoint

variable {a : OpenArchive} {read : Bytes → Except Fault (List Text)} {names found found' : List Text}
  {X : Text}

/-- What is found in the members of a list of names is in one of them. -/
theorem mem_ofMembers_iff (hrun : (ofMembers a read names).outcome.1 = .ok found) :
    X ∈ found ↔ ∃ name ∈ names, ∃ m data values, a.member? name = some m ∧ a.read m = .ok data ∧
      read data = .ok values ∧ X ∈ values := by
  induction names generalizing found with
  | nil =>
    obtain rfl := Except.ok.inj hrun
    simp
  | cons name names ih =>
    rw [List.exists_mem_cons_iff]
    cases hm : a.member? name with
    | none =>
      rw [ofMembers_of_none hm] at hrun
      rw [ih hrun]
      simp
    | some m =>
      obtain ⟨data, first, rest, hdata, hread, hrest, rfl⟩ := (ofMembers_of_some hm).1 hrun
      rw [List.mem_append, ih hrest]
      -- What the member of the first name holds is determined by the archive.
      refine or_congr_left ⟨fun hX => ⟨m, data, first, rfl, hdata, hread, hX⟩, ?_⟩
      rintro ⟨m', data', values, hm', hdata', hread', hX⟩
      obtain rfl := Option.some.inj hm'
      obtain rfl := Except.ok.inj (hdata.symm.trans hdata')
      obtain rfl := Except.ok.inj (hread.symm.trans hread')
      exact hX

/-- In more members, more is found. -/
theorem ofMembers_subset {names' : List Text} (hnames : names ⊆ names')
    (hrun : (ofMembers a read names).outcome.1 = .ok found)
    (hrun' : (ofMembers a read names').outcome.1 = .ok found') : found ⊆ found' := by
  intro X hX
  obtain ⟨name, hname, hmember⟩ := (mem_ofMembers_iff hrun).1 hX
  exact (mem_ofMembers_iff hrun').2 ⟨name, hnames hname, hmember⟩

namespace Sources

variable {s s' : Sources} {files : FileSystem} {archives archives' : List Path} {p : Path}

/-- An archive in which more members are looked for holds the same entry points and more. -/
theorem ofArchive_subset (hproperties : s.propertyMembers ⊆ s'.propertyMembers)
    (hservices : s.serviceMembers ⊆ s'.serviceMembers)
    (hrun : (s.ofArchive files p).outcome.1 = .ok found)
    (hrun' : (s'.ofArchive files p).outcome.1 = .ok found') : found ⊆ found' := by
  cases hempty : s.propertyMembers.isEmpty && s.serviceMembers.isEmpty with
  | true =>
    -- With nothing to look for, nothing is found.
    unfold ofArchive at hrun
    rw [hempty, if_pos rfl] at hrun
    obtain rfl := Except.ok.inj hrun
    exact List.nil_subset _
  | false =>
    -- Then there is something to look for with more members too, and the archive is opened.
    have hempty' : (s'.propertyMembers.isEmpty && s'.serviceMembers.isEmpty) = false := by
      rw [← Bool.not_eq_true, Bool.and_eq_true, List.isEmpty_iff, List.isEmpty_iff] at hempty ⊢
      rintro ⟨hp, hs⟩
      exact hempty ⟨List.subset_nil.1 (hp ▸ hproperties), List.subset_nil.1 (hs ▸ hservices)⟩
    obtain ⟨a, ps, ss, hload, hps, hss, rfl⟩ := (s.ofArchive_eq_ok hempty).1 hrun
    obtain ⟨a', ps', ss', hload', hps', hss', rfl⟩ := (s'.ofArchive_eq_ok hempty').1 hrun'
    obtain rfl := Except.ok.inj (hload.symm.trans hload')
    intro X
    rw [Text.mem_unique, Text.mem_unique, List.mem_append, List.mem_append]
    exact Or.imp (ofMembers_subset hproperties hps hps' ·) (ofMembers_subset hservices hss hss' ·)

theorem mem_resolve_iff (hrun : (s.resolve files archives).outcome.1 = .ok found) :
    X ∈ found ↔ X ∈ s.configured ∨
      ∃ p ∈ archives, ∃ list, (s.ofArchive files p).outcome.1 = .ok list ∧ X ∈ list := by
  obtain ⟨lists, hlists, rfl⟩ := resolve_eq_ok_iff.1 hrun
  rw [Text.mem_unique, List.mem_append]
  refine or_congr_right ?_
  clear hrun
  induction hlists with
  | nil => simp
  | @cons p list archives lists hlist _ ih =>
    rw [List.flatten_cons, List.mem_append, ih, List.exists_mem_cons_iff]
    simp [hlist]

theorem exists_resolve_iff : (∃ found, (s.resolve files archives).outcome.1 = .ok found) ↔
    ∀ p ∈ archives, ∃ list, (s.ofArchive files p).outcome.1 = .ok list := by
  constructor
  · rintro ⟨found, hrun⟩
    obtain ⟨lists, hlists, -⟩ := resolve_eq_ok_iff.1 hrun
    clear hrun
    induction hlists with
    | nil => simp
    | cons hlist _ ih => exact List.forall_mem_cons.2 ⟨⟨_, hlist⟩, ih⟩
  · intro hall
    choose! list hlist using hall
    refine ⟨_, resolve_eq_ok_iff.2 ⟨archives.map list, ?_, rfl⟩⟩
    rw [List.forall₂_map_right_iff, List.forall₂_same]
    exact hlist

/-- The entry points of archives in another order are the same. -/
theorem exists_resolve_of_perm (hperm : archives.Perm archives')
    (hrun : (s.resolve files archives).outcome.1 = .ok found) :
    ∃ found', (s.resolve files archives').outcome.1 = .ok found' ∧ ∀ X, X ∈ found' ↔ X ∈ found := by
  have hall := exists_resolve_iff.1 ⟨found, hrun⟩
  obtain ⟨found', hrun'⟩ := exists_resolve_iff.2 fun p hp => hall p (hperm.mem_iff.2 hp)
  refine ⟨found', hrun', fun X => ?_⟩
  rw [mem_resolve_iff hrun, mem_resolve_iff hrun']
  simp only [hperm.mem_iff]

/-- With more sources and more archives there are the same entry points and more. -/
theorem resolve_subset (hconfigured : s.configured ⊆ s'.configured)
    (hproperties : s.propertyMembers ⊆ s'.propertyMembers)
    (hservices : s.serviceMembers ⊆ s'.serviceMembers) (harchives : archives ⊆ archives')
    (hrun : (s.resolve files archives).outcome.1 = .ok found)
    (hrun' : (s'.resolve files archives').outcome.1 = .ok found') : found ⊆ found' := by
  intro X hX
  refine (mem_resolve_iff hrun').2 ?_
  rcases (mem_resolve_iff hrun).1 hX with hX | ⟨p, hp, list, hlist, hX⟩
  · exact .inl (hconfigured hX)
  · obtain ⟨list', hlist'⟩ := exists_resolve_iff.1 ⟨found', hrun'⟩ p (harchives hp)
    exact .inr ⟨p, harchives hp, list', hlist',
      ofArchive_subset hproperties hservices hlist hlist' hX⟩

end Sources

end Jarsmith.EntryPoint
