import Jarsmith.Proofs.ClassFile.Reference
import Jarsmith.Proofs.ClassFile.RoundTrip
import Jarsmith.Proofs.ClassGraph.Reduction

/-!
# Entry points of archives with fewer classes

Entry points are read from members that hold text. A class file is never one, since its first bytes
are no text in UTF-8 (`utf8_eq_none_of_decode`). So where entry points could be read, none of the
members that they came from defines a class, and an archive that only lost classes gives the same
ones (`ofArchive_of_reduced`).
-/

namespace Jarsmith

open OpenArchive ClassGraph

variable {K : Text → Bool} {a a' : OpenArchive} {name : Text} {m : Archive.Member} {data : Bytes}

/-- The bytes of a class file are no text. -/
theorem ClassFile.utf8_eq_none_of_decode {c : ClassFile} (h : decode data = .ok c) :
    Utf8.decode data = none := by
  obtain ⟨-, written, rest, hwritten, rfl⟩ := decode_eq_ok_iff.1 h
  obtain ⟨first, after, hfirst, -, rfl⟩ := concat?_cons_eq_some_iff.1 hwritten
  obtain rfl : [0xCA, 0xFE, 0xBA, 0xBE] = first := Bytes.ofBig_of_ofBig? hfirst
  rfl

/-! ### Members of a name -/

theorem OpenArchive.find?_of_forall₂_replaces {ms ms' : List Archive.Member} {p : Text → Bool}
    (h : List.Forall₂ (Replaces a a') ms ms') :
    (ms.find? (fun m => p m.name) = none ∧ ms'.find? (fun m => p m.name) = none) ∨
      ∃ m m', ms.find? (fun m => p m.name) = some m ∧ ms'.find? (fun m => p m.name) = some m' ∧
        Replaces a a' m m' := by
  induction h with
  | nil => exact .inl ⟨rfl, rfl⟩
  | @cons m m' _ _ hm _ ih =>
    rw [List.find?_cons, List.find?_cons, hm.name]
    cases p m.name with
    | true => exact .inr ⟨m, m', rfl, rfl, hm⟩
    | false => exact ih

/-- The member of a name, if there is one, is still there unless it defines a class. -/
theorem OpenArchive.member?_of_reduced (h : Reduced K a a') (name : Text) :
    match a.member? name with
    | none => a'.member? name = none
    | some m => Archive.isClass name = true ∨
        ∃ m', a'.member? name = some m' ∧ Replaces a a' m m' := by
  have hfind := find?_of_forall₂_replaces (p := (· = name)) (List.forall₂_reverse_iff.2 h)
  rw [← List.filter_reverse] at hfind
  unfold member?
  cases hm : a.archive.members.reverse.find? (·.name = name) with
  | none =>
    have hnone : (a.archive.members.reverse.filter (staysFor K)).find? (·.name = name) = none :=
      List.find?_eq_none.2 fun m hm' =>
        List.find?_eq_none.1 hm m (List.mem_filter.1 hm').1
    rcases hfind with ⟨-, hnone'⟩ | ⟨m, m', hsome, -⟩
    · exact hnone'
    · exact absurd (hsome.symm.trans hnone) (Option.some_ne_none m)
  | some m =>
    cases hclass : Archive.isClass name with
    | true => exact .inl rfl
    | false =>
      -- every member of the name stays, so that the last one is the same
      have hsame :
          (a.archive.members.reverse.filter (staysFor K)).find? (·.name = name) = some m := by
        rw [List.find?_filter, ← hm]
        congr 1
        funext m
        by_cases hname : m.name = name
        · have hunit : Archive.unitName? m.name = none := by
            simpa [Archive.isClass, ← hname] using hclass
          simp [staysFor_of_none hunit]
        · simp [hname]
      rcases hfind with ⟨hnone, -⟩ | ⟨m₀, m', hsome, hsome', hreplaces⟩
      · exact absurd (hsame.symm.trans hnone) (Option.some_ne_none m)
      · obtain rfl := Option.some.inj (hsome.symm.trans hsame)
        exact .inr ⟨m', hsome', hreplaces⟩

namespace EntryPoint

variable {read : Bytes → Except Fault (List Text)} {names found : List Text}

/-! ### Reading members -/

theorem ofProperties_ne_ok (h : Utf8.decode data = none) : ofProperties data ≠ .ok found := by
  unfold ofProperties
  rw [h]
  simp

theorem ofServices_ne_ok (h : Utf8.decode data = none) : ofServices data ≠ .ok found := by
  unfold ofServices
  rw [h]
  simp

theorem ofMembers_of_none (h : a.member? name = none) :
    ofMembers a read (name :: names) = ofMembers a read names := by
  rw [ofMembers, h]

/-- The result for a list of names is made of what the member of the first one holds and of the
result for the others. The events between do not matter. -/
theorem result_ofMembers_of_some (h : a.member? name = some m) :
    (ofMembers a read (name :: names)).outcome.1 =
      (((a.read m).bind read).mapError (ofMembers.wrap a name)).bind fun first =>
        (ofMembers a read names).outcome.1.map (first ++ ·) := by
  have hdone (first : List Text) : Traced.Blind (do
      let rest ← ofMembers a read names
      return first ++ rest) := .bind (ofMembers_blind a read names) fun _ => .pure _
  have hrest (first : List Text) : Traced.Blind (do
      Traced.report (Log.event .debug .analyze
        (a.label name ++ (": " : Text) ++ Text.ofNat first.length ++ (" 个入口点" : Text)))
      return first ++ (← ofMembers a read names)) := .bind (.report _) fun _ => hdone first
  rw [ofMembers, h]
  dsimp only
  show _ = ((do read (← a.read m) : Except Fault (List Text)).mapError _).bind _
  cases hfirst : (do read (← a.read m) : Except Fault (List Text)) with
  | error e =>
    rw [Traced.result_bind hrest]
    rfl
  | ok first =>
    rw [Traced.result_bind hrest, show (Traced.outcome (pure first)).1 = .ok first from rfl]
    show (Traced.outcome _).1 = (ofMembers a read names).outcome.1.map (first ++ ·)
    rw [Traced.result_bind fun _ => hdone first,
      show (Traced.outcome (Traced.report _)).1 = .ok () from rfl]
    show (Traced.outcome _).1 = _
    rw [Traced.result_bind fun _ => .pure _]
    cases (ofMembers a read names).outcome.1 <;> rfl

/-- What the members of a list of names hold is what the first one holds, and then the others. -/
theorem ofMembers_of_some (h : a.member? name = some m) :
    (ofMembers a read (name :: names)).outcome.1 = .ok found ↔ ∃ data first rest,
      a.read m = .ok data ∧ read data = .ok first ∧ (ofMembers a read names).outcome.1 = .ok rest ∧
        found = first ++ rest := by
  rw [result_ofMembers_of_some h]
  constructor
  · intro hrun
    obtain ⟨first, hfirst, hrun⟩ := Except.bind_eq_ok.1 hrun
    obtain ⟨data, hdata, hread⟩ := Except.bind_eq_ok.1 (Except.mapError_eq_ok.1 hfirst)
    obtain ⟨rest, hothers, rfl⟩ := Except.map_eq_ok.1 hrun
    exact ⟨data, first, rest, hdata, hread, hothers, rfl⟩
  · rintro ⟨data, first, rest, hdata, hread, hothers, rfl⟩
    refine Except.bind_eq_ok.2 ⟨first, ?_, Except.map_eq_ok.2 ⟨rest, hothers, rfl⟩⟩
    exact Except.mapError_eq_ok.2 (Except.bind_eq_ok.2 ⟨data, hdata, hread⟩)

/-- Nothing is read of the data of a class, as they are no text. -/
theorem isClass_eq_false_of_read (hfailure : (readingOf a).failure? = none)
    (htext : ∀ data found, Utf8.decode data = none → read data ≠ .ok found)
    (hm : a.member? name = some m) (hdata : a.read m = .ok data) (hread : read data = .ok found) :
    Archive.isClass name = false := by
  obtain ⟨hmem, rfl⟩ := member?_eq_some hm
  rw [Archive.isClass, Option.isSome_eq_false_iff, Option.isNone_iff_eq_none,
    Option.eq_none_iff_forall_ne_some]
  -- the data of every class were decoded for the graph
  intro X hunit
  obtain ⟨f, -, data', self, references, hdata', hdeps, -⟩ :=
    exists_found hfailure (mem_classMembers.2 ⟨hmem, hunit⟩)
  obtain rfl := Except.ok.inj (hdata'.symm.trans hdata)
  obtain ⟨c, hc, -⟩ := ClassFile.dependencies_eq_ok_iff.1 hdeps
  exact htext data' found (ClassFile.utf8_eq_none_of_decode hc) hread

/-- The members of a reduced archive hold what they held before. -/
theorem ofMembers_of_reduced (h : Reduced K a a') (hfailure : (readingOf a).failure? = none)
    (htext : ∀ data found, Utf8.decode data = none → read data ≠ .ok found)
    (hrun : (ofMembers a read names).outcome.1 = .ok found) :
    (ofMembers a' read names).outcome.1 = .ok found := by
  induction names generalizing found with
  | nil => exact hrun
  | cons name names ih =>
    have hmember := member?_of_reduced h name
    cases hm : a.member? name with
    | none =>
      rw [hm] at hmember
      rw [ofMembers_of_none hm] at hrun
      rw [ofMembers_of_none hmember]
      exact ih hrun
    | some m =>
      rw [hm] at hmember
      obtain ⟨data, first, rest, hdata, hread, hrest, rfl⟩ := (ofMembers_of_some hm).1 hrun
      have hclass := isClass_eq_false_of_read hfailure htext hm hdata hread
      obtain ⟨m', hm', hreplaces⟩ := hmember.resolve_left (by simp [hclass])
      have hname : m.name = name := (member?_eq_some hm).2
      have hdata' := hreplaces.read (hname ▸ hclass) data hdata
      exact (ofMembers_of_some hm').2 ⟨data, first, rest, hdata', hread, ih hrest, rfl⟩

namespace Sources

variable {files files' : FileSystem} {p p' : Path}

theorem result_ofArchive (s : Sources) (h : (s.propertyMembers.isEmpty &&
      s.serviceMembers.isEmpty) = false) :
    (s.ofArchive files p).outcome.1 = (OpenArchive.load files p).bind fun a =>
      (ofMembers a ofProperties s.propertyMembers).outcome.1.bind fun properties =>
        (ofMembers a ofServices s.serviceMembers).outcome.1.map fun services =>
          Text.unique (properties ++ services) := by
  have hservices (a : OpenArchive) (properties : List Text) : Traced.Blind (do
      let services ← ofMembers a ofServices s.serviceMembers
      return Text.unique (properties ++ services)) :=
    .bind (ofMembers_blind a _ _) fun _ => .pure _
  have hrest (a : OpenArchive) : Traced.Blind (do
      let properties ← ofMembers a ofProperties s.propertyMembers
      let services ← ofMembers a ofServices s.serviceMembers
      return Text.unique (properties ++ services)) :=
    .bind (ofMembers_blind a _ _) (hservices a)
  unfold ofArchive
  rw [h, if_neg Bool.false_ne_true, Traced.result_bind hrest]
  show (OpenArchive.load files p).bind _ = _
  congr 1
  funext a
  rw [Traced.result_bind (hservices a)]
  congr 1
  funext properties
  rw [Traced.result_bind fun _ => .pure _]
  cases (ofMembers a ofServices s.serviceMembers).outcome.1 <;> rfl

theorem ofArchive_eq_ok (s : Sources) (h : (s.propertyMembers.isEmpty &&
      s.serviceMembers.isEmpty) = false) :
    (s.ofArchive files p).outcome.1 = .ok found ↔ ∃ a properties services,
      OpenArchive.load files p = .ok a ∧
      (ofMembers a ofProperties s.propertyMembers).outcome.1 = .ok properties ∧
      (ofMembers a ofServices s.serviceMembers).outcome.1 = .ok services ∧
      found = Text.unique (properties ++ services) := by
  rw [s.result_ofArchive h]
  constructor
  · intro hrun
    obtain ⟨a, hload, hrun⟩ := Except.bind_eq_ok.1 hrun
    obtain ⟨properties, hproperties, hrun⟩ := Except.bind_eq_ok.1 hrun
    obtain ⟨services, hservices, rfl⟩ := Except.map_eq_ok.1 hrun
    exact ⟨a, properties, services, hload, hproperties, hservices, rfl⟩
  · rintro ⟨a, properties, services, hload, hproperties, hservices, rfl⟩
    refine Except.bind_eq_ok.2 ⟨a, hload, Except.bind_eq_ok.2 ⟨properties, hproperties, ?_⟩⟩
    exact Except.map_eq_ok.2 ⟨services, hservices, rfl⟩

/-- A reduced archive has the entry points that it had. -/
theorem ofArchive_of_reduced (s : Sources) (hload : OpenArchive.load files p = .ok a)
    (hload' : OpenArchive.load files' p' = .ok a') (h : Reduced K a a')
    (hfailure : (readingOf a).failure? = none)
    (hrun : (s.ofArchive files p).outcome.1 = .ok found) :
    (s.ofArchive files' p').outcome.1 = .ok found := by
  cases hempty : s.propertyMembers.isEmpty && s.serviceMembers.isEmpty with
  | true =>
    -- with nothing to look for, no archive is opened
    unfold ofArchive at hrun ⊢
    rw [hempty, if_pos rfl] at hrun ⊢
    exact hrun
  | false =>
    obtain ⟨a₀, properties, services, ha₀, hproperties, hservices, rfl⟩ :=
      (s.ofArchive_eq_ok hempty).1 hrun
    obtain rfl := Except.ok.inj (ha₀.symm.trans hload)
    exact (s.ofArchive_eq_ok hempty).2 ⟨a', properties, services, hload',
      ofMembers_of_reduced h hfailure (fun _ _ => ofProperties_ne_ok) hproperties,
      ofMembers_of_reduced h hfailure (fun _ _ => ofServices_ne_ok) hservices, rfl⟩

/-- The entry points of a classpath are put together from those of its archives. -/
theorem resolve_eq_ok_iff {s : Sources} {archives : List Path} :
    (s.resolve files archives).outcome.1 = .ok found ↔ ∃ lists,
      List.Forall₂ (fun p list => (s.ofArchive files p).outcome.1 = .ok list) archives lists ∧
      found = Text.unique (s.configured ++ lists.flatten) := by
  unfold resolve
  rw [Traced.outcome_bind_eq_ok fun _ => .pure _]
  refine exists_congr fun lists => ?_
  rw [Traced.outcome_mapM_eq_ok fun p => s.ofArchive_blind files p]
  exact and_congr_right fun _ => ⟨fun h => (Except.ok.inj h).symm, fun h => congrArg Except.ok h.symm⟩

/-- Where no archive gives other entry points than before, they are all as before. -/
theorem resolve_of_forall₂ (s : Sources) {archives archives' : List Path}
    (h : List.Forall₂ (fun p p' => ∀ found, (s.ofArchive files p).outcome.1 = .ok found →
      (s.ofArchive files' p').outcome.1 = .ok found) archives archives')
    (hrun : (s.resolve files archives).outcome.1 = .ok found) :
    (s.resolve files' archives').outcome.1 = .ok found := by
  -- what the archives gave is put together in the same way, so that it is enough to read them
  obtain ⟨lists, hlists, rfl⟩ := resolve_eq_ok_iff.1 hrun
  refine resolve_eq_ok_iff.2 ⟨lists, ?_, rfl⟩
  clear hrun
  induction h generalizing lists with
  | nil =>
    obtain rfl := List.forall₂_nil_left_iff.1 hlists
    exact .nil
  | cons hp _ ih =>
    obtain ⟨first, rest, hfirst, hrest, rfl⟩ := List.forall₂_cons_left_iff.1 hlists
    exact .cons (hp first hfirst) (ih rest hrest)

end Sources

end EntryPoint

end Jarsmith
