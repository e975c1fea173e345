import Jarsmith.Proofs.Archive.RoundTrip
import Jarsmith.Proofs.Repackaging.Stop

/-!
# What a repackaging leaves

Whether a repackaging succeeds or fails, its output is the archive of the members before the first
one that stops the run (`repackage_leaves`). It can be relied on because nothing else fails once the
output was begun: the output is neither the input nor the log, so that nothing but the repackaging
changes it, and what is reported can be written to the log (`outcome_repackage`).

The archive that was written reads back unless it would need the records of large archives, which
are not written (`readsBack_of_rewritten`). Then each of its members has what the kept member had
(`Carried`); the extra field, which is a sequence of records in every archive that can be opened,
has lost the records of large archives.

Names in the code of a single byte a character are written in UTF-8, where they may take three times
as many bytes. So a member can stop the run though it can be read and no editor fails
(`repackage_may_stop_at_name`).
-/

namespace Jarsmith

open Archive

namespace Repackaging

variable {e : Setting} {p : Plan} {a : OpenArchive} {w : World} {strict : Bool}
  {input output : Path} {begun : FileSystem}

/-! ### The output -/

/-- The events of a run are reported if the names of the archive and of its members can be. -/
theorem isScalar_logLine_of_mem_events {event : Log.Event} {c : Console}
    (hname : ∀ m ∈ a.archive.members, m.name.IsScalar) (htakes : c.Takes a.path.name)
    (h : event ∈ (processMembers p a a.bytes a.archive.members).events)
    (hshown : event.level.isShown c.threshold = true) (hopen : c.logFile?.isSome = true) :
    (Session.logLine c event).IsScalar := by
  obtain ⟨m, hm, rfl⟩ := exists_of_mem_events h
  -- what is shown of the lowest level is shown of every level
  have hinfo : Log.Level.info.isShown c.threshold = true := by
    have hrank : c.threshold.rank ≤ 0 := of_decide_eq_true hshown
    exact decide_eq_true (hrank.trans (Nat.zero_le _))
  obtain ⟨hday, htime, harchive⟩ := htakes hinfo hopen
  refine Session.isScalar_logLine_event (Text.isScalar_ofString _) (Text.isScalar_ofString _) hday
    htime ?_
  simp [harchive, hname m hm]

/-- Once the output was begun and all that is needed was read, the archive is written in any case,
and it is the output that is left. -/
theorem outcome_finish {events : List Log.Event} {old contents : Bytes} {failure? : Option Fault}
    {message : Nat → Text} {stats : Stats} (hw : w.Ready e)
    (hread : w.files.read output = .ok old) (hlog : e.log? ≠ some (output.landing e.root))
    (hevents : ∀ event ∈ events, event.level.isShown w.console.threshold = true →
      w.console.logFile?.isSome = true → (Session.logLine w.console event).IsScalar)
    (hmessage : ∀ size, w.console.Takes (message size)) :
    ∃ after, Session.outcome (do
      Session.emitAll events
      Session.change fun files => files.write .replace output contents
      if let some fault := failure? then throw fault
      let outputSize ← Session.ask (·.size output)
      Session.report .info .repack (message outputSize)
      return stats) w =
        (match failure? with
          | some fault => .error fault
          | none => .ok stats, after) ∧ after.files.read output = .ok contents := by
  -- the reports leave the output as it was begun
  obtain ⟨w₁, hreports⟩ := Session.exists_emitAll hw hevents
  have hsteady := (Session.Within.emitAll (World.Steady.framing e) _).relates hw hreports
  have hspares := (Session.Within.emitAll (World.Spares.framing e ∅) _).relates hw hreports
  have hw₁ : w₁.Ready e := hspares.ready hw
  have hread₁ := hspares.read hw (Set.notMem_empty _) hlog hread
  obtain ⟨files, hfiles⟩ := FileSystem.exists_write_of_read hread₁ contents
  let w₂ : World := { w₁ with files }
  have hwritten : (Session.change fun files =>
      files.write .replace output contents).outcome w₁ = (.ok (), w₂) :=
    Session.outcome_change_eq_ok.2 ⟨files, hfiles, rfl⟩
  have hw₂ : w₂.Ready e := ((Session.Within.write _ _ _).relates hw₁ hwritten).ready hw₁
  have hread₂ : w₂.files.read output = .ok contents := FileSystem.read_of_write hfiles
  rw [Session.outcome_bind, hreports]
  dsimp only
  rw [Session.outcome_bind, hwritten]
  dsimp only
  cases failure? with
  | some fault => exact ⟨w₂, rfl, hread₂⟩
  | none =>
    dsimp only
    rw [Session.outcome_bind,
      Session.outcome_ask_eq_ok.2 ⟨FileSystem.size_of_read hread₂, rfl⟩]
    dsimp only
    have htakes : w₂.console.Takes (message contents.length) :=
      hsteady.console.takes (hmessage contents.length)
    obtain ⟨after, hreport⟩ := Session.exists_report
      (show Log.Stage.repack.name.IsScalar from Text.isScalar_ofString _) htakes
    have hspares₂ := (Session.Within.report (World.Spares.framing e ∅) _ _ _).relates hw₂ hreport
    rw [Session.outcome_bind, hreport]
    exact ⟨after, rfl, hspares₂.read hw₂ (Set.notMem_empty _) hlog hread₂⟩

/-- The run over the members decides what the repackaging gives, and what the output holds. -/
theorem outcome_repackage (hw : w.LogReady) (hload : OpenArchive.load w.files input = .ok a)
    (hcreate : w.files.write (writeMode strict) output [] = .ok begun)
    (hinput : output.landing w.files.workingDirectory ≠ input.landing w.files.workingDirectory)
    (hlog : w.console.logFile? ≠ some (output.landing w.files.workingDirectory))
    (htakes : w.console.Takes input.name) (htakes' : w.console.Takes output.name) :
    let run := processMembers p a a.bytes a.archive.members
    ∃ after, (repackage strict p input output).outcome w =
        (match run.failure? with
          | some fault => .error fault
          | none => .ok ⟨run.seen, run.written.length, run.dropped, run.modified, a.bytes.length⟩,
        after) ∧
      after.files.read output = .ok (Archive.encode run.written) := by
  obtain ⟨hpath, hread, harchive⟩ := OpenArchive.load_eq_ok.1 hload
  have hready : w.Ready w.setting := ⟨rfl, hw⟩
  -- the output is begun, and the input is what it was
  have hbegun : (Session.change fun files => files.write (writeMode strict) output []).outcome w =
      (.ok (), { w with files := begun }) := Session.outcome_change_eq_ok.2 ⟨begun, hcreate, rfl⟩
  have hready₁ := ((Session.Within.write _ _ _).relates hready hbegun).ready hready
  have hread₁ : begun.read input = .ok a.bytes :=
    (FileSystem.write_spares hcreate).read hread fun hmem => hinput (Eq.symm hmem)
  unfold repackage
  dsimp only
  rw [Session.outcome_bind, Session.outcome_ask_eq_ok.2 ⟨FileSystem.size_of_read hread, rfl⟩]
  dsimp only
  rw [Session.outcome_bind, Session.outcome_get]
  dsimp only
  rw [Session.outcome_bind, Session.outcome_lift, hload]
  dsimp only
  rw [Session.outcome_bind, hbegun]
  dsimp only
  rw [Session.outcome_bind, Session.outcome_ask_eq_ok.2 ⟨hread₁, rfl⟩]
  dsimp only
  refine outcome_finish hready₁ (FileSystem.read_of_write hcreate) hlog ?_ ?_
  · intro event hevent
    have hnames (m : Member) (hm : m ∈ a.archive.members) : m.name.IsScalar :=
      (ofEntry_of_ofBytes harchive m hm).name.scalar
    exact isScalar_logLine_of_mem_events hnames (hpath ▸ htakes) hevent
  · intro size hshown hopen
    obtain ⟨hday, htime, hin⟩ := htakes hshown hopen
    obtain ⟨-, -, hout⟩ := htakes' hshown hopen
    exact ⟨hday, htime, by simp [hin, hout]⟩

/-! ### Members of the output -/

/-- The member of the output has what the kept member had: all that is recorded of it, only that no
marks of the system become those of a file of its owner, and that the records of large archives are
taken out of the extra field, together with what is no record at its end. The data are the same, but
in a class member they went through the editor, if there is one. -/
structure Carried (editor? : Option Editor) (a b : OpenArchive) (m m' : Member) : Prop where
  name : m'.name = m.name
  method : m'.method = m.method
  date : m'.date = m.date
  time : m'.time = m.time
  comment : m'.comment = m.comment
  system : m'.system = m.system
  internal : m'.internal = m.internal
  external : m.external ≠ 0 → m'.external = m.external
  extra : ∃ (records : List Extra.Record) (tail : Bytes), tail.length ≤ 3 ∧
    m.extra = records.flatMap Extra.Record.bytes ++ tail ∧
    m'.extra = (records.filter (·.id ≠ Extra.largeId)).flatMap Extra.Record.bytes
  data : ∃ data data', a.read m = .ok data ∧ b.read m' = .ok data' ∧
    match editorFor? editor? m.name with
    | some r => r data = .ok (.bytes data')
    | none => data' = data

theorem carried_of_rewritten {editor? : Option Editor} {new : NewMember} {m' : Member}
    (hentry : m.OfEntry) (hnew : Rewritten editor? a m new) (hholds : b.Holds m' new) :
    Carried editor? a b m m' := by
  obtain ⟨records, tail, htail, hextra⟩ := hentry.wellFormed
  obtain ⟨data, hdata, hedited⟩ := hnew.data
  have hrecorded : m'.toEntry = { newEntry m with
      external := if m.external = 0 then ownerAccess else m.external } := by
    rw [hholds.entry, NewMember.recorded, hnew.entry]
    rfl
  have hfield {β : Type} (f : Entry → β) := congrArg f hrecorded
  exact {
    name := hfield Entry.name
    method := hfield Entry.method
    date := hfield Entry.date
    time := hfield Entry.time
    comment := hfield Entry.comment
    system := hfield Entry.system
    internal := hfield Entry.internal
    external := fun hne => (hfield Entry.external).trans (if_neg hne)
    extra := by
      refine ⟨records, tail, htail, hextra, ?_⟩
      rw [hfield Entry.extra, ← Extra.dropLarge_records records htail, ← hextra]
      rfl
    data := ⟨data, new.data, hdata, hholds.read, hedited⟩ }

/-- What is written for a member of an archive can be read back. -/
theorem storable_of_rewritten {editor? : Option Editor} {new : NewMember} (hentry : m.OfEntry)
    (hnew : Rewritten editor? a m new) (hname : m.isWritable = true)
    (hdata : new.data.length < 0x100000000) (hstored : new.stored.length < 0x100000000) :
    new.Storable := by
  obtain ⟨records, tail, htail, hextra⟩ := hentry.wellFormed
  obtain ⟨data, hread, -⟩ := hnew.data
  obtain ⟨entry, newData, level⟩ := new
  obtain rfl : entry = newEntry m := hnew.entry
  have hlarge : Extra.dropLarge m.extra =
      (records.filter (·.id ≠ Extra.largeId)).flatMap Extra.Record.bytes := by
    rw [hextra, Extra.dropLarge_records records htail]
  exact {
    fits := {
      system := hentry.system
      flags := by
        unfold NewMember.raw
        dsimp only
        split <;> decide
      method := hentry.method
      time := hentry.time
      date := hentry.date
      checksum := UInt32.toNat_lt _
      compressedSize := hstored
      size := hdata
      internal := hentry.internal
      external := by
        show (if m.external = 0 then ownerAccess else m.external) < 0x100000000
        split
        · decide
        · exact hentry.external
      name := of_decide_eq_true hname
      extra := Nat.lt_of_le_of_lt (Extra.length_dropLarge_le _) hentry.extra
      comment := hentry.comment }
    name := hentry.name
    noNul := hentry.noNul
    extra := ⟨_, hlarge, fun r hr => of_decide_eq_true (List.mem_filter.1 hr).2⟩
    method := (OpenArchive.read_eq_ok.1 hread).1 }

theorem forall₂_carried {editor? : Option Editor} {done members : List Member}
    {written : List NewMember} (hentries : ∀ m ∈ done, m.OfEntry)
    (hnew : List.Forall₂ (Rewritten editor? a) done written)
    (hholds : List.Forall₂ b.Holds members written) :
    List.Forall₂ (Carried editor? a b) done members := by
  induction hnew generalizing members with
  | nil =>
    cases hholds
    exact .nil
  | cons hm _ ih =>
    obtain _ | ⟨hm', hrest⟩ := hholds
    obtain ⟨hentry, hentries⟩ := List.forall_mem_cons.1 hentries
    exact .cons (carried_of_rewritten hentry hm hm') (ih hentries hrest)

/-- What is written for members that do not stop the run is read back. -/
theorem readsBack_of_rewritten {done : List Member} {written : List NewMember}
    (hentries : ∀ m ∈ done, m.OfEntry) (hgoesOn : ∀ m ∈ done, ∀ e, ¬ Stops p a m e)
    (hnew : List.Forall₂ (Rewritten p.editor? a) done written) (h : Ordinary written) :
    ReadsBack written := by
  refine readsBack_of_storable (fun new hmem => ?_) h
  obtain ⟨m, hm, hrewritten⟩ := exists_mem_of_forall₂ hnew hmem
  have hname : m.isWritable = true := by
    by_contra hlong
    exact hgoesOn m hm _ (.name hrewritten (Bool.eq_false_iff.2 hlong))
  exact storable_of_rewritten (hentries m hm) hrewritten hname (h.data new hmem)
    (Nat.lt_of_le_of_lt (length_stored_le hmem) h.size)

/-! ### What is left in any case -/

/-- What is left of a repackaging of which the result is given: of the kept members, those of `done`
are in the output, in their order, and none of them stops the run; the first of `rest` does so, and
nothing is left if all went well. Then the members are counted. -/
structure Leaves (p : Plan) (a : OpenArchive) (output : Path) (files : FileSystem)
    (result : Except Fault Stats) (done rest : List Member) : Prop where
  kept : (a.archive.members.filter fun m => p.keeps m.name) = done ++ rest
  goesOn : ∀ m ∈ done, ∀ e, ¬ Stops p a m e
  stopsAt : StopsAt p a rest (fault? result)
  output : ∃ written, files.read output = .ok (encode written) ∧
    List.Forall₂ (Rewritten p.editor? a) done written ∧
    (Ordinary written → ReadsBack written) ∧
    (ReadsBack written → ∃ b, OpenArchive.load files output = .ok b ∧
      List.Forall₂ (Carried p.editor? a b) done b.archive.members)
  stats : ∀ stats, result = .ok stats →
    stats.total = a.archive.members.length ∧
    stats.total = stats.kept + stats.dropped ∧
    stats.kept = done.length ∧
    (stats.modified = if p.editor?.isSome then
      (done.filter fun m => Archive.isClass m.name).length else 0) ∧
    stats.inputSize = a.bytes.length

/-- **What a repackaging leaves**: if its output can be begun and is neither the input nor the log,
and reports can be written, the kept members are taken in their order up to the first that fails or
whose name is too long to be written. The output holds those before it, whether the repackaging
succeeds or fails. -/
theorem repackage_leaves (hw : w.LogReady) (hload : OpenArchive.load w.files input = .ok a)
    (hcreate : w.files.write (writeMode strict) output [] = .ok begun)
    (hinput : output.landing w.files.workingDirectory ≠ input.landing w.files.workingDirectory)
    (hlog : w.console.logFile? ≠ some (output.landing w.files.workingDirectory))
    (htakes : w.console.Takes input.name) (htakes' : w.console.Takes output.name) :
    ∃ done rest, Leaves p a output ((repackage strict p input output).outcome w).2.files
      ((repackage strict p input output).outcome w).1 done rest := by
  obtain ⟨after, houtcome, hread⟩ :=
    outcome_repackage (p := p) hw hload hcreate hinput hlog htakes htakes'
  obtain ⟨done, rest, hkept, hgoesOn, hrewritten, hstops⟩ :=
    processMembers_stopsAt p a a.archive.members
  obtain ⟨-, -, harchive⟩ := OpenArchive.load_eq_ok.1 hload
  have hentries (m : Member) (hm : m ∈ done) : m.OfEntry := by
    have hmem : m ∈ a.archive.members.filter fun m => p.keeps m.name :=
      hkept ▸ List.mem_append_left rest hm
    exact ofEntry_of_ofBytes harchive m (List.mem_of_mem_filter hmem)
  rw [houtcome]
  refine ⟨done, rest, hkept, hgoesOn, ?_, ⟨_, hread, hrewritten, ?_, fun hback => ?_⟩,
    fun stats hstats => ?_⟩
  · cases hfailure : (processMembers p a a.bytes a.archive.members).failure? with
    | none | some e =>
      rw [hfailure] at hstops
      exact hstops
  · exact readsBack_of_rewritten hentries hgoesOn hrewritten
  · obtain ⟨b, hb, hholds⟩ := hback.exists_load (method_of_forall₂_rewritten hrewritten) hread
    exact ⟨b, hb, forall₂_carried hentries hrewritten hholds⟩
  · cases hfailure : (processMembers p a a.bytes a.archive.members).failure? with
    | some e => simp [hfailure] at hstats
    | none =>
      obtain ⟨hseen, hsum, hmodified⟩ := counts_processMembers hfailure
      rw [hfailure] at hstats hstops
      obtain rfl := Except.ok.inj hstats
      cases hstops
      rw [hkept, List.append_nil] at hmodified
      exact ⟨hseen, hsum, hrewritten.length_eq.symm, hmodified, rfl⟩

/-- An archive of two classes of one name and a member whose method is not supported. -/
def Sample.stopping : Bytes :=
  Archive.encode [Sample.member "X.class" [0xCA, 0xFE], Sample.member "X.class" [0x50],
    ⟨⟨"Z.txt", 12, 0x21, 0, [], [], 0, 0, 1⟩, [], .standard⟩]

/-- The classes are written with their bytes turned around, and the other member stops the run. -/
theorem repackage_leaves_of_repeated :
    let w := Sample.world "/in.jar" Sample.stopping
    let p : Plan := ⟨none, some fun data => .ok (.bytes data.reverse), .standard⟩
    let outcome := (repackage false p "/in.jar" "/out.jar").outcome w
    ∃ a done rest, OpenArchive.load w.files "/in.jar" = .ok a ∧
      Leaves p a "/out.jar" outcome.2.files outcome.1 done rest ∧
      (fault? outcome.1).map Fault.message =
        some ("in.jar!Z.txt: 不支持的存储方式 12（仅支持 stored/deflated）" : Text) := by
  intro w p
  dsimp only
  have hopens : (ofBytes Sample.stopping).toOption.isSome = true := by decide +kernel
  obtain ⟨archive, hsome⟩ := Option.isSome_iff_exists.1 hopens
  have harchive := Except.toOption_eq_some.1 hsome
  have hlog : w.LogReady := by
    intro place hplace
    simp [w, Sample.world] at hplace
  have hload : OpenArchive.load w.files "/in.jar" = .ok ⟨"/in.jar", Sample.stopping, archive⟩ :=
    OpenArchive.load_eq_ok.2 ⟨rfl, rfl, harchive⟩
  have hplaces : ("/out.jar" : Path).landing w.files.workingDirectory ≠
      ("/in.jar" : Path).landing w.files.workingDirectory := by
    show ("/out.jar" : Path).landing [] ≠ ("/in.jar" : Path).landing []
    decide +kernel
  have htakes (t : Text) : w.console.Takes t := fun _ hopen => absurd hopen Bool.false_ne_true
  obtain ⟨begun, hcreate⟩ : ∃ begun, w.files.write (writeMode false) "/out.jar" [] = .ok begun :=
    ⟨_, rfl⟩
  obtain ⟨done, rest, hleaves⟩ := repackage_leaves (p := p) hlog hload hcreate hplaces
    (by simp [w, Sample.world]) (htakes _) (htakes _)
  exact ⟨_, done, rest, hload, hleaves, by decide +kernel⟩

end Repackaging

/-! ### Names that grow too long -/

namespace Sample

/-- An empty member whose name is `n` times a byte that stands for a shade. -/
def shades (n : Nat) : Raw where
  system := 0
  flags := 0
  method := storedMethod
  time := 0
  date := 0x21
  checksum := 0
  compressedSize := 0
  size := 0
  internal := 0
  external := 1
  name := List.replicate n 0xB0
  extra := []
  comment := []

/-- The archive of that member. -/
def shadesArchive (n : Nat) : Bytes :=
  (shades n).header ++ (shades n).entry 0 ++
    endRecord 1 ((shades n).entry 0).length (shades n).header.length

/-- The member as it is read. -/
def shadesMember (n : Nat) : Member :=
  { (shades n).member (List.replicate n 0x2591) 0 with limit := (shades n).header.length }

variable {n : Nat}

theorem fits_shades (h : n < 0x10000) : (shades n).Fits := by
  constructor <;> simp [shades, storedMethod, h]

theorem decodeName_shades (n : Nat) :
    decodeName (shades n).flags (shades n).name = .ok (List.replicate n 0x2591) := by
  have hbyte : CodePage437.decodeByte 0xB0 = 0x2591 := by decide +kernel
  unfold decodeName
  rw [if_neg (by simp [shades, hasBit])]
  show Except.ok (List.map CodePage437.decodeByte (List.replicate n 0xB0)) = _
  rw [List.map_replicate, hbyte]

theorem ofBytes_shadesArchive (h : 20 ≤ n) (h' : n < 0x10000) :
    ofBytes (shadesArchive n) = .ok ⟨[shadesMember n], []⟩ := by
  have hname : (shades n).name.length = n := List.length_replicate
  have hheader : (shades n).header.length = 30 + n := by
    rw [Raw.length_header, hname]
    rfl
  have hentry : ((shades n).entry 0).length = 46 + n := by
    rw [Raw.length_entry, hname]
    rfl
  have hmark : locatorMark.isPrefixOf (((shades n).header ++ (shades n).entry 0).drop
      (((shades n).header ++ (shades n).entry 0).length - locatorSize)) = false := by
    have hparts : (shades n).header ++ (shades n).entry 0 = ((shades n).header ++ (entryMark ++
        fieldBytes ((shades n).entryFields 0))) ++ List.replicate n 0xB0 := by
      rw [List.append_assoc, Raw.entry, show (shades n).name ++ ((shades n).extra ++
        (shades n).comment) = List.replicate n 0xB0 from List.append_nil _]
    rw [hparts, List.length_append, List.length_replicate, Nat.add_sub_assoc h,
      List.drop_length_add_append, List.drop_replicate, Nat.sub_sub_self h]
    decide
  have hread : readEntries 0 (46 + n) ((shades n).entry 0 ++ []) =
      .ok [(shades n).member (List.replicate n 0x2591) 0] := by
    rw [show 46 + n = 45 + n + 1 by omega, Raw.readEntries_entry_append (fits_shades h')
      (by decide) (decodeName_shades n) (by simp [shades, Extent.ofExtra])]
    cases 45 + n <;> rfl
  rw [List.append_nil] at hread
  unfold shadesArchive
  rw [ofBytes_append (by omega) (by omega) hmark, hentry, hread]
  rfl

theorem contents_shadesMember (h : n < 0x10000) :
    (shadesMember n).contents (shadesArchive n) = .ok [] := by
  have hflags (value : Nat) : hasBit (shades n).flags value = false := by simp [shades, hasBit]
  unfold shadesArchive
  rw [List.append_assoc]
  exact Raw.contents_header [] [] (fits_shades h) rfl (by decide) rfl (hflags _) (hflags _)
    (hflags _) (decodeName_shades n) rfl (by simp [shadesMember]) rfl rfl _

theorem isWritable_shadesMember (h : 0x5555 < n) : (shadesMember n).isWritable = false := by
  have hbytes : Utf8.encodePoint 0x2591 = [0xE2, 0x96, 0x91] := by decide +kernel
  have hname : (shadesMember n).name = List.replicate n 0x2591 := by
    show (List.replicate n 0x2591).takeWhile _ = _
    simp
  refine decide_eq_false ?_
  rw [hname, List.flatMap_replicate, hbytes, List.length_flatten, List.map_replicate,
    List.sum_replicate_nat]
  show ¬ n * 3 < 0x10000
  omega

end Sample

namespace Repackaging

/-- A repackaging may stop at a member that does not fail: one whose name is in the code of a single
byte a character, and grows too long in UTF-8. -/
theorem repackage_may_stop_at_name :
    ¬ ∀ (w : World) (strict : Bool) (p : Plan) (input output : Path) (a : OpenArchive)
      (begun : FileSystem) (e : Fault),
      w.LogReady → OpenArchive.load w.files input = .ok a →
      w.files.write (writeMode strict) output [] = .ok begun →
      output.landing w.files.workingDirectory ≠ input.landing w.files.workingDirectory →
      w.console.logFile? ≠ some (output.landing w.files.workingDirectory) →
      w.console.Takes input.name → w.console.Takes output.name →
      ((repackage strict p input output).outcome w).1 = .error e →
      ∃ m ∈ a.archive.members, p.keeps m.name = true ∧ Fails p a m e := by
  intro h
  obtain ⟨n, hn, hn'⟩ : ∃ n, 0x5555 < n ∧ n < 0x10000 := ⟨0x5556, by decide, by decide⟩
  let bytes := Sample.shadesArchive n
  let m := Sample.shadesMember n
  let w := Sample.world "/in.jar" bytes
  let a : OpenArchive := ⟨"/in.jar", bytes, ⟨[m], []⟩⟩
  let p : Plan := ⟨none, none, .standard⟩
  have hlog : w.LogReady := by
    intro place hplace
    simp [w, Sample.world] at hplace
  have hload : OpenArchive.load w.files "/in.jar" = .ok a :=
    OpenArchive.load_eq_ok.2
      ⟨rfl, rfl, Sample.ofBytes_shadesArchive (by omega) hn'⟩
  have hread : a.read m = .ok [] :=
    OpenArchive.read_eq_ok.2 ⟨.inl rfl, Sample.contents_shadesMember hn'⟩
  obtain ⟨begun, hbegun⟩ : ∃ begun, w.files.write (writeMode false) "/out.jar" [] = .ok begun :=
    ⟨_, rfl⟩
  have hplaces : ("/out.jar" : Path).landing w.files.workingDirectory ≠
      ("/in.jar" : Path).landing w.files.workingDirectory := by
    show ("/out.jar" : Path).landing [] ≠ ("/in.jar" : Path).landing []
    decide +kernel
  have htakes (t : Text) : w.console.Takes t := fun _ hopen => absurd hopen Bool.false_ne_true
  have hnone : editorFor? p.editor? m.name = none := ite_self _
  have hnew : Rewritten p.editor? a m ⟨newEntry m, [], p.level⟩ :=
    ⟨rfl, [], hread, by rw [hnone]⟩
  have hstops : Stops p a m .fieldOverflow := .name hnew (Sample.isWritable_shadesMember hn)
  have hrun : (processMembers p a a.bytes a.archive.members).failure? = some .fieldOverflow := by
    show (processMembers p a a.bytes [m]).failure? = _
    rw [processMembers, if_pos (show p.keeps m.name = true from rfl),
      newMember_eq_error_iff.2 hstops]
  obtain ⟨after, houtcome, -⟩ := outcome_repackage (p := p) hlog hload hbegun hplaces
    (by simp [w, Sample.world]) (htakes _) (htakes _)
  rw [hrun] at houtcome
  obtain ⟨m', hm', -, hfails⟩ := h w false p _ _ a begun .fieldOverflow hlog hload hbegun hplaces
    (by simp [w, Sample.world]) (htakes _) (htakes _) (by rw [houtcome])
  obtain rfl : m' = m := List.mem_singleton.1 hm'
  -- the member can be read, and there is no editor
  cases hfails with
  | unreadable _ hfailed => simp [hread] at hfailed

end Repackaging

end Jarsmith
