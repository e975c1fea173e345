import Jarsmith.Proofs.Archive.Use
import Jarsmith.Proofs.Build.Inputs
import Jarsmith.Proofs.EntryPoint
import Jarsmith.Proofs.Repackaging
import Jarsmith.Proofs.Session.Failure

/-!
# How operations on archives fail

Three operations read the members of an archive: a scan reads those that define classes, the search
for entry points those that are named in the configuration, and a repackaging those that are kept.
Each fails at the first member that it cannot use, and for each it is shown that its failure is that
of this member (`accounts_readMembers`, `accounts_ofMembers`, `accounts_processMembers`).

So **`failures_documented_iff`** says when a failure is told with the path of the archive or with
the archive and the member: always, except where the obstacle is one of those that
`Archive.obstacle_of_escapes` lists. `failures_may_escape` shows that there are such archives.

A repackaging also writes its output and reports to the log, and these may fail on their own
(`OfSurroundings`). It reads the data after the output was begun, so that none are left if the
output is the input.
-/

namespace Jarsmith

open Archive

variable {files : FileSystem} {path : Path} {bytes data : Bytes} {a : OpenArchive} {u : Use}
  {m : Member} {e : Fault}

/-! ### Opening and reading -/

namespace OpenArchive

theorem load_eq_error {x : Archive.Error} (hread : files.read path = .ok bytes)
    (h : ofBytes bytes = .error x) :
    load files path = .error (if x.isMalformed then
      .unparsable (("无法读取归档 " : Text) ++ path.toText) (.archive x) else .archive x) := by
  unfold load
  rw [hread, show Except.mapError Fault.files (Except.ok bytes) = .ok bytes from rfl]
  simp only [bind, Except.bind, h]
  split <;> rfl

theorem readFrom_eq_ok : a.readFrom bytes m = .ok data ↔
    m.isSupported = true ∧ m.contents bytes = .ok data := by
  have hread : read ⟨a.path, bytes, a.archive⟩ m = .ok data ↔
      (m.method = storedMethod ∨ m.method = deflatedMethod) ∧ m.contents bytes = .ok data :=
    read_eq_ok
  rw [show m.isSupported = true ↔ m.method = storedMethod ∨ m.method = deflatedMethod from
    decide_eq_true_iff]
  exact hread

/-- A member that cannot be read cannot be used. -/
theorem fails_of_readFrom (h : a.readFrom u.bytes u.member = .error e) : u.Fails a.path e := by
  unfold readFrom checkMethod at h
  by_cases hmethod : u.member.method = storedMethod ∨ u.member.method = deflatedMethod
  · have hsupported : u.member.isSupported = true := decide_eq_true hmethod
    rw [if_pos hmethod] at h
    cases hcontents : u.member.contents u.bytes with
    | ok data => simp [hcontents, bind, Except.bind, pure, Except.pure] at h
    | error x =>
      simp only [hcontents, bind, Except.bind] at h
      cases hx : x.isMalformed with
      | true =>
        rw [hx, if_pos rfl] at h
        obtain rfl := Except.error.inj h
        exact .unparsable hsupported (by simp [Use.works, hcontents])
          (by simp [Use.escapes, hcontents, hx])
      | false =>
        rw [hx, if_neg Bool.false_ne_true] at h
        obtain rfl := Except.error.inj h
        exact .archive (by simp [Use.escapes, hsupported, hcontents, hx])
  · rw [if_neg hmethod] at h
    obtain rfl := Except.error.inj h
    exact .method (decide_eq_false hmethod)

/-- An operation that begins with opening an archive fails as documented unless its failure
escapes, if what follows accounts for the uses of the archive. -/
theorem documented_load_iff {β : Type} {f : OpenArchive → Except Fault β}
    {uses : Archive → List Use} (hread : files.read path = .ok bytes)
    (h : ∀ archive, Accounts path (uses archive) (fault? (f ⟨path, bytes, archive⟩))) :
    Documented path bytes uses (fault? ((load files path).bind f)) ↔
      escapes bytes uses = false := by
  cases harchive : ofBytes bytes with
  | error x =>
    rw [load_eq_error hread harchive]
    exact documented_iff_of_container harchive
  | ok archive =>
    have hload : load files path = .ok ⟨path, bytes, archive⟩ :=
      load_eq_ok.2 ⟨rfl, hread, harchive⟩
    rw [hload]
    exact (h archive).documented_iff harchive

end OpenArchive

/-! ### Scanning -/

namespace ClassGraph

/-- What a member that defines a class is needed for in a scan. -/
def classUse (bytes : Bytes) (m : Member) : Use :=
  ⟨m, bytes, fun data => (ClassFile.dependencies data).isOk, false⟩

/-- What the members of an archive are needed for in a scan. -/
def classUses (bytes : Bytes) (archive : Archive) : List Use :=
  (classMembers archive).map fun m => classUse bytes m.1

theorem accounts_readMembers (a : OpenArchive) (members : List (Member × Text)) :
    Accounts a.path (members.map fun m => classUse a.bytes m.1)
      (readMembers a members).failure? := by
  induction members with
  | nil => exact .nil _
  | cons m members ih =>
    obtain ⟨m, name⟩ := m
    rw [List.map_cons]
    simp only [readMembers]
    cases hread : a.read m with
    | error e =>
      have hfails : (classUse a.bytes m).Fails a.path e := OpenArchive.fails_of_readFrom hread
      exact .append_left (.fails hfails)
    | ok data =>
      obtain ⟨hmethod, hcontents⟩ := OpenArchive.readFrom_eq_ok.1 hread
      dsimp only
      have hparses : (classUse a.bytes m).parses data = (ClassFile.dependencies data).isOk := rfl
      cases hdeps : ClassFile.dependencies data with
      | error x =>
        rw [hdeps] at hparses
        exact .append_left (.fails (.of_parses hmethod hcontents hparses))
      | ok found =>
        rw [hdeps] at hparses
        refine .append_right (.works ?_) ih
        exact Use.works_of_parses hmethod hcontents hparses fun h => absurd h Bool.false_ne_true

theorem addArchive_snd (s : Scan) : (s.addArchive files path).2 =
    (OpenArchive.load files path).bind fun a =>
      match (readMembers a (classMembers a.archive)).failure? with
      | some e => .error e
      | none => .ok (readMembers a (classMembers a.archive)).found.length := by
  unfold Scan.addArchive
  cases OpenArchive.load files path <;> rfl

theorem documented_addArchive_iff (hread : files.read path = .ok bytes) (s : Scan) :
    Documented path bytes (classUses bytes) (fault? (s.addArchive files path).2) ↔
      escapes bytes (classUses bytes) = false := by
  rw [addArchive_snd]
  refine OpenArchive.documented_load_iff hread fun archive => ?_
  have haccounts := accounts_readMembers ⟨path, bytes, archive⟩ (classMembers archive)
  dsimp only
  cases hfailure : (readMembers ⟨path, bytes, archive⟩ (classMembers archive)).failure? with
  | none | some e =>
    rw [hfailure] at haccounts
    exact haccounts

end ClassGraph

/-! ### Entry points -/

namespace EntryPoint

/-- What a member is needed for that is read with `read`. -/
def textUse (bytes : Bytes) (read : Bytes → Except Fault (List Text)) (m : Member) : Use :=
  ⟨m, bytes, fun data => (read data).isOk, false⟩

/-- What the members are needed for in which entry points are looked for, as far as the archive has
them. -/
def Sources.uses (s : Sources) (path : Path) (bytes : Bytes) (archive : Archive) : List Use :=
  let a : OpenArchive := ⟨path, bytes, archive⟩
  (s.propertyMembers.filterMap a.member?).map (textUse bytes ofProperties) ++
    (s.serviceMembers.filterMap a.member?).map (textUse bytes ofServices)

theorem exists_eq_unparsable_of_ofProperties (h : ofProperties data = .error e) :
    ∃ subject cause, e = .unparsable subject cause := by
  unfold ofProperties at h
  dsimp only at h
  split at h
  · exact ⟨_, _, (Except.error.inj h).symm⟩
  · split at h
    · exact ⟨_, _, (Except.error.inj h).symm⟩
    · simp at h

theorem exists_eq_unparsable_of_ofServices (h : ofServices data = .error e) :
    ∃ subject cause, e = .unparsable subject cause := by
  unfold ofServices at h
  split at h
  · exact ⟨_, _, (Except.error.inj h).symm⟩
  · simp at h

/-- A fault of a use is one of it when it was told with the member, too. -/
theorem fails_wrap (h : u.Fails a.path e) :
    u.Fails a.path (ofMembers.wrap a u.member.name e) := by
  cases h with
  | method h => exact .method h
  | unparsable hmethod h hescapes => exact .unparsable hmethod h hescapes
  | archive h => exact .archive h
  | name h => exact .name h

variable {read : Bytes → Except Fault (List Text)}

theorem accounts_member (a : OpenArchive)
    (hunparsable : ∀ data e, read data = .error e → ∃ subject cause, e = .unparsable subject cause)
    (m : Member) :
    Accounts a.path [textUse a.bytes read m]
      (fault? (((a.read m).bind read).mapError (ofMembers.wrap a m.name))) := by
  cases hread : a.read m with
  | error e =>
    have hfails : (textUse a.bytes read m).Fails a.path e := OpenArchive.fails_of_readFrom hread
    exact .fails (fails_wrap hfails)
  | ok data =>
    obtain ⟨hmethod, hcontents⟩ := OpenArchive.readFrom_eq_ok.1 hread
    have hparses : (textUse a.bytes read m).parses data = (read data).isOk := rfl
    show Accounts a.path _ (fault? ((read data).mapError _))
    cases hfound : read data with
    | error x =>
      rw [hfound] at hparses
      obtain ⟨subject, cause, rfl⟩ := hunparsable data x hfound
      exact .fails (.of_parses hmethod hcontents hparses)
    | ok found =>
      rw [hfound] at hparses
      refine .works ?_
      exact Use.works_of_parses hmethod hcontents hparses fun h => absurd h Bool.false_ne_true

theorem accounts_ofMembers (a : OpenArchive)
    (hunparsable : ∀ data e, read data = .error e → ∃ subject cause, e = .unparsable subject cause)
    (names : List Text) :
    Accounts a.path ((names.filterMap a.member?).map (textUse a.bytes read))
      (fault? (ofMembers a read names).outcome.1) := by
  induction names with
  | nil => exact .nil _
  | cons name names ih =>
    cases hm : a.member? name with
    | none =>
      rw [List.filterMap_cons_none hm, ofMembers_of_none hm]
      exact ih
    | some m =>
      obtain ⟨-, rfl⟩ := OpenArchive.member?_eq_some hm
      rw [List.filterMap_cons_some hm, List.map_cons, result_ofMembers_of_some hm]
      exact (accounts_member a hunparsable m).bind fun _ _ => by rwa [fault?_map]

theorem documented_ofArchive_iff (hread : files.read path = .ok bytes) (s : Sources) :
    Documented path bytes (s.uses path bytes) (fault? (s.ofArchive files path).outcome.1) ↔
      (s.propertyMembers = [] ∧ s.serviceMembers = []) ∨
        escapes bytes (s.uses path bytes) = false := by
  rw [← List.isEmpty_iff, ← List.isEmpty_iff, ← Bool.and_eq_true]
  cases hempty : s.propertyMembers.isEmpty && s.serviceMembers.isEmpty with
  | true =>
    have hnothing : (s.ofArchive files path).outcome.1 = .ok [] := by
      unfold Sources.ofArchive
      rw [hempty, if_pos rfl]
      rfl
    rw [hnothing]
    exact iff_of_true .success (.inl rfl)
  | false =>
    rw [s.result_ofArchive hempty, or_iff_right Bool.false_ne_true]
    refine OpenArchive.documented_load_iff hread fun archive => .bind ?_ fun properties _ => ?_
    · exact accounts_ofMembers ⟨path, bytes, archive⟩
        (fun _ _ => exists_eq_unparsable_of_ofProperties) _
    · rw [fault?_map]
      exact accounts_ofMembers ⟨path, bytes, archive⟩
        (fun _ _ => exists_eq_unparsable_of_ofServices) _

end EntryPoint

/-! ### Repackaging -/

namespace Repackaging

variable {p : Plan}

/-- What a member is needed for that is written again. -/
def rewriteUse (bytes : Bytes) (m : Member) : Use := ⟨m, bytes, fun _ => true, true⟩

/-- What the kept members of an archive are needed for. -/
def Plan.uses (p : Plan) (bytes : Bytes) (archive : Archive) : List Use :=
  (archive.members.filter fun m => p.keeps m.name).map (rewriteUse bytes)

/-- The data of a member that is not edited are written as they are read. -/
theorem newData_of_none (hp : p.editor? = none) (a : OpenArchive) (bytes : Bytes) (m : Member) :
    newData p a bytes m = a.readFrom bytes m := by
  unfold newData
  rw [hp]
  show (a.checkMethod m >>= fun _ => a.readFrom bytes m >>= pure) = _
  rw [bind_pure]
  unfold OpenArchive.readFrom
  cases a.checkMethod m <;> rfl

/-- A member that is not edited is written again unless it cannot be read or its name is too
long. -/
theorem newMember_of_none (hp : p.editor? = none) (a : OpenArchive) (bytes : Bytes) (m : Member) :
    newMember p a bytes m = (a.readFrom bytes m).bind fun data =>
      if m.isWritable then .ok ⟨newEntry m, data, p.level⟩ else .error .fieldOverflow := by
  unfold newMember
  rw [newData_of_none hp]
  cases a.readFrom bytes m with
  | error e => rfl
  | ok data =>
    show (if m.isWritable = true then _ else _) = if m.isWritable = true then _ else _
    cases m.isWritable <;> rfl

theorem accounts_newMember (hp : p.editor? = none) (a : OpenArchive) (bytes : Bytes) (m : Member) :
    Accounts a.path [rewriteUse bytes m] (fault? (newMember p a bytes m)) := by
  rw [newMember_of_none hp]
  cases hread : a.readFrom bytes m with
  | error e =>
    have hfails : (rewriteUse bytes m).Fails a.path e := OpenArchive.fails_of_readFrom hread
    exact .fails hfails
  | ok data =>
    obtain ⟨hmethod, hcontents⟩ := OpenArchive.readFrom_eq_ok.1 hread
    show Accounts a.path _ (fault? (if m.isWritable then _ else _))
    cases hwritable : m.isWritable with
    | false =>
      refine .fails (.name ?_)
      simp [rewriteUse, Use.escapes, hmethod, hcontents, hwritable]
    | true => exact .works (Use.works_of_parses hmethod hcontents rfl fun _ => hwritable)

theorem accounts_processMembers (hp : p.editor? = none) (a : OpenArchive) (bytes : Bytes)
    (members : List Member) :
    Accounts a.path ((members.filter fun m => p.keeps m.name).map (rewriteUse bytes))
      (processMembers p a bytes members).failure? := by
  induction members with
  | nil => exact .nil _
  | cons m members ih =>
    unfold processMembers
    cases hkeeps : p.keeps m.name with
    | false =>
      rw [List.filter_cons_of_neg (by simp [hkeeps]), if_neg Bool.false_ne_true]
      exact ih
    | true =>
      rw [List.filter_cons_of_pos (p := fun m : Member => p.keeps m.name) hkeeps, List.map_cons,
        if_pos rfl]
      have hnew := accounts_newMember hp a bytes m
      cases hmember : newMember p a bytes m with
      | error e =>
        rw [hmember] at hnew
        exact hnew.append_left
      | ok new =>
        rw [hmember] at hnew
        exact hnew.append_right ih

/-- A failure that has nothing to do with the bytes of the archive: one of the files, or a report
that cannot be written to the open log file. That a path holds a NUL counts as one of the files. -/
inductive OfSurroundings (c : Console) (output : Path) : Fault → Prop where
  | files {x : FileSystem.Error}
    (h : x = .nulByte → output.parts.any (fun part => (0 : CodePoint) ∈ part) = true) :
    OfSurroundings c output (.files x)
  | log {text : Text} (h : c.logFile?.isSome = true) : OfSurroundings c output (.unencodable text)

/-- The bytes of the input once the output was begun, which empties it if both are one file. -/
def begunBytes (root : Place) (input output : Path) (bytes : Bytes) : Bytes :=
  if output.landing root = input.landing root then [] else bytes

/-- Once all that is needed was read, there is no other failure than that of the members. -/
theorem fault_finish {c : Console} {output : Path} {w w' : World} {events : List Log.Event}
    {contents : Bytes} {failure? : Option Fault} {message : Nat → Text} {stats : Stats}
    {result : Except Fault Stats} (hw : w.console.logFile? = c.logFile?)
    (h : Session.outcome (do
      Session.emitAll events
      Session.change fun files => files.write .replace output contents
      if let some e := failure? then throw e
      let outputSize ← Session.ask (·.size output)
      Session.report .info .repack (message outputSize)
      return stats) w = (result, w')) :
    (∃ e, result = .error e ∧ OfSurroundings c output e) ∨ fault? result = failure? := by
  rcases Session.outcome_bind_cases h with ⟨e, hemit, rfl⟩ | ⟨_, w₁, hemit, h⟩
  · obtain ⟨text, rfl, hopen⟩ := (Session.emitAll_cases hemit).2 e rfl
    exact .inl ⟨_, rfl, .log (hw ▸ hopen)⟩
  have hw₁ : w₁.console.logFile? = c.logFile? := (Session.emitAll_cases hemit).1.trans hw
  rcases Session.outcome_bind_cases h with ⟨e, hchange, rfl⟩ | ⟨_, w₂, hchange, h⟩
  · obtain ⟨x, hwrite, rfl⟩ := Session.outcome_change_eq_error hchange
    exact .inl ⟨_, rfl, .files fun hx => FileSystem.any_nul_of_write (hx ▸ hwrite)⟩
  obtain ⟨files, -, rfl⟩ := Session.outcome_change_eq_ok.1 hchange
  cases failure? with
  | some e =>
    obtain ⟨rfl, -⟩ := Prod.mk.inj h
    exact .inr rfl
  | none =>
    rcases Session.outcome_bind_cases h with ⟨e, hask, rfl⟩ | ⟨size, w₃, hask, h⟩
    · obtain ⟨x, hsize, rfl⟩ := Session.outcome_ask_eq_error hask
      exact .inl ⟨_, rfl, .files fun hx => FileSystem.any_nul_of_size (hx ▸ hsize)⟩
    obtain ⟨-, rfl⟩ := Session.outcome_ask_eq_ok.1 hask
    rcases Session.outcome_bind_cases h with ⟨e, hreport, rfl⟩ | ⟨_, w₄, -, h⟩
    · obtain ⟨text, rfl, hopen⟩ := (Session.emit_cases hreport).2 e rfl
      exact .inl ⟨_, rfl, .log (hw₁ ▸ hopen)⟩
    obtain ⟨rfl, -⟩ := Prod.mk.inj h
    exact .inr rfl

theorem documented_repackage_iff {w w' : World} {strict : Bool} {output : Path}
    {result : Except Fault Stats} (hread : w.files.read path = .ok bytes) (hp : p.editor? = none)
    (hrun : (repackage strict p path output).outcome w = (result, w')) :
    (∃ e, result = .error e ∧ OfSurroundings w.console output e) ∨
      (Documented path bytes (p.uses (begunBytes w.files.workingDirectory path output bytes))
          (fault? result) ↔
        escapes bytes (p.uses (begunBytes w.files.workingDirectory path output bytes)) =
          false) := by
  unfold repackage at hrun
  dsimp only at hrun
  rcases Session.outcome_bind_cases hrun with ⟨e, hask, rfl⟩ | ⟨inputSize, w₁, hask, h⟩
  · obtain ⟨x, hsize, rfl⟩ := Session.outcome_ask_eq_error hask
    simp [FileSystem.size_of_read hread] at hsize
  obtain ⟨-, rfl⟩ := Session.outcome_ask_eq_ok.1 hask
  rw [Session.outcome_bind, Session.outcome_get] at h
  dsimp only at h
  rw [Session.outcome_bind, Session.outcome_lift] at h
  cases harchive : ofBytes bytes with
  | error x =>
    rw [OpenArchive.load_eq_error hread harchive] at h
    obtain ⟨rfl, -⟩ := Prod.mk.inj h
    exact .inr (documented_iff_of_container harchive)
  | ok archive =>
    have hload : OpenArchive.load w₁.files path = .ok ⟨path, bytes, archive⟩ :=
      OpenArchive.load_eq_ok.2 ⟨rfl, hread, harchive⟩
    rw [hload] at h
    rcases Session.outcome_bind_cases h with ⟨e, hchange, rfl⟩ | ⟨_, w₂, hchange, h⟩
    · obtain ⟨x, hwrite, rfl⟩ := Session.outcome_change_eq_error hchange
      exact .inl ⟨_, rfl, .files fun hx => FileSystem.any_nul_of_write (hx ▸ hwrite)⟩
    obtain ⟨begun, hbegin, rfl⟩ := Session.outcome_change_eq_ok.1 hchange
    have hinput := FileSystem.read_of_write_nil hread hbegin
    rcases Session.outcome_bind_cases h with ⟨e, hask, rfl⟩ | ⟨later, w₃, hask, h⟩
    · obtain ⟨x, hbytes, rfl⟩ := Session.outcome_ask_eq_error hask
      simp [hinput] at hbytes
    obtain ⟨hlater, rfl⟩ := Session.outcome_ask_eq_ok.1 hask
    obtain rfl := Except.ok.inj (hinput.symm.trans hlater)
    -- the members are read from what is left of the input
    refine (fault_finish rfl h).imp_right fun hfault => ?_
    rw [hfault]
    exact (accounts_processMembers hp ⟨path, bytes, archive⟩ _ _).documented_iff harchive

end Repackaging

/-! ### All operations -/

/-- **Documented failures**: a scan of an archive, the search for entry points in it, and its
repackaging without an editor succeed or fail as is documented, except where the failure escapes. A
repackaging may also fail because of the output or the log. A failure escapes only if an entry of
the directory asks for a later version, a name should be in UTF-8 and is not, or the first member
that cannot be used has an obstacle or a name that cannot be written again. -/
theorem failures_documented_iff {w : World} (hread : w.files.read path = .ok bytes) :
    (∀ s : ClassGraph.Scan,
      Documented path bytes (ClassGraph.classUses bytes) (fault? (s.addArchive w.files path).2) ↔
        escapes bytes (ClassGraph.classUses bytes) = false) ∧
    (∀ s : EntryPoint.Sources,
      Documented path bytes (s.uses path bytes) (fault? (s.ofArchive w.files path).outcome.1) ↔
        (s.propertyMembers = [] ∧ s.serviceMembers = []) ∨
          escapes bytes (s.uses path bytes) = false) ∧
    (∀ (strict : Bool) (keeps? : Option (Text → Bool)) (level : Deflate.Level) (output : Path),
      let p : Repackaging.Plan := ⟨keeps?, none, level⟩
      let result := ((Repackaging.repackage strict p path output).outcome w).1
      let uses := p.uses (Repackaging.begunBytes w.files.workingDirectory path output bytes)
      (∃ e, result = .error e ∧ Repackaging.OfSurroundings w.console output e) ∨
        (Documented path bytes uses (fault? result) ↔ escapes bytes uses = false)) ∧
    ∀ uses, escapes bytes uses = true →
      (∃ tenths, ofBytes bytes = .error (.laterVersion tenths)) ∨
      ofBytes bytes = .error .badUtf8 ∨
      ∃ archive u, ofBytes bytes = .ok archive ∧ failing? (uses archive) = some u ∧
        ((∃ x, u.member.Obstacle u.bytes x) ∨
          u.isRewritten = true ∧ u.member.isWritable = false) :=
  ⟨ClassGraph.documented_addArchive_iff hread, EntryPoint.documented_ofArchive_iff hread,
    fun _ _ _ _ => Repackaging.documented_repackage_iff hread rfl rfl,
    fun _ => obstacle_of_escapes⟩

/-- The archive of one member that is said to be empty and deflated. -/
def Sample.deflatedArchive (name : Text) (stored : Bytes) : Bytes :=
  let nameBytes := name.flatMap Utf8.encodePoint
  let shared := Bytes.ofLittle 2 writtenVersion ++ Bytes.ofLittle 2 0 ++
    Bytes.ofLittle 2 deflatedMethod ++ Bytes.ofLittle 2 0 ++ Bytes.ofLittle 2 0x21 ++
    Bytes.ofLittle 4 0 ++ Bytes.ofLittle 4 stored.length ++ Bytes.ofLittle 4 0 ++
    Bytes.ofLittle 2 nameBytes.length ++ Bytes.ofLittle 2 0
  let body := headerMark ++ shared ++ nameBytes ++ stored
  let directory := entryMark ++ Bytes.ofLittle 2 writtenVersion ++ shared ++
    List.replicate 14 0 ++ nameBytes
  body ++ directory ++ endRecord 1 directory.length body.length

/-- An empty member is no class file, which is told, and holds no entry points. -/
theorem failures_documented_of_empty_member :
    let bytes := Sample.deflatedArchive "X.class" [3, 0]
    let w := Sample.world "/in.jar" bytes
    let s : EntryPoint.Sources := ⟨[], ["X.class"], ["X.class"]⟩
    let p : Repackaging.Plan := ⟨none, none, .standard⟩
    let result := ((Repackaging.repackage true p "/in.jar" "/out.jar").outcome w).1
    w.files.read "/in.jar" = .ok bytes ∧
      Documented "/in.jar" bytes (ClassGraph.classUses bytes)
        (fault? (ClassGraph.Scan.start.addArchive w.files "/in.jar").2) ∧
      Documented "/in.jar" bytes (s.uses "/in.jar" bytes)
        (fault? (s.ofArchive w.files "/in.jar").outcome.1) ∧
      ((∃ e, result = .error e ∧ Repackaging.OfSurroundings w.console "/out.jar" e) ∨
        Documented "/in.jar" bytes (p.uses bytes) (fault? result)) := by
  have hread : (Sample.world "/in.jar" (Sample.deflatedArchive "X.class" [3, 0])).files.read
      "/in.jar" = .ok (Sample.deflatedArchive "X.class" [3, 0]) := by decide +kernel
  obtain ⟨hscan, hsources, hrepackage, -⟩ := failures_documented_iff hread
  refine ⟨hread, (hscan .start).2 (by decide +kernel),
    (hsources ⟨[], ["X.class"], ["X.class"]⟩).2 (.inr (by decide +kernel)), ?_⟩
  exact (hrepackage true none .standard "/out.jar").imp_right fun h => h.2 (by decide +kernel)

/-- A member that is no deflate stream makes a scan fail with an error that tells neither the
archive nor the member. -/
theorem failures_may_escape :
    ¬ ∀ (files : FileSystem) (path : Path) (bytes : Bytes) (s : ClassGraph.Scan),
      files.read path = .ok bytes →
        Documented path bytes (ClassGraph.classUses bytes)
          (fault? (s.addArchive files path).2) := by
  intro h
  have hread : (Sample.world "/in.jar" (Sample.deflatedArchive "X.class" [7])).files.read
      "/in.jar" = .ok (Sample.deflatedArchive "X.class" [7]) := by decide +kernel
  have hdocumented := h _ _ _ .start hread
  rw [ClassGraph.documented_addArchive_iff hread] at hdocumented
  revert hdocumented
  decide +kernel

end Jarsmith
