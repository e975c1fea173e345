import Jarsmith.Proofs.Failure

/-!
# Where a run over members stops

A repackaging takes the kept members one by one until one of them cannot be written again. `Fails`
lists how this is documented to happen: a storage method that is not supported, data that cannot be
read, an editor that fails or gives no bytes. There is one more reason, which `Stops` adds: a name
that is too long to be written. `newMember_eq_error_iff` says that there is no other.

What a run writes is told by `processMembers_stopsAt`: the kept members before the first that stops
it, each of them rewritten. Where none does, `counts_processMembers` says what is counted.
-/

namespace Jarsmith

open Archive

namespace Repackaging

variable {e : Setting} {p : Plan} {a b : OpenArchive} {m : Member} {members : List Member}
  {fault : Fault}

/-! ### Where a run stops -/

/-- A member fails as is documented: its storage method is not supported, it cannot be read, or the
editor fails on its data or gives something that is no bytes. -/
inductive Fails (p : Plan) (a : OpenArchive) (m : Member) : Fault → Prop where
  | method (h : m.isSupported = false) :
    Fails p a m (.storageMethod a.path.name m.name m.method)
  | unreadable {e : Fault} (hmethod : m.isSupported = true) (h : a.read m = .error e) :
    Fails p a m e
  | raised {data : Bytes} {r : Editor} {cause : Fault} (hread : a.read m = .ok data)
    (hr : editorFor? p.editor? m.name = some r) (h : r data = .error cause) :
    Fails p a m (.transformation (a.label m.name) cause)
  | notBytes {data : Bytes} {r : Editor} {type : Text} (hread : a.read m = .ok data)
    (hr : editorFor? p.editor? m.name = some r) (h : r data = .ok (.other type)) :
    Fails p a m (.notBytes a.path.name m.name type)

/-- A member stops a run: it fails, or its name is too long to be written. -/
inductive Stops (p : Plan) (a : OpenArchive) (m : Member) : Fault → Prop where
  | fails {e : Fault} (h : Fails p a m e) : Stops p a m e
  | name {new : NewMember} (h : Rewritten p.editor? a m new) (hname : m.isWritable = false) :
    Stops p a m .fieldOverflow

/-- What is left of the kept members where a run ends, and its failure: nothing is left where there
is none, and else the first of them stopped the run. -/
inductive StopsAt (p : Plan) (a : OpenArchive) : List Member → Option Fault → Prop where
  | finished : StopsAt p a [] none
  | stopped {m : Member} {after : List Member} {e : Fault} (h : Stops p a m e) :
    StopsAt p a (m :: after) (some e)

/-- The data are read, and go through the editor if there is one for the member. -/
theorem newData_eq (p : Plan) (a : OpenArchive) (bytes : Bytes) (m : Member) :
    newData p a bytes m = (a.readFrom bytes m).bind fun data =>
      match editorFor? p.editor? m.name with
      | some r => edit a m.name r data
      | none => .ok data := by
  have hcheck : newData p a bytes m = (a.readFrom bytes m).bind fun data =>
      match p.editor? with
      | some r => if Archive.isClass m.name then edit a m.name r data else return data
      | none => return data := by
    unfold newData OpenArchive.readFrom
    cases a.checkMethod m <;> rfl
  rw [hcheck]
  unfold editorFor?
  congr 1
  funext data
  cases p.editor? with
  | none => rw [ite_self]; rfl
  | some r => cases Archive.isClass m.name <;> rfl

theorem newMember_eq (p : Plan) (a : OpenArchive) (bytes : Bytes) (m : Member) :
    newMember p a bytes m = (newData p a bytes m).bind fun data =>
      if m.isWritable then .ok ⟨newEntry m, data, p.level⟩ else .error .fieldOverflow := by
  unfold newMember
  cases newData p a bytes m with
  | error e => rfl
  | ok data =>
    show (if m.isWritable = true then _ else _) = if m.isWritable = true then _ else _
    cases m.isWritable <;> rfl

theorem read_of_not_isSupported (h : m.isSupported = false) :
    a.read m = .error (.storageMethod a.path.name m.name m.method) := by
  have hmethod : ¬ (m.method = storedMethod ∨ m.method = deflatedMethod) :=
    of_decide_eq_false h
  unfold OpenArchive.read OpenArchive.readFrom OpenArchive.checkMethod
  rw [if_neg hmethod]
  rfl

/-- The data of a member cannot be made exactly if it fails. -/
theorem newData_eq_error_iff : newData p a a.bytes m = .error fault ↔ Fails p a m fault := by
  rw [newData_eq, show a.readFrom a.bytes m = a.read m from rfl]
  constructor
  · intro h
    cases hread : a.read m with
    | error e =>
      rw [hread] at h
      obtain rfl : e = fault := Except.error.inj h
      cases hmethod : m.isSupported with
      | false =>
        rw [read_of_not_isSupported hmethod] at hread
        exact Except.error.inj hread ▸ .method hmethod
      | true => exact .unreadable hmethod hread
    | ok data =>
      rw [hread] at h
      cases hr : editorFor? p.editor? m.name with
      | none => simp [Except.bind, hr] at h
      | some r =>
        simp only [Except.bind, hr, edit] at h
        split at h
        · next cause hcause => exact Except.error.inj h ▸ .raised hread hr hcause
        · next type htype => exact Except.error.inj h ▸ .notBytes hread hr htype
        · simp at h
  · rintro (hmethod | ⟨-, hread⟩ | ⟨hread, hr, hcause⟩ | ⟨hread, hr, htype⟩)
    · rw [read_of_not_isSupported hmethod]
      rfl
    · rw [hread]
      rfl
    · rw [hread, hr]
      show edit a m.name _ _ = _
      rw [edit, hcause]
    · rw [hread, hr]
      show edit a m.name _ _ = _
      rw [edit, htype]

theorem newData_of_rewritten {new : NewMember} (h : Rewritten p.editor? a m new) :
    newData p a a.bytes m = .ok new.data := by
  obtain ⟨data, hread, hdata⟩ := h.data
  rw [newData_eq, show a.readFrom a.bytes m = a.read m from rfl, hread]
  show (match editorFor? p.editor? m.name with
    | some r => edit a m.name r data
    | none => .ok data) = _
  cases hr : editorFor? p.editor? m.name with
  | none =>
    rw [hr] at hdata
    exact congrArg _ hdata.symm
  | some r =>
    rw [hr] at hdata
    dsimp only at hdata ⊢
    rw [edit, hdata]

/-- A member cannot be written exactly if it stops the run. -/
theorem newMember_eq_error_iff : newMember p a a.bytes m = .error fault ↔ Stops p a m fault := by
  rw [newMember_eq]
  constructor
  · intro h
    cases hdata : newData p a a.bytes m with
    | error e =>
      rw [hdata] at h
      obtain rfl : e = fault := Except.error.inj h
      exact .fails (newData_eq_error_iff.1 hdata)
    | ok data =>
      rw [hdata] at h
      obtain ⟨old, hold, hedited⟩ := newData_eq_ok hdata
      have hnew : Rewritten p.editor? a m ⟨newEntry m, data, p.level⟩ :=
        ⟨rfl, old, hold, hedited⟩
      cases hname : m.isWritable with
      | true => simp [Except.bind, hname] at h
      | false =>
        simp only [Except.bind, hname, Bool.false_eq_true, if_false] at h
        exact Except.error.inj h ▸ .name hnew hname
  · rintro (h | ⟨h, hname⟩)
    · rw [newData_eq_error_iff.2 h]
      rfl
    · rw [newData_of_rewritten h]
      show (if m.isWritable = true then _ else _) = _
      rw [hname, if_neg Bool.false_ne_true]

/-! ### A run over members -/

theorem not_stops_of_newMember {new : NewMember} (h : newMember p a a.bytes m = .ok new)
    (e : Fault) : ¬ Stops p a m e := by
  intro hstop
  rw [newMember_eq_error_iff.2 hstop] at h
  simp at h

/-- The kept members are rewritten one by one, up to the one that stops the run, if there is one. -/
theorem processMembers_stopsAt (p : Plan) (a : OpenArchive) (members : List Member) :
    ∃ done rest, (members.filter fun m => p.keeps m.name) = done ++ rest ∧
      (∀ m ∈ done, ∀ e, ¬ Stops p a m e) ∧
      List.Forall₂ (Rewritten p.editor? a) done (processMembers p a a.bytes members).written ∧
      StopsAt p a rest (processMembers p a a.bytes members).failure? := by
  induction members with
  | nil => exact ⟨[], [], rfl, by simp, .nil, .finished⟩
  | cons m members ih =>
    obtain ⟨done, rest, hkept, hgoesOn, hdone, hrest⟩ := ih
    unfold processMembers
    by_cases hkeeps : p.keeps m.name = true
    · rw [if_pos hkeeps, List.filter_cons_of_pos (by exact hkeeps), hkept]
      cases hnew : newMember p a a.bytes m with
      | error e =>
        have hstop := newMember_eq_error_iff.1 hnew
        exact ⟨[], m :: (done ++ rest), rfl, by simp, .nil, .stopped hstop⟩
      | ok new =>
        refine ⟨m :: done, rest, rfl, ?_, .cons (newMember_eq_ok hnew) hdone, hrest⟩
        exact List.forall_mem_cons.2 ⟨not_stops_of_newMember hnew, hgoesOn⟩
    · rw [if_neg hkeeps, List.filter_cons_of_neg (by exact hkeeps), hkept]
      exact ⟨done, rest, rfl, hgoesOn, hdone, hrest⟩

/-- What is counted where no member stops the run. -/
theorem counts_processMembers (h : (processMembers p a a.bytes members).failure? = none) :
    let run := processMembers p a a.bytes members
    run.seen = members.length ∧ run.seen = run.written.length + run.dropped ∧
      run.modified = if p.editor?.isSome then
        ((members.filter fun m => p.keeps m.name).filter fun m => Archive.isClass m.name).length
        else 0 := by
  induction members with
  | nil => simp [processMembers]
  | cons m members ih =>
    unfold processMembers at h ⊢
    by_cases hkeeps : p.keeps m.name = true
    · rw [if_pos hkeeps] at h ⊢
      cases hnew : newMember p a a.bytes m with
      | error e => simp [hnew] at h
      | ok new =>
        rw [hnew] at h
        obtain ⟨hseen, hsum, hmodified⟩ := ih h
        dsimp only at hseen hsum hmodified ⊢
        refine ⟨congrArg (· + 1) hseen, ?_, ?_⟩
        · rw [List.length_cons]
          omega
        · rw [hmodified, List.filter_cons_of_pos (by exact hkeeps)]
          cases p.editor? with
          | none => rfl
          | some r => cases hclass : Archive.isClass m.name <;> simp [hclass]
    · rw [if_neg hkeeps] at h ⊢
      obtain ⟨hseen, hsum, hmodified⟩ := ih h
      dsimp only at hseen hsum hmodified ⊢
      refine ⟨congrArg (· + 1) hseen, by omega, ?_⟩
      rw [hmodified, List.filter_cons_of_neg (by exact hkeeps)]

/-- The events are those of members that are dropped. -/
theorem exists_of_mem_events {event : Log.Event}
    (h : event ∈ (processMembers p a a.bytes members).events) : ∃ m ∈ members,
      event = Log.event .debug .repack (a.path.name ++ (": 移除 " : Text) ++ m.name) := by
  induction members with
  | nil => simp [processMembers] at h
  | cons m members ih =>
    have hlater (h : event ∈ (processMembers p a a.bytes members).events) :
        ∃ m' ∈ m :: members,
          event = Log.event .debug .repack (a.path.name ++ (": 移除 " : Text) ++ m'.name) := by
      obtain ⟨m', hm', heq⟩ := ih h
      exact ⟨m', List.mem_cons_of_mem _ hm', heq⟩
    unfold processMembers at h
    split at h
    · split at h
      · simp at h
      · exact hlater h
    · rcases List.mem_cons.1 h with rfl | h
      · exact ⟨m, List.mem_cons_self, rfl⟩
      · exact hlater h

end Repackaging

end Jarsmith
