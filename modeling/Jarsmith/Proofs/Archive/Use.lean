import Jarsmith.Archive.Open
import Jarsmith.Proofs.Archive.Obstacle

/-!
# What members are needed for

An operation on an archive needs the data of some members, one after another, and fails at the first
one that it cannot use. `Use` says what such a member is needed for, `Use.works` whether it can be
used, and `Use.Fails` with what fault it fails if not. `Accounts` says that a failure is that of the
first use that does not work; of an operation in two parts this is shown part by part
(`Accounts.bind`).

A failure is `Documented` if there is none, or if it tells the path of an archive that cannot be
opened, or the archive and the first member that cannot be used, as one that is stored by a method
that is not supported or cannot be parsed. `Accounts.documented_iff` and
`documented_iff_of_container` say that this is so unless the failure `escapes`: then the bytes are
not malformed, and the error that says what else is wrong is told as it is. In what ways this
happens is listed by `obstacle_of_escapes`.
-/

namespace Jarsmith

namespace Archive

/-- The storage method of the member is one of the two that are read. -/
def Member.isSupported (m : Member) : Bool :=
  m.method = storedMethod ∨ m.method = deflatedMethod

/-- The name of the member can be written again. -/
def Member.isWritable (m : Member) : Bool := (m.name.flatMap Utf8.encodePoint).length < 0x10000

/-- A member whose data are needed. -/
structure Use where
  member : Member
  /-- The bytes of the file from which the data are read. -/
  bytes : Bytes
  /-- Whether data can be parsed as that for which they are needed. -/
  parses : Bytes → Bool
  /-- Whether the member is written again. -/
  isRewritten : Bool

namespace Use

/-- The member can be used. -/
def works (u : Use) : Bool :=
  u.member.isSupported && match u.member.contents u.bytes with
    | .ok data => u.parses data && (!u.isRewritten || u.member.isWritable)
    | .error _ => false

/-- The member cannot be used, and not because its method is not supported or because its bytes are
malformed. -/
def escapes (u : Use) : Bool :=
  u.member.isSupported && match u.member.contents u.bytes with
    | .ok data => u.parses data && u.isRewritten && !u.member.isWritable
    | .error x => !x.isMalformed

/-- The fault is one of the use of a member of the archive at the path. -/
inductive Fails (path : Path) (u : Use) : Fault → Prop where
  | method (h : u.member.isSupported = false) :
    Fails path u (.storageMethod path.name u.member.name u.member.method)
  | unparsable {cause : Fault} (hmethod : u.member.isSupported = true) (h : u.works = false)
    (hescapes : u.escapes = false) :
    Fails path u (.unparsable (path.name ++ ("!" : Text) ++ u.member.name) cause)
  | archive {x : Error} (h : u.escapes = true) : Fails path u (.archive x)
  | name (h : u.escapes = true) : Fails path u .fieldOverflow

variable {path : Path} {u : Use} {e : Fault}

theorem works_eq_false_of_escapes (h : u.escapes = true) : u.works = false := by
  unfold escapes at h
  unfold works
  cases hcontents : u.member.contents u.bytes with
  | error x => simp
  | ok data =>
    rw [hcontents] at h
    cases hwritable : u.member.isWritable with
    | true => simp [hwritable] at h
    | false =>
      cases hrewritten : u.isRewritten with
      | false => simp [hrewritten] at h
      | true => simp

theorem Fails.works_eq_false (h : u.Fails path e) : u.works = false := by
  cases h with
  | method h =>
    unfold works
    rw [h, Bool.false_and]
  | unparsable _ h _ => exact h
  | archive h | name h => exact works_eq_false_of_escapes h

/-- A use is done with data that are parsed, if the member need not be written again or can be. -/
theorem works_of_parses {data : Bytes} (hmethod : u.member.isSupported = true)
    (hcontents : u.member.contents u.bytes = .ok data) (hparses : u.parses data = true)
    (hwritten : u.isRewritten = true → u.member.isWritable = true) : u.works = true := by
  unfold works
  rw [hmethod, hcontents, Bool.true_and]
  dsimp only
  rw [hparses, Bool.true_and, Bool.or_eq_true, Bool.not_eq_true']
  cases hrewritten : u.isRewritten with
  | false => exact .inl rfl
  | true => exact .inr (hwritten hrewritten)

/-- Data that are not parsed are told with the member, whatever is wrong with them. -/
theorem Fails.of_parses {data : Bytes} {cause : Fault} (hmethod : u.member.isSupported = true)
    (hcontents : u.member.contents u.bytes = .ok data) (hparses : u.parses data = false) :
    u.Fails path (.unparsable (path.name ++ ("!" : Text) ++ u.member.name) cause) := by
  refine .unparsable hmethod ?_ ?_
  · simp [works, hcontents, hparses]
  · simp [escapes, hcontents, hparses]

end Use

/-- The first use that does not work. -/
def failing? (uses : List Use) : Option Use := uses.find? fun u => !u.works

variable {path : Path} {bytes : Bytes} {u : Use} {uses more : List Use} {e : Fault}
  {failure? : Option Fault} {α β : Type}

/-- The failure, if there is one, is that of the first use that does not work. -/
def Accounts (path : Path) (uses : List Use) : Option Fault → Prop
  | none => failing? uses = none
  | some e => ∃ u, failing? uses = some u ∧ u.Fails path e

theorem Accounts.nil (path : Path) : Accounts path [] none := rfl

theorem Accounts.fails (h : u.Fails path e) : Accounts path [u] (some e) :=
  ⟨u, by simp [failing?, h.works_eq_false], h⟩

theorem Accounts.works (h : u.works = true) : Accounts path [u] none := by
  simp [Accounts, failing?, h]

theorem failing?_append (uses more : List Use) :
    failing? (uses ++ more) = (failing? uses).or (failing? more) := List.find?_append

/-- After a failure no more members are needed. -/
theorem Accounts.append_left (h : Accounts path uses (some e)) :
    Accounts path (uses ++ more) (some e) := by
  obtain ⟨u, hu, hfails⟩ := h
  exact ⟨u, by rw [failing?_append, hu, Option.some_or], hfails⟩

theorem Accounts.append_right (h : Accounts path uses none) (hmore : Accounts path more failure?) :
    Accounts path (uses ++ more) failure? := by
  have hfailing : failing? (uses ++ more) = failing? more := by
    rw [failing?_append, show failing? uses = none from h, Option.none_or]
  cases failure? with
  | none => exact hfailing.trans hmore
  | some e =>
    obtain ⟨u, hu, hfails⟩ := hmore
    exact ⟨u, hfailing.trans hu, hfails⟩

/-- The fault of a result, if it is one. -/
def fault? (r : Except Fault α) : Option Fault :=
  match r with
  | .ok _ => none
  | .error e => some e

@[simp]
theorem fault?_map (f : α → β) (r : Except Fault α) : fault? (r.map f) = fault? r := by
  cases r <;> rfl

/-- What follows a computation that succeeds accounts for the uses after its own. -/
theorem Accounts.bind {r : Except Fault α} {f : α → Except Fault β}
    (h : Accounts path uses (fault? r))
    (hmore : ∀ a, r = .ok a → Accounts path more (fault? (f a))) :
    Accounts path (uses ++ more) (fault? (r.bind f)) := by
  cases r with
  | error e => exact h.append_left
  | ok a => exact h.append_right (hmore a rfl)

/-! ### What is documented -/

/-- There is no failure, or it is told of the archive, or of the first member that cannot be used,
that it cannot be read. -/
inductive Documented (path : Path) (bytes : Bytes) (uses : Archive → List Use) :
    Option Fault → Prop where
  | success : Documented path bytes uses none
  | container {x : Error} (h : ofBytes bytes = .error x) :
    Documented path bytes uses
      (some (.unparsable (("无法读取归档 " : Text) ++ path.toText) (.archive x)))
  | method {archive : Archive} {u : Use} (h : ofBytes bytes = .ok archive)
    (hu : failing? (uses archive) = some u) (hmethod : u.member.isSupported = false) :
    Documented path bytes uses
      (some (.storageMethod path.name u.member.name u.member.method))
  | member {archive : Archive} {u : Use} {cause : Fault} (h : ofBytes bytes = .ok archive)
    (hu : failing? (uses archive) = some u) (hmethod : u.member.isSupported = true) :
    Documented path bytes uses
      (some (.unparsable (path.name ++ ("!" : Text) ++ u.member.name) cause))

/-- What makes the operation fail is not that something is malformed or stored by a method that is
not supported. -/
def escapes (bytes : Bytes) (uses : Archive → List Use) : Bool :=
  match ofBytes bytes with
  | .error x => !x.isMalformed
  | .ok archive => (failing? (uses archive)).any Use.escapes

/-- A failure to open an archive is told with its path if its bytes are malformed, and only then. -/
theorem documented_iff_of_container {uses : Archive → List Use} {x : Error}
    (h : ofBytes bytes = .error x) :
    Documented path bytes uses (some (if x.isMalformed then
        .unparsable (("无法读取归档 " : Text) ++ path.toText) (.archive x) else .archive x)) ↔
      escapes bytes uses = false := by
  unfold escapes
  rw [h]
  cases hx : x.isMalformed with
  | true => exact iff_of_true (.container h) (by simp [hx])
  | false =>
    refine iff_of_false ?_ (by simp [hx])
    intro hdoc
    simp only [Bool.false_eq_true, if_false] at hdoc
    nomatch hdoc

/-- A failure of the first use that does not work is told with the archive and the member, unless
it is one that escapes. -/
theorem Accounts.documented_iff {uses : Archive → List Use} {archive : Archive}
    (h : ofBytes bytes = .ok archive) (haccounts : Accounts path (uses archive) failure?) :
    Documented path bytes uses failure? ↔ escapes bytes uses = false := by
  have hescapes : escapes bytes uses = (failing? (uses archive)).any Use.escapes := by
    unfold escapes
    rw [h]
  rw [hescapes]
  cases failure? with
  | none =>
    rw [show failing? (uses archive) = none from haccounts]
    exact iff_of_true .success rfl
  | some e =>
    obtain ⟨u, hu, hfails⟩ := haccounts
    rw [hu, Option.any_some]
    cases hfails with
    | method hmethod =>
      exact iff_of_true (.method h hu hmethod) (by simp [Use.escapes, hmethod])
    | unparsable hmethod _ hnot => exact iff_of_true (.member h hu hmethod) hnot
    | archive hyes | name hyes =>
      refine iff_of_false ?_ (by simp [hyes])
      intro hdoc
      nomatch hdoc

/-! ### What escapes -/

/-- A use escapes only where there is an obstacle to the reading of the member, or where its name is
too long to be written again. -/
theorem Use.obstacle_of_escapes (h : u.escapes = true) :
    (∃ x, u.member.Obstacle u.bytes x) ∨ u.isRewritten = true ∧ u.member.isWritable = false := by
  unfold escapes at h
  cases hcontents : u.member.contents u.bytes with
  | ok data =>
    rw [hcontents] at h
    simp only [Bool.and_eq_true, Bool.not_eq_true'] at h
    exact .inr ⟨h.2.1.2, h.2.2⟩
  | error x =>
    rw [hcontents] at h
    rcases u.member.contents_failsOnly u.bytes x hcontents with hx | hobstacle
    · simp [hx] at h
    · exact .inl ⟨x, hobstacle⟩

/-- A failure escapes only in these ways: an entry of the directory asks for a later version of the
format, a name of the directory is not in UTF-8 though it should be, or the first member that cannot
be used has an obstacle or a name that is too long to be written again. -/
theorem obstacle_of_escapes {uses : Archive → List Use} (h : escapes bytes uses = true) :
    (∃ tenths, ofBytes bytes = .error (.laterVersion tenths)) ∨ ofBytes bytes = .error .badUtf8 ∨
      ∃ archive u, ofBytes bytes = .ok archive ∧ failing? (uses archive) = some u ∧
        ((∃ x, u.member.Obstacle u.bytes x) ∨
          u.isRewritten = true ∧ u.member.isWritable = false) := by
  unfold escapes at h
  cases harchive : ofBytes bytes with
  | error x =>
    rw [harchive] at h
    rcases ofBytes_failsOnly bytes x harchive with hx | rfl | ⟨tenths, rfl⟩
    · simp [hx] at h
    · exact .inr (.inl rfl)
    · exact .inl ⟨tenths, rfl⟩
  | ok archive =>
    rw [harchive] at h
    obtain ⟨u, hu, hescapes⟩ := (Option.any_eq_true _ _).1 h
    exact .inr (.inr ⟨archive, u, rfl, hu, Use.obstacle_of_escapes hescapes⟩)

end Archive

end Jarsmith
