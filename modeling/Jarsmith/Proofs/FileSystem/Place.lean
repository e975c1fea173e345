import Mathlib.Data.Set.Insert
import Mathlib.Tactic.SplitIfs
import Jarsmith.FileSystem.Basic
import Jarsmith.Proofs.Result

/-!
# Where paths lead

Without links a path leads to one place only, whatever the files are: `Path.landing` follows it on
the text alone, and `locate_eq_landing` says that a path that leads anywhere leads there. So two
paths lead to one file exactly if they land at one place, and what was there before a change can be
compared with what is there after it. Files of different names in one directory are at different
places (`Path.landing_child_eq_iff`).

What `put` does is told by `node?_put`, from which the other modules take all that they use.
-/

namespace Jarsmith

/-- The place to which a path leads if it leads anywhere, as seen from the place `root`. -/
def Path.landing (root : Place) (p : Path) : Place := (p.resolve root).parts

/-! ### Paths of a single part -/

theorem Text.splitOn_of_notMem {mark : CodePoint} {t : Text} (h : mark ∉ t) :
    t.splitOn mark = [t] := by
  induction t with
  | nil => rfl
  | cons c t ih =>
    rw [List.mem_cons, not_or] at h
    unfold Text.splitOn
    rw [if_neg (Ne.symm h.1), ih h.2]

namespace Path

variable {p : Path} {root : Place} {t u : Text}

/-- The text names something in a directory. -/
def IsPart (t : Text) : Prop := slash ∉ t ∧ t ≠ [] ∧ t ≠ dot ∧ t ≠ dotDot

theorem ofText_of_isPart (h : IsPart t) : ofText t = ⟨0, [t]⟩ := by
  obtain ⟨hslash, hempty, hdot, -⟩ := h
  -- Neither is a slash kept at the beginning, nor is the one part there is dropped.
  unfold ofText
  congr 1
  · unfold keptSlashes
    split <;> simp_all [slash]
  · rw [Text.splitOn_of_notMem hslash]
    simp [hempty, hdot]

theorem descend_of_notMem {place parts : List Text} (h : dotDot ∉ parts) :
    descend place parts = place ++ parts := by
  unfold descend
  induction parts generalizing place with
  | nil => simp
  | cons part parts ih =>
    rw [List.mem_cons, not_or] at h
    rw [List.foldl_cons, if_neg (Ne.symm h.1), ih h.2, List.append_assoc, List.singleton_append]

theorem landing_child (p : Path) (root : Place) (h : IsPart t) :
    (p.child t).landing root = p.landing root ++ [t] := by
  unfold child under landing resolve
  rw [ofText_of_isPart h]
  simp [isAbsolute, descend, h.2.2.2]

theorem landing_child_eq_iff (ht : IsPart t) (hu : IsPart u) :
    (p.child t).landing root = (p.child u).landing root ↔ t = u := by
  rw [landing_child p root ht, landing_child p root hu, List.append_cancel_left_eq,
    List.singleton_inj]

end Path

namespace FileSystem

variable {files : FileSystem} {place : Place} {path : Path}

/-! ### What is at a place -/

@[simp]
theorem node?_nil (files : FileSystem) : files.node? [] = some .directory := rfl

theorem lookup_filter_ne (nodes : List (Place × Node)) {p q : Place} (h : q ≠ p) :
    (nodes.filter (·.1 ≠ p)).lookup q = nodes.lookup q := by
  induction nodes with
  | nil => rfl
  | cons entry nodes ih =>
    obtain ⟨r, node⟩ := entry
    by_cases hr : r = p
    · have hq : (q == r) = false := by simpa [hr] using h
      rw [List.filter_cons_of_neg (by simpa using hr), ih, List.lookup_cons, hq]
    · rw [List.filter_cons_of_pos (by simpa using hr), List.lookup_cons, List.lookup_cons, ih]

theorem lookup_filter_self (nodes : List (Place × Node)) (p : Place) :
    (nodes.filter (·.1 ≠ p)).lookup p = none := by
  rw [List.lookup_eq_none_iff]
  intro entry h
  have hne : entry.1 ≠ p := by simpa using (List.mem_filter.1 h).2
  simpa using hne.symm

/-- Putting a node at a place changes what is there and nothing else; the root stays a directory. -/
theorem node?_put (files : FileSystem) (p : Place) (node : Node) (q : Place) :
    (files.put p node).node? q = if q = p ∧ p ≠ [] then some node else files.node? q := by
  cases q with
  | nil =>
    have : ¬ ([] = p ∧ p ≠ []) := by
      rintro ⟨hp, hne⟩
      exact hne hp.symm
    rw [if_neg this]
    rfl
  | cons part q =>
    show ((files.nodes.filter (·.1 ≠ p)) ++ [(p, node)]).lookup (part :: q) = _
    rw [List.lookup_append]
    by_cases hp : part :: q = p
    · rw [if_pos ⟨hp, hp ▸ List.cons_ne_nil part q⟩, hp, lookup_filter_self]
      simp
    · have hne : (part :: q == p) = false := by simpa using hp
      rw [if_neg (fun h => hp h.1), lookup_filter_ne _ hp, List.lookup_cons, hne]
      simp [node?]

theorem node?_put_self (files : FileSystem) {p : Place} (hp : p ≠ []) (node : Node) :
    (files.put p node).node? p = some node := by
  rw [node?_put, if_pos ⟨rfl, hp⟩]

theorem node?_put_of_ne (files : FileSystem) {p q : Place} (h : q ≠ p) (node : Node) :
    (files.put p node).node? q = files.node? q := by
  rw [node?_put, if_neg fun hq => h hq.1]

@[simp]
theorem workingDirectory_put (files : FileSystem) (p : Place) (node : Node) :
    (files.put p node).workingDirectory = files.workingDirectory := rfl

/-- Only the root has nothing that can be put elsewhere: a place that holds a file is not it. -/
theorem ne_nil_of_node?_ne_directory (h : files.node? place ≠ some .directory) : place ≠ [] := by
  rintro rfl
  exact h rfl

/-! ### Following a path -/

theorem locateFrom_eq_descend {parts : List Text} {target : Place}
    (h : files.locateFrom place parts = .ok target) : target = Path.descend place parts := by
  induction parts generalizing place with
  | nil =>
    simp only [locateFrom, Except.ok.injEq] at h
    exact h.symm
  | cons part parts ih =>
    unfold locateFrom at h
    unfold Path.descend at ih ⊢
    rw [List.foldl_cons]
    split at h
    · simp at h
    · simp at h
    · split_ifs at h with hlong hup
      · rw [ih h, if_pos hup]
      · rw [ih h, if_neg hup]

/-- The place from which a path is followed. -/
def startOf (files : FileSystem) (path : Path) : Place :=
  if path.isAbsolute then [] else files.workingDirectory

/-- A path leads to a place exactly if none of its parts holds a NUL and its parts lead there. -/
theorem locate_eq_ok :
    files.locate path = .ok place ↔
      path.parts.any (0 ∈ ·) = false ∧
        files.locateFrom (files.startOf path) path.parts = .ok place := by
  unfold locate startOf
  split_ifs with hnul habs
  · simp [hnul]
  all_goals simp [hnul, Except.mapError_eq_ok]

/-- A path that leads anywhere leads to its landing. -/
theorem locate_eq_landing (h : files.locate path = .ok place) :
    place = path.landing files.workingDirectory :=
  locateFrom_eq_descend (locate_eq_ok.1 h).2

end FileSystem

end Jarsmith
