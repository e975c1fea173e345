import Jarsmith.Configuration.Document
import Jarsmith.Proofs.Configuration.Resolved

/-!
# Values that are written to be read again

A list is read item by item (`Document.checkListOf_list_eq_valid_iff`). Where no field is named like
another one in camel case (`Record.Unambiguous`), a record that is written under the names of its
fields is read with the values that were written (`Record.given?_written`), and all its keys are
known (`Document.checkRecord_written`). So each field is read for itself.
-/

namespace Jarsmith

open Checked

/-! ### Lists -/

section

variable {α β : Type} {check : Document → Checked α} {d : Document} {ds : List Document}
  {as : List α}

theorem Checked.items_of_forall₂ (h : List.Forall₂ (fun d a => check d = .valid a) ds as)
    (first : Nat) : items check first ds = .valid as := by
  induction h generalizing first with
  | nil => rfl
  | cons hd _ ih =>
    rw [items, hd, ih]
    rfl

theorem Checked.items_eq_valid_iff {first : Nat} :
    items check first ds = .valid as ↔ List.Forall₂ (fun d a => check d = .valid a) ds as :=
  ⟨forall₂_of_items, fun h => items_of_forall₂ h first⟩

/-- A list that is written item by item is read item by item. -/
theorem Document.checkListOf_list_eq_valid_iff {bs : List β} {toDocument : β → Document} :
    (list (bs.map toDocument)).checkListOf check = .valid as ↔
      List.Forall₂ (fun b a => check (toDocument b) = .valid a) bs as := by
  show items check 0 (bs.map toDocument) = .valid as ↔ _
  rw [items_eq_valid_iff, List.forall₂_map_left_iff]

end

/-! ### Records -/

namespace Record

variable {fields : List (Text × Option Document)} {name : Text} {d : Document}
  {d? : Option Document}

/-- The record with the fields of the given names, as far as they have values. -/
def written (fields : List (Text × Option Document)) : Record :=
  ⟨fields.flatMap fun (name, d?) => Configuration.optionalEntry name d?⟩

/-- No two fields have one name, and no field is named like another one in camel case. -/
def Unambiguous (names : List Text) : Prop :=
  names.Nodup ∧ ∀ name ∈ names, camelCase name ∈ names → camelCase name = name

instance (names : List Text) : Decidable (Unambiguous names) :=
  inferInstanceAs (Decidable (_ ∧ _))

theorem mem_entries_written {entry : Document × Document} :
    entry ∈ (written fields).entries ↔
      ∃ name d, entry = (.text name, d) ∧ (name, some d) ∈ fields := by
  unfold written
  rw [List.mem_flatMap]
  constructor
  · rintro ⟨⟨name, d?⟩, hmem, hentry⟩
    cases d? with
    | none => exact absurd hentry List.not_mem_nil
    | some d => exact ⟨name, d, List.mem_singleton.1 hentry, hmem⟩
  · rintro ⟨name, d, rfl, hmem⟩
    exact ⟨(name, some d), hmem, List.mem_singleton_self _⟩

theorem lookupText?_written_cons (d? : Option Document) (key : Text) :
    Document.lookupText? (written ((name, d?) :: fields)).entries key =
      if name = key then d?.or (Document.lookupText? (written fields).entries key)
      else Document.lookupText? (written fields).entries key := by
  cases d? with
  | none => simp [written, Configuration.optionalEntry]
  | some d =>
    have hentries : (written ((name, some d) :: fields)).entries =
        (.text name, d) :: (written fields).entries := rfl
    rw [hentries, Document.lookupText?_cons, Document.text_beq_text]
    by_cases h : name = key <;> simp [h]

theorem lookupText?_written_of_notMem {key : Text} (h : key ∉ fields.map Prod.fst) :
    Document.lookupText? (written fields).entries key = none := by
  induction fields with
  | nil => rfl
  | cons field fields ih =>
    rw [List.map_cons, List.mem_cons, not_or] at h
    rw [lookupText?_written_cons, if_neg (Ne.symm h.1), ih h.2]

theorem lookupText?_written (hnodup : (fields.map Prod.fst).Nodup) (h : (name, d?) ∈ fields) :
    Document.lookupText? (written fields).entries name = d? := by
  induction fields with
  | nil => exact absurd h List.not_mem_nil
  | cons field fields ih =>
    obtain ⟨other, value?⟩ := field
    rw [List.map_cons, List.nodup_cons] at hnodup
    rw [lookupText?_written_cons]
    rcases List.mem_cons.1 h with heq | h
    · obtain ⟨rfl, rfl⟩ := Prod.mk.inj heq
      rw [if_pos rfl, lookupText?_written_of_notMem hnodup.1, Option.or_none]
    · have hne : other ≠ name := by
        rintro rfl
        exact hnodup.1 (List.mem_map.2 ⟨(other, d?), h, rfl⟩)
      rw [if_neg hne, ih hnodup.2 h]

/-- A field is given under its name, with the value that was written. -/
theorem given?_written (fields : List (Text × Option Document))
    (hnames : Unambiguous (fields.map Prod.fst)) (h : (name, d?) ∈ fields) :
    (written fields).given? name = d?.map (name, ·) := by
  have hmem : name ∈ fields.map Prod.fst := List.mem_map_of_mem h
  unfold given?
  by_cases hcamel : camelCase name ∈ fields.map Prod.fst
  · rw [hnames.2 name hmem hcamel, lookupText?_written hnames.1 h]
    cases d? <;> rfl
  · rw [lookupText?_written_of_notMem hcamel, lookupText?_written hnames.1 h]

/-! ### Fields of a record -/

variable {α : Type} {a ifMissing : α} {check : Document → Checked α}

theorem required_written (hnames : Unambiguous (fields.map Prod.fst))
    (h : (name, some d) ∈ fields) (hd : check d = .valid a) :
    (written fields).required name check = .valid a := by
  unfold required
  rw [given?_written fields hnames h, Option.map_some]
  exact under_eq_valid.2 hd

theorem optional_written (hnames : Unambiguous (fields.map Prod.fst))
    (h : (name, some d) ∈ fields) (hd : check d = .valid a) :
    (written fields).optional name ifMissing check = .valid a := by
  unfold optional
  rw [given?_written fields hnames h, Option.map_some]
  exact under_eq_valid.2 hd

theorem optional_written_of_none (hnames : Unambiguous (fields.map Prod.fst))
    (h : (name, none) ∈ fields) :
    (written fields).optional name ifMissing check = .valid ifMissing := by
  unfold optional
  rw [given?_written fields hnames h]
  rfl

/-- A part that may not be there is read as what is written of it, or as nothing. -/
theorem optional_written_option {β : Type} {b? : Option β} {toDocument : β → Document}
    {f : β → α} (hnames : Unambiguous (fields.map Prod.fst))
    (h : (name, b?.map toDocument) ∈ fields)
    (hcheck : ∀ b ∈ b?, (toDocument b).checkOption check = .valid (some (f b))) :
    (written fields).optional name none (Document.checkOption check) = .valid (b?.map f) := by
  cases b? with
  | none => exact optional_written_of_none hnames h
  | some b => exact optional_written hnames h (hcheck b rfl)

end Record

/-- No key of a written record is unknown, so that it is read field by field. -/
theorem Document.checkRecord_written {α : Type} {names : List Text} (part : Text)
    (check : Record → Checked α) (fields : List (Text × Option Document))
    (h : Record.Unambiguous names) (hnames : fields.map Prod.fst = names) :
    (Record.written fields).whole.checkRecord part names check =
      check (Record.written fields) := by
  subst hnames
  have hknown : (Record.written fields).entries.filterMap (Record.keyProblem?
      ((fields.map Prod.fst).filterMap fun field =>
        ((Record.written fields).given? field).map Prod.fst)) = [] := by
    rw [List.filterMap_eq_nil_iff]
    intro entry hentry
    obtain ⟨name, d, rfl, hmem⟩ := Record.mem_entries_written.1 hentry
    refine if_pos (List.mem_filterMap.2 ⟨name, List.mem_map_of_mem hmem, ?_⟩)
    rw [Record.given?_written fields h hmem]
    rfl
  show (Record.written fields).complete (fields.map Prod.fst) (check (Record.written fields)) = _
  unfold Record.complete
  dsimp only
  rw [hknown]

end Jarsmith
