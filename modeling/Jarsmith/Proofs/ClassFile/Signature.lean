import Mathlib.Data.List.TakeWhile
import Jarsmith.Proofs.ClassFile.Descriptor

/-!
# The classes that generic signatures name

A signature is made of words: type variables, type parameters, and the names of class types, each of
them ended by a mark. The scan of a text never goes over the end of a word, and whether a name is
found in a word is told by the word and its mark alone (`Spells.word`). So what the scan finds in a
signature is put together from its words (`Signature.spells`), whatever letters they have.

A class type without an inner class after it is a word of the letter `L` and the name, and is found,
unless a parenthesis or a closing bracket is in the name, which identifiers may have but the scan
stops at. The name of an inner class is put together from words of its own, and none of them has it
(`signature_class_may_be_missed`). Either is found only if some word has the same name
(`signature_types_found`).
-/

namespace Jarsmith.ClassFile

/-! ### The grammar -/

/-- An identifier in a signature: not empty, and without the marks of signatures and blanks. -/
structure Identifier where
  text : Text
  ne_nil : text ≠ []
  isIdentifier : ∀ c ∈ text, c ∉ (".;[/<>:" : Text) ∧ c.isBlank = false

/-- The bounds that a type argument may be marked with. -/
inductive Wildcard
  | upper
  | lower
  deriving DecidableEq, Repr

/-- The mark of a bound. -/
def Wildcard.mark : Wildcard → CodePoint
  | upper => 0x2B
  | lower => 0x2D

mutual

/-- A type in a signature. -/
inductive JavaType
  | primitive (p : Primitive)
  | reference (t : ReferenceType)

/-- A class type, a type variable or an array. -/
inductive ReferenceType
  | object (t : ClassType)
  | typeVariable (name : Identifier)
  | array (element : JavaType)

/-- A class of a package, or an inner class of a class type. -/
inductive ClassType
  | top (package : List Identifier) (name : Identifier) (arguments : TypeArguments)
  | inner (enclosing : ClassType) (name : Identifier) (arguments : TypeArguments)

/-- The type arguments of a class; without any there are no brackets. -/
inductive TypeArguments
  | nil
  | any (rest : TypeArguments)
  | type (wildcard? : Option Wildcard) (t : ReferenceType) (rest : TypeArguments)

end

/-- The name of a class with its package. -/
def qualifiedName (package : List Identifier) (name : Identifier) : Text :=
  package.flatMap (fun part => part.text ++ [0x2F]) ++ name.text

/-- Between angle brackets, unless it is empty. -/
def bracketed (t : Text) : Text := if t.isEmpty then [] else 0x3C :: (t ++ [0x3E])

mutual

/-- A type as signatures have it. -/
def JavaType.text : JavaType → Text
  | .primitive p => [p.letter]
  | .reference t => t.text

def ReferenceType.text : ReferenceType → Text
  | .object t => t.text ++ [0x3B]
  | .typeVariable name => 0x54 :: (name.text ++ [0x3B])
  | .array element => 0x5B :: element.text

/-- A class type as signatures have it, without the semicolon behind it. -/
def ClassType.text : ClassType → Text
  | .top package name arguments =>
    0x4C :: (qualifiedName package name ++ bracketed arguments.text)
  | .inner enclosing name arguments =>
    enclosing.text ++ 0x2E :: (name.text ++ bracketed arguments.text)

def TypeArguments.text : TypeArguments → Text
  | .nil => []
  | .any rest => 0x2A :: rest.text
  | .type wildcard? t rest => (wildcard?.map Wildcard.mark).toList ++ t.text ++ rest.text

end

/-- The binary name of the class that a class type denotes, with slashes. -/
def ClassType.binaryName : ClassType → Text
  | .top package name _ => qualifiedName package name
  | .inner enclosing name _ => enclosing.binaryName ++ 0x24 :: name.text

mutual

/-- The class types in a type, at any depth. -/
def JavaType.classTypes : JavaType → List ClassType
  | .primitive _ => []
  | .reference t => t.classTypes

def ReferenceType.classTypes : ReferenceType → List ClassType
  | .object t => t :: t.argumentTypes
  | .typeVariable _ => []
  | .array element => element.classTypes

/-- The class types in the type arguments of a class type and of those around it. -/
def ClassType.argumentTypes : ClassType → List ClassType
  | .top _ _ arguments => arguments.classTypes
  | .inner enclosing _ arguments => enclosing.argumentTypes ++ arguments.classTypes

def TypeArguments.classTypes : TypeArguments → List ClassType
  | .nil => []
  | .any rest => rest.classTypes
  | .type _ t rest => t.classTypes ++ rest.classTypes

end

/-- A type parameter with the bounds of its types. -/
structure TypeParameter where
  name : Identifier
  classBound? : Option ReferenceType
  interfaceBounds : List ReferenceType

/-- What a method may throw. -/
inductive Thrown
  | object (t : ClassType)
  | typeVariable (name : Identifier)

/-- The type of what is thrown. -/
def Thrown.type : Thrown → ReferenceType
  | object t => .object t
  | typeVariable name => .typeVariable name

/-- The signature of a class, a method or a field. A method without a value has no result. -/
inductive Signature
  | ofClass (parameters : List TypeParameter) (superclass : ClassType) (interfaces : List ClassType)
  | ofMethod (parameters : List TypeParameter) (arguments : List JavaType)
    (result? : Option JavaType) (thrown : List Thrown)
  | ofField (type : ReferenceType)

def TypeParameter.text (p : TypeParameter) : Text :=
  p.name.text ++ 0x3A :: (p.classBound?.elim [] ReferenceType.text ++
    p.interfaceBounds.flatMap fun t => 0x3A :: t.text)

def TypeParameter.classTypes (p : TypeParameter) : List ClassType :=
  p.classBound?.elim [] ReferenceType.classTypes ++
    p.interfaceBounds.flatMap ReferenceType.classTypes

namespace Signature

/-- The text of a signature. -/
def text : Signature → Text
  | ofClass parameters superclass interfaces =>
    bracketed (parameters.flatMap TypeParameter.text) ++
      (superclass :: interfaces).flatMap fun t => (ReferenceType.object t).text
  | ofMethod parameters arguments result? thrown =>
    bracketed (parameters.flatMap TypeParameter.text) ++ 0x28 :: (arguments.flatMap JavaType.text ++
      0x29 :: (result?.elim [0x56] JavaType.text ++ thrown.flatMap fun t => 0x5E :: t.type.text))
  | ofField type => type.text

/-- The class types in a signature, at any depth. -/
def classTypes : Signature → List ClassType
  | ofClass parameters superclass interfaces =>
    parameters.flatMap TypeParameter.classTypes ++
      (superclass :: interfaces).flatMap fun t => (ReferenceType.object t).classTypes
  | ofMethod parameters arguments result? thrown =>
    parameters.flatMap TypeParameter.classTypes ++ (arguments.flatMap JavaType.classTypes ++
      (result?.elim [] JavaType.classTypes ++ thrown.flatMap fun t => t.type.classTypes))
  | ofField type => type.classTypes

end Signature

/-! ### Words -/

/-- A word of a signature and the mark at its end. -/
structure Word where
  text : Text
  mark : CodePoint

/-- What stands behind the first `L` behind which there is nothing but a name, with dots. -/
def spelled? : Text → Option Text
  | [] => none
  | c :: t => if c = 0x4C ∧ t ≠ [] ∧ t.all isNamePoint then some (dotted t) else spelled? t

/-- The class that a word is taken to name: words with other marks name none. -/
def Word.name? (w : Word) : Option Text :=
  if w.mark = 0x3B ∨ w.mark = 0x3C then spelled? w.text else none

/-- The mark behind the name of a class: an opening bracket, if type arguments follow. -/
def markBefore (arguments : Text) (mark : CodePoint) : CodePoint :=
  if arguments.isEmpty then mark else 0x3C

mutual

/-- The words of a type. -/
def JavaType.words : JavaType → List Word
  | .primitive _ => []
  | .reference t => t.words

def ReferenceType.words : ReferenceType → List Word
  | .object t => t.words 0x3B
  | .typeVariable name => [⟨0x54 :: name.text, 0x3B⟩]
  | .array element => element.words

/-- The words of a class type that ends with a mark. -/
def ClassType.words : ClassType → (mark : CodePoint) → List Word
  | .top package name arguments, mark =>
    ⟨0x4C :: qualifiedName package name, markBefore arguments.text mark⟩ :: arguments.words
  | .inner enclosing name arguments, mark =>
    enclosing.words 0x2E ++ ⟨name.text, markBefore arguments.text mark⟩ :: arguments.words

def TypeArguments.words : TypeArguments → List Word
  | .nil => []
  | .any rest => rest.words
  | .type _ t rest => t.words ++ rest.words

end

def TypeParameter.words (p : TypeParameter) : List Word :=
  ⟨p.name.text, 0x3A⟩ :: (p.classBound?.elim [] ReferenceType.words ++
    p.interfaceBounds.flatMap ReferenceType.words)

/-- The words of a signature. -/
def Signature.words : Signature → List Word
  | ofClass parameters superclass interfaces =>
    parameters.flatMap TypeParameter.words ++
      (superclass :: interfaces).flatMap fun t => (ReferenceType.object t).words
  | ofMethod parameters arguments result? thrown =>
    parameters.flatMap TypeParameter.words ++ (arguments.flatMap JavaType.words ++
      (result?.elim [] JavaType.words ++ thrown.flatMap fun t => t.type.words))
  | ofField type => type.words

/-! ### What the scan finds in words -/

section

variable {t rest : Text} {c : CodePoint}

/-- A name that fills the rest of a word is found if the word ends at a semicolon or an opening
bracket. -/
theorem typeNames_of_name (ht : ∀ p ∈ t, isNamePoint p = true) (hne : t ≠ [])
    (hc : c = 0x3B ∨ c = 0x3C) :
    typeNames (0x4C :: (t ++ c :: rest)) = dotted t :: typeNames rest := by
  have hpoint : ¬ isNamePoint c = true := by rcases hc with rfl | rfl <;> decide
  have htake : (t ++ c :: rest).takeWhile isNamePoint = t := by
    rw [List.takeWhile_append_of_pos ht, List.takeWhile_cons_of_neg hpoint, List.append_nil]
  have hdrop : (t ++ c :: rest).dropWhile isNamePoint = c :: rest := by
    rw [List.dropWhile_append_of_pos ht, List.dropWhile_cons_of_neg hpoint]
  rw [typeNames, if_pos rfl]
  split
  · next p ps mark rest' htake' hdrop' =>
    obtain ⟨rfl, rfl⟩ := List.cons.inj (hdrop.symm.trans hdrop')
    rw [if_pos hc, ← htake', htake]
  · next hnone =>
    obtain ⟨p, ps, rfl⟩ := List.exists_cons_of_ne_nil hne
    exact absurd hdrop (hnone p ps c rest htake)

/-- In every other case the scan goes on behind the `L`. -/
theorem typeNames_of_no_name (ht : ∀ p ∈ t, p ≠ 0x3B ∧ p ≠ 0x3C) (hc : isNamePoint c = false)
    (hno : ¬ ((∀ p ∈ t, isNamePoint p = true) ∧ t ≠ [] ∧ (c = 0x3B ∨ c = 0x3C))) :
    typeNames (0x4C :: (t ++ c :: rest)) = typeNames (t ++ c :: rest) := by
  rw [typeNames, if_pos rfl]
  split
  · next p ps mark rest' htake hdrop =>
    rw [if_neg]
    intro hmark
    by_cases hall : ∀ p ∈ t, isNamePoint p = true
    · rw [List.dropWhile_append_of_pos hall, List.dropWhile_cons_of_neg (by simp [hc])] at hdrop
      rw [List.takeWhile_append_of_pos hall, List.takeWhile_cons_of_neg (by simp [hc]),
        List.append_nil] at htake
      obtain rfl := (List.cons.inj hdrop).1
      exact hno ⟨hall, by rw [htake]; exact List.cons_ne_nil p ps, hmark⟩
    · -- The name that begins here breaks off in the word, and not at one of the two marks.
      obtain ⟨q, qs, hq⟩ := List.exists_cons_of_ne_nil (mt List.dropWhile_eq_nil_iff.1 hall)
      rw [List.dropWhile_append, hq, List.isEmpty_cons, if_neg Bool.false_ne_true] at hdrop
      obtain rfl := (List.cons.inj hdrop).1
      have hmem : q ∈ t := (List.dropWhile_sublist isNamePoint).subset (hq ▸ List.mem_cons_self)
      exact not_or.2 (ht q hmem) hmark
  · rfl

end

/-- The scan goes over the text, finds in it what its words name, and goes on behind it. -/
def Spells (t : Text) (words : List Word) : Prop :=
  ∀ rest, typeNames (t ++ rest) = words.filterMap Word.name? ++ typeNames rest

namespace Spells

variable {t u : Text} {words words' : List Word} {c : CodePoint}

theorem nil : Spells [] [] := fun _ => rfl

theorem append (ht : Spells t words) (hu : Spells u words') :
    Spells (t ++ u) (words ++ words') := by
  intro rest
  rw [List.append_assoc, ht, hu, List.filterMap_append, List.append_assoc]

/-- No name begins where there is no `L`. -/
theorem cons (hc : c ≠ 0x4C) (ht : Spells t words) : Spells (c :: t) words :=
  fun rest => (typeNames_cons_of_ne hc (t ++ rest)).trans (ht rest)

theorem flatMap {α : Type} {text : α → Text} {words : α → List Word} {xs : List α}
    (h : ∀ x ∈ xs, Spells (text x) (words x)) : Spells (xs.flatMap text) (xs.flatMap words) := by
  induction xs with
  | nil => exact nil
  | cons x xs ih =>
    obtain ⟨hx, hxs⟩ := List.forall_mem_cons.1 h
    rw [List.flatMap_cons, List.flatMap_cons]
    exact hx.append (ih hxs)

theorem elim {α : Type} {text : α → Text} {words : α → List Word} {ifNone : Text} {x? : Option α}
    (hnone : Spells ifNone []) (h : ∀ x, Spells (text x) (words x)) :
    Spells (x?.elim ifNone text) (x?.elim [] words) := by
  cases x? with
  | none => exact hnone
  | some x => exact h x

/-- A word is scanned for itself: a name that begins in it ends at its mark or not at all. -/
theorem word (ht : ∀ p ∈ t, p ≠ 0x3B ∧ p ≠ 0x3C) (hc : c ∈ ([0x3B, 0x3C, 0x2E, 0x3A] : Text)) :
    Spells (t ++ [c]) [⟨t, c⟩] := by
  obtain ⟨hpoint, hL⟩ : isNamePoint c = false ∧ c ≠ 0x4C := by
    revert c
    decide
  intro rest
  rw [List.append_assoc, List.singleton_append]
  induction t with
  | nil =>
    rw [List.nil_append, typeNames_cons_of_ne hL]
    simp [Word.name?, spelled?]
  | cons d t ih =>
    have htail := (List.forall_mem_cons.1 ht).2
    by_cases hfound : d = 0x4C ∧ (∀ p ∈ t, isNamePoint p = true) ∧ t ≠ [] ∧ (c = 0x3B ∨ c = 0x3C)
    · obtain ⟨rfl, hall, hne, hmark⟩ := hfound
      rw [List.cons_append, typeNames_of_name hall hne hmark]
      simp [Word.name?, spelled?, hmark, hne, List.all_eq_true.2 hall]
    · -- Where no name is found at `d`, all is as in the rest of the word.
      have hname : (⟨d :: t, c⟩ : Word).name? = (⟨t, c⟩ : Word).name? := by
        unfold Word.name?
        split
        · next hmark =>
          rw [spelled?, if_neg]
          rintro ⟨hd, hne, hall⟩
          exact hfound ⟨hd, List.all_eq_true.1 hall, hne, hmark⟩
        · rfl
      have hnames : typeNames (d :: (t ++ c :: rest)) = typeNames (t ++ c :: rest) := by
        by_cases hd : d = 0x4C
        · subst hd
          exact typeNames_of_no_name htail hpoint fun h => hfound ⟨rfl, h⟩
        · exact typeNames_cons_of_ne hd _
      rw [List.cons_append, hnames, ih htail, List.filterMap_cons, List.filterMap_cons, hname]

end Spells

/-! ### The words of a signature -/

variable {t : Text} {mark : CodePoint}

theorem Identifier.ne_mark (i : Identifier) : ∀ p ∈ i.text, p ≠ 0x3B ∧ p ≠ 0x3C := by
  have hmarks : (0x3B : CodePoint) ∈ (".;[/<>:" : Text) ∧ (0x3C : CodePoint) ∈ (".;[/<>:" : Text) := by
    decide
  refine fun p hp => ⟨?_, ?_⟩
  · rintro rfl
    exact (i.isIdentifier _ hp).1 hmarks.1
  · rintro rfl
    exact (i.isIdentifier _ hp).1 hmarks.2

theorem qualifiedName_ne_mark (package : List Identifier) (name : Identifier) :
    ∀ p ∈ qualifiedName package name, p ≠ 0x3B ∧ p ≠ 0x3C := by
  intro p hp
  rcases List.mem_append.1 hp with hp | hp
  · obtain ⟨part, -, hp⟩ := List.mem_flatMap.1 hp
    rcases List.mem_append.1 hp with hp | hp
    · exact part.ne_mark p hp
    · obtain rfl := List.mem_singleton.1 hp
      decide
  · exact name.ne_mark p hp

/-- The name of a class with its type arguments, before a mark. -/
theorem Spells.withArguments {w arguments : Text} {words : List Word}
    (hw : ∀ p ∈ w, p ≠ 0x3B ∧ p ≠ 0x3C) (hmark : mark = 0x3B ∨ mark = 0x2E)
    (harguments : Spells arguments words) :
    Spells (w ++ bracketed arguments ++ [mark]) (⟨w, markBefore arguments mark⟩ :: words) := by
  unfold bracketed markBefore
  split
  · next hnil =>
    obtain rfl := List.isEmpty_iff.1 hnil
    have hword : Spells (w ++ [mark]) [⟨w, mark⟩] :=
      .word hw (by rcases hmark with rfl | rfl <;> decide)
    rw [List.append_nil]
    have h := hword.append harguments
    rwa [List.append_nil] at h
  · have hopening : Spells (w ++ [0x3C]) [⟨w, 0x3C⟩] := .word hw (by decide)
    have hclosing : Spells [0x3E, mark] [] :=
      .cons (by decide) (.cons (by rcases hmark with rfl | rfl <;> decide) .nil)
    have h := hopening.append (harguments.append hclosing)
    simpa using h

mutual

theorem JavaType.spells : (t : JavaType) → Spells t.text t.words
  | .primitive p => .cons p.letter_ne .nil
  | .reference t => t.spells

theorem ReferenceType.spells : (t : ReferenceType) → Spells t.text t.words
  | .object t => t.spells (.inl rfl)
  | .typeVariable name => by
    have hword : ∀ p ∈ 0x54 :: name.text, p ≠ 0x3B ∧ p ≠ 0x3C :=
      List.forall_mem_cons.2 ⟨by decide, name.ne_mark⟩
    exact .word hword (by decide)
  | .array element => .cons (by decide) element.spells

theorem ClassType.spells {mark : CodePoint} (hmark : mark = 0x3B ∨ mark = 0x2E) :
    (t : ClassType) → Spells (t.text ++ [mark]) (t.words mark)
  | .top package name arguments => by
    have hword : ∀ p ∈ 0x4C :: qualifiedName package name, p ≠ 0x3B ∧ p ≠ 0x3C :=
      List.forall_mem_cons.2 ⟨by decide, qualifiedName_ne_mark package name⟩
    exact .withArguments hword hmark arguments.spells
  | .inner enclosing name arguments => by
    have h := (enclosing.spells (.inr rfl)).append
      (.withArguments name.ne_mark hmark arguments.spells)
    simpa [ClassType.text, ClassType.words] using h

theorem TypeArguments.spells : (t : TypeArguments) → Spells t.text t.words
  | .nil => .nil
  | .any rest => .cons (by decide) rest.spells
  | .type wildcard? t rest => by
    have h := t.spells.append rest.spells
    cases wildcard? with
    | none => exact h
    | some w => exact .cons (by cases w <;> decide) h

end

theorem TypeParameter.spells (p : TypeParameter) : Spells p.text p.words := by
  have hname : Spells (p.name.text ++ [0x3A]) [⟨p.name.text, 0x3A⟩] :=
    .word p.name.ne_mark (by decide)
  have hclass : Spells (p.classBound?.elim [] ReferenceType.text)
      (p.classBound?.elim [] ReferenceType.words) := .elim .nil ReferenceType.spells
  have hinterfaces : Spells (p.interfaceBounds.flatMap fun t => 0x3A :: t.text)
      (p.interfaceBounds.flatMap ReferenceType.words) :=
    .flatMap fun t _ => .cons (by decide) t.spells
  simpa [TypeParameter.text, TypeParameter.words] using hname.append (hclass.append hinterfaces)

theorem Spells.bracketed {words : List Word} (ht : Spells t words) :
    Spells (bracketed t) words := by
  unfold ClassFile.bracketed
  split
  · next hnil => exact List.isEmpty_iff.1 hnil ▸ ht
  · have h := ht.append (.cons (by decide) .nil : Spells [0x3E] [])
    rw [List.append_nil] at h
    exact .cons (by decide) h

/-- The scan finds in a signature what its words name. -/
theorem Signature.spells (s : Signature) : Spells s.text s.words := by
  have hparameters (ps : List TypeParameter) :
      Spells (bracketed (ps.flatMap TypeParameter.text)) (ps.flatMap TypeParameter.words) :=
    .bracketed (.flatMap fun p _ => p.spells)
  cases s with
  | ofClass parameters superclass interfaces =>
    exact (hparameters parameters).append (.flatMap fun t _ => (ReferenceType.object t).spells)
  | ofMethod parameters arguments result? thrown =>
    have hresult : Spells (result?.elim [0x56] JavaType.text) (result?.elim [] JavaType.words) :=
      .elim (.cons (by decide) .nil) JavaType.spells
    have hthrown : Spells (thrown.flatMap fun t => 0x5E :: t.type.text)
        (thrown.flatMap fun t => t.type.words) :=
      .flatMap fun t _ => .cons (by decide) t.type.spells
    have harguments : Spells (arguments.flatMap JavaType.text) (arguments.flatMap JavaType.words) :=
      .flatMap fun t _ => t.spells
    exact (hparameters parameters).append
      (.cons (by decide) (harguments.append (.cons (by decide) (hresult.append hthrown))))
  | ofField type => exact type.spells

theorem typeNames_signature (s : Signature) : typeNames s.text = s.words.filterMap Word.name? := by
  have h := s.spells []
  rwa [List.append_nil, typeNames_nil, List.append_nil] at h

/-! ### The words of class types -/

mutual

/-- The words of the class types in a type are words of it. -/
theorem JavaType.words_subset {u : ClassType} :
    (t : JavaType) → u ∈ t.classTypes → u.words 0x3B ⊆ t.words
  | .primitive _, hu => absurd hu List.not_mem_nil
  | .reference t, hu => t.words_subset hu

theorem ReferenceType.words_subset {u : ClassType} :
    (t : ReferenceType) → u ∈ t.classTypes → u.words 0x3B ⊆ t.words
  | .object t, hu => by
    rcases List.mem_cons.1 hu with rfl | hu
    · exact fun _ h => h
    · exact ClassType.words_subset t hu 0x3B
  | .typeVariable _, hu => absurd hu List.not_mem_nil
  | .array element, hu => element.words_subset hu

theorem ClassType.words_subset {u : ClassType} :
    (t : ClassType) → u ∈ t.argumentTypes → (mark : CodePoint) → u.words 0x3B ⊆ t.words mark
  | .top _ _ arguments, hu, _ =>
    List.subset_cons_of_subset _ (arguments.words_subset hu)
  | .inner enclosing _ arguments, hu, _ => by
    rcases List.mem_append.1 hu with hu | hu
    · exact List.subset_append_of_subset_left _ (ClassType.words_subset enclosing hu 0x2E)
    · exact List.subset_append_of_subset_right _
        (List.subset_cons_of_subset _ (arguments.words_subset hu))

theorem TypeArguments.words_subset {u : ClassType} :
    (t : TypeArguments) → u ∈ t.classTypes → u.words 0x3B ⊆ t.words
  | .nil, hu => absurd hu List.not_mem_nil
  | .any rest, hu => rest.words_subset hu
  | .type _ t rest, hu => by
    rcases List.mem_append.1 hu with hu | hu
    · exact List.subset_append_of_subset_left _ (t.words_subset hu)
    · exact List.subset_append_of_subset_right _ (rest.words_subset hu)

end

theorem flatMap_words_subset {α : Type} {classTypes : α → List ClassType} {words : α → List Word}
    {u : ClassType} (h : ∀ x, u ∈ classTypes x → u.words 0x3B ⊆ words x) {xs : List α}
    (hu : u ∈ xs.flatMap classTypes) : u.words 0x3B ⊆ xs.flatMap words := by
  obtain ⟨x, hx, hu⟩ := List.mem_flatMap.1 hu
  exact fun w hw => List.mem_flatMap.2 ⟨x, hx, h x hu hw⟩

theorem elim_words_subset {α : Type} {classTypes : α → List ClassType} {words : α → List Word}
    {u : ClassType} (h : ∀ x, u ∈ classTypes x → u.words 0x3B ⊆ words x) {x? : Option α}
    (hu : u ∈ x?.elim [] classTypes) : u.words 0x3B ⊆ x?.elim [] words := by
  cases x? with
  | none => exact absurd hu List.not_mem_nil
  | some x => exact h x hu

theorem TypeParameter.words_subset {u : ClassType} (p : TypeParameter) (hu : u ∈ p.classTypes) :
    u.words 0x3B ⊆ p.words := by
  refine List.subset_cons_of_subset _ ?_
  rcases List.mem_append.1 hu with hu | hu
  · exact List.subset_append_of_subset_left _ (elim_words_subset ReferenceType.words_subset hu)
  · exact List.subset_append_of_subset_right _ (flatMap_words_subset ReferenceType.words_subset hu)

theorem Signature.words_subset {u : ClassType} (s : Signature) (hu : u ∈ s.classTypes) :
    u.words 0x3B ⊆ s.words := by
  cases s with
  | ofClass parameters superclass interfaces =>
    rcases List.mem_append.1 hu with hu | hu
    · exact List.subset_append_of_subset_left _
        (flatMap_words_subset TypeParameter.words_subset hu)
    · exact List.subset_append_of_subset_right _
        (flatMap_words_subset (fun t => (ReferenceType.object t).words_subset) hu)
  | ofMethod parameters arguments result? thrown =>
    rcases List.mem_append.1 hu with hu | hu
    · exact List.subset_append_of_subset_left _
        (flatMap_words_subset TypeParameter.words_subset hu)
    refine List.subset_append_of_subset_right _ ?_
    rcases List.mem_append.1 hu with hu | hu
    · exact List.subset_append_of_subset_left _ (flatMap_words_subset JavaType.words_subset hu)
    refine List.subset_append_of_subset_right _ ?_
    rcases List.mem_append.1 hu with hu | hu
    · exact List.subset_append_of_subset_left _ (elim_words_subset JavaType.words_subset hu)
    · exact List.subset_append_of_subset_right _
        (flatMap_words_subset (fun t => t.type.words_subset) hu)
  | ofField type => exact type.words_subset hu

/-! ### The classes that are found -/

/-- The class type is a class of a package, and the scan stops at nothing in its name. -/
def ClassType.IsWhole : ClassType → Prop
  | top package name _ => ∀ p ∈ qualifiedName package name, isNamePoint p = true
  | inner .. => False

theorem qualifiedName_ne_nil (package : List Identifier) (name : Identifier) :
    qualifiedName package name ≠ [] :=
  fun h => name.ne_nil (List.append_eq_nil_iff.1 h).2

/-- The name of such a class is a word. -/
theorem ClassType.IsWhole.exists_word {t : ClassType} (h : t.IsWhole) :
    ∃ w ∈ t.words 0x3B, w.name? = some (dotted t.binaryName) := by
  cases t with
  | inner => exact h.elim
  | top package name arguments =>
    refine ⟨_, List.mem_cons_self, ?_⟩
    have hmark : markBefore arguments.text 0x3B = 0x3B ∨ markBefore arguments.text 0x3B = 0x3C := by
      unfold markBefore
      split <;> simp
    rw [Word.name?, if_pos hmark, spelled?,
      if_pos ⟨rfl, qualifiedName_ne_nil package name, List.all_eq_true.2 h⟩]
    rfl

/-- **A signature is scanned word by word**: the classes found are those that its words name. Of the
class types at any depth, those without an inner class behind them are found, unless the scan stops
in their names; every other one is found exactly if some word happens to have the same name. -/
theorem signature_types_found (s : Signature) :
    typeNames s.text = s.words.filterMap Word.name? ∧
    ∀ t ∈ s.classTypes, (t.IsWhole → dotted t.binaryName ∈ typeNames s.text) ∧
      (dotted t.binaryName ∈ typeNames s.text ↔
        ∃ w ∈ s.words, w.name? = some (dotted t.binaryName)) := by
  refine ⟨typeNames_signature s, fun t ht => ?_⟩
  rw [typeNames_signature, List.mem_filterMap]
  refine ⟨fun hwhole => ?_, Iff.rfl⟩
  obtain ⟨w, hw, hname⟩ := hwhole.exists_word
  exact ⟨w, s.words_subset ht hw, hname⟩

namespace Sample

def identifierT : Identifier := ⟨"T", by decide, by decide⟩

def identifierU : Identifier := ⟨"U", by decide, by decide⟩

/-- The class type of `Lp/Outer<TT;>.Inner<TU;>;`. -/
def innerClass : ClassType :=
  .inner (.top [⟨"p", by decide, by decide⟩] ⟨"Outer", by decide, by decide⟩
      (.type none (.typeVariable identifierT) .nil))
    ⟨"Inner", by decide, by decide⟩ (.type none (.typeVariable identifierU) .nil)

/-- The class type of `La/LB<*>;`. -/
def classLB : ClassType :=
  .top [⟨"a", by decide, by decide⟩] ⟨"LB", by decide, by decide⟩ (.any .nil)

/-- The signature `<T::La/LB<*>;U:>(J[Lp/Outer<TT;>.Inner<TU;>.L<-La/LB<*>;>;)V^TT;` of a method. -/
def method : Signature :=
  let last : ClassType :=
    .inner innerClass ⟨"L", by decide, by decide⟩ (.type (some .lower) (.object classLB) .nil)
  .ofMethod [⟨identifierT, none, [.object classLB]⟩, ⟨identifierU, none, []⟩]
    [.primitive .long, .reference (.array (.reference (.object last)))]
    none [.typeVariable identifierT]

end Sample

theorem signature_types_found_of_method :
    typeNames ("<T::La/LB<*>;U:>(J[Lp/Outer<TT;>.Inner<TU;>.L<-La/LB<*>;>;)V^TT;" : Text) =
      [("a.LB" : Text), ("p.Outer" : Text), ("a.LB" : Text)] ∧
    ("a.LB" : Text) ∈ typeNames Sample.method.text := by
  have htext : Sample.method.text =
      ("<T::La/LB<*>;U:>(J[Lp/Outer<TT;>.Inner<TU;>.L<-La/LB<*>;>;)V^TT;" : Text) := by
    decide +kernel
  have hmem : Sample.classLB ∈ Sample.method.classTypes := List.mem_cons_self
  have hwhole : Sample.classLB.IsWhole := by
    show ∀ p ∈ qualifiedName _ _, _
    decide
  obtain ⟨hwords, htypes⟩ := signature_types_found Sample.method
  refine ⟨?_, (htypes _ hmem).1 hwhole⟩
  rw [← htext, hwords]
  decide +kernel

/-- The name of an inner class is missed where the class around it has type arguments: the scan of
`Lp/Outer<TT;>.Inner<TU;>;` finds `p.Outer` alone. -/
theorem signature_class_may_be_missed : ¬ ∀ s : Signature, ∀ t ∈ s.classTypes,
    dotted t.binaryName ∈ typeNames s.text := by
  intro h
  have hmem := h (.ofField (.object Sample.innerClass)) Sample.innerClass List.mem_cons_self
  rw [typeNames_signature] at hmem
  exact absurd hmem (by decide +kernel)

end Jarsmith.ClassFile
