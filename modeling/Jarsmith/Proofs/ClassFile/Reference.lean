import Jarsmith.ClassGraph.Scan
import Jarsmith.Proofs.Result

/-!
# Which classes a class file is found to name

A constant names the classes of its class, or the object types in its text if the text is scanned
(`NamesAt`), and the references of a class file are what its constants name, but for the class
itself (`mem_references_iff`).

A text is meant to be left out only if nothing but string literals uses it. The scan knows of the
uses as a descriptor, by a constant or by a member, and of no others, so that a text that a literal
shares with a signature is left out as well. `mem_references_of_typeNames_iff` says when exactly an
object type in a text is found, and `signature_may_be_missed` is a class file where it is not.
-/

namespace Jarsmith.ClassFile

variable {c : ClassFile} {index : Nat} {r self : Text} {names : List Text}

/-! ### Which texts are scanned -/

/-- A string literal uses the text at an index. -/
def HasLiteral (c : ClassFile) (index : Nat) : Prop :=
  ∃ p ∈ c.pool.constants, p.2.tag = Tag.string ∧ p.2.indexAt 0 = index

/-- The text at an index is the descriptor of a constant or of a member. -/
inductive HasDescriptor (c : ClassFile) (index : Nat) : Prop
  | nameAndType {i : Nat} {k : Constant} : (i, k) ∈ c.pool.constants → k.tag = Tag.nameAndType →
      k.indexAt 2 = index → HasDescriptor c index
  | methodType {i : Nat} {k : Constant} : (i, k) ∈ c.pool.constants → k.tag = Tag.methodType →
      k.indexAt 0 = index → HasDescriptor c index
  | member {m : Member} : m ∈ c.fields ++ c.methods → m.descriptorIndex = index →
      HasDescriptor c index

/-- The text at an index is scanned for object types. -/
def Scans (c : ClassFile) (index : Nat) : Prop := c.HasLiteral index → c.HasDescriptor index

theorem mem_literalIndexes : index ∈ literalIndexes c.pool ↔ c.HasLiteral index := by
  unfold literalIndexes HasLiteral
  rw [List.mem_filterMap]
  refine exists_congr fun p => and_congr_right fun _ => ?_
  dsimp only
  split
  · next h => rw [Option.some.injEq, and_iff_right h]
  · next h => exact iff_of_false (by simp) fun hp => h hp.1

theorem hasDescriptor_iff : c.HasDescriptor index ↔ index ∈ descriptorIndexes c.pool ∨
    ∃ m ∈ c.fields ++ c.methods, m.descriptorIndex = index := by
  unfold descriptorIndexes
  rw [List.mem_filterMap]
  constructor
  · rintro (⟨hk, htag, hindex⟩ | ⟨hk, htag, hindex⟩ | ⟨hm, hindex⟩)
    · exact .inl ⟨_, hk, by dsimp only; rw [if_pos htag, hindex]⟩
    · refine .inl ⟨_, hk, ?_⟩
      dsimp only
      rw [if_neg (by rw [htag]; decide), if_pos htag, hindex]
    · exact .inr ⟨_, hm, hindex⟩
  · rintro (⟨⟨i, k⟩, hk, h⟩ | ⟨m, hm, hindex⟩)
    · dsimp only at h
      split at h
      · next htag => exact .nameAndType hk htag (Option.some.inj h)
      · split at h
        · next htag => exact .methodType hk htag (Option.some.inj h)
        · simp at h
    · exact .member hm hindex

theorem isScanned_iff : isScanned c index = true ↔ c.Scans index := by
  unfold isScanned Scans
  rw [hasDescriptor_iff, ← mem_literalIndexes]
  simp only [Bool.or_eq_true, Bool.not_eq_true', List.any_eq_true, beq_iff_eq, or_assoc,
    List.contains_eq_mem, decide_eq_false_iff_not, decide_eq_true_eq]
  exact (Decidable.imp_iff_not_or).symm

/-! ### What the constants name -/

/-- The constant at an index names a class. -/
inductive NamesAt (c : ClassFile) (index : Nat) (r : Text) : Prop
  | classConstant {k : Constant} {name : Text} : (index, k) ∈ c.pool.constants →
      k.tag = Tag.classRef → c.pool.utf8 (k.indexAt 0) = .ok name → r ∈ constantNames name →
      NamesAt c index r
  | text {k : Constant} {text : Text} : (index, k) ∈ c.pool.constants → k.tag = Tag.utf8 →
      c.Scans index → c.pool.utf8 index = .ok text → r ∈ typeNames text → NamesAt c index r

theorem mem_classConstantNames (h : classConstantNames c.pool = .ok names) : r ∈ names ↔
    ∃ p ∈ c.pool.constants, p.2.tag = Tag.classRef ∧
      ∃ name, c.pool.utf8 (p.2.indexAt 0) = .ok name ∧ r ∈ constantNames name := by
  obtain ⟨lists, hlists, h⟩ := Except.bind_eq_ok.1 h
  obtain rfl : lists.flatten = names := Except.ok.inj h
  simp only [List.mem_flatten, Except.mem_of_mapM_eq_ok hlists]
  constructor
  · rintro ⟨_, ⟨p, hp, hlist⟩, hr⟩
    split at hlist
    · next htag =>
      obtain ⟨name, hname, hlist⟩ := Except.bind_eq_ok.1 hlist
      obtain rfl := Except.ok.inj hlist
      exact ⟨p, hp, htag, name, hname, hr⟩
    · obtain rfl := Except.ok.inj hlist
      simp at hr
  · rintro ⟨p, hp, htag, name, hname, hr⟩
    refine ⟨constantNames name, ⟨p, hp, ?_⟩, hr⟩
    simp only [htag, hname, if_true]
    rfl

theorem mem_textNames (h : textNames c = .ok names) : r ∈ names ↔
    ∃ p ∈ c.pool.constants, p.2.tag = Tag.utf8 ∧ c.Scans p.1 ∧
      ∃ text, c.pool.utf8 p.1 = .ok text ∧ r ∈ typeNames text := by
  obtain ⟨lists, hlists, h⟩ := Except.bind_eq_ok.1 h
  obtain rfl : lists.flatten = names := Except.ok.inj h
  simp only [List.mem_flatten, Except.mem_of_mapM_eq_ok hlists, ← isScanned_iff]
  constructor
  · rintro ⟨_, ⟨p, hp, hlist⟩, hr⟩
    split at hlist
    · next hscans =>
      obtain ⟨htag, hscans⟩ := Bool.and_eq_true_iff.1 hscans
      obtain ⟨text, htext, hlist⟩ := Except.bind_eq_ok.1 hlist
      obtain rfl := Except.ok.inj hlist
      exact ⟨p, hp, of_decide_eq_true htag, hscans, text, htext, hr⟩
    · obtain rfl := Except.ok.inj hlist
      simp at hr
  · rintro ⟨p, hp, htag, hscans, text, htext, hr⟩
    refine ⟨typeNames text, ⟨p, hp, ?_⟩, hr⟩
    simp only [htag, hscans, htext, decide_true, Bool.and_self, if_true]
    rfl

/-- The references are the classes that the constants name, without the class itself. -/
theorem mem_references_iff (h : references c = .ok names) (hself : name c = .ok self) :
    r ∈ names ↔ r ≠ self ∧ ∃ index, c.NamesAt index r := by
  obtain ⟨constants, hconstants, h⟩ := Except.bind_eq_ok.1 h
  obtain ⟨texts, htexts, h⟩ := Except.bind_eq_ok.1 h
  rw [hself] at h
  obtain rfl := Except.ok.inj h
  rw [List.mem_filter, decide_eq_true_eq, and_comm, Text.mem_unique, List.mem_append,
    mem_classConstantNames hconstants, mem_textNames htexts]
  refine and_congr_right fun _ => ?_
  constructor
  · rintro (⟨⟨index, k⟩, hk, htag, name, hname, hr⟩ |
      ⟨⟨index, k⟩, hk, htag, hscans, text, htext, hr⟩)
    · exact ⟨index, .classConstant hk htag hname hr⟩
    · exact ⟨index, .text hk htag hscans htext hr⟩
  · rintro ⟨index, ⟨hk, htag, hname, hr⟩ | ⟨hk, htag, hscans, htext, hr⟩⟩
    · exact .inl ⟨_, hk, htag, _, hname, hr⟩
    · exact .inr ⟨_, hk, htag, hscans, _, htext, hr⟩

theorem dependencies_eq_ok_iff {data : Bytes} : dependencies data = .ok (self, names) ↔
    ∃ c, decode data = .ok c ∧ name c = .ok self ∧ references c = .ok names := by
  unfold dependencies
  simp only [Except.bind_eq_ok]
  constructor
  · rintro ⟨c, hc, self', hself, names', hnames, h⟩
    obtain ⟨rfl, rfl⟩ := Prod.mk.inj (Except.ok.inj h)
    exact ⟨c, hc, hself, hnames⟩
  · rintro ⟨c, hc, hself, hnames⟩
    exact ⟨c, hc, self, hself, names, hnames, rfl⟩

/-! ### Texts that literals share -/

theorem ConstantPool.mem_constants_iff {pool : ConstantPool} {k : Constant} :
    (index, k) ∈ pool.constants ↔ pool.slots[index]? = some (some k) := by
  unfold constants
  rw [List.mem_filterMap]
  constructor
  · rintro ⟨⟨slot, i⟩, hslot, h⟩
    obtain ⟨k', rfl, hk⟩ := Option.map_eq_some_iff.1 h
    obtain ⟨rfl, rfl⟩ := Prod.mk.inj hk
    exact List.mem_zipIdx_iff_getElem?.1 hslot
  · intro h
    exact ⟨(some k, index), List.mem_zipIdx_iff_getElem?.2 h, rfl⟩

/-- A constant that can be looked up stands at its index. -/
theorem ConstantPool.getTagged_eq_ok {pool : ConstantPool} {tag : Nat} {k : Constant}
    (h : pool.getTagged index tag = .ok k) : (index, k) ∈ pool.constants ∧ k.tag = tag := by
  obtain ⟨k', hget, h⟩ := Except.bind_eq_ok.1 h
  unfold get at hget
  split at hget
  · split at hget
    · next hslot =>
      obtain rfl := Except.ok.inj hget
      split at h
      · next htag =>
        obtain rfl := Except.ok.inj h
        exact ⟨mem_constants_iff.2 hslot, htag⟩
      · exact absurd h Except.throw_ne_ok
    · simp at hget
  · simp at hget

/-- An object type in a text is found if the text is scanned. If it is not, the type is found only
where another constant names it. -/
theorem mem_references_of_typeNames_iff {text : Text} (h : references c = .ok names)
    (hself : name c = .ok self) (htext : c.pool.utf8 index = .ok text) (hr : r ∈ typeNames text) :
    r ∈ names ∨ r = self ↔ c.Scans index ∨ r = self ∨ ∃ i, i ≠ index ∧ c.NamesAt i r := by
  obtain ⟨k, hget, -⟩ := Except.bind_eq_ok.1 htext
  obtain ⟨hk, htag⟩ := ConstantPool.getTagged_eq_ok hget
  rw [mem_references_iff h hself]
  constructor
  · rintro (⟨-, i, hi⟩ | hr)
    · by_cases hindex : i = index
      · subst hindex
        cases hi with
        | classConstant hk' htag' =>
          -- the constant at the index is a text
          have hsame := (ConstantPool.mem_constants_iff.1 hk).symm.trans
            (ConstantPool.mem_constants_iff.1 hk')
          obtain rfl := Option.some.inj (Option.some.inj hsame)
          rw [htag] at htag'
          exact absurd htag' (by decide)
        | text _ _ hscans => exact .inl hscans
      · exact .inr (.inr ⟨i, hindex, hi⟩)
    · exact .inr (.inl hr)
  · intro hcases
    by_cases heq : r = self
    · exact .inr heq
    · refine .inl ⟨heq, ?_⟩
      obtain hscans | hself | ⟨i, -, hi⟩ := hcases
      · exact ⟨index, .text hk htag hscans htext hr⟩
      · exact absurd hself heq
      · exact ⟨i, hi⟩

namespace Sample

/-- A class `Q` with the text `Lq/Y;` at the index 3, which a literal uses, one further constant at
the index 5, and attributes. -/
def withLiteral (constant attributes : Bytes) : Bytes :=
  [0xCA, 0xFE, 0xBA, 0xBE, 0, 0, 0, 52] ++
    ([0, 6, 1, 0, 1, 0x51, 7, 0, 1] ++ [1, 0, 5, 0x4C, 0x71, 0x2F, 0x59, 0x3B] ++ [8, 0, 3] ++
      constant) ++
    [0, 0x21, 0, 2, 0, 0, 0, 0, 0, 0, 0, 0] ++ attributes

/-- The class with its name and its references. -/
def read? (data : Bytes) : Option (ClassFile × Text × List Text) := do
  let c ← (decode data).toOption
  return (c, ← (name c).toOption, ← (references c).toOption)

theorem read?_eq_some {data : Bytes} (h : read? data = some (c, self, names)) :
    decode data = .ok c ∧ name c = .ok self ∧ references c = .ok names := by
  unfold read? at h
  simp only [Option.bind_eq_bind, Option.bind_eq_some_iff, Except.toOption_eq_some,
    Option.pure_def, Option.some.injEq, Prod.mk.injEq] at h
  obtain ⟨_, hc, _, hself, _, hnames, rfl, rfl, rfl⟩ := h
  exact ⟨hc, hself, hnames⟩

end Sample

/-- The type is found where the text is a descriptor and a literal. -/
theorem mem_references_of_shared_descriptor : ∃ c names,
    decode (Sample.withLiteral [12, 0, 1, 0, 3] [0, 0]) = .ok c ∧ references c = .ok names ∧
      c.HasLiteral 3 ∧ ("q.Y" : Text) ∈ names := by
  have hfacts : (Sample.read? (Sample.withLiteral [12, 0, 1, 0, 3] [0, 0])).map (fun p =>
      (p.2.1, literalIndexes p.1.pool, isScanned p.1 3, (p.1.pool.utf8 3).toOption)) =
        some (("Q" : Text), [3], true, some ("Lq/Y;" : Text)) := by decide +kernel
  obtain ⟨⟨c, self, names⟩, hread, hfacts⟩ := Option.map_eq_some_iff.1 hfacts
  obtain ⟨hc, hself, hnames⟩ := Sample.read?_eq_some hread
  simp only [Prod.mk.injEq, Except.toOption_eq_some] at hfacts
  obtain ⟨rfl, hliteral, hscans, htext⟩ := hfacts
  have htype : ("q.Y" : Text) ∈ typeNames "Lq/Y;" := by decide +kernel
  have hfound := (mem_references_of_typeNames_iff hnames hself htext htype).2
    (.inl (isScanned_iff.1 hscans))
  have hliteral : c.HasLiteral 3 := mem_literalIndexes.1 (by rw [hliteral]; decide)
  exact ⟨c, names, hc, hnames, hliteral, hfound.resolve_right (by decide)⟩

/-- The type is missed where the text is the signature of the class and a literal. -/
theorem signature_may_be_missed :
    ¬ ∀ (data : Bytes) (c : ClassFile) (names : List Text) (self : Text) (a : Attribute)
        (index : Nat) (text r : Text),
      decode data = .ok c → references c = .ok names → name c = .ok self →
      a ∈ c.attributes → a.name = "Signature" → Bytes.ofBig? 2 index = some a.info →
      c.pool.utf8 index = .ok text → r ∈ typeNames text → r ∈ names ∨ r = self := by
  intro hall
  let data := Sample.withLiteral [1, 0, 9, 0x53, 0x69, 0x67, 0x6E, 0x61, 0x74, 0x75, 0x72, 0x65]
    [0, 1, 0, 5, 0, 0, 0, 2, 0, 3]
  have hfacts : (Sample.read? data).map (fun p =>
      (p.2.1, p.2.2, p.1.attributes, (p.1.pool.utf8 3).toOption)) =
        some (("Q" : Text), ([] : List Text), [(⟨"Signature", 5, [0, 3]⟩ : Attribute)],
          some ("Lq/Y;" : Text)) := by decide +kernel
  obtain ⟨⟨c, self, names⟩, hread, hfacts⟩ := Option.map_eq_some_iff.1 hfacts
  obtain ⟨hc, hself, hnames⟩ := Sample.read?_eq_some hread
  simp only [Prod.mk.injEq, Except.toOption_eq_some] at hfacts
  obtain ⟨rfl, rfl, hattributes, htext⟩ := hfacts
  have hfound := hall data c [] "Q" ⟨"Signature", 5, [0, 3]⟩ 3 "Lq/Y;" "q.Y" hc hnames hself
    (by rw [hattributes]; exact List.mem_singleton_self _) rfl (by decide) htext (by decide +kernel)
  exact absurd hfound (by decide)

end Jarsmith.ClassFile
