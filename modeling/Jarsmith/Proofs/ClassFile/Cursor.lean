import Jarsmith.ClassFile.Cursor
import Jarsmith.ClassFile.Encode
import Jarsmith.Proofs.Bytes.Field

/-!
# What a decoder reads

`Decoder.Reads d Form` is the whole of what a decoder does as long as it succeeds: it does so
exactly where the bytes begin with a form of a value, and then gives the value and leaves what
follows the form. One direction says that what was read can be written again, the other that what
was written is read, whatever follows. The relation holds of the steps of which decoders are made
(`Reads.number`, `Reads.bytes`, `Reads.lift`) and is kept by putting them together (`Reads.bind`,
`Reads.counted`), so that a decoder needs no other lemma than its own form.

The forms of composed values are what `concat?` and `counted?` write, which
`concat?_cons_eq_some_iff` and `counted?_eq_some_iff` take apart.
-/

namespace Jarsmith.ClassFile

/-! ### Parts one after another -/

@[simp]
theorem concat?_nil_eq_some_iff {bytes : Bytes} : concat? [] = some bytes ↔ bytes = [] := by
  simp [concat?, eq_comm]

@[simp]
theorem concat?_cons_eq_some_iff {part : Option Bytes} {parts : List (Option Bytes)}
    {bytes : Bytes} : concat? (part :: parts) = some bytes ↔
      ∃ b rest, part = some b ∧ concat? parts = some rest ∧ bytes = b ++ rest := by
  unfold concat?
  rw [List.mapM_cons]
  cases part with
  | none => simp
  | some b => cases parts.mapM id <;> simp [eq_comm]

theorem counted?_eq_some_iff {parts : List (Option Bytes)} {bytes : Bytes} :
    counted? parts = some bytes ↔ ∃ count rest, Bytes.ofBig? 2 parts.length = some count ∧
      concat? parts = some rest ∧ bytes = count ++ rest :=
  concat?_cons_eq_some_iff

namespace Decoder

/-- The decoder succeeds exactly where the bytes begin with a form of a value, and then gives the
value and takes the form away. -/
def Reads {α : Type} (d : Decoder α) (Form : α → Bytes → Prop) : Prop :=
  ∀ cursor x after, d.run cursor = .ok (x, after) ↔
    ∃ bytes, Form x bytes ∧ cursor.rest = bytes ++ after.rest ∧
      after.offset = cursor.offset + bytes.length

namespace Reads

variable {α β : Type} {d : Decoder α} {f : α → Decoder β} {F F' : α → Bytes → Prop}
  {G : α → β → Bytes → Prop} {cursor after : Cursor} {x : α}

theorem congr (hd : Reads d F) (h : ∀ x bytes, F x bytes ↔ F' x bytes) : Reads d F' := by
  intro cursor x after
  rw [hd cursor x after]
  simp only [h]

/-! ### Single steps -/

theorem pure (a : α) : Reads (pure a) fun x bytes => x = a ∧ bytes = [] := by
  intro cursor x after
  show Except.ok (a, cursor) = .ok (x, after) ↔ _
  obtain ⟨offset, rest⟩ := cursor
  obtain ⟨offset', rest'⟩ := after
  simp only [Except.ok.injEq, Prod.mk.injEq, Cursor.mk.injEq]
  constructor
  · rintro ⟨rfl, rfl, rfl⟩
    exact ⟨[], ⟨rfl, rfl⟩, rfl, rfl⟩
  · rintro ⟨_, ⟨rfl, rfl⟩, hrest, hoffset⟩
    exact ⟨rfl, hoffset.symm, hrest⟩

theorem fail (e : Error) : Reads (fail e : Decoder α) fun _ _ => False := by
  intro cursor x after
  simp [Decoder.fail, StateT.run]

/-- A result that does not depend on the bytes takes none away. -/
theorem lift (r : Except Error α) :
    Reads (liftM r : Decoder α) fun x bytes => r = .ok x ∧ bytes = [] := by
  cases r with
  | error e => exact (fail e).congr (by simp)
  | ok a => exact (pure a).congr (by simp [eq_comm])

theorem bytes (n : Nat) : Reads (Decoder.bytes n) fun x bytes => bytes.length = n ∧ x = bytes := by
  rintro ⟨offset, rest⟩ x ⟨offset', rest'⟩
  unfold Decoder.bytes
  simp only [StateT.run]
  constructor
  · intro h
    split at h
    · next hlength =>
      obtain ⟨rfl, hafter⟩ := Prod.mk.inj (Except.ok.inj h)
      obtain ⟨rfl, rfl⟩ := Cursor.mk.inj hafter
      exact ⟨_, ⟨hlength, rfl⟩, (List.take_append_drop n rest).symm, by rw [hlength]⟩
    · simp at h
  · rintro ⟨_, ⟨rfl, rfl⟩, rfl, rfl⟩
    simp

/-! ### Steps one after another -/

theorem run_bind_eq_ok {y : β} : (d >>= f).run cursor = .ok (y, after) ↔
    ∃ x between, d.run cursor = .ok (x, between) ∧ (f x).run between = .ok (y, after) := by
  rw [StateT.run_bind]
  cases d.run cursor with
  | error e => simp [Bind.bind, Except.bind]
  | ok read =>
    obtain ⟨x, between⟩ := read
    simp [Bind.bind, Except.bind, and_assoc]

/-- A form of what is read in two steps is a form for the first step, and after it one for the
second, which may rely on the first. -/
theorem bind (hd : Reads d F) (hf : ∀ x b, F x b → Reads (f x) (G x)) :
    Reads (d >>= f) fun y bytes => ∃ x b rest, F x b ∧ G x y rest ∧ bytes = b ++ rest := by
  intro cursor y after
  rw [run_bind_eq_ok]
  constructor
  · rintro ⟨x, between, hx, hy⟩
    obtain ⟨b, hF, hcursor, hbetween⟩ := (hd _ _ _).1 hx
    obtain ⟨rest, hG, hrest, hafter⟩ := (hf x b hF _ _ _).1 hy
    refine ⟨b ++ rest, ⟨x, b, rest, hF, hG, rfl⟩, ?_, ?_⟩
    · rw [hcursor, hrest, List.append_assoc]
    · rw [hafter, hbetween, List.length_append, Nat.add_assoc]
  · rintro ⟨_, ⟨x, b, rest, hF, hG, rfl⟩, hcursor, hafter⟩
    rw [List.append_assoc] at hcursor
    rw [List.length_append, ← Nat.add_assoc] at hafter
    exact ⟨x, ⟨cursor.offset + b.length, rest ++ after.rest⟩,
      (hd _ _ _).2 ⟨b, hF, hcursor, rfl⟩, (hf x b hF _ _ _).2 ⟨rest, hG, rfl, hafter⟩⟩

theorem fail_bind (e : Error) : Reads (Decoder.fail e >>= f) fun _ _ => False :=
  ((fail e).bind (G := fun _ _ _ => False) fun _ _ h => h.elim).congr fun y bytes => by simp

/-- What is read may be changed in the end. -/
theorem map {g : α → β} (hd : Reads d F) :
    Reads (do let x ← d; return g x) fun y bytes => ∃ x, F x bytes ∧ y = g x :=
  (hd.bind fun x _ _ => pure (g x)).congr fun y bytes => by
    constructor
    · rintro ⟨x, b, _, hx, ⟨rfl, rfl⟩, rfl⟩
      exact ⟨x, by rwa [List.append_nil], rfl⟩
    · rintro ⟨x, hx, rfl⟩
      exact ⟨x, bytes, [], hx, ⟨rfl, rfl⟩, (List.append_nil _).symm⟩

theorem number (width : Nat) :
    Reads (Decoder.number width) fun n bytes => Bytes.ofBig? width n = some bytes :=
  (bytes width).map.congr fun n form => by
    rw [Bytes.ofBig?_eq_some_iff]
    constructor
    · rintro ⟨_, ⟨hlength, rfl⟩, rfl⟩
      exact ⟨hlength, rfl⟩
    · rintro ⟨hlength, hn⟩
      exact ⟨form, ⟨hlength, rfl⟩, Int.ofNat.inj hn⟩

variable {P : α → Prop} {encode? : α → Option Bytes}

theorem times (n : Nat) (hd : Reads d fun x bytes => P x ∧ encode? x = some bytes) :
    Reads (Decoder.times n d) fun xs bytes => xs.length = n ∧ (∀ x ∈ xs, P x) ∧
      concat? (xs.map encode?) = some bytes := by
  induction n with
  | zero =>
    refine (pure []).congr fun xs bytes => ?_
    rw [List.length_eq_zero_iff]
    constructor
    · rintro ⟨rfl, rfl⟩
      simp
    · rintro ⟨rfl, -, h⟩
      exact ⟨rfl, by simpa using h⟩
  | succ n ih =>
    refine (hd.bind fun _ _ _ => ih.map).congr fun xs bytes => ?_
    constructor
    · rintro ⟨x, b, rest, ⟨hx, hb⟩, ⟨xs, ⟨rfl, hxs, hrest⟩, rfl⟩, rfl⟩
      refine ⟨rfl, List.forall_mem_cons.2 ⟨hx, hxs⟩, ?_⟩
      exact concat?_cons_eq_some_iff.2 ⟨b, rest, hb, hrest, rfl⟩
    · rintro ⟨hlength, hxs, h⟩
      obtain ⟨x, xs, rfl⟩ := List.exists_cons_of_length_eq_add_one hlength
      obtain ⟨hx, hxs⟩ := List.forall_mem_cons.1 hxs
      obtain ⟨b, rest, hb, hrest, rfl⟩ := concat?_cons_eq_some_iff.1 h
      exact ⟨x, b, rest, ⟨hx, hb⟩, ⟨xs, ⟨Nat.succ.inj hlength, hxs, hrest⟩, rfl⟩, rfl⟩

/-- A counted list is written with its own count. -/
theorem counted (hd : Reads d fun x bytes => P x ∧ encode? x = some bytes) :
    Reads (Decoder.counted d) fun xs bytes => (∀ x ∈ xs, P x) ∧
      counted? (xs.map encode?) = some bytes :=
  ((number 2).bind fun n _ _ => hd.times n).congr fun xs bytes => by
    rw [counted?_eq_some_iff, List.length_map]
    constructor
    · rintro ⟨_, b, rest, hb, ⟨rfl, hxs, hrest⟩, rfl⟩
      exact ⟨hxs, b, rest, hb, hrest, rfl⟩
    · rintro ⟨hxs, b, rest, hb, hrest, rfl⟩
      exact ⟨_, b, rest, hb, ⟨rfl, hxs, hrest⟩, rfl⟩

/-! ### The parts of a record

A record is read part by part and put together in the end. Its form is that of its parts, so that
each step takes the first part away and adds what it read to what is known of the record: `Q` says
what is known before, and `g` is the part. -/

section Record

variable {γ : Type} {Q : β → Prop} {parts : β → List (Option Bytes)}

/-- The next part is what a decoder reads, seen by `c` as a value of the type of the part, and `e`
writes it. -/
theorem seen_bind {c : α → γ} {g : β → γ} {P : γ → Prop} {e : γ → Option Bytes}
    (hd : Reads d fun x b => P (c x) ∧ e (c x) = some b)
    (hc : ∀ z b, e z = some b → ∃ x, c x = z) (hQ : ∀ y, Q y → P (g y))
    (hf : ∀ x, P (c x) → Reads (f x) fun y rest =>
      (g y = c x ∧ Q y) ∧ concat? (parts y) = some rest) :
    Reads (d >>= f) fun y bytes => Q y ∧ concat? (e (g y) :: parts y) = some bytes := by
  refine (hd.bind fun x _ hx => hf x hx.1).congr fun y bytes => ?_
  constructor
  · rintro ⟨x, b, rest, ⟨-, hb⟩, ⟨⟨hg, hy⟩, hrest⟩, rfl⟩
    exact ⟨hy, concat?_cons_eq_some_iff.2 ⟨b, rest, hg ▸ hb, hrest, rfl⟩⟩
  · rintro ⟨hy, hparts⟩
    obtain ⟨b, rest, hb, hrest, rfl⟩ := concat?_cons_eq_some_iff.1 hparts
    obtain ⟨x, hx⟩ := hc _ _ hb
    exact ⟨x, b, rest, ⟨hx ▸ hQ y hy, hx ▸ hb⟩, ⟨⟨hx.symm, hy⟩, hrest⟩, rfl⟩

/-- The next part is what a decoder reads. -/
theorem part_bind {g : β → α} (hd : Reads d fun x bytes => P x ∧ encode? x = some bytes)
    (hQ : ∀ y, Q y → P (g y))
    (hf : ∀ x, P x → Reads (f x) fun y rest =>
      (g y = x ∧ Q y) ∧ concat? (parts y) = some rest) :
    Reads (d >>= f) fun y bytes => Q y ∧ concat? (encode? (g y) :: parts y) = some bytes :=
  seen_bind (c := id) hd (fun x _ _ => ⟨x, rfl⟩) hQ hf

/-- The next part is a number. -/
theorem number_bind {width : Nat} {f : Nat → Decoder β} {g : β → Int}
    (hf : ∀ n : Nat, Reads (f n) fun y rest =>
      (g y = n ∧ Q y) ∧ concat? (parts y) = some rest) :
    Reads (Decoder.number width >>= f) fun y bytes =>
      Q y ∧ concat? (Bytes.ofBig? width (g y) :: parts y) = some bytes :=
  seen_bind (c := fun n : Nat => (n : Int)) (P := fun _ => True)
    ((number width).congr fun _ _ => (and_iff_right trivial).symm)
    (fun _ bytes hz => ⟨Bytes.big bytes, (Bytes.ofBig?_eq_some_iff.1 hz).2.symm⟩)
    (fun _ _ => trivial) fun n _ => hf n

/-- The next part is a sequence of bytes whose length is known. -/
theorem bytes_bind {n : Nat} {f : Bytes → Decoder β} {g : β → Bytes}
    (hQ : ∀ y, Q y → (g y).length = n)
    (hf : ∀ b : Bytes, b.length = n → Reads (f b) fun y rest =>
      (g y = b ∧ Q y) ∧ concat? (parts y) = some rest) :
    Reads (Decoder.bytes n >>= f) fun y bytes =>
      Q y ∧ concat? (some (g y) :: parts y) = some bytes := by
  have hbytes : Reads (Decoder.bytes n) fun b form => b.length = n ∧ some b = some form :=
    (bytes n).congr fun b form => by
      rw [Option.some.injEq]
      constructor
      · rintro ⟨hlength, rfl⟩
        exact ⟨hlength, rfl⟩
      · rintro ⟨hlength, rfl⟩
        exact ⟨hlength, rfl⟩
  have hbind := part_bind hbytes hQ hf
  exact hbind

/-- The next part is a counted list. -/
theorem counted_bind {f : List α → Decoder β} {g : β → List α}
    (hd : Reads d fun x bytes => P x ∧ encode? x = some bytes)
    (hQ : ∀ y, Q y → ∀ x ∈ g y, P x)
    (hf : ∀ xs : List α, (∀ x ∈ xs, P x) → Reads (f xs) fun y rest =>
      (g y = xs ∧ Q y) ∧ concat? (parts y) = some rest) :
    Reads (Decoder.counted d >>= f) fun y bytes =>
      Q y ∧ concat? (counted? ((g y).map encode?) :: parts y) = some bytes := by
  have hbind := part_bind (counted hd) hQ hf
  exact hbind

/-- The next part is a counted list of numbers. -/
theorem counted_number_bind {width : Nat} {f : List Nat → Decoder β} {g : β → List Int}
    (hf : ∀ ns : List Nat, Reads (f ns) fun y rest =>
      (g y = ns.map Int.ofNat ∧ Q y) ∧ concat? (parts y) = some rest) :
    Reads (Decoder.counted (Decoder.number width) >>= f) fun y bytes =>
      Q y ∧ concat? (counted? ((g y).map (Bytes.ofBig? width)) :: parts y) = some bytes := by
  have hnumber : Reads (Decoder.number width) fun n bytes =>
      True ∧ Bytes.ofBig? width (Int.ofNat n) = some bytes :=
    (number width).congr fun _ _ => (and_iff_right trivial).symm
  have hcounted : Reads (Decoder.counted (Decoder.number width)) fun ns bytes =>
      True ∧ counted? ((ns.map Int.ofNat).map (Bytes.ofBig? width)) = some bytes :=
    (counted hnumber).congr fun ns bytes => by
      rw [List.map_map]
      exact and_congr_left fun _ => iff_of_true (fun _ _ => trivial) trivial
  -- a number with a form is not negative
  have hnatural : ∀ zs bytes, counted? (zs.map (Bytes.ofBig? width)) = some bytes →
      ∃ ns : List Nat, ns.map Int.ofNat = zs := by
    intro zs bytes hzs
    obtain ⟨_, form, -, hform, -⟩ := counted?_eq_some_iff.1 hzs
    clear hzs
    induction zs generalizing form with
    | nil => exact ⟨[], rfl⟩
    | cons z zs ih =>
      obtain ⟨b, rest, hb, hrest, -⟩ := concat?_cons_eq_some_iff.1 hform
      obtain ⟨ns, rfl⟩ := ih rest hrest
      exact ⟨Bytes.big b :: ns, congrArg (· :: _) (Bytes.ofBig?_eq_some_iff.1 hb).2.symm⟩
  exact seen_bind (c := List.map Int.ofNat) (g := g) (P := fun _ => True)
    (e := fun zs => counted? (zs.map (Bytes.ofBig? width))) hcounted hnatural
    (fun _ _ => trivial) fun ns _ => hf ns

/-- What is looked up takes no bytes away. -/
theorem lift_bind {r : Except Error α} {g : β → α} (hQ : ∀ y, Q y → r = .ok (g y))
    (hf : ∀ x, r = .ok x → Reads (f x) fun y rest =>
      (g y = x ∧ Q y) ∧ concat? (parts y) = some rest) :
    Reads (liftM r >>= f) fun y bytes => Q y ∧ concat? (parts y) = some bytes := by
  refine ((lift r).bind fun x _ hx => hf x hx.1).congr fun y bytes => ?_
  constructor
  · rintro ⟨x, _, rest, ⟨-, rfl⟩, ⟨⟨-, hy⟩, hrest⟩, rfl⟩
    exact ⟨hy, hrest⟩
  · rintro ⟨hy, hparts⟩
    exact ⟨g y, [], bytes, ⟨hQ y hy, rfl⟩, ⟨⟨rfl, hy⟩, hparts⟩, rfl⟩

/-- The record is put together when it is known. -/
theorem record {y : β} (hQ : ∀ z, Q z ↔ z = y) :
    Reads (Pure.pure y) fun z bytes => Q z ∧ concat? [] = some bytes :=
  (pure y).congr fun z bytes => by rw [hQ, concat?_nil_eq_some_iff]

end Record

/-! ### The whole of the bytes -/

/-- At the beginning of bytes a value is read with the bytes after its form. -/
theorem run_start_eq_ok (hd : Reads d F) {all : Bytes} :
    (d.run (.start all) = .ok (x, after)) ↔
      ∃ bytes, F x bytes ∧ all = bytes ++ after.rest ∧ after.offset = bytes.length := by
  rw [hd (.start all) x after]
  simp only [Cursor.start, Nat.zero_add]

end Reads

end Decoder

end Jarsmith.ClassFile
