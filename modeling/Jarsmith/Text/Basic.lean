/-!
# Texts as lists of code points

Class files and property files may hold surrogates that stand alone, which no `Char` can be. A text
of this library is therefore the list of its code points, surrogates counted like any other. String
literals are read as texts by a coercion, and the operations below are the few that every module
needs: numbers as digits, cutting at a mark, trimming, and the order by code points.
-/

namespace Jarsmith

/-- A Unicode code point, surrogates included. -/
abbrev CodePoint := Nat

/-- A text is the list of its code points. -/
abbrev Text := List CodePoint

namespace CodePoint

/-- The surrogates, which UTF-8 cannot hold. -/
def isSurrogate (c : CodePoint) : Bool := 0xD800 ≤ c && c ≤ 0xDFFF

/-- The ASCII digits `0` to `9`. -/
def isDigit (c : CodePoint) : Bool := 0x30 ≤ c && c ≤ 0x39

/-- The ASCII letters. -/
def isLetter (c : CodePoint) : Bool := (0x41 ≤ c && c ≤ 0x5A) || (0x61 ≤ c && c ≤ 0x7A)

/-- The value of a hexadecimal digit of either case. -/
def hexValue? (c : CodePoint) : Option Nat :=
  if isDigit c then some (c - 0x30)
  else if 0x61 ≤ c && c ≤ 0x66 then some (c - 0x57)
  else if 0x41 ≤ c && c ≤ 0x46 then some (c - 0x37)
  else none

/-- The lower-case form of an ASCII letter; every other code point is kept. -/
def toLower (c : CodePoint) : CodePoint := if 0x41 ≤ c && c ≤ 0x5A then c + 0x20 else c

end CodePoint

namespace Text

/-- Texts are equal if they are found equal. -/
instance isLawful : LawfulBEq Text := inferInstance

/-- The code points of a string. -/
def ofString (s : String) : Text := s.toList.map Char.toNat

instance : Coe String Text := ⟨ofString⟩

/-- A string for display: a surrogate, which no string can hold, becomes the replacement mark. -/
def toString (t : Text) : String :=
  String.ofList (t.map fun c => if c.isValidChar then Char.ofNat c else Char.ofNat 0xFFFD)

/-- The decimal digits of a natural number. -/
def ofNat (n : Nat) : Text := ofString (Nat.repr n)

/-- The decimal digits of an integer, after a minus sign if it is negative. -/
def ofInt : Int → Text
  | .ofNat n => ofNat n
  | .negSucc n => 0x2D :: ofNat (n + 1)

/-- The lower-case hexadecimal digit of a number below sixteen. -/
def hexDigit (n : Nat) : CodePoint := if n < 10 then 0x30 + n else 0x57 + n

/-- The last `width` hexadecimal digits of a number. -/
def hex : (width : Nat) → Nat → Text
  | 0, _ => []
  | width + 1, n => hex width (n / 16) ++ [hexDigit (n % 16)]

/-- Every ASCII letter in lower case. -/
def toLower (t : Text) : Text := t.map CodePoint.toLower

/-- Every `a` replaced by `b`. -/
def replace (a b : CodePoint) (t : Text) : Text := t.map fun c => if c = a then b else c

/-- The pieces between the marks `mark`: always at least one, and one more than there are marks. -/
def splitOn (mark : CodePoint) : Text → List Text
  | [] => [[]]
  | c :: t =>
    if c = mark then [] :: splitOn mark t
    else match splitOn mark t with
      | [] => [[c]]
      | piece :: pieces => (c :: piece) :: pieces

/-- The pieces with `separator` between each two. -/
def joinWith (separator : Text) : List Text → Text
  | [] => []
  | [t] => t
  | t :: u :: rest => t ++ separator ++ joinWith separator (u :: rest)

/-- Drops the code points of the class `p` from the end. -/
def trimEnd (p : CodePoint → Bool) (t : Text) : Text := (t.reverse.dropWhile p).reverse

/-- Drops the code points of the class `p` from both ends. -/
def trim (p : CodePoint → Bool) (t : Text) : Text := trimEnd p (t.dropWhile p)

/-- The rest of `t` after the beginning `start`, if `t` begins so. -/
def dropStart? : (start : Text) → (t : Text) → Option Text
  | [], t => some t
  | _ :: _, [] => none
  | a :: start, c :: t => if a = c then dropStart? start t else none

/-- The beginning of `t` before the ending `ending`, if `t` ends so. -/
def dropEnd? (ending t : Text) : Option Text :=
  (dropStart? ending.reverse t.reverse).map List.reverse

/-- The texts before and after the first `mark`, if there is one. -/
def cutFirst? (mark : CodePoint) : Text → Option (Text × Text)
  | [] => none
  | c :: t =>
    if c = mark then some ([], t)
    else (cutFirst? mark t).map fun (before, after) => (c :: before, after)

/-- `part` stands somewhere in `t`. -/
def contains (t part : Text) : Bool :=
  match t with
  | [] => part.isEmpty
  | c :: rest => part.isPrefixOf (c :: rest) || contains rest part

/-- The order by code points, a text before its extensions. -/
def le : Text → Text → Bool
  | [], _ => true
  | _ :: _, [] => false
  | a :: t, b :: u => a < b || (a == b && le t u)

/-- A list of texts in ascending order. -/
def sort (ts : List Text) : List Text := ts.mergeSort le

/-- Puts `x` at the end unless it is there already. -/
def insertNew {α : Type} [DecidableEq α] (seen : List α) (x : α) : List α :=
  if x ∈ seen then seen else seen ++ [x]

/-- The members of a list in the order in which they first occur, each once. -/
def unique {α : Type} [DecidableEq α] (xs : List α) : List α := xs.foldl insertNew []

theorem mem_insertNew {α : Type} [DecidableEq α] {seen : List α} {x y : α} :
    y ∈ insertNew seen x ↔ y ∈ seen ∨ y = x := by
  unfold insertNew
  split
  · next h => exact ⟨Or.inl, fun hy => hy.elim id (· ▸ h)⟩
  · simp

theorem mem_foldl_insertNew {α : Type} [DecidableEq α] {y : α} (xs : List α) (seen : List α) :
    y ∈ xs.foldl insertNew seen ↔ y ∈ seen ∨ y ∈ xs := by
  induction xs generalizing seen with
  | nil => simp
  | cons x xs ih => rw [List.foldl_cons, ih, mem_insertNew, List.mem_cons, or_assoc]

@[simp]
theorem mem_unique {α : Type} [DecidableEq α] {xs : List α} {y : α} : y ∈ unique xs ↔ y ∈ xs := by
  rw [unique, mem_foldl_insertNew]
  simp

theorem nodup_insertNew {α : Type} [DecidableEq α] {seen : List α} (h : seen.Nodup) (x : α) :
    (insertNew seen x).Nodup := by
  unfold insertNew
  split
  · exact h
  · next hx =>
    refine List.nodup_append.2 ⟨h, by simp, ?_⟩
    intro a ha b hb hab
    rw [List.mem_singleton] at hb
    exact hx (hb ▸ hab ▸ ha)

theorem nodup_unique {α : Type} [DecidableEq α] (xs : List α) : (unique xs).Nodup := by
  suffices h : ∀ seen : List α, seen.Nodup → (xs.foldl insertNew seen).Nodup from h [] (by simp)
  induction xs with
  | nil => exact fun _ h => h
  | cons x xs ih => exact fun seen h => ih _ (nodup_insertNew h x)

end Text

end Jarsmith
