import Jarsmith.Deflate.Description
import Jarsmith.Proofs.Deflate.Token

/-!
# Bytes are described by their tokens

A match is a place before and a number of bytes that agree with those of the place at hand
(`Found.IsAt`), so that copying from there gives the next bytes again, also where the two overlap
(`copyMatch_extract`). A search only tries places seen before (`Places.IsBelow`), none of them too
far, and what it finds is such a match or what it was to beat (`search_beats`).

From there, what a description keeps at every place is that its tokens describe the bytes up to
there; where it defers, this may be the place before, whose match is held (`IsDeferred`). So
**`describe_spec`**: in the end the tokens describe all bytes, whatever the effort.
-/

namespace Jarsmith.Deflate

variable {e : Effort} {data : Array UInt8} {place : Nat}

/-! ### Bytes that agree -/

/-- The `count` bytes from one place on are those from the other on. -/
def Agree (data : Array UInt8) (a b count : Nat) : Prop :=
  ∀ i < count, data.getD (a + i) 0 = data.getD (b + i) 0

theorem agreement_le (data : Array UInt8) (a b most : Nat) : agreement data a b most ≤ most := by
  induction most generalizing a b with
  | zero => exact Nat.le_refl 0
  | succ most ih =>
    rw [agreement]
    split
    · exact Nat.succ_le_succ (ih _ _)
    · exact Nat.zero_le _

theorem agree_agreement (a b most : Nat) : Agree data a b (agreement data a b most) := by
  induction most generalizing a b with
  | zero => exact fun i hi => absurd hi (Nat.not_lt_zero i)
  | succ most ih =>
    intro i hi
    rw [agreement] at hi
    split at hi
    · next hfirst =>
      cases i with
      | zero => exact hfirst
      | succ i =>
        have hrest := ih _ _ i (Nat.lt_of_succ_lt_succ hi)
        rwa [Nat.add_right_comm, Nat.add_right_comm b] at hrest
    · omega

theorem getD_extract {i : Nat} (hi : i < place) :
    (data.extract 0 place).getD i 0 = data.getD i 0 := by
  rw [Array.getD_eq_getD_getElem?, Array.getD_eq_getD_getElem?, Array.getElem?_extract,
    Nat.zero_add]
  split
  · rfl
  · rw [Array.getElem?_eq_none (by omega)]

theorem size_extract (h : place ≤ data.size) : (data.extract 0 place).size = place := by
  rw [Array.size_extract]
  omega

theorem push_extract (h : place < data.size) :
    (data.extract 0 place).push (data.getD place 0) = data.extract 0 (place + 1) := by
  have hbyte : data.getD place 0 = data[place] := by
    rw [Array.getD_eq_getD_getElem?, Array.getElem?_eq_getElem h, Option.getD_some]
  rw [hbyte, Array.push_extract_getElem, Nat.zero_min]

/-- Bytes that agree with those of an earlier place are copied from there. -/
theorem copyMatch_extract {start length : Nat} (hstart : start < place)
    (hfits : place + length ≤ data.size) (h : Agree data start place length) :
    copyMatch length (place - start) (data.extract 0 place) = data.extract 0 (place + length) := by
  induction length generalizing start place with
  | zero => rfl
  | succ length ih =>
    have hplace : place - (place - start) = start := by omega
    have hbyte : (data.extract 0 place).getD ((data.extract 0 place).size - (place - start)) 0 =
        data.getD place 0 := by
      rw [size_extract (by omega), hplace, getD_extract hstart]
      exact h 0 (Nat.succ_pos length)
    have hrest : Agree data (start + 1) (place + 1) length := by
      intro i hi
      have := h (i + 1) (Nat.succ_lt_succ hi)
      rwa [← Nat.add_assoc, ← Nat.add_assoc, Nat.add_right_comm, Nat.add_right_comm place] at this
    have hcopied := ih (show start + 1 < place + 1 by omega) (by omega) hrest
    rw [Nat.add_sub_add_right, Nat.add_right_comm] at hcopied
    rw [copyMatch, hbyte, push_extract (by omega), hcopied, Nat.add_assoc]

/-! ### Matches -/

/-- A match at a place: an earlier one, not too far, from which on the bytes agree. -/
structure Found.IsAt (data : Array UInt8) (place : Nat) (f : Found) : Prop where
  length_le : f.length ≤ greatestMatch
  start_lt : f.start < place
  near : place - f.start ≤ 32768
  fits : place + f.length ≤ data.size
  agrees : Agree data f.start place f.length

namespace Found

variable {f best : Found}

/-- The token of a match may stand at its place. -/
theorem IsAt.isValid (h : f.IsAt data place) (hlong : 3 ≤ f.length) :
    (Token.copied f.length (place - f.start)).IsValid (data.extract 0 place).size := by
  have hlength := h.length_le
  have hstart := h.start_lt
  have hnear := h.near
  have hfits := h.fits
  rw [size_extract (by omega)]
  exact ⟨⟨hlong, hlength⟩, ⟨by omega, hnear⟩, Nat.sub_le _ _⟩

/-- The token of a match gives the bytes of the match. -/
theorem IsAt.expand (h : f.IsAt data place) :
    (Token.copied f.length (place - f.start)).expand (data.extract 0 place) =
      data.extract 0 (place + f.length) := copyMatch_extract h.start_lt h.fits h.agrees

theorem orNone_eq (place : Nat) (f : Found) : f.orNone place = f ∨ f.orNone place = .none := by
  rw [orNone]
  split
  · exact .inr rfl
  · exact .inl rfl

/-- What was found is `best` or a longer match. -/
def Beats (data : Array UInt8) (place : Nat) (best f : Found) : Prop :=
  f = best ∨ (best.length < f.length ∧ f.IsAt data place)

theorem Beats.trans {between : Found} (h₁ : Beats data place best between)
    (h₂ : Beats data place between f) : Beats data place best f := by
  rcases h₂ with rfl | ⟨hlt, hat⟩
  · exact h₁
  · rcases h₁ with rfl | ⟨hlt', -⟩
    · exact .inr ⟨hlt, hat⟩
    · exact .inr ⟨Nat.lt_trans hlt' hlt, hat⟩

theorem Beats.isAt (h : Beats data place best f) (hlonger : best.length < f.length) :
    f.IsAt data place := by
  rcases h with rfl | ⟨-, hat⟩
  · exact absurd hlonger (Nat.lt_irrefl _)
  · exact hat

end Found

/-! ### Places that were seen -/

namespace Places

variable {p : Places} {bound : Nat}

/-- No place is remembered beyond the bound. -/
structure IsBelow (bound : Nat) (p : Places) : Prop where
  latest : ∀ i, p.latest.getD i 0 ≤ bound
  earlier : ∀ i, p.earlier.getD i 0 ≤ bound

theorem getD_setIfInBounds_le {places : Array Nat} {i value : Nat}
    (h : ∀ j, places.getD j 0 ≤ bound) (hvalue : value ≤ bound) (j : Nat) :
    (places.setIfInBounds i value).getD j 0 ≤ bound := by
  have hj := h j
  rw [Array.getD_eq_getD_getElem?] at hj ⊢
  rw [Array.getElem?_setIfInBounds]
  split
  · split
    · exact hvalue
    · exact Nat.zero_le _
  · exact hj

theorem isBelow_empty (size : Nat) : (empty size).IsBelow 0 := by
  have hreplicate : ∀ n i, (Array.replicate n 0).getD i 0 ≤ 0 := by
    intro n i
    rw [Array.getD_eq_getD_getElem?, Array.getElem?_replicate]
    split <;> exact Nat.le_refl 0
  exact ⟨hreplicate _, hreplicate _⟩

theorem IsBelow.mono {larger : Nat} (h : p.IsBelow bound) (hle : bound ≤ larger) :
    p.IsBelow larger :=
  ⟨fun i => Nat.le_trans (h.latest i) hle, fun i => Nat.le_trans (h.earlier i) hle⟩

/-- A place that is remembered is in no chain yet. -/
theorem IsBelow.of_visit {candidate : Nat} {seen : Places} (h : p.IsBelow bound)
    (hvisit : p.visit data place = (candidate, seen)) :
    candidate ≤ bound ∧ (∀ i, seen.earlier.getD i 0 ≤ bound) ∧
      (place ≤ bound → seen.IsBelow bound) := by
  rw [visit] at hvisit
  split at hvisit
  · obtain ⟨rfl, rfl⟩ := Prod.mk.inj hvisit
    have hearlier := getD_setIfInBounds_le (i := place) h.earlier (h.latest (mark data place))
    exact ⟨h.latest _, hearlier, fun hplace => ⟨getD_setIfInBounds_le h.latest hplace, hearlier⟩⟩
  · obtain ⟨rfl, rfl⟩ := Prod.mk.inj hvisit
    exact ⟨Nat.zero_le _, h.earlier, fun _ => h⟩

theorem IsBelow.visitAll {count : Nat} (h : p.IsBelow bound) (hplace : place + count ≤ bound + 1) :
    (p.visitAll data count place).IsBelow bound := by
  induction count generalizing place p with
  | zero => exact h
  | succ count ih =>
    have hseen : (p.visit data place).2.IsBelow bound := (h.of_visit rfl).2.2 (by omega)
    exact ih hseen (by omega)

/-- Among candidates that are near enough, only matches are found. -/
theorem longest_beats {most nice tries candidate : Nat} {best : Found}
    (hp : ∀ i, p.earlier.getD i 0 ≤ place - 1) (hmost : most ≤ greatestMatch)
    (hfits : place + most ≤ data.size) (hcandidate : candidate < place)
    (hnear : place - candidate ≤ 32768) :
    Found.Beats data place best
      (p.longest data place most nice (place - greatestDistance) tries candidate best) := by
  induction tries generalizing candidate best with
  | zero => exact .inl rfl
  | succ tries ih =>
    have hlength := agreement_le data candidate place most
    have hfirst : Found.Beats data place best
        (if best.length < agreement data candidate place most then
          ⟨agreement data candidate place most, candidate⟩ else best) := by
      split
      · next hlonger =>
        exact .inr ⟨hlonger, Nat.le_trans hlength hmost, hcandidate, hnear,
          Nat.le_trans (Nat.add_le_add_left hlength place) hfits, agree_agreement _ _ _⟩
      · exact .inl rfl
    have hnext := hp candidate
    rw [longest]
    generalize (if best.length < agreement data candidate place most then
      Found.mk (agreement data candidate place most) candidate else best) = better at hfirst ⊢
    split
    · exact hfirst
    · next hmore =>
      -- the next candidate is within the greatest distance, and so not the place 0
      have hdistance : greatestDistance = 32506 := rfl
      have hbeyond : place - 32506 < p.earlier.getD candidate 0 := by
        simp only [Bool.or_eq_true, decide_eq_true_eq, not_or] at hmore
        omega
      exact hfirst.trans (ih (by omega) (by omega))

theorem search_beats {candidate : Nat} {best : Found} (hp : ∀ i, p.earlier.getD i 0 ≤ place - 1)
    (hplace : place < data.size) (hle : candidate ≤ place - 1)
    (h : isCandidate place candidate = true) :
    Found.Beats data place best (p.search e data place candidate best) := by
  obtain ⟨hseen, hnear⟩ : candidate ≠ 0 ∧ place - candidate ≤ 32506 := by
    simpa only [isCandidate, Bool.and_eq_true, decide_eq_true_eq] using h
  refine longest_beats hp (Nat.min_le_left _ _) ?_ (by omega) (by omega)
  have := Nat.min_le_right greatestMatch (data.size - place)
  omega

end Places

/-! ### Descriptions -/

section Steps

variable {tokens : Array Token}

theorem getD_eq_getElem (h : place < data.size) : data.getD place 0 = data[place] := by
  rw [Array.getD_eq_getD_getElem?, Array.getElem?_eq_getElem h, Option.getD_some]

theorem Describes.push_literal (hplace : place < data.size)
    (h : Describes tokens.toList #[] (data.extract 0 place)) :
    Describes (tokens.push (.literal data[place])).toList #[] (data.extract 0 (place + 1)) := by
  have hliteral := h.concat (t := .literal data[place]) trivial
  have hexpand : (Token.literal data[place]).expand (data.extract 0 place) =
      data.extract 0 (place + 1) := by
    rw [← push_extract hplace, getD_eq_getElem hplace]
    rfl
  rwa [hexpand, ← Array.toList_push] at hliteral

theorem Describes.push_copied {f : Found} (hf : f.IsAt data place) (hlong : 3 ≤ f.length)
    (h : Describes tokens.toList #[] (data.extract 0 place)) :
    Describes (tokens.push (.copied f.length (place - f.start))).toList #[]
      (data.extract 0 (place + f.length)) := by
  have hcopied := h.concat (hf.isValid hlong)
  rwa [hf.expand, ← Array.toList_push] at hcopied

end Steps

/-- Each match taken at once: what was described up to a place is described up to the end. -/
theorem greedy_spec {places : Places} {tokens : Array Token} (hp : places.IsBelow (place - 1))
    (hplace : place ≤ data.size) (h : Describes tokens.toList #[] (data.extract 0 place)) :
    Describes (greedy e data place places tokens).toList #[] data := by
  fun_induction greedy e data place places tokens with
  | case1 place places tokens hlt candidate seen hvisit found hlong after ih =>
    obtain ⟨hcandidate, hearlier, -⟩ := hp.of_visit hvisit
    obtain ⟨-, -, hseen⟩ := (hp.mono (Nat.sub_le place 1)).of_visit hvisit
    -- a match that is taken is longer than none, and so was found here
    have hfound : found.IsAt data place := by
      by_cases hnear : isCandidate place candidate = true
      · have hvalue : found = seen.search e data place candidate .none := if_pos hnear
        rw [hvalue] at hlong ⊢
        exact (Places.search_beats hearlier hlt hcandidate hnear).isAt hlong
      · have hvalue : found = .none := if_neg hnear
        rw [hvalue] at hlong
        exact absurd hlong (by decide)
    -- the places inside of the match are remembered at most
    have hbelow : seen.IsBelow (place + found.length - 1) :=
      (hseen (Nat.le_refl place)).mono (by omega)
    have hafter : after.IsBelow (place + found.length - 1) := by
      unfold after
      split
      · exact hbelow.visitAll (by omega)
      · exact hbelow
    exact ih hafter hfound.fits (h.push_copied hfound hlong)
  | case2 place places tokens hlt candidate seen hvisit found hshort ih =>
    obtain ⟨-, -, hseen⟩ := (hp.mono (Nat.sub_le place 1)).of_visit hvisit
    exact ih (hseen (Nat.le_refl place)) hlt (h.push_literal hlt)
  | case3 place places tokens hend =>
    obtain rfl : place = data.size := by omega
    rwa [Array.extract_size] at h

/-- All tokens of a description, the byte at its end included. -/
def Description.all (d : Description) : List Token :=
  d.tokens.toList ++ d.last?.toList.map Token.literal

/-- The tokens describe the bytes up to a place, or up to the one before it if that waits. A match
that is held is one of the place that waits. -/
structure IsDeferred (data : Array UInt8) (place : Nat) (held : Found) (waits : Bool)
    (tokens : Array Token) : Prop where
  place_le : place ≤ data.size
  pos : waits = true → 0 < place
  described : Describes tokens.toList #[] (data.extract 0 (if waits then place - 1 else place))
  waits : 3 ≤ held.length → waits = true
  held : 3 ≤ held.length → held.IsAt data (place - 1)

/-- Each match taken unless the next one is longer: what was described up to a place is described up
to the end. -/
theorem deferring_spec {places : Places} {held : Found} {waits : Bool} {tokens : Array Token}
    (hp : places.IsBelow (place - 1)) (h : IsDeferred data place held waits tokens) :
    Describes (deferring e data place places held waits tokens).all #[] data := by
  fun_induction deferring e data place places held waits tokens with
  | case1 place places held waits tokens hlt candidate seen hvisit found htaken after ih =>
    -- the match that is held is taken
    obtain ⟨hlong, -⟩ := htaken
    obtain rfl : waits = true := h.waits hlong
    have hpos := h.pos rfl
    have hheld := h.held hlong
    obtain ⟨-, -, hseen⟩ := (hp.mono (Nat.sub_le place 1)).of_visit hvisit
    have hbelow : seen.IsBelow (place - 1 + held.length - 1) :=
      (hseen (Nat.le_refl place)).mono (by omega)
    have hdescribed : Describes tokens.toList #[] (data.extract 0 (place - 1)) := h.described
    exact ih (hbelow.visitAll (by omega)) {
      place_le := hheld.fits
      pos := nofun
      described := hdescribed.push_copied hheld hlong
      waits := fun hlong => absurd hlong (by decide)
      held := fun hlong => absurd hlong (by decide) }
  | case2 place places held waits tokens hlt candidate seen hvisit found hmore after ih =>
    -- a match at this place is longer, or there is none to take
    obtain ⟨hcandidate, hearlier, -⟩ := hp.of_visit hvisit
    obtain ⟨-, -, hseen⟩ := (hp.mono (Nat.sub_le place 1)).of_visit hvisit
    have hfound : 3 ≤ found.length → found.IsAt data place := by
      intro hlong
      have hlonger : held.length < found.length := by omega
      by_cases hnear : (isCandidate place candidate && held.length < e.sufficient) = true
      · have hvalue : found = (seen.search e data place candidate held).orNone place := if_pos hnear
        have hcandidate' : isCandidate place candidate = true := (Bool.and_eq_true_iff.1 hnear).1
        rcases Found.orNone_eq place (seen.search e data place candidate held) with hsame | hnone
        · rw [hvalue, hsame] at hlonger ⊢
          exact (Places.search_beats hearlier hlt hcandidate hcandidate').isAt hlonger
        · rw [hvalue, hnone] at hlong
          exact absurd hlong (by decide)
      · have hvalue : found = .none := if_neg hnear
        rw [hvalue] at hlong
        exact absurd hlong (by decide)
    -- the place before gets its literal if it waits for one
    have hafter : Describes after.toList #[] (data.extract 0 place) := by
      have hdescribed := h.described
      unfold after
      cases waits with
      | false => exact hdescribed
      | true =>
        have hpos := h.pos rfl
        have hbyte : place - 1 < data.size := by omega
        have hliteral := hdescribed.push_literal hbyte
        rwa [Nat.sub_add_cancel hpos, ← getD_eq_getElem hbyte] at hliteral
    exact ih (hseen (Nat.le_refl place)) {
      place_le := hlt
      pos := fun _ => Nat.succ_pos place
      described := hafter
      waits := fun _ => rfl
      held := hfound }
  | case3 place places held waits tokens hend =>
    have hle := h.place_le
    have hdescribed := h.described
    obtain rfl : place = data.size := by omega
    cases waits with
    | false =>
      rw [if_neg Bool.false_ne_true, Array.extract_size] at hdescribed
      rw [Description.all]
      simpa using hdescribed
    | true =>
      have hpos := h.pos rfl
      have hbyte : data.size - 1 < data.size := by omega
      have hliteral := hdescribed.push_literal hbyte
      rw [Nat.sub_add_cancel hpos, Array.extract_size, Array.toList_push] at hliteral
      rw [Description.all, if_pos rfl, Array.getElem?_eq_getElem hbyte]
      exact hliteral

/-- **The tokens of bytes** describe them, whatever the effort. -/
theorem describe_spec (e : Effort) (data : Array UInt8) :
    Describes (describe e data).all #[] data := by
  have hbelow := Places.isBelow_empty data.size
  have hnil : Describes (#[] : Array Token).toList #[] (data.extract 0 0) := by
    rw [Array.extract_zero]
    exact .nil
  rw [describe]
  split
  · exact deferring_spec hbelow {
      place_le := Nat.zero_le _
      pos := nofun
      described := hnil
      waits := fun hlong => absurd hlong (by decide)
      held := fun hlong => absurd hlong (by decide) }
  · rw [Description.all]
    simpa using greedy_spec hbelow (Nat.zero_le _) hnil

end Jarsmith.Deflate
