import Untranslated.Proofs.Erasure

/-!
# Regions in any order

Erasing goes through the regions by their starts and keeps no more than one offset: all before it is
dealt with. A region may end before the one that was dealt with last, or before it starts, or past
the end of the text, and several may start together. None of this is seen in what is left: each
character is kept if no region covers it, and is else dealt with as the first region to cover it
says.

* `Decides`: the region that decides about a character, and `deciding_eq_some_iff`: it is the one
  that is computed.
* `Leaves`: what is left of a character, and `leaves_iff`: it is a function of the regions.
* `slices`: the slices that are cut out of the text, and `isSome_erase_iff`: erasing fails just if
  one of them is out of bounds or cuts a character.
* `erasesByCharacter`: **erasing regions, whatever order they are listed in**.
-/

namespace Untranslated.Text

/-! ### What is left of a character -/

/-- A region of a list decides about the character at an offset: it covers it, and of the regions
that cover it too those listed before start later, and those listed after do not start earlier. -/
def Decides (regions : List Region) (p : Nat) (r : Region) : Prop :=
  ∃ before after, regions = before ++ r :: after ∧ r.covers p = true ∧
    (∀ q ∈ before, q.covers p = true → r.lo < q.lo) ∧
    ∀ q ∈ after, q.covers p = true → r.lo ≤ q.lo

/-- What erasing regions leaves of the character `c` at the offset `p`. -/
inductive Leaves (regions : List Region) (p : Nat) (c : Char) : List Char → Prop
  /-- A character that no region covers is kept. -/
  | kept (uncovered : ∀ r ∈ regions, ¬r.covers p = true) : Leaves regions p c [c]
  /-- Where the region that decides drops what is inside, nothing is left. -/
  | deleted {r : Region} (decides : Decides regions p r) (drop : r.erasure = .drop) :
      Leaves regions p c []
  /-- Where it blanks what is inside, a space is left. -/
  | blanked {r : Region} (decides : Decides regions p r) (blank : r.erasure = .blank)
      (inLine : c ≠ '\n') : Leaves regions p c [' ']
  /-- A newline stays where what is inside is blanked. -/
  | newline {r : Region} (decides : Decides regions p r) (blank : r.erasure = .blank)
      (atEnd : c = '\n') : Leaves regions p c ['\n']

section Deciding

variable {regions rs : List Region} {p : Nat} {r : Region}

theorem Decides.cons {q : Region} (h : Decides rs p r) (hq : q.covers p = true → r.lo < q.lo) :
    Decides (q :: rs) p r := by
  obtain ⟨before, after, rfl, hcovers, hbefore, hafter⟩ := h
  exact ⟨q :: before, after, rfl, hcovers, List.forall_mem_cons.2 ⟨hq, hbefore⟩, hafter⟩

theorem decides_head (h : r.covers p = true) (hrs : ∀ q ∈ rs, q.covers p = true → r.lo ≤ q.lo) :
    Decides (r :: rs) p r :=
  ⟨[], rs, rfl, h, fun _ hq => absurd hq List.not_mem_nil, hrs⟩

theorem decides_of_deciding (h : deciding regions p = some r) : Decides regions p r := by
  induction regions with
  | nil => cases h
  | cons q rs ih =>
    by_cases hq : q.covers p = true
    · rw [deciding_cons_of_pos hq] at h
      cases hrs : deciding rs p with
      | none =>
        obtain rfl : q = r := by simpa [hrs] using h
        exact decides_head hq fun x hx hcovers => absurd hcovers (deciding_eq_none_iff.1 hrs x hx)
      | some x =>
        rw [hrs, Option.elim_some] at h
        split at h
        case isTrue hlt =>
          obtain rfl := Option.some.inj h
          exact (ih hrs).cons fun _ => hlt
        case isFalse hle =>
          obtain rfl := Option.some.inj h
          refine decides_head hq fun y hy hcovers => ?_
          exact (Nat.not_lt.1 hle).trans (lo_le_of_covers hrs hy hcovers)
    · rw [deciding_cons_of_neg hq] at h
      exact (ih h).cons fun hcovers => absurd hcovers hq

theorem Decides.deciding_eq (h : Decides regions p r) : deciding regions p = some r := by
  obtain ⟨before, after, rfl, hcovers, hbefore, hafter⟩ := h
  induction before with
  | nil =>
    rw [List.nil_append, deciding_cons_of_pos hcovers]
    cases hrs : deciding after p with
    | none => rfl
    | some q =>
      obtain ⟨hq, hqcovers⟩ := mem_of_deciding hrs
      rw [Option.elim_some, if_neg (Nat.not_lt.2 (hafter q hq hqcovers))]
  | cons q before ih =>
    obtain ⟨hq, hbefore⟩ := List.forall_mem_cons.1 hbefore
    have hrest := ih hbefore
    by_cases hqcovers : q.covers p = true
    · rw [List.cons_append, deciding_cons_of_pos hqcovers, hrest, Option.elim_some,
        if_pos (hq hqcovers)]
    · rw [List.cons_append, deciding_cons_of_neg hqcovers, hrest]

/-- **The region that decides is found.** -/
theorem deciding_eq_some_iff : deciding regions p = some r ↔ Decides regions p r :=
  ⟨decides_of_deciding, Decides.deciding_eq⟩

/-- **What is left of a character is a function of the regions.** -/
theorem leaves_iff {c : Char} {piece : List Char} :
    Leaves regions p c piece ↔ remains (deciding regions p) c = piece := by
  constructor
  · intro h
    cases h with
    | kept uncovered =>
      rw [deciding_eq_none_iff.2 uncovered]
      rfl
    | deleted decides drop =>
      rw [deciding_eq_some_iff.2 decides]
      simp [remains, drop, Erasure.apply]
    | blanked decides blank inLine =>
      rw [deciding_eq_some_iff.2 decides]
      simp [remains, blank, Erasure.apply, inLine]
    | newline decides blank atEnd =>
      rw [deciding_eq_some_iff.2 decides]
      simp [remains, blank, Erasure.apply, atEnd]
  · rintro rfl
    cases hr : deciding regions p with
    | none => exact .kept (deciding_eq_none_iff.1 hr)
    | some r =>
      have hdecides := deciding_eq_some_iff.1 hr
      rw [remains, Option.elim_some]
      cases he : r.erasure with
      | drop => exact .deleted hdecides he
      | blank =>
        by_cases hc : c = '\n'
        · subst hc
          exact .newline hdecides he rfl
        · rw [Erasure.apply, List.map_singleton, if_neg (by simpa using hc)]
          exact .blanked hdecides he hc

end Deciding

/-! ### Other lists of the same regions -/

/-- Regions that start together are erased alike. -/
def AlikeAtStart (regions : List Region) : Prop :=
  ∀ q ∈ regions, ∀ r ∈ regions, q.lo = r.lo → q.erasure = r.erasure

section Lists

variable {regions regions' : List Region} {p : Nat}

/-- Where regions that start together are erased alike, it does not matter in which order they are
listed and how often. -/
theorem map_erasure_deciding (halike : AlikeAtStart regions)
    (hsame : ∀ r, r ∈ regions' ↔ r ∈ regions) :
    (deciding regions' p).map Region.erasure = (deciding regions p).map Region.erasure := by
  cases hr : deciding regions p with
  | none =>
    have hnone : deciding regions' p = none :=
      deciding_eq_none_iff.2 fun q hq => deciding_eq_none_iff.1 hr q ((hsame q).1 hq)
    rw [hnone]
  | some r =>
    obtain ⟨hmem, hcovers⟩ := mem_of_deciding hr
    cases hr' : deciding regions' p with
    | none => exact absurd hcovers (deciding_eq_none_iff.1 hr' r ((hsame r).2 hmem))
    | some r' =>
      obtain ⟨hmem', hcovers'⟩ := mem_of_deciding hr'
      have hle := lo_le_of_covers hr ((hsame r').1 hmem') hcovers'
      have hge := lo_le_of_covers hr' ((hsame r).2 hmem) hcovers
      have herasure := halike r' ((hsame r').1 hmem') r hmem (Nat.le_antisymm hge hle)
      exact congrArg some herasure

theorem mem_of_mem_repeated {earlier later : List Region} {q r : Region} (hr : r ∈ earlier)
    (hq : q ∈ earlier ++ r :: later) : q ∈ earlier ++ later := by
  rcases List.mem_append.1 hq with hq | hq
  · exact List.mem_append_left later hq
  · rcases List.mem_cons.1 hq with rfl | hq
    · exact List.mem_append_left later hr
    · exact List.mem_append_right earlier hq

/-- A region that is listed again takes no decision over. -/
theorem Decides.repeated {earlier later : List Region} {r x : Region} (hr : r ∈ earlier)
    (h : Decides (earlier ++ later) p x) : Decides (earlier ++ r :: later) p x := by
  have hfirst : ∀ q ∈ earlier ++ r :: later, q.covers p = true → x.lo ≤ q.lo :=
    fun q hq => lo_le_of_covers (deciding_eq_some_iff.2 h) (mem_of_mem_repeated hr hq)
  obtain ⟨before, after, hsplit, hcovers, hbefore, hafter⟩ := h
  -- The region that decides is one of `later`, with nothing split off the first of them, or one of
  -- `earlier`.
  rcases List.append_eq_append_iff.1 hsplit with ⟨more, rfl, rfl⟩ | ⟨more, rfl, hmore⟩
  · refine ⟨earlier ++ r :: more, after, by simp, hcovers, fun q hq => ?_, hafter⟩
    exact hbefore q (mem_of_mem_repeated hr hq)
  · cases more with
    | nil =>
      obtain rfl : x :: after = later := hmore
      rw [List.append_nil] at hr ⊢
      refine ⟨before ++ [r], after, by simp, hcovers, fun q hq => ?_, hafter⟩
      have hmem := mem_of_mem_repeated hr hq
      rw [List.append_nil] at hmem
      exact hbefore q hmem
    | cons y more =>
      obtain ⟨rfl, rfl⟩ := List.cons.inj hmore
      refine ⟨before, more ++ r :: later, by simp, hcovers, hbefore, fun q hq => hfirst q ?_⟩
      rw [List.append_assoc, List.cons_append]
      exact List.mem_append_right before (List.mem_cons_of_mem x hq)

/-- A region that is listed again changes no decision. -/
theorem deciding_repeated {earlier later : List Region} {r : Region} (hr : r ∈ earlier) :
    deciding (earlier ++ r :: later) p = deciding (earlier ++ later) p := by
  cases hx : deciding (earlier ++ later) p with
  | none =>
    rw [deciding_eq_none_iff] at hx ⊢
    exact fun q hq => hx q (mem_of_mem_repeated hr hq)
  | some x =>
    rw [deciding_eq_some_iff] at hx ⊢
    exact hx.repeated hr

end Lists

/-! ### Slices -/

/-- The slices, from one offset to another, that are cut out of a text of `size` bytes to erase
regions in order from the offset `done` on: what is kept before a region, what is inside it and, at
last, what is behind all regions. -/
def slicesFrom (size done : Nat) : List Region → List (Nat × Nat)
  | [] => [(done, size)]
  | r :: regions =>
    let lo := min (max r.lo done) size
    let hi := min r.hi size
    if hi ≤ lo then slicesFrom size done regions
    else (done, lo) :: (lo, hi) :: slicesFrom size hi regions

/-- The slices that are cut out of a text to erase regions. -/
def slices (s : List Char) (regions : List Region) : List (Nat × Nat) :=
  slicesFrom (bytes s) 0 (regions.mergeSort fun a b => a.lo ≤ b.lo)

/-- A part of a text from one offset to another: they are in the text and in order, and cut no
character. -/
structure IsSlice (s : List Char) (x : Nat × Nat) : Prop where
  le : x.1 ≤ x.2
  lo : IsBoundary s x.1
  hi : IsBoundary s x.2

section Slices

variable {text : List Char} {r : Region} {rs : List Region}

theorem slicesFrom_of_cut {size done : Nat} (hlt : max r.lo done < min r.hi size) :
    slicesFrom size done (r :: rs) =
      (done, max r.lo done) :: (max r.lo done, min r.hi size) ::
        slicesFrom size (min r.hi size) rs := by
  rw [slicesFrom, Nat.min_eq_left (a := max r.lo done) (by omega), if_neg (by omega)]

/-- A region of which something is left is erased only if what is left of it cuts no character. -/
theorem isBoundary_of_isSome_eraseFrom {passed s : List Char} (htext : passed ++ s = text)
    (hlt : max r.lo (bytes passed) < min r.hi (bytes text))
    (h : (eraseFrom (bytes text) (bytes passed) s (r :: rs)).isSome = true) :
    IsBoundary text (max r.lo (bytes passed)) ∧ IsBoundary text (min r.hi (bytes text)) := by
  obtain ⟨out, hout⟩ := Option.isSome_iff_exists.1 h
  have hstart : min (max r.lo (bytes passed)) (bytes text) = max r.lo (bytes passed) := by omega
  rw [eraseFrom, hstart, if_neg (by omega)] at hout
  obtain ⟨⟨kept, rest⟩, hkept, hout⟩ := Option.bind_eq_some_iff.1 hout
  obtain ⟨⟨inside, after⟩, hinside, -⟩ := Option.bind_eq_some_iff.1 hout
  obtain ⟨rfl, hkept⟩ := append_eq_of_cut? hkept
  obtain ⟨rfl, hinside⟩ := append_eq_of_cut? hinside
  refine ⟨⟨passed ++ kept, inside ++ after, by simpa using htext, ?_⟩,
    ⟨passed ++ kept ++ inside, after, by simpa using htext, ?_⟩⟩
  · rw [bytes_append]
    omega
  · rw [bytes_append, bytes_append]
    omega

/-- Erasing regions in order from the rest of a text succeeds just if all that is cut out are slices
of the text. -/
theorem isSome_eraseFrom_iff (regions : List Region) (passed s : List Char)
    (htext : passed ++ s = text) :
    (eraseFrom (bytes text) (bytes passed) s regions).isSome = true ↔
      ∀ x ∈ slicesFrom (bytes text) (bytes passed) regions, IsSlice text x := by
  have hpassed : IsBoundary text (bytes passed) := ⟨passed, s, htext, rfl⟩
  induction regions generalizing passed s with
  | nil =>
    have hslice : IsSlice text (bytes passed, bytes text) :=
      ⟨hpassed.le_bytes, hpassed, ⟨text, [], List.append_nil text, rfl⟩⟩
    simpa [eraseFrom, slicesFrom] using hslice
  | cons r rs ih =>
    by_cases hskip : min r.hi (bytes text) ≤ max r.lo (bytes passed)
    · have hle := hpassed.le_bytes
      rw [eraseFrom, slicesFrom, if_pos (by omega), if_pos (by omega)]
      exact ih passed s htext hpassed
    · rw [Nat.not_le] at hskip
      rw [slicesFrom_of_cut hskip, List.forall_mem_cons, List.forall_mem_cons]
      by_cases hcut : IsBoundary text (max r.lo (bytes passed)) ∧
          IsBoundary text (min r.hi (bytes text))
      · obtain ⟨kept, inside, after, rfl, hkept, hinside, hdone⟩ :=
          exists_cut htext hcut.1 hcut.2 hskip
        have hrest := ih (passed ++ (kept ++ inside)) after (by simpa using htext)
          (by rw [hdone]; exact hcut.2)
        rw [hdone] at hrest
        rw [eraseFrom_of_cut hskip hkept hinside, Option.isSome_map,
          and_iff_right ⟨Nat.le_max_right _ _, hpassed, hcut.1⟩,
          and_iff_right ⟨hskip.le, hcut.1, hcut.2⟩]
        exact hrest
      · refine iff_of_false (fun h => hcut ?_) fun h => hcut ⟨h.1.hi, h.2.1.hi⟩
        exact isBoundary_of_isSome_eraseFrom htext hskip h

/-- **Erasing fails on slices alone**: it gives a text just if all that is cut out are slices of the
given one. -/
theorem isSome_erase_iff {s : List Char} {regions : List Region} :
    (erase s regions).isSome = true ↔ ∀ x ∈ slices s regions, IsSlice s x :=
  isSome_eraseFrom_iff _ [] s rfl

end Slices

/-! ### Erasing -/

/-- **Erasing as a union of regions.** -/
structure ErasesByCharacter (s : List Char) (regions : List Region) : Prop where
  /-- Every slice that is cut out is in the text. -/
  bounded : ∀ x ∈ slices s regions, IsSlice s x
  /-- The text that is left is what is left of each character, one after another. -/
  text : erase s regions =
    some ((offsets 0 s).flatMap fun x => remains (deciding regions x.1) x.2)
  /-- What is left of a character is said by the first region to cover it, if there is one. -/
  leaves : ∀ p c piece, Leaves regions p c piece ↔ remains (deciding regions p) c = piece
  /-- In any order the regions leave the same, if those that start together are erased alike. -/
  reordered : AlikeAtStart regions → ∀ regions', (∀ r, r ∈ regions' ↔ r ∈ regions) →
    erase s regions' = erase s regions
  /-- A region that is listed again changes nothing. -/
  repeated : ∀ earlier r later, regions = earlier ++ r :: later → r ∈ earlier →
    erase s (earlier ++ later) = erase s regions
  /-- If no region that drops what is inside covers a newline, all newlines are left, and between
  them what is left of the lines. -/
  newlines :
    (∀ r ∈ regions, r.erasure = .drop → ∀ p, r.covers p = true → (p, '\n') ∉ offsets 0 s) →
    ∃ out, erase s regions = some out ∧ out.count '\n' = s.count '\n' ∧
      splitLines out =
        (offsetLines s).map (·.flatMap fun x => remains (deciding regions x.1) x.2)

/-- Regions that differ in what they decide about no character leave the same. -/
theorem erase_congr {s : List Char} {regions regions' : List Region}
    (hfits : ∀ r ∈ regions, r.Fits s) (hfits' : ∀ r ∈ regions', r.Fits s)
    (h : ∀ p, (deciding regions' p).map Region.erasure = (deciding regions p).map Region.erasure) :
    erase s regions' = erase s regions := by
  rw [erase_eq_of_fits hfits, erase_eq_of_fits hfits']
  refine congrArg some (List.flatMap_congr fun x _ => ?_)
  exact remains_congr (h x.1) x.2

/-- **Erasing regions acts on each character alone**, as the first region to cover it says. -/
theorem erasesByCharacter {s : List Char} {regions : List Region}
    (hfits : ∀ r ∈ regions, r.Fits s) : ErasesByCharacter s regions := by
  have htext := erase_eq_of_fits hfits
  constructor
  case bounded =>
    apply isSome_erase_iff.1
    rw [htext]
    rfl
  case text => exact htext
  case leaves => exact fun p c piece => leaves_iff
  case reordered =>
    intro halike regions' hsame
    have hfits' : ∀ r ∈ regions', r.Fits s := fun r hr => hfits r ((hsame r).1 hr)
    exact erase_congr hfits hfits' fun p => map_erasure_deciding halike hsame
  case repeated =>
    rintro earlier r later rfl hr
    have hfits' : ∀ q ∈ earlier ++ later, q.Fits s := by
      intro q hq
      rcases List.mem_append.1 hq with hq | hq
      · exact hfits q (List.mem_append_left _ hq)
      · exact hfits q (List.mem_append_right _ (List.mem_cons_of_mem r hq))
    exact erase_congr hfits hfits' fun p => by rw [deciding_repeated hr]
  case newlines =>
    intro hnewline
    have hdrop : ∀ p r, deciding regions p = some r → r.erasure = .drop →
        (p, '\n') ∉ offsets 0 s := by
      intro p r hr hdrop
      obtain ⟨hmem, hcovers⟩ := mem_of_deciding hr
      exact hnewline r hmem hdrop p hcovers
    exact ⟨_, htext, count_newline_eraseBy hdrop, splitLines_eraseBy hdrop⟩

/-- A text of characters of several bytes, between which there are newlines. -/
def layeredText : List Char :=
  "né\n/* x */ 😀 // y\nend".toList

/-- Regions that overlap, also with the same start, and some that are listed twice, are empty, end
before they start or go on past the end of the text. -/
def layeredRegions : List Region :=
  [⟨17, 21, .drop⟩, ⟨3, 11, .blank⟩, ⟨5, 5, .drop⟩, ⟨16, 12, .drop⟩, ⟨4, 8, .drop⟩,
    ⟨17, 19, .blank⟩, ⟨8, 16, .drop⟩, ⟨3, 11, .blank⟩, ⟨24, 90, .blank⟩, ⟨40, 30, .drop⟩]

example : erase layeredText layeredRegions = some "né\n        \nen ".toList := by
  cbv

/-- The layered regions are erased by characters. -/
theorem erasesByCharacter_layered : (∀ r ∈ layeredRegions, r.Fits layeredText) ∧
    ErasesByCharacter layeredText layeredRegions := by
  have hfits : ∀ r ∈ layeredRegions, r.Fits layeredText := by decide
  exact ⟨hfits, erasesByCharacter hfits⟩

end Untranslated.Text
