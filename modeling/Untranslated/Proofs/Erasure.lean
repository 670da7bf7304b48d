import Mathlib.Data.List.MinMax
import Untranslated.Proofs.Lines
import Untranslated.Text.Erasure

/-!
# What erasing leaves of each character

A region that covers a character decides what becomes of it; of several the one that starts
first, and of those that start together the one listed first (`deciding`). Erasing acts on each
character alone, as its deciding region says (`erase_eq_of_fits`): no region spoils another,
whatever order they are listed in and however they overlap.

What becomes of the characters between two newlines is a line of its own when the newlines stay
and no new one appears (`splitLines_eraseBy`).

* `offsets`: the characters of a text with the offsets they begin at.
* `erase_eq_of_fits`: erasing, character by character.
* `splitLines_eraseBy`, `count_newline_eraseBy`: the lines of a text that keeps its newlines.
-/

namespace Untranslated.Text

/-! ### Characters and their offsets -/

/-- The characters of a text that begins at the offset `lo`, each with the offset it begins at. -/
def offsets (lo : Nat) : List Char → List (Nat × Char)
  | [] => []
  | c :: s => (lo, c) :: offsets (lo + c.utf8Size) s

theorem map_snd_offsets (lo : Nat) (s : List Char) : (offsets lo s).map Prod.snd = s := by
  induction s generalizing lo with
  | nil => rfl
  | cons c s ih => simp [offsets, ih]

theorem offsets_append (lo : Nat) (a b : List Char) :
    offsets lo (a ++ b) = offsets lo a ++ offsets (lo + bytes a) b := by
  induction a generalizing lo with
  | nil => simp [offsets]
  | cons c a ih => simp [offsets, ih, Nat.add_assoc]

/-- The characters of a text that begins later begin later. -/
theorem offsets_add (lo n : Nat) (s : List Char) :
    offsets (lo + n) s = (offsets lo s).map fun x => (x.1 + n, x.2) := by
  induction s generalizing lo with
  | nil => rfl
  | cons c s ih =>
    rw [offsets, offsets, Nat.add_right_comm, ih, List.map_cons]

theorem mem_offsets {lo : Nat} {s : List Char} {x : Nat × Char} :
    x ∈ offsets lo s ↔ ∃ a b, s = a ++ x.2 :: b ∧ lo + bytes a = x.1 := by
  induction s generalizing lo with
  | nil => simp [offsets]
  | cons c s ih =>
    rw [offsets, List.mem_cons, ih]
    constructor
    · rintro (rfl | ⟨a, b, rfl, hx⟩)
      · exact ⟨[], s, by simp⟩
      · exact ⟨c :: a, b, by simp, by rw [bytes_cons]; omega⟩
    · rintro ⟨a, b, hs, hx⟩
      cases a with
      | nil =>
        obtain ⟨rfl, rfl⟩ : c = x.2 ∧ s = b := by simpa using hs
        exact .inl (Prod.ext (by simpa using hx.symm) rfl)
      | cons d a =>
        obtain ⟨rfl, rfl⟩ : c = d ∧ s = a ++ x.2 :: b := by simpa using hs
        rw [bytes_cons] at hx
        exact .inr ⟨a, b, rfl, by omega⟩

theorem le_of_mem_offsets {lo : Nat} {s : List Char} {x : Nat × Char} (h : x ∈ offsets lo s) :
    lo ≤ x.1 ∧ x.1 < lo + bytes s := by
  obtain ⟨a, b, rfl, hx⟩ := mem_offsets.1 h
  have hc := Char.utf8Size_pos x.2
  rw [bytes_append, bytes_cons]
  omega

/-- The character at the offset where a text was cut is the first one after the cut. -/
theorem mem_offsets_append {a b : List Char} {c : Char} :
    (bytes a, c) ∈ offsets 0 (a ++ b) ↔ b.head? = some c := by
  rw [offsets_append, List.mem_append, Nat.zero_add]
  constructor
  · rintro (h | h)
    · have hlt := (le_of_mem_offsets h).2
      dsimp only at hlt
      omega
    · cases b with
      | nil => exact absurd h List.not_mem_nil
      | cons d b =>
        rcases List.mem_cons.1 h with h | h
        · rw [List.head?_cons, (Prod.mk.inj h).2]
        · have hle := (le_of_mem_offsets h).1
          have hd := Char.utf8Size_pos d
          dsimp only at hle
          omega
  · intro h
    obtain ⟨rest, rfl⟩ := List.head?_eq_some_iff.1 h
    exact .inr List.mem_cons_self

/-- A character inside a piece of a text is one of the piece. -/
theorem mem_of_mem_offsets {a s b : List Char} {x : Nat × Char} (h : x ∈ offsets 0 (a ++ s ++ b))
    (hlo : bytes a ≤ x.1) (hhi : x.1 < bytes (a ++ s)) : x.2 ∈ s := by
  rw [offsets_append, offsets_append, List.mem_append, List.mem_append, Nat.zero_add,
    Nat.zero_add] at h
  rcases h with (h | h) | h
  · have hlt := (le_of_mem_offsets h).2
    omega
  · rw [← map_snd_offsets (bytes a) s]
    exact List.mem_map_of_mem h
  · have hle := (le_of_mem_offsets h).1
    omega

/-- A place between two characters of a text, or at one of its ends. -/
def IsBoundary (s : List Char) (n : Nat) : Prop :=
  ∃ a b, a ++ b = s ∧ bytes a = n

theorem eq_nil_of_bytes {s : List Char} (h : bytes s = 0) : s = [] := by
  cases s with
  | nil => rfl
  | cons c s =>
    have hc := Char.utf8Size_pos c
    rw [bytes_cons] at h
    omega

theorem IsBoundary.le_bytes {s : List Char} {n : Nat} (h : IsBoundary s n) : n ≤ bytes s := by
  obtain ⟨a, b, rfl, rfl⟩ := h
  rw [bytes_append]
  exact Nat.le_add_right _ _

/-- A boundary that is not before the end of `passed` cuts what follows. -/
theorem IsBoundary.exists_split {passed s : List Char} {n : Nat} (h : IsBoundary (passed ++ s) n)
    (hn : bytes passed ≤ n) : ∃ a b, s = a ++ b ∧ bytes passed + bytes a = n := by
  obtain ⟨a, b, hab, rfl⟩ := h
  rcases List.append_eq_append_iff.1 hab with ⟨c, hpassed, hb⟩ | ⟨c, ha, hs⟩
  · rw [hpassed, bytes_append] at hn
    obtain rfl : c = [] := eq_nil_of_bytes (by omega)
    exact ⟨[], s, rfl, by simp [hpassed]⟩
  · exact ⟨c, b, hs, by simp [ha]⟩

theorem isSome_cut?_iff {s : List Char} {n : Nat} : (cut? n s).isSome = true ↔ IsBoundary s n := by
  constructor
  · intro h
    obtain ⟨⟨a, b⟩, hcut⟩ := Option.isSome_iff_exists.1 h
    exact ⟨a, b, append_eq_of_cut? hcut⟩
  · rintro ⟨a, b, rfl, rfl⟩
    rw [cut?_append]
    rfl

instance (s : List Char) (n : Nat) : Decidable (IsBoundary s n) :=
  decidable_of_iff _ isSome_cut?_iff

/-- Each end of a region is a place between two characters of the text, or past its end. -/
def Region.Fits (s : List Char) (r : Region) : Prop :=
  (IsBoundary s r.lo ∨ bytes s < r.lo) ∧ (IsBoundary s r.hi ∨ bytes s < r.hi)

instance (s : List Char) (r : Region) : Decidable (r.Fits s) :=
  inferInstanceAs (Decidable (_ ∧ _))

/-- What is past the end of a text ends with it. -/
theorem isBoundary_min {s : List Char} {n : Nat} (h : IsBoundary s n ∨ bytes s < n) :
    IsBoundary s (min n (bytes s)) := by
  rcases h with h | h
  · rwa [Nat.min_eq_left h.le_bytes]
  · rw [Nat.min_eq_right h.le]
    exact ⟨s, [], List.append_nil s, rfl⟩

/-! ### The region that decides -/

/-- The character at an offset is inside a region. -/
def Region.covers (r : Region) (p : Nat) : Bool :=
  r.lo ≤ p && p < r.hi

theorem Region.covers_iff {r : Region} {p : Nat} : r.covers p = true ↔ r.lo ≤ p ∧ p < r.hi := by
  simp [covers]

/-- The region that decides about the character at an offset: of those that cover it the one that
starts first, and of these the one listed first. -/
def deciding (regions : List Region) (p : Nat) : Option Region :=
  (regions.filter (·.covers p)).argmin (·.lo)

section Deciding

variable {regions rs : List Region} {p : Nat} {r : Region}

theorem deciding_cons_of_neg (h : ¬r.covers p = true) : deciding (r :: rs) p = deciding rs p := by
  rw [deciding, List.filter_cons, if_neg h, deciding]

theorem deciding_cons_of_pos (h : r.covers p = true) :
    deciding (r :: rs) p =
      (deciding rs p).elim (some r) fun q => if q.lo < r.lo then some q else some r := by
  rw [deciding, List.filter_cons, if_pos h, List.argmin_cons, deciding]
  cases (rs.filter (·.covers p)).argmin (·.lo) <;> rfl

theorem deciding_eq_none_iff : deciding regions p = none ↔ ∀ q ∈ regions, ¬q.covers p = true := by
  rw [deciding, List.argmin_eq_none, List.filter_eq_nil_iff]

theorem mem_of_deciding (h : deciding regions p = some r) : r ∈ regions ∧ r.covers p = true :=
  List.mem_filter.1 (List.argmin_mem h)

/-- No region that covers a character starts before the one that decides about it. -/
theorem lo_le_of_covers (h : deciding regions p = some r) {q : Region} (hq : q ∈ regions)
    (hcovers : q.covers p = true) : r.lo ≤ q.lo :=
  List.le_of_mem_argmin (List.mem_filter.2 ⟨hq, hcovers⟩) h

end Deciding

theorem lo_le_trans (a b c : Region) (hab : decide (a.lo ≤ b.lo) = true)
    (hbc : decide (b.lo ≤ c.lo) = true) : decide (a.lo ≤ c.lo) = true :=
  decide_eq_true ((of_decide_eq_true hab).trans (of_decide_eq_true hbc))

theorem lo_le_total (a b : Region) : (decide (a.lo ≤ b.lo) || decide (b.lo ≤ a.lo)) = true := by
  simpa using Nat.le_total a.lo b.lo

/-- Among regions in the order of their starts the first that covers a character decides. -/
theorem find?_mergeSort (regions : List Region) (p : Nat) :
    (regions.mergeSort fun a b => a.lo ≤ b.lo).find? (·.covers p) = deciding regions p := by
  induction regions with
  | nil => simp [deciding]
  | cons r rs ih =>
    -- Sorting puts the new head after the regions that start before it and ahead of all others.
    obtain ⟨before, after, hsorted, hrest, hbefore⟩ :=
      List.mergeSort_cons lo_le_trans lo_le_total r rs
    have hordered := List.pairwise_mergeSort lo_le_trans lo_le_total (r :: rs)
    rw [hsorted] at hordered ⊢
    rw [hrest] at ih
    have hafter : ∀ b ∈ after, r.lo ≤ b.lo := by
      intro b hb
      have h := (List.pairwise_append.1 hordered).2.1
      simpa using (List.pairwise_cons.1 h).1 b hb
    have hless : ∀ b ∈ before, b.lo < r.lo := by
      intro b hb
      simpa using hbefore b hb
    rw [List.find?_append] at ih ⊢
    by_cases hr : r.covers p = true
    · rw [deciding_cons_of_pos hr, ← ih]
      simp only [List.find?_cons, hr]
      cases hb : before.find? (·.covers p) with
      | some b =>
        have hlt := hless b (List.mem_of_find?_eq_some hb)
        simp [hlt]
      | none =>
        cases ha : after.find? (·.covers p) with
        | none => simp
        | some b =>
          have hle := hafter b (List.mem_of_find?_eq_some ha)
          simp [Nat.not_lt.2 hle]
    · rw [deciding_cons_of_neg hr, ← ih]
      simp only [List.find?_cons, hr]

/-! ### Erasing by characters -/

/-- What becomes of one character when the region `r?` decides about it. -/
def remains (r? : Option Region) (c : Char) : List Char :=
  r?.elim [c] (·.erasure.apply [c])

/-- What becomes of a character is up to the erasure that is decided on. -/
theorem remains_congr {r? r'? : Option Region}
    (h : r?.map Region.erasure = r'?.map Region.erasure) (c : Char) :
    remains r? c = remains r'? c := by
  cases r? <;> cases r'? <;> simp_all [remains]

/-- The text that begins at the offset `lo` when `decides` says which region decides about the
character at an offset. -/
def eraseBy (decides : Nat → Option Region) (lo : Nat) (s : List Char) : List Char :=
  (offsets lo s).flatMap fun x => remains (decides x.1) x.2

section EraseBy

variable {decides : Nat → Option Region} {lo : Nat}

theorem eraseBy_append (a b : List Char) :
    eraseBy decides lo (a ++ b) = eraseBy decides lo a ++ eraseBy decides (lo + bytes a) b := by
  unfold eraseBy
  rw [offsets_append, List.flatMap_append]

/-- A text is erased alike at another offset if the same is decided on its characters. -/
theorem eraseBy_add {decides' : Nat → Option Region} {n : Nat} {s : List Char}
    (h : ∀ i, lo ≤ i → (decides' (i + n)).map Region.erasure = (decides i).map Region.erasure) :
    eraseBy decides' (lo + n) s = eraseBy decides lo s := by
  unfold eraseBy
  rw [offsets_add, List.flatMap_map]
  apply List.flatMap_congr
  intro x hx
  exact remains_congr (h x.1 (le_of_mem_offsets hx).1) x.2

theorem eraseBy_congr {decides' : Nat → Option Region} {s : List Char}
    (h : ∀ p, lo ≤ p → p < lo + bytes s → decides p = decides' p) :
    eraseBy decides lo s = eraseBy decides' lo s := by
  apply List.flatMap_congr
  intro x hx
  obtain ⟨hlo, hhi⟩ := le_of_mem_offsets hx
  rw [h x.1 hlo hhi]

/-- A text about which nothing decides stays. -/
theorem eraseBy_eq_self {s : List Char} (h : ∀ p, lo ≤ p → p < lo + bytes s → decides p = none) :
    eraseBy decides lo s = s := by
  calc eraseBy decides lo s = eraseBy (fun _ => none) lo s := eraseBy_congr h
    _ = (offsets lo s).map Prod.snd := by rw [List.map_eq_flatMap]; rfl
    _ = s := map_snd_offsets lo s

/-- A text about which one region decides is erased as it says. -/
theorem eraseBy_eq_apply {r : Region} {s : List Char}
    (h : ∀ p, lo ≤ p → p < lo + bytes s → decides p = some r) :
    eraseBy decides lo s = r.erasure.apply s := by
  calc eraseBy decides lo s = eraseBy (fun _ => some r) lo s := eraseBy_congr h
    _ = ((offsets lo s).map Prod.snd).flatMap fun c => r.erasure.apply [c] := by
      rw [List.flatMap_map]; rfl
    _ = s.flatMap fun c => r.erasure.apply [c] := by rw [map_snd_offsets]
    _ = r.erasure.apply s := by
      cases r.erasure with
      | drop => simp [Erasure.apply]
      | blank => simp only [Erasure.apply, List.map_cons, List.map_nil, ← List.map_eq_flatMap]

/-- A text that no region in order covers any more is the business of the others. -/
theorem eraseBy_find?_of_skip {r : Region} {rs : List Region} {s : List Char}
    (h : min r.hi (lo + bytes s) ≤ max r.lo lo) :
    eraseBy (fun p => (r :: rs).find? (·.covers p)) lo s =
      eraseBy (fun p => rs.find? (·.covers p)) lo s := by
  apply eraseBy_congr
  intro p hp hend
  rw [List.find?_cons_of_neg]
  rw [Region.covers_iff]
  omega

/-- Of regions in order the first one decides about what it covers, and nothing decides about what
comes before it. It may go on past the end of the text. -/
theorem eraseBy_find?_of_cut {r : Region} {rs : List Region} (hfirst : ∀ q ∈ rs, r.lo ≤ q.lo)
    {hi : Nat} {kept inside after : List Char} (hkept : lo + bytes kept = max r.lo lo)
    (hinside : max r.lo lo + bytes inside = hi) (hhi : hi = min r.hi (hi + bytes after)) :
    eraseBy (fun p => (r :: rs).find? (·.covers p)) lo (kept ++ (inside ++ after)) =
      kept ++ r.erasure.apply inside ++ eraseBy (fun p => rs.find? (·.covers p)) hi after := by
  have hbefore : eraseBy (fun p => (r :: rs).find? (·.covers p)) lo kept = kept := by
    apply eraseBy_eq_self
    intro p _ hp
    simp only [List.find?_eq_none, Region.covers_iff, List.forall_mem_cons]
    exact ⟨by omega, fun q hq => by have := hfirst q hq; omega⟩
  have hcovered : eraseBy (fun p => (r :: rs).find? (·.covers p)) (max r.lo lo) inside =
      r.erasure.apply inside := by
    apply eraseBy_eq_apply
    intro p _ _
    rw [List.find?_cons_of_pos]
    rw [Region.covers_iff]
    omega
  have hafter : eraseBy (fun p => (r :: rs).find? (·.covers p)) hi after =
      eraseBy (fun p => rs.find? (·.covers p)) hi after :=
    eraseBy_find?_of_skip (by omega)
  rw [eraseBy_append, eraseBy_append, hkept, hinside, hbefore, hcovered, hafter, List.append_assoc]

end EraseBy

/-- A region of which something is left cuts the text in three. -/
theorem eraseFrom_of_cut {size done : Nat} {r : Region} {rs : List Region}
    {kept inside after : List Char} (hlt : max r.lo done < min r.hi size)
    (hkept : done + bytes kept = max r.lo done)
    (hinside : max r.lo done + bytes inside = min r.hi size) :
    eraseFrom size done (kept ++ (inside ++ after)) (r :: rs) =
      (eraseFrom size (min r.hi size) after rs).map (kept ++ r.erasure.apply inside ++ ·) := by
  have hcut : max r.lo done - done = bytes kept := by omega
  have hcut' : min r.hi size - max r.lo done = bytes inside := by omega
  rw [eraseFrom, Nat.min_eq_left (a := max r.lo done) (by omega), if_neg (by omega), hcut, hcut',
    cut?_append]
  simp only [Option.bind_eq_bind, Option.bind_some, cut?_append]
  cases eraseFrom size (min r.hi size) after rs <;> rfl

/-- A region of which something is left behind `passed` cuts the rest in three if it cuts no
character. -/
theorem exists_cut {text passed s : List Char} {r : Region} (htext : passed ++ s = text)
    (hlo : IsBoundary text (max r.lo (bytes passed)))
    (hhi : IsBoundary text (min r.hi (bytes text)))
    (hlt : max r.lo (bytes passed) < min r.hi (bytes text)) :
    ∃ kept inside after, s = kept ++ (inside ++ after) ∧
      bytes passed + bytes kept = max r.lo (bytes passed) ∧
      max r.lo (bytes passed) + bytes inside = min r.hi (bytes text) ∧
      bytes (passed ++ (kept ++ inside)) = min r.hi (bytes text) := by
  subst htext
  obtain ⟨kept, rest, rfl, hkept⟩ := hlo.exists_split (Nat.le_max_right _ _)
  rw [← List.append_assoc] at hhi hlt ⊢
  obtain ⟨inside, after, rfl, hinside⟩ := hhi.exists_split (by rw [bytes_append passed]; omega)
  refine ⟨kept, inside, after, rfl, hkept, ?_, ?_⟩
  · rwa [bytes_append, hkept] at hinside
  · rwa [← List.append_assoc, bytes_append]

/-- **Erasing sorted regions from the rest of a text.** What is in `passed` was dealt with
before; a region decides about what is left of it. -/
theorem eraseFrom_eq {text : List Char} (regions : List Region) (passed s : List Char)
    (htext : passed ++ s = text) (hsorted : regions.Pairwise fun a b => a.lo ≤ b.lo)
    (hfits : ∀ r ∈ regions, r.Fits text) :
    eraseFrom (bytes text) (bytes passed) s regions =
      some (eraseBy (fun p => regions.find? (·.covers p)) (bytes passed) s) := by
  -- `passed` grows from region to region. What a region leaves before its start no later one
  -- covers, as they start no earlier; what it covers is decided on, wherever the later ones end.
  induction regions generalizing passed s with
  | nil =>
    rw [eraseFrom, eraseBy_eq_self]
    exact fun _ _ _ => List.find?_nil
  | cons r rs ih =>
    obtain ⟨hfirst, hsorted⟩ := List.pairwise_cons.1 hsorted
    obtain ⟨⟨hlo, hhi⟩, hfits⟩ := List.forall_mem_cons.1 hfits
    have hsize : bytes text = bytes passed + bytes s := by rw [← htext, bytes_append]
    by_cases hskip : min r.hi (bytes text) ≤ max r.lo (bytes passed)
    · rw [eraseFrom, if_pos (by omega), ih passed s htext hsorted hfits, eraseBy_find?_of_skip]
      rwa [← hsize]
    · rw [Nat.not_le] at hskip
      have hstart : IsBoundary text (max r.lo (bytes passed)) := by
        rcases Nat.le_total r.lo (bytes passed) with h | h
        · rw [Nat.max_eq_right h]
          exact ⟨passed, s, htext, rfl⟩
        · rw [Nat.max_eq_left h]
          exact hlo.resolve_right (by omega)
      obtain ⟨kept, inside, after, rfl, hkept, hinside, hdone⟩ :=
        exists_cut htext hstart (isBoundary_min hhi) hskip
      -- What is left of the text is read on behind all that the region has dealt with.
      have hrest := ih (passed ++ (kept ++ inside)) after (by simpa using htext) hsorted hfits
      have hend : min r.hi (bytes text) + bytes after = bytes text := by
        rw [← hdone, ← bytes_append, ← htext]
        simp only [List.append_assoc]
      rw [hdone] at hrest
      rw [eraseFrom_of_cut hskip hkept hinside, hrest,
        eraseBy_find?_of_cut hfirst hkept hinside (by rw [hend])]
      rfl

/-- **Erasing, character by character**, also with regions that go on past the end of the text: what
becomes of a character is up to the region that decides about it. -/
theorem erase_eq_of_fits {s : List Char} {regions : List Region} (hfits : ∀ r ∈ regions, r.Fits s) :
    erase s regions = some (eraseBy (deciding regions) 0 s) := by
  have hsorted : (regions.mergeSort fun a b => a.lo ≤ b.lo).Pairwise fun a b => a.lo ≤ b.lo :=
    (List.pairwise_mergeSort lo_le_trans lo_le_total regions).imp of_decide_eq_true
  have h := eraseFrom_eq _ [] s (List.nil_append s) hsorted
    fun r hr => hfits r (List.mem_mergeSort.1 hr)
  simp only [find?_mergeSort] at h
  exact h

/-- Erasing regions that are in the text. -/
theorem erase_eq {s : List Char} {regions : List Region}
    (hcut : ∀ r ∈ regions, IsBoundary s r.lo ∧ IsBoundary s r.hi) :
    erase s regions = some (eraseBy (deciding regions) 0 s) :=
  erase_eq_of_fits fun r hr => ⟨.inl (hcut r hr).1, .inl (hcut r hr).2⟩

/-! ### Lines -/

/-- The lines of a text as characters with their offsets. -/
def offsetLines (s : List Char) : List (List (Nat × Char)) :=
  (offsets 0 s).splitOnP fun x => x.2 == '\n'

theorem map_snd_offsetLines (s : List Char) :
    (offsetLines s).map (·.map Prod.snd) = splitLines s := by
  have h : splitLines ((offsets 0 s).flatMap fun x => [x.2]) =
      (offsetLines s).map (·.flatMap fun x => [x.2]) := by
    apply splitLines_flatMap
    · intro x _ hx
      rw [beq_iff_eq.1 hx]
    · intro x _ hx
      rw [List.mem_singleton]
      exact Ne.symm (by simpa using hx)
  simpa only [← List.map_eq_flatMap, map_snd_offsets] using h.symm

theorem eq_false_of_mem_splitOnP {α : Type} {ends : α → Bool} {xs piece : List α} {x : α}
    (hpiece : piece ∈ xs.splitOnP ends) (hx : x ∈ piece) : ends x = false := by
  induction xs generalizing piece with
  | nil =>
    rw [List.splitOnP_nil, List.mem_singleton] at hpiece
    subst hpiece
    exact absurd hx List.not_mem_nil
  | cons y ys ih =>
    rw [List.splitOnP_cons_eq_if_modifyHead] at hpiece
    obtain ⟨first, rest, hys⟩ := List.exists_cons_of_ne_nil (List.splitOnP_ne_nil ends ys)
    rw [hys, List.forall_mem_cons] at ih
    split at hpiece
    case isTrue =>
      rcases List.mem_cons.1 hpiece with rfl | hpiece
      · exact absurd hx List.not_mem_nil
      · rw [hys] at hpiece
        rcases List.mem_cons.1 hpiece with rfl | hpiece
        · exact ih.1 hx
        · exact ih.2 _ hpiece hx
    case isFalse hy =>
      rw [hys, List.modifyHead_cons] at hpiece
      rcases List.mem_cons.1 hpiece with rfl | hpiece
      · rcases List.mem_cons.1 hx with rfl | hx
        · simpa using hy
        · exact ih.1 hx
      · exact ih.2 _ hpiece hx

/-- No newline is in a line. -/
theorem ne_newline_of_mem_offsetLines {s : List Char} {line : List (Nat × Char)}
    (hline : line ∈ offsetLines s) {x : Nat × Char} (hx : x ∈ line) : x.2 ≠ '\n' := by
  have h := eq_false_of_mem_splitOnP hline hx
  simpa using h

/-- The lines of a text from which no newline is dropped stay in place. -/
theorem splitLines_eraseBy {decides : Nat → Option Region} {s : List Char}
    (hdrop : ∀ p r, decides p = some r → r.erasure = .drop → (p, '\n') ∉ offsets 0 s) :
    splitLines (eraseBy decides 0 s) =
      (offsetLines s).map (·.flatMap fun x => remains (decides x.1) x.2) := by
  apply splitLines_flatMap
  · rintro ⟨p, c⟩ hx hc
    obtain rfl : c = '\n' := by simpa using hc
    cases hr : decides p with
    | none => rfl
    | some r =>
      cases he : r.erasure with
      | drop => exact absurd hx (hdrop p r hr he)
      | blank => simp [remains, he, Erasure.apply]
  · rintro ⟨p, c⟩ hx hc
    have hc : c ≠ '\n' := by simpa using hc
    cases hr : decides p with
    | none => simpa [remains] using hc.symm
    | some r =>
      cases he : r.erasure with
      | drop => simp [remains, he, Erasure.apply]
      | blank => simp [remains, he, Erasure.apply, hc]

/-- A text from which no newline is dropped has as many newlines as before. -/
theorem count_newline_eraseBy {decides : Nat → Option Region} {s : List Char}
    (hdrop : ∀ p r, decides p = some r → r.erasure = .drop → (p, '\n') ∉ offsets 0 s) :
    (eraseBy decides 0 s).count '\n' = s.count '\n' := by
  have hlines := congrArg List.length (splitLines_eraseBy hdrop)
  have hsame := congrArg List.length (map_snd_offsetLines s)
  rw [List.length_map, length_splitLines] at hlines hsame
  omega

end Untranslated.Text
