import Mathlib.Algebra.Group.Even
import Mathlib.Data.List.SplitBy
import Untranslated.Proofs.Patterns
import Untranslated.Rule.DateFormat

/-!
# Date formats by their runs

A date format without separators is a row of groups of equal letters. Groups of one letter may stand
next to each other, so a row can be cut in many ways; but what can be cut at all is seen from the
maximal runs of equal letters and their lengths.

* `equalRuns`: the maximal runs of equal characters of a text.
* `FillsGroups`: so many of a letter can be cut into groups.
* `matches_star_dateGroup_iff`: **a text is a row of groups just if each of its runs is**.
* `isDateFormat_iff_runs`: which candidates are date formats.
-/

namespace Untranslated

open Text (Pattern trim)

/-! ### Runs -/

/-- The maximal runs of equal characters. -/
def equalRuns (s : List Char) : List (List Char) :=
  s.splitBy (· == ·)

variable {c : Char} {n : Nat} {s : List Char}

theorem isChain_replicate (c : Char) (n : Nat) :
    (List.replicate n c).IsChain fun a b => (a == b) = true := by
  induction n with
  | zero => exact List.isChain_nil
  | succ n ih =>
    rw [List.replicate_succ, List.isChain_cons]
    refine ⟨fun d hd => ?_, ih⟩
    have hmem : d ∈ List.replicate n c := List.mem_of_mem_head? hd
    rw [(List.mem_replicate.1 hmem).2, beq_self_eq_true]

theorem equalRuns_replicate (hn : n ≠ 0) :
    equalRuns (List.replicate n c) = [List.replicate n c] := by
  have hne : List.replicate n c ≠ [] := by simpa using hn
  exact List.splitBy_of_isChain hne (isChain_replicate c n)

/-- A run ends where another character stands. -/
theorem equalRuns_replicate_append (hn : n ≠ 0) (hs : s.head? ≠ some c) :
    equalRuns (List.replicate n c ++ s) = List.replicate n c :: equalRuns s := by
  have hends : ∀ a ∈ (List.replicate n c).getLast?, ∀ b ∈ s.head?, (a == b) = false := by
    intro a ha b hb
    have hmem : a ∈ List.replicate n c := List.mem_of_getLast? ha
    rw [(List.mem_replicate.1 hmem).2, beq_eq_false_iff_ne]
    rintro rfl
    exact hs hb
  have happend : equalRuns (List.replicate n c ++ s) =
      equalRuns (List.replicate n c) ++ equalRuns s := List.splitBy_append hends
  rw [happend, equalRuns_replicate hn, List.singleton_append]

/-- A text begins with a run of its first character. -/
theorem exists_run (c : Char) (s : List Char) :
    ∃ n rest, c :: s = List.replicate (n + 1) c ++ rest ∧ rest.head? ≠ some c := by
  induction s with
  | nil => exact ⟨0, [], rfl, by simp⟩
  | cons d s ih =>
    by_cases hd : d = c
    · obtain ⟨n, rest, hrest, hhead⟩ := ih
      refine ⟨n + 1, rest, ?_, hhead⟩
      rw [hd, hrest]
      rfl
    · refine ⟨0, d :: s, rfl, ?_⟩
      simpa using hd

/-! ### Groups -/

/-- The letters that a group has two to four of. -/
def longDateLetters : List Char :=
  "yYM".toList

/-- The letters that a group has two of. -/
def pairDateLetters : List Char :=
  "DdHhms".toList

/-- So many of a letter can be cut into groups. -/
def FillsGroups (c : Char) (n : Nat) : Prop :=
  c ∈ longDateLetters ∧ 2 ≤ n ∨ c ∈ pairDateLetters ∧ Even n

/-- The text is as many of a letter as can be cut into groups. -/
def IsDateRun (run : List Char) : Prop :=
  ∃ c n, run = List.replicate n c ∧ FillsGroups c n

theorem matches_dateGroup : dateGroup.Matches s ↔ ∃ c n, s = List.replicate n c ∧
    (c ∈ longDateLetters ∧ 2 ≤ n ∧ n ≤ 4 ∨ c ∈ pairDateLetters ∧ n = 2) := by
  have hlong : (Pattern.anyOf (["y", "Y", "M"].map fun w => .repeated 2 2 (.literal w))).Matches s ↔
      ∃ c ∈ longDateLetters, ∃ n, 2 ≤ n ∧ n ≤ 4 ∧ s = List.replicate n c :=
    Pattern.matches_anyOf_repeated rfl
  have hpair : (Pattern.anyOf (["D", "d", "H", "h", "m", "s"].map fun w =>
      .repeated 2 0 (.literal w))).Matches s ↔
        ∃ c ∈ pairDateLetters, ∃ n, 2 ≤ n ∧ n ≤ 2 ∧ s = List.replicate n c :=
    Pattern.matches_anyOf_repeated rfl
  rw [dateGroup, Pattern.matches_anyOf_append, hlong, hpair]
  constructor
  · rintro (⟨c, hc, n, hlo, hhi, hs⟩ | ⟨c, hc, n, hlo, hhi, hs⟩)
    · exact ⟨c, n, hs, .inl ⟨hc, hlo, hhi⟩⟩
    · exact ⟨c, n, hs, .inr ⟨hc, Nat.le_antisymm hhi hlo⟩⟩
  · rintro ⟨c, n, hs, ⟨hc, hlo, hhi⟩ | ⟨hc, rfl⟩⟩
    · exact .inl ⟨c, hc, n, hlo, hhi, hs⟩
    · exact .inr ⟨c, hc, 2, le_rfl, le_rfl, hs⟩

/-! ### Rows of groups -/

theorem FillsGroups.add {m : Nat} (hm : FillsGroups c m) (hn : FillsGroups c n) :
    FillsGroups c (m + n) := by
  rcases hm with ⟨hc, hm⟩ | ⟨hc, a, rfl⟩
  · exact .inl ⟨hc, by omega⟩
  · rcases hn with ⟨hc, hn⟩ | ⟨-, b, rfl⟩
    · exact .inl ⟨hc, by omega⟩
    · exact .inr ⟨hc, a + b, by omega⟩

theorem FillsGroups.of_isDateRun (h : IsDateRun (List.replicate (n + 1) c)) :
    FillsGroups c (n + 1) := by
  obtain ⟨d, m, heq, hfills⟩ := h
  obtain ⟨rfl, hd⟩ := List.replicate_inj.1 heq
  obtain rfl := hd.resolve_left (Nat.succ_ne_zero n)
  exact hfills

/-- What fills groups is a row of them. -/
theorem FillsGroups.matches (h : FillsGroups c n) :
    (Pattern.star dateGroup).Matches (List.replicate n c) := by
  have hgroup : ∀ m, (c ∈ longDateLetters ∧ 2 ≤ m ∧ m ≤ 4 ∨ c ∈ pairDateLetters ∧ m = 2) →
      (Pattern.star dateGroup).Matches (List.replicate m c) := by
    intro m hm
    exact Pattern.matches_star_of_matches (matches_dateGroup.2 ⟨c, m, rfl, hm⟩)
  rcases h with ⟨hc, hn⟩ | ⟨hc, k, rfl⟩
  · -- Two letters are cut off as long as more than a group is left.
    induction n using Nat.strong_induction_on with
    | _ n ih =>
      by_cases hsmall : n ≤ 4
      · exact hgroup n (.inl ⟨hc, hn, hsmall⟩)
      · obtain ⟨m, rfl⟩ : ∃ m, n = 2 + m := ⟨n - 2, by omega⟩
        rw [List.replicate_add]
        refine Pattern.matches_star_append (hgroup 2 (.inl ⟨hc, le_rfl, by omega⟩)) ?_
        exact ih m (by omega) (by omega)
  · induction k with
    | zero => exact ⟨[], rfl, by simp⟩
    | succ k ih =>
      have hsum : k + 1 + (k + 1) = 2 + (k + k) := by omega
      rw [hsum, List.replicate_add]
      exact Pattern.matches_star_append (hgroup 2 (.inr ⟨hc, rfl⟩)) ih

/-- A group more before a text: its letters join the first run, or are a run of their own. -/
theorem forall_isDateRun_append (hfills : FillsGroups c n) (hn : n ≠ 0)
    (h : ∀ run ∈ equalRuns s, IsDateRun run) :
    ∀ run ∈ equalRuns (List.replicate n c ++ s), IsDateRun run := by
  by_cases hs : s.head? = some c
  · obtain ⟨s, rfl⟩ := List.head?_eq_some_iff.1 hs
    obtain ⟨k, rest, hrest, hhead⟩ := exists_run c s
    rw [hrest, equalRuns_replicate_append (Nat.succ_ne_zero k) hhead] at h
    obtain ⟨hrun, hruns⟩ := List.forall_mem_cons.1 h
    rw [hrest, ← List.append_assoc, ← List.replicate_add,
      equalRuns_replicate_append (by omega) hhead]
    have hboth : FillsGroups c (n + (k + 1)) := hfills.add (.of_isDateRun hrun)
    exact List.forall_mem_cons.2 ⟨⟨c, _, rfl, hboth⟩, hruns⟩
  · rw [equalRuns_replicate_append hn hs]
    exact List.forall_mem_cons.2 ⟨⟨c, n, rfl, hfills⟩, h⟩

/-- **A text is a row of groups just if each of its runs is.** -/
theorem matches_star_dateGroup_iff :
    (Pattern.star dateGroup).Matches s ↔ ∀ run ∈ equalRuns s, IsDateRun run := by
  constructor
  · rintro ⟨us, rfl, hus⟩
    -- From the last group to the first, each of them joins or precedes the runs behind it.
    induction us with
    | nil => simp [equalRuns]
    | cons u us ih =>
      obtain ⟨hu, hrest⟩ := List.forall_mem_cons.1 hus
      obtain ⟨c, n, rfl, hgroup⟩ := matches_dateGroup.1 hu
      have hn : n ≠ 0 := by rcases hgroup with ⟨-, hn, -⟩ | ⟨-, hn⟩ <;> omega
      have hfills : FillsGroups c n := by
        rcases hgroup with ⟨hc, hn, -⟩ | ⟨hc, rfl⟩
        · exact .inl ⟨hc, hn⟩
        · exact .inr ⟨hc, 1, rfl⟩
      rw [List.flatten_cons]
      exact forall_isDateRun_append hfills hn (ih hrest)
  · intro h
    have hruns : ∀ run ∈ equalRuns s, (Pattern.star dateGroup).Matches run := by
      intro run hrun
      obtain ⟨c, n, rfl, hfills⟩ := h run hrun
      exact hfills.matches
    have hflatten : (equalRuns s).flatten = s := List.flatten_splitBy _ s
    rw [← hflatten]
    exact Pattern.matches_star_flatten hruns

/-! ### Date formats -/

/-- A group can be found in a text where two equal letters of groups stand next to each other. -/
theorem matches_within_dateGroup_iff : (Pattern.within dateGroup).Matches s ↔
    ∃ c ∈ longDateLetters ++ pairDateLetters, [c, c] <:+: s := by
  rw [Pattern.matches_within]
  constructor
  · rintro ⟨_, hinfix, hgroup⟩
    obtain ⟨c, n, rfl, hletter⟩ := matches_dateGroup.1 hgroup
    have hn : 2 ≤ n := by rcases hletter with ⟨-, hn, -⟩ | ⟨-, hn⟩ <;> omega
    have hpair : [c, c] <+: List.replicate n c := by
      obtain ⟨m, rfl⟩ : ∃ m, n = 2 + m := ⟨n - 2, by omega⟩
      rw [List.replicate_add]
      exact List.prefix_append _ _
    refine ⟨c, ?_, hpair.isInfix.trans hinfix⟩
    rcases hletter with ⟨hc, -⟩ | ⟨hc, -⟩
    · exact List.mem_append_left _ hc
    · exact List.mem_append_right _ hc
  · rintro ⟨c, hc, hinfix⟩
    refine ⟨[c, c], hinfix, matches_dateGroup.2 ⟨c, 2, rfl, ?_⟩⟩
    rcases List.mem_append.1 hc with hc | hc
    · exact .inl ⟨hc, le_rfl, by omega⟩
    · exact .inr ⟨hc, rfl⟩

/-- **Which candidates are date formats**: those whose text is the name of a style, and those that
have characters of date formats only, two equal letters of groups next to each other and, if nothing
separates their parts, no run that cannot be cut into groups. -/
theorem isDateFormat_iff_runs (c : Candidate) : c.isDateFormat = true ↔
    String.ofList (trim c.staticText) ∈ dateStyles ∨
      (∀ x ∈ trim c.staticText, x ∈ dateChars) ∧
      (∃ x ∈ longDateLetters ++ pairDateLetters, [x, x] <:+: trim c.staticText) ∧
      ((∃ x ∈ trim c.staticText, x ∈ dateSeparators) ∨
        ∀ run ∈ equalRuns (trim c.staticText), IsDateRun run) := by
  unfold Candidate.isDateFormat
  generalize trim c.staticText = text
  have hchars : text.all dateChars.contains = true ↔ ∀ x ∈ text, x ∈ dateChars := by
    simp [List.all_eq_true]
  have hseparated : text.any dateSeparators.contains = true ↔ ∃ x ∈ text, x ∈ dateSeparators := by
    simp [List.any_eq_true]
  have hnil : ¬dateGroup.Matches [] := by
    rw [matches_dateGroup]
    rintro ⟨c, n, heq, hletter⟩
    have hn : n = 0 := by simpa using (congrArg List.length heq).symm
    rcases hletter with ⟨-, hlo, -⟩ | ⟨-, hn'⟩ <;> omega
  -- A text with two equal letters is not empty, so one group at least is no condition more.
  have hrow : (∃ x ∈ longDateLetters ++ pairDateLetters, [x, x] <:+: text) →
      ((Pattern.plus dateGroup).accepts text = true ↔ ∀ run ∈ equalRuns text, IsDateRun run) := by
    rintro ⟨x, -, hinfix⟩
    have hne : text ≠ [] := by
      rintro rfl
      simp at hinfix
    rw [Pattern.accepts_iff, Pattern.matches_plus_iff hnil, and_iff_right hne,
      matches_star_dateGroup_iff]
  rw [Bool.or_eq_true, List.contains_iff_mem, Bool.and_eq_true, Bool.and_eq_true, Bool.or_eq_true,
    hchars, hseparated, Pattern.accepts_iff (.within _), matches_within_dateGroup_iff, and_assoc]
  refine or_congr_right (and_congr_right fun _ => and_congr_right fun hpair => ?_)
  exact or_congr_right (hrow hpair)

end Untranslated
