import Mathlib.Data.List.TakeWhile
import Untranslated.Proofs.LinePlaces
import Untranslated.Proofs.RecordedLiterals
import Untranslated.Proofs.Verdicts

/-!
# Letting one line through

A comment that lets its line through can be put at the end of any line. It says nothing about the
directives that the line has already, whatever the line ends in (`directives_append`), so the lines
let through are those from before and this one (`Ignores.LetsThroughToo`), and what is reported is
what was reported of the other lines.

* `ignoreLineMark`: such a comment, with the space before it.
* `letsLineThrough_of_line`: what it does to a script.
-/

namespace Untranslated

open Script (Dialect strip)
open Text (Line lines isBlank)

/-! ### The directives of a line -/

/-- The name at the head of a text, behind blanks. -/
def nameBehind? (s : List Char) : Option (List Char) :=
  let rest := s.dropWhile isBlank
  if directiveMark.isPrefixOf rest then
    let tail := (rest.drop directiveMark.length).takeWhile fun c =>
      ('a' ≤ c && c ≤ 'z') || c == '-'
    if tail.isEmpty then none else some (directiveMark ++ tail)
  else none

theorem directiveNameAt?_eq (s : List Char) :
    directiveNameAt? s = (afterCommentMark? s).bind nameBehind? := rfl

/-- A text begins as before if something is put behind it that the beginning does not have. -/
theorem isPrefixOf_append_cons {p : List Char} {c : Char} (hc : c ∉ p) (s t : List Char) :
    p.isPrefixOf (s ++ c :: t) = p.isPrefixOf s := by
  induction p generalizing s with
  | nil => simp
  | cons d p ih =>
    obtain ⟨hd, hp⟩ := not_or.1 (mt List.mem_cons.2 hc)
    cases s with
    | nil => simp [List.isPrefixOf, Ne.symm hd]
    | cons e s => rw [List.cons_append, List.isPrefixOf, List.isPrefixOf, ih hp]

/-- A run of characters ends before one that is not of its kind. -/
theorem takeWhile_append_cons {p : Char → Bool} {c : Char} (hc : p c = false) (s t : List Char) :
    (s ++ c :: t).takeWhile p = s.takeWhile p := by
  rw [List.takeWhile_append]
  split_ifs with hall
  · rw [List.takeWhile_cons_of_neg (by simp [hc]), List.append_nil]
    exact ((List.takeWhile_prefix p).eq_of_length hall).symm
  · rfl

/-- **A name ends at a space**, and a slash after it begins none. -/
theorem nameBehind?_append (s t : List Char) :
    nameBehind? (s ++ ' ' :: '/' :: t) = nameBehind? s := by
  have hslash : (' ' :: '/' :: t).dropWhile isBlank = '/' :: t := rfl
  unfold nameBehind?
  rw [List.dropWhile_append, hslash]
  generalize s.dropWhile isBlank = rest
  cases rest with
  | nil => rfl
  | cons c rest =>
    have hprefix := isPrefixOf_append_cons (p := directiveMark) (c := ' ') (by decide) (c :: rest)
      ('/' :: t)
    by_cases hmark : directiveMark.isPrefixOf (c :: rest) = true
    · have hlength := (List.isPrefixOf_iff_prefix.1 hmark).length_le
      have htail := takeWhile_append_cons
        (p := fun c => ('a' ≤ c && c ≤ 'z') || c == '-') (c := ' ') (by decide)
        ((c :: rest).drop directiveMark.length) ('/' :: t)
      rw [← List.drop_append_of_le_length hlength] at htail
      simp only [List.isEmpty_cons, Bool.false_eq_true, if_false, hprefix, htail]
    · simp only [List.isEmpty_cons, Bool.false_eq_true, if_false, hprefix, hmark]

/-- Nothing that comes after a space and a slash changes what a text says at its head. -/
theorem directiveNameAt?_append {s : List Char} (hs : s ≠ []) (t : List Char) :
    directiveNameAt? (s ++ ' ' :: '/' :: t) = directiveNameAt? s := by
  have hmark : afterCommentMark? (s ++ ' ' :: '/' :: t) =
      (afterCommentMark? s).map (· ++ ' ' :: '/' :: t) := by
    obtain ⟨c, s, rfl⟩ := List.exists_cons_of_ne_nil hs
    rcases s with _ | ⟨d, s⟩
    · unfold afterCommentMark?
      split <;> simp_all
    · unfold afterCommentMark?
      split <;> simp_all
  rw [directiveNameAt?_eq, directiveNameAt?_eq, hmark, Option.bind_map]
  exact congrArg _ (funext fun rest => nameBehind?_append rest t)

/-- **The directives before a space and a slash are those that would be there without it.** -/
theorem directives_append (s t : List Char) :
    directives (s ++ ' ' :: '/' :: t) = directives s ++ directives (' ' :: '/' :: t) := by
  induction s with
  | nil => rfl
  | cons c s ih =>
    have hhead := directiveNameAt?_append (List.cons_ne_nil c s) t
    rw [List.cons_append] at hhead
    rw [List.cons_append, directives, directives, hhead, ih, List.append_assoc]

/-- A comment that lets its line through, with a space before it. -/
def ignoreLineMark : List Char :=
  " // intl-lint-ignore-line".toList

theorem directives_ignoreLineMark (s : List Char) :
    directives (s ++ ignoreLineMark) = directives s ++ [.ignoreLine] := by
  have hmark : directives ignoreLineMark = [.ignoreLine] := by decide +kernel
  rw [← hmark]
  exact directives_append s _

/-! ### Lines that are let through -/

namespace Ignores

/-- The same lines are let through, and one more: the ranges are the same, the open one too. -/
structure LetsThroughToo (n : Nat) (i j : Ignores) : Prop where
  ranges_eq : j.ranges = i.ranges
  openFrom_eq : j.openFrom = i.openFrom
  mem_lines : ∀ m, m ∈ j.lines ↔ m ∈ i.lines ∨ m = n

section Runs

variable {n : Nat} {i j : Ignores}

theorem LetsThroughToo.contains_eq (h : LetsThroughToo n i j) (m : Nat) :
    j.contains m = (i.contains m || m == n) := by
  rw [Bool.eq_iff_iff]
  simp only [contains, h.ranges_eq, h.openFrom_eq, Bool.or_eq_true, List.contains_iff_mem,
    h.mem_lines, beq_iff_eq]
  tauto

/-- A directive that lets its line through does nothing else. -/
theorem letsThroughToo_apply (n : Nat) (i : Ignores) :
    LetsThroughToo n i (apply n i .ignoreLine) :=
  ⟨rfl, rfl, fun m => by simp [apply]⟩

/-- A step keeps what two states have to do with each other. -/
theorem LetsThroughToo.apply (h : LetsThroughToo n i j) (line : Nat) (d : Directive) :
    LetsThroughToo n (apply line i d) (Ignores.apply line j d) := by
  obtain ⟨hranges, hopen, hlines⟩ := h
  cases d with
  | ignoreLine =>
    refine ⟨hranges, hopen, fun m => ?_⟩
    simp only [Ignores.apply, List.mem_append, hlines]
    tauto
  | ignoreNextLine =>
    refine ⟨hranges, hopen, fun m => ?_⟩
    simp only [Ignores.apply, List.mem_append, hlines]
    tauto
  | disable => exact ⟨hranges, by simp only [Ignores.apply, hopen], hlines⟩
  | enable =>
    simp only [Ignores.apply, hopen, hranges]
    cases i.openFrom with
    | none => exact ⟨hranges, hopen, hlines⟩
    | some start => exact ⟨rfl, rfl, hlines⟩

theorem LetsThroughToo.foldl_apply (h : LetsThroughToo n i j) (line : Nat) (ds : List Directive) :
    LetsThroughToo n (ds.foldl (Ignores.apply line) i) (ds.foldl (Ignores.apply line) j) := by
  induction ds generalizing i j with
  | nil => exact h
  | cons d ds ih => exact ih (h.apply line d)

/-- **A run keeps what two states have to do with each other.** -/
theorem LetsThroughToo.applyLines (h : LetsThroughToo n i j) (number : Nat)
    (ls : List (List Char)) :
    LetsThroughToo n (Ignores.applyLines number i ls) (Ignores.applyLines number j ls) := by
  induction ls generalizing number i j with
  | nil => exact h
  | cons l ls ih => exact ih (h.foldl_apply number (directives l)) (number + 1)

theorem applyLines_append (number : Nat) (i : Ignores) (ls ms : List (List Char)) :
    applyLines number i (ls ++ ms) =
      applyLines (number + ls.length) (applyLines number i ls) ms := by
  induction ls generalizing number i with
  | nil => rfl
  | cons l ls ih =>
    rw [List.cons_append, applyLines, ih, applyLines, List.length_cons, Nat.add_right_comm,
      Nat.add_assoc]

end Runs

/-- **A mark at the end of a line lets that line through too, and does nothing else.** -/
theorem letsThroughToo_marked {s : List Char} {n : Nat} (l : Line s n) :
    LetsThroughToo n (ofSource s) (ofSource (l.extended ignoreLineMark)) := by
  obtain ⟨earlier, later, hlength, hlines, hextended⟩ := l.exists_lines
  have hmarked :=
    hextended ignoreLineMark (by decide +kernel) (by decide +kernel) (by decide +kernel)
  have hn : 1 + earlier.length = n := by omega
  rw [ofSource, ofSource, hlines, hmarked, applyLines_append, applyLines_append, hn, applyLines,
    applyLines, directives_ignoreLineMark, List.foldl_append]
  exact (letsThroughToo_apply n _).applyLines (n + 1) later

end Ignores

/-! ### What is reported -/

/-- The literals of a tree that are candidates are those of the script if they come by line. -/
theorem candidates_of_pairwise {o : Options} {dialect : Dialect} {s : List Char}
    {cs : List Candidate} (hmark : s.head? ≠ some '\ufeff')
    (hread : (Script.read dialect s).toOption.map (fun t =>
      (t.occurrences o .code none 0).filterMap (Script.candidateOf? t)) = some cs)
    (hcs : cs.Pairwise fun a b => a.line ≤ b.line) : candidates o dialect s = .ok cs := by
  obtain ⟨t, ht, rfl⟩ := Option.map_eq_some_iff.1 hread
  exact Script.candidates_of_lines _ _ hmark (eq_ok_of_toOption ht) rfl (List.pairwise_map.2 hcs)

section Reported

variable {o : Options} {n : Nat} {i j : Ignores}

open Ignores (LetsThroughToo)

/-- With one more line let through no rule matches a candidate if none did before and it is on
another line. -/
theorem Ignores.LetsThroughToo.isNone_first? (h : LetsThroughToo n i j) (c : Candidate) :
    (Rule.first? j c).isNone = ((Rule.first? i c).isNone && c.line != n) := by
  have hignores := h.contains_eq c.line
  have hothers : ∀ r : Rule, r ≠ .ignoreDirective → r.matches? j c = r.matches? i c := by
    intro r hr
    cases r <;> first | rfl | exact absurd rfl hr
  rw [Bool.eq_iff_iff, Bool.and_eq_true, Option.isNone_iff_eq_none, Option.isNone_iff_eq_none,
    Rule.first?_eq_none_iff, Rule.first?_eq_none_iff]
  constructor
  · intro hnone
    have hline : (i.contains c.line || c.line == n) = false :=
      hignores.symm.trans (hnone .ignoreDirective)
    obtain ⟨hbefore, hother⟩ := Bool.or_eq_false_iff.1 hline
    refine ⟨fun r => ?_, by simpa using hother⟩
    by_cases hr : r = .ignoreDirective
    · rw [hr]
      exact hbefore
    · rw [← hothers r hr, hnone r]
  · rintro ⟨hnone, hother⟩ r
    by_cases hr : r = .ignoreDirective
    · have hbefore : i.contains c.line = false := hnone .ignoreDirective
      rw [hr]
      exact hignores.trans (by simpa [hbefore] using hother)
    · rw [hothers r hr, hnone r]

theorem Ignores.LetsThroughToo.isViolation_eq (h : LetsThroughToo n i j) (c : Candidate) :
    (c.verdict o j).isViolation o = ((c.verdict o i).isViolation o && c.line != n) := by
  simp only [Candidate.verdict, Verdict.isViolation, h.isNone_first? c]
  ac_rfl

/-- **What is reported with one more line let through** is what was reported of the other lines,
in the same order. -/
theorem Ignores.LetsThroughToo.reported_eq (h : LetsThroughToo n i j) (only : Option (List Nat))
    {cs : List Candidate} (hcs : cs.Pairwise fun a b => a.line ≤ b.line) :
    reported o j only cs = (reported o i only cs).filter (·.line != n) := by
  rw [reported_of_pairwise hcs, reported_of_pairwise hcs, List.filter_map, List.filter_filter]
  congr 1
  apply List.filter_congr
  intro c _
  rw [h.isViolation_eq]
  dsimp only [Function.comp]
  ac_rfl

end Reported

/-- What a mark at the end of a line does to a script: the line is let through, and that is all. -/
structure LetsLineThrough {s : List Char} {n : Nat} (l : Line s n) : Prop where
  /-- The directives of the line stay as they are, and one comes after them. -/
  directives_eq : directives (l.content ++ ignoreLineMark) = directives l.content ++ [.ignoreLine]
  /-- No range opens, closes or moves. -/
  ranges_eq : (Ignores.ofSource (l.extended ignoreLineMark)).ranges = (Ignores.ofSource s).ranges
  openFrom_eq : (Ignores.ofSource (l.extended ignoreLineMark)).openFrom =
    (Ignores.ofSource s).openFrom
  contains_eq : ∀ m, (Ignores.ofSource (l.extended ignoreLineMark)).contains m =
    ((Ignores.ofSource s).contains m || m == n)
  /-- If stripping leaves the same candidates, what is reported of the other lines stays. -/
  classify_eq : ∀ (o : Options) (dialect : Dialect) (only : Option (List Nat)) (out out' cs),
    strip dialect s = .ok out → strip dialect (l.extended ignoreLineMark) = .ok out' →
    candidates o dialect out = .ok cs → candidates o dialect out' = .ok cs →
    ∃ found, classify o dialect s only = .ok found ∧
      classify o dialect (l.extended ignoreLineMark) only = .ok (found.filter (·.line != n))

/-- **A mark lets through the line at whose end it is put, and nothing else**, for every line of
every text. -/
theorem letsLineThrough_of_line (s : List Char) :
    (∀ k line, (lines s)[k]? = some line ↔ ∃ l : Line s (k + 1), l.content = line) ∧
      ∀ n (l : Line s n), LetsLineThrough l := by
  refine ⟨fun k line => Text.getElem?_lines_iff, fun n l => ?_⟩
  have hmarked := Ignores.letsThroughToo_marked l
  refine ⟨directives_ignoreLineMark l.content, hmarked.ranges_eq, hmarked.openFrom_eq,
    hmarked.contains_eq, ?_⟩
  intro o dialect only out out' cs hout hout' hcs hcs'
  refine ⟨_, classify_of_candidates hout hcs, ?_⟩
  rw [classify_of_candidates hout' hcs', hmarked.reported_eq only (pairwise_candidates hcs)]

/-- Two calls on lines that end in a carriage return and a newline. -/
def twoCalls : List Char :=
  "f('One');\r\nf('Two');\r\n".toList

/-- The line of the second call. -/
def secondCall : Line twoCalls 2 where
  before := "f('One');\r\n".toList
  content := "f('Two');".toList
  after := "\r\n".toList
  text_eq := by decide +kernel
  begins := by decide +kernel
  number_eq := by decide +kernel
  newline_notMem := by decide +kernel
  ends := .returnNewline []

/-- The arguments of the two calls. -/
def twoArguments : List Candidate :=
  [⟨.call, 1, "One".toList, "One".toList, .quote '\'', none, some "f", none, "f(".toList,
      ");\r\nf('Two');".toList⟩,
    ⟨.call, 2, "Two".toList, "Two".toList, .quote '\'', none, some "f", none,
      "f('One');\r\nf(".toList, ");".toList⟩]

/-- A mark behind the second call leaves what is reported of the first one. -/
theorem letsLineThrough_secondCall :
    let o : Options := ⟨[], ["f"], [], []⟩
    ∃ out out' cs, strip .markup twoCalls = .ok out ∧
      strip .markup (secondCall.extended ignoreLineMark) = .ok out' ∧
      candidates o .markup out = .ok cs ∧ candidates o .markup out' = .ok cs ∧
      classify o .markup twoCalls none = .ok [⟨1, "One".toList⟩, ⟨2, "Two".toList⟩] ∧
      classify o .markup (secondCall.extended ignoreLineMark) none = .ok [⟨1, "One".toList⟩] := by
  intro o
  let out' := "f('One');\r\nf('Two'); \r\n".toList
  have hout : strip .markup twoCalls = .ok twoCalls := eq_ok_of_toOption (by decide +kernel)
  have hout' : strip .markup (secondCall.extended ignoreLineMark) = .ok out' :=
    eq_ok_of_toOption (by decide +kernel)
  have hsorted : twoArguments.Pairwise fun a b => a.line ≤ b.line := by decide +kernel
  have hcs : candidates o .markup twoCalls = .ok twoArguments :=
    candidates_of_pairwise (by decide +kernel) (by decide +kernel) hsorted
  have hcs' : candidates o .markup out' = .ok twoArguments :=
    candidates_of_pairwise (by decide +kernel) (by decide +kernel) hsorted
  have hreported : reported o (.ofSource twoCalls) none twoArguments =
      [⟨1, "One".toList⟩, ⟨2, "Two".toList⟩] := by
    rw [reported_of_pairwise hsorted]
    decide +kernel
  have hclassify : classify o .markup twoCalls none =
      .ok [⟨1, "One".toList⟩, ⟨2, "Two".toList⟩] := by
    rw [classify_of_candidates hout hcs, hreported]
  obtain ⟨found, hfound, hmarked⟩ := ((letsLineThrough_of_line twoCalls).2 2 secondCall).classify_eq
    o .markup none twoCalls out' twoArguments hout hout' hcs hcs'
  obtain rfl := Except.ok.inj (hclassify.symm.trans hfound)
  exact ⟨twoCalls, out', twoArguments, hout, hout', hcs, hcs', hclassify, hmarked⟩

end Untranslated
