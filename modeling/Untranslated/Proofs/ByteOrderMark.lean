import Untranslated.Proofs.SpacedCandidates

/-!
# Byte order marks

Reading drops a byte order mark at the head of a script, so the tree and its offsets are those of
the script without it. What is erased and what is reported is cut out of the script with the mark,
three bytes early. A mark therefore never changes whether a script is accepted, and leaves alone a
script of which nothing is cut; where something is cut, it is another text
(`classify_mark_helloMarkup`). `classify_mark` says which.

* `strip_mark`: what is erased.
* `Occurrence.CutEarly`: what a literal is taken for.
* `candidates_mark`: a script with a mark has candidates if no range cuts a character.
-/

namespace Untranslated

open Script (Dialect Failure Tree delimiterAt dropMark read regions? strip)
open Text (Region bytes deciding eraseBy remains)

variable {o : Options} {dialect : Dialect} {s : List Char} {t : Tree}

/-! ### Reading -/

/-- **A mark is no part of what is read.** -/
theorem read_mark (dialect : Dialect) (hmark : s.head? ≠ some '\ufeff') :
    read dialect ('\ufeff' :: s) = read dialect s := by
  have hdrop : dropMark ('\ufeff' :: s) = dropMark s := (Script.dropMark_of_head? hmark).symm
  unfold Script.read
  rw [hdrop]

/-! ### Erasing -/

/-- Whether anything is erased is seen from the tree alone. -/
theorem regions?_eq_nil_iff : regions? s t = some [] ↔
    Script.commentRegions 0 t.leaves = [] ∧ t.moduleStatements 0 = [] := by
  unfold Script.regions?
  cases t.moduleStatements 0 with
  | nil => simp
  | cons range ranges =>
    rw [List.mapM_cons]
    cases Script.statementRegion? s range with
    | none => simp
    | some r => cases List.mapM (Script.statementRegion? s) ranges <;> simp

/-- **What stripping leaves of a script with a mark.** What becomes of a character is up to the
region that covers the offset three bytes behind it. The regions are those of the tree, but the
semicolon that may follow a statement is looked for in the text with the mark as well. -/
theorem strip_mark {regions : List Region} (hmark : s.head? ≠ some '\ufeff')
    (h : read dialect s = .ok t) (hregions : regions? ('\ufeff' :: s) t = some regions)
    (hfits : ∀ r ∈ regions, r.Fits ('\ufeff' :: s)) :
    strip dialect ('\ufeff' :: s) = .ok (remains (deciding regions 0) '\ufeff' ++
      eraseBy (fun p => deciding regions (p + 3)) 0 s) := by
  have hearly : eraseBy (deciding regions) 0 ('\ufeff' :: s) =
      remains (deciding regions 0) '\ufeff' ++ eraseBy (fun p => deciding regions (p + 3)) 0 s :=
    congrArg (_ ++ ·) (Text.eraseBy_add fun _ _ => rfl)
  rw [strip, read_mark dialect hmark, h]
  simp only [bind, Except.bind, hregions, Text.erase_eq_of_fits hfits, hearly]

/-! ### Candidates -/

/-- **What a literal of the script `s` is taken for when there is a mark at the head**: the text
from three bytes before its beginning, or from the mark on, to three bytes before its end. A range
that cuts the mark or another character is taken for nothing. -/
inductive Occurrence.CutEarly (s : List Char) (x : Occurrence) : Option Candidate → Prop
  | inside (a outer b : List Char) (split : s = a ++ outer ++ b) (lo : x.lo = 3 + bytes a)
      (hi : x.hi = 3 + bytes (a ++ outer)) :
      CutEarly s x (x.candidateIn (delimiterAt x (outer ++ b)) outer s
        (contextBefore ('\ufeff' :: a).reverse) (contextAfter b))
  | atMark (outer b : List Char) (split : '\ufeff' :: s = outer ++ b) (lo : x.lo = 0)
      (hi : x.hi = bytes outer) :
      CutEarly s x (x.candidateIn (delimiterAt x (outer ++ b)) outer s
        (contextBefore []) (contextAfter b))

/-- A literal is cut out three bytes early, or its range cuts a character. -/
theorem candidate?_mark_iff {x : Occurrence} {c : Option Candidate} (hle : x.lo ≤ x.hi) :
    x.candidate? ('\ufeff' :: s) s = some c ↔ x.CutEarly s c := by
  rw [candidate?_eq_some_iff hle]
  constructor
  · rintro ⟨a, outer, b, hsplit, hlo, hhi, rfl⟩
    -- What is before the literal has the mark at its head, or it is empty and the literal has it.
    cases a with
    | nil => exact .atMark outer b hsplit hlo hhi
    | cons mark a =>
      obtain ⟨rfl, rfl⟩ := List.cons.inj hsplit
      exact .inside a outer b rfl hlo hhi
  · intro h
    cases h with
    | inside a outer b split lo hi =>
      exact ⟨'\ufeff' :: a, outer, b, by rw [split]; rfl, lo, hi, rfl⟩
    | atMark outer b split lo hi => exact ⟨[], outer, b, split, lo, hi, rfl⟩

/-- **The candidates of a script with a mark** are what its literals are taken for, by line. If the
range of one literal cuts a character, it has no list of candidates. -/
theorem candidates_mark {cs : List Candidate} (hmark : s.head? ≠ some '\ufeff')
    (h : read dialect s = .ok t) : candidates o dialect ('\ufeff' :: s) = .ok cs ↔
      ∃ found, List.Forall₂ (Occurrence.CutEarly s) (t.occurrences o .code none 0) found ∧
        cs = (found.filterMap id).mergeSort fun a b => a.line ≤ b.line := by
  have hle : ∀ x ∈ t.occurrences o .code none 0, x.lo ≤ x.hi := by
    intro x hx
    obtain ⟨_, _, _, -, -, hhi⟩ := Tree.cutOut_of_mem_occurrences t x hx
    omega
  have hearly (found : List (Option Candidate)) :
      (t.occurrences o .code none 0).mapM (Occurrence.candidate? ('\ufeff' :: s) s) =
        some found ↔
      List.Forall₂ (Occurrence.CutEarly s) (t.occurrences o .code none 0) found := by
    -- That a range does not end before it begins is known of literals of a tree only.
    rw [Script.mapM_eq_some_iff]
    constructor
    · intro hcut
      exact ((List.forall₂_and_left _ _).2 ⟨hle, hcut⟩).imp
        fun x c hx => (candidate?_mark_iff hx.1).1 hx.2
    · intro hcut
      exact ((List.forall₂_and_left _ _).2 ⟨hle, hcut⟩).imp
        fun x c hx => (candidate?_mark_iff hx.1).2 hx.2
  have hdrop : dropMark ('\ufeff' :: s) = s := rfl
  unfold candidates
  rw [read_mark dialect hmark, h, hdrop]
  simp only [bind, Except.bind, ← hearly]
  cases (t.occurrences o .code none 0).mapM (Occurrence.candidate? ('\ufeff' :: s) s) with
  | none => simp
  | some found => simp [eq_comm]

/-- The text of this fragment begins at the offset 2, which is inside the mark. -/
example : (candidates ⟨[], [], [], []⟩ .markup "\ufeff<>Hello</>".toList).toOption = none := by
  decide +kernel

/-- A script without literals that count has no candidates. -/
theorem candidates_of_occurrences (h : read dialect s = .ok t)
    (hnone : t.occurrences o .code none 0 = []) : candidates o dialect s = .ok [] := by
  rw [candidates, h]
  simp [bind, Except.bind, hnone]

/-! ### Classifying -/

/-- A script of which nothing is erased is classified by its own candidates. -/
theorem classify_of_regions? {cs : List Candidate} {only : Option (List Nat)}
    (h : read dialect s = .ok t) (hregions : regions? s t = some [])
    (hcs : candidates o dialect s = .ok cs) :
    classify o dialect s only = .ok (reported o (.ofSource s) only cs) :=
  classify_of_candidates (Script.strip_of_regions? h hregions) hcs

/-- **What a mark does to a script.** It is accepted or not as it is without the mark. If nothing
is erased it stays, and what is reported is told by its candidates; if no literal counts, nothing
is reported. All that is erased and all that becomes a candidate is cut out three bytes early. -/
theorem classify_mark (o : Options) (dialect : Dialect) {s : List Char} (only : Option (List Nat))
    (hmark : s.head? ≠ some '\ufeff') :
    read dialect ('\ufeff' :: s) = read dialect s ∧
      (∀ e, read dialect s = .error e →
        classify o dialect ('\ufeff' :: s) only = classify o dialect s only) ∧
      (∀ t, read dialect s = .ok t → regions? s t = some [] →
        strip dialect ('\ufeff' :: s) = (strip dialect s).map ('\ufeff' :: ·) ∧
        (t.occurrences o .code none 0 = [] →
          classify o dialect ('\ufeff' :: s) only = .ok [] ∧
            classify o dialect s only = .ok []) ∧
        ∀ cs, candidates o dialect ('\ufeff' :: s) = .ok cs →
          classify o dialect ('\ufeff' :: s) only =
            .ok (reported o (.ofSource ('\ufeff' :: s)) only cs)) ∧
      ∀ t, read dialect s = .ok t →
        (∀ regions, regions? ('\ufeff' :: s) t = some regions →
          (∀ r ∈ regions, r.Fits ('\ufeff' :: s)) →
          strip dialect ('\ufeff' :: s) = .ok (remains (deciding regions 0) '\ufeff' ++
            eraseBy (fun p => deciding regions (p + 3)) 0 s)) ∧
        ∀ cs, candidates o dialect ('\ufeff' :: s) = .ok cs ↔
          ∃ found, List.Forall₂ (Occurrence.CutEarly s) (t.occurrences o .code none 0) found ∧
            cs = (found.filterMap id).mergeSort fun a b => a.line ≤ b.line := by
  have hread := read_mark dialect hmark
  refine ⟨hread, fun e h => ?_, fun t h hregions => ?_, fun t h => ?_⟩
  · rw [classify_error h, classify_error (hread.trans h)]
  · have hregions' : regions? ('\ufeff' :: s) t = some [] :=
      regions?_eq_nil_iff.2 (regions?_eq_nil_iff.1 hregions)
    have h' := hread.trans h
    refine ⟨?_, fun hnone => ⟨?_, ?_⟩, fun cs hcs => classify_of_regions? h' hregions' hcs⟩
    · rw [Script.strip_of_regions? h hregions, Script.strip_of_regions? h' hregions']
      rfl
    · rw [classify_of_regions? h' hregions' (candidates_of_occurrences h' hnone)]
      simp [reported]
    · rw [classify_of_regions? h hregions (candidates_of_occurrences h hnone)]
      simp [reported]
  · exact ⟨fun regions hregions hfits => strip_mark hmark h hregions hfits,
      fun cs => candidates_mark hmark h⟩

/-- Markup with a text. -/
def helloMarkup : List Char :=
  "<p>Hello</p>".toList

/-- With a mark another text is cut out. -/
theorem classify_mark_helloMarkup :
    (classify ⟨[], [], [], []⟩ .typedMarkup helloMarkup none).toOption =
        some [⟨1, "Hello".toList⟩] ∧
      (classify ⟨[], [], [], []⟩ .typedMarkup ('\ufeff' :: helloMarkup) none).toOption =
        some [⟨1, "<p>He".toList⟩] := by
  constructor <;> decide +kernel

/-- A script that gives nothing to report. -/
def plainScript : List Char :=
  "f(1);\n".toList

/-- With a mark it gives nothing either. -/
theorem classify_mark_plainScript : plainScript.head? ≠ some '\ufeff' ∧
    ∃ t, read .typedMarkup plainScript = .ok t ∧ regions? plainScript t = some [] ∧
      t.occurrences ⟨[], [], [], []⟩ .code none 0 = [] ∧
      classify ⟨[], [], [], []⟩ .typedMarkup ('\ufeff' :: plainScript) none = .ok [] := by
  have hmark : plainScript.head? ≠ some '\ufeff' := by decide +kernel
  have hnone : ((read .typedMarkup plainScript).toOption.map fun t =>
      (regions? plainScript t == some [], t.occurrences ⟨[], [], [], []⟩ .code none 0)) =
      some (true, []) := by decide +kernel
  cases h : read .typedMarkup plainScript with
  | error => rw [h] at hnone; cases hnone
  | ok t =>
    rw [h] at hnone
    obtain ⟨hregions, hnone⟩ := Prod.mk.inj (Option.some.inj hnone)
    have hspec := (classify_mark ⟨[], [], [], []⟩ .typedMarkup none hmark).2.2.1 t h
      (eq_of_beq hregions)
    exact ⟨hmark, t, rfl, eq_of_beq hregions, hnone, (hspec.2.1 hnone).1⟩

end Untranslated
