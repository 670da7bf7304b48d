import Untranslated.Proofs.ChangedLines
import Untranslated.Proofs.Lines

/-!
# What a diff is read as

Reading a diff passes its lines with a cursor, and each line leaves at most one mark: a file is
known to be changed, or a line of it was added. What was marked before has no influence on the
cursor, so the marks of a diff are a list that depends on its lines alone.

* `foldl_passLine`: reading is passing the cursor and recording its marks.
* `canonical_changedLines`, `has_changedLines`, `holds_changedLines`: the changed lines of a diff
  are its marks.
* `changedLines_append`: **what comes before the first line of a file's section does not reach
  into that section**, and the other way round.
-/

namespace Untranslated

open Untranslated.Path (IsNormal isNormal_normalize)
open Text (lines)

/-- What a line of a diff says of a file: that it is changed, or which line of it was added. -/
abbrev DiffMark : Type :=
  List Char × Option Nat

namespace ChangedLines

/-- The map after a mark. -/
def record (m : ChangedLines) : DiffMark → ChangedLines
  | (path, none) => m.touch path
  | (path, some n) => m.add path n

theorem canonical_record {m : ChangedLines} (hm : Canonical m.files) {x : DiffMark}
    (hx : IsNormal x.1) : Canonical (m.record x).files := by
  obtain ⟨path, n⟩ := x
  cases n with
  | none => exact hm.updateIn hx fun _ h => h
  | some n => exact hm.updateIn hx fun _ h => pairwise_insertLine h

theorem has_record {m : ChangedLines} (hm : Canonical m.files) {x : DiffMark} (hx : IsNormal x.1)
    (q : List Char) : (m.record x).Has q ↔ q = x.1 ∨ m.Has q := by
  obtain ⟨path, n⟩ := x
  cases n with
  | none => exact has_updateIn hx hm.normal q
  | some n => exact has_updateIn hx hm.normal q

theorem holds_record {m : ChangedLines} (hm : Canonical m.files) {x : DiffMark}
    (hx : IsNormal x.1) (q : List Char) (n : Nat) :
    (m.record x).Holds q n ↔ x = (q, some n) ∨ m.Holds q n := by
  obtain ⟨path, k⟩ := x
  cases k with
  | none =>
    have h := holds_updateIn (f := id) hx hm.normal (P := fun _ => False) (by simp) q n
    simp only [and_false, false_or] at h
    simp only [Prod.mk.injEq, reduceCtorEq, and_false, false_or]
    exact h
  | some k =>
    have h := holds_updateIn (f := insertLine k) hx hm.normal (fun _ _ => mem_insertLine) q n
    rw [Prod.mk.injEq, Option.some.injEq, eq_comm, @eq_comm _ k]
    exact h

variable {marks : List DiffMark} (hmarks : ∀ x ∈ marks, IsNormal x.1) {m : ChangedLines}
  (hm : Canonical m.files)

include hmarks hm

theorem canonical_foldl_record : Canonical (marks.foldl record m).files := by
  induction marks generalizing m with
  | nil => exact hm
  | cons x marks ih =>
    exact ih (fun y hy => hmarks y (List.mem_cons_of_mem _ hy))
      (canonical_record hm (hmarks x (by simp)))

theorem has_foldl_record (q : List Char) :
    (marks.foldl record m).Has q ↔ (∃ n, (q, n) ∈ marks) ∨ m.Has q := by
  induction marks generalizing m with
  | nil => simp
  | cons x marks ih =>
    have hx := hmarks x (by simp)
    rw [List.foldl_cons, ih (fun y hy => hmarks y (List.mem_cons_of_mem _ hy))
      (canonical_record hm hx), has_record hm hx]
    constructor
    · rintro (⟨n, hn⟩ | rfl | h)
      · exact .inl ⟨n, List.mem_cons_of_mem _ hn⟩
      · exact .inl ⟨x.2, by simp⟩
      · exact .inr h
    · rintro (⟨n, hn⟩ | h)
      · rcases List.mem_cons.1 hn with rfl | hn
        · exact .inr (.inl rfl)
        · exact .inl ⟨n, hn⟩
      · exact .inr (.inr h)

theorem holds_foldl_record (q : List Char) (n : Nat) :
    (marks.foldl record m).Holds q n ↔ (q, some n) ∈ marks ∨ m.Holds q n := by
  induction marks generalizing m with
  | nil => simp
  | cons x marks ih =>
    have hx := hmarks x (by simp)
    rw [List.foldl_cons, ih (fun y hy => hmarks y (List.mem_cons_of_mem _ hy))
      (canonical_record hm hx), holds_record hm hx, List.mem_cons, or_left_comm, or_assoc,
      @eq_comm _ x]

end ChangedLines

/-! ### Heads of lines -/

theorem after?_eq_some_iff {head : String} {s rest : List Char} :
    after? head s = some rest ↔ s = head.toList ++ rest := by
  unfold after?
  split_ifs with h
  · rw [List.isPrefixOf_iff_prefix] at h
    obtain ⟨t, rfl⟩ := h
    simp [eq_comm]
  · rw [List.isPrefixOf_iff_prefix] at h
    simp only [false_iff]
    rintro rfl
    exact h (List.prefix_append _ _)

theorem after?_append (head : String) (rest : List Char) :
    after? head (head.toList ++ rest) = some rest :=
  after?_eq_some_iff.2 rfl

theorem after?_eq_none_iff {head : String} {s : List Char} :
    after? head s = none ↔ ¬ head.toList <+: s := by
  unfold after?
  rw [← List.isPrefixOf_iff_prefix]
  split_ifs with h <;> simp [h]

/-- The header of a hunk begins with two marks. -/
theorem prefix_of_hunkHeader? {line : List Char} {header : HunkHeader}
    (h : hunkHeader? line = some header) : "@@".toList <+: line := by
  unfold hunkHeader? at h
  cases hline : after? "@@ -" line with
  | none => simp [hline] at h
  | some rest =>
    rw [after?_eq_some_iff.1 hline]
    exact ⟨" -".toList ++ rest, by simp⟩

/-! ### Passing a line -/

namespace DiffCursor

variable (cwd : List Char) (c : DiffCursor) (line : List Char)

/-- The cursor after a line of the hunk it is in; `none` if the line is not one. -/
def hunkLine? : Option DiffCursor :=
  if c.inHunk then c.passHunkLine line else none

/-- The cursor after a line. -/
def pass : DiffCursor :=
  (c.hunkLine? line).getD (c.leaveHunk.passHeader cwd line)

/-- What a line says of the file at the cursor. -/
def mark? : Option DiffMark :=
  c.file.bind fun file =>
    if (c.hunkLine? line).isSome then
      if line.head? = some '+' then some (file, some c.newLine) else none
    else if (hunkHeader? line).isSome then some (file, none) else none

theorem leaveHunk_of_not_inHunk (h : c.inHunk = false) : c.leaveHunk = c := by
  obtain ⟨file, n, old, new⟩ := c
  simp_all [inHunk, leaveHunk]

/-- One line is read by passing it and recording its mark. -/
theorem passLine_eq (m : ChangedLines) :
    passLine cwd (m, c) line = ((c.mark? line).elim m m.record, c.pass cwd line) := by
  have hleave : (if c.inHunk then c.leaveHunk else c) = c.leaveHunk := by
    split_ifs with h
    · rfl
    · rw [c.leaveHunk_of_not_inHunk (by simpa using h)]
  have hfile : c.leaveHunk.file = c.file := rfl
  have hhunk : (if c.inHunk then c.passHunkLine line else none) = c.hunkLine? line := rfl
  unfold passLine pass mark?
  dsimp only
  rw [hhunk]
  cases hline : c.hunkLine? line with
  | some next =>
    cases hf : c.file with
    | none => simp
    | some file =>
      cases line with
      | nil => simp
      | cons a line =>
        by_cases ha : a = '+'
        · subst ha
          simp [ChangedLines.record]
        · simp [ha]
  | none =>
    simp only [hleave, hfile]
    cases hf : c.file with
    | none => simp
    | some file =>
      cases hh : hunkHeader? line with
      | none => simp
      | some header =>
        have hafter : ∃ rest, after? "@@" line = some rest := by
          obtain ⟨rest, rfl⟩ := prefix_of_hunkHeader? hh
          exact ⟨rest, after?_append _ _⟩
        obtain ⟨rest, hafter⟩ := hafter
        simp [hafter, ChangedLines.record]

/-- The file at a cursor is known by a path that was normalized. -/
def Resolved (c : DiffCursor) : Prop :=
  ∀ file ∈ c.file, ∃ p, Path.normalize cwd p = file

theorem file_of_hunkLine? {c next : DiffCursor} (h : c.hunkLine? line = some next) :
    next.file = c.file := by
  unfold hunkLine? at h
  split_ifs at h
  unfold passHunkLine at h
  split at h
  case h_6 => simp at h
  all_goals
    obtain rfl := Option.some.inj h
    rfl

theorem resolved_passHeader {c : DiffCursor} (h : c.Resolved cwd) :
    (c.passHeader cwd line).Resolved cwd := by
  have hresolved : ∀ target : Option (List Char),
      ∀ file ∈ target.map (Path.normalize cwd), ∃ p, Path.normalize cwd p = file := by
    intro target file hfile
    obtain ⟨p, -, rfl⟩ := Option.map_eq_some_iff.1 hfile
    exact ⟨p, rfl⟩
  unfold passHeader
  split
  · exact hresolved _
  · split
    · exact hresolved _
    · split <;> exact h

theorem resolved_pass {c : DiffCursor} (h : c.Resolved cwd) : (c.pass cwd line).Resolved cwd := by
  unfold pass
  cases hline : c.hunkLine? line with
  | some next =>
    intro file hfile
    rw [Option.getD_some, file_of_hunkLine? line hline] at hfile
    exact h file hfile
  | none => exact resolved_passHeader cwd line h

theorem resolved_mark? {c : DiffCursor} (h : c.Resolved cwd) :
    ∀ x ∈ c.mark? line, ∃ p, Path.normalize cwd p = x.1 := by
  intro x hx
  obtain ⟨file, hfile, hx⟩ := Option.bind_eq_some_iff.1 hx
  have hpath : x.1 = file := by
    split_ifs at hx <;> exact (congrArg Prod.fst (Option.some.inj hx)).symm
  rw [hpath]
  exact h file hfile

/-! ### Passing all lines -/

/-- The marks of lines passed from a cursor on. -/
def marks (c : DiffCursor) : List (List Char) → List DiffMark
  | [] => []
  | line :: lines => (c.mark? line).toList ++ (c.pass cwd line).marks lines

theorem marks_append (ls ms : List (List Char)) :
    c.marks cwd (ls ++ ms) = c.marks cwd ls ++ (ls.foldl (pass cwd) c).marks cwd ms := by
  induction ls generalizing c with
  | nil => rfl
  | cons line ls ih =>
    rw [List.cons_append, marks, marks, ih, List.append_assoc]
    rfl

theorem resolved_marks {c : DiffCursor} (h : c.Resolved cwd) (ls : List (List Char)) :
    ∀ x ∈ c.marks cwd ls, ∃ p, Path.normalize cwd p = x.1 := by
  induction ls generalizing c with
  | nil => simp [marks]
  | cons line ls ih =>
    intro x hx
    rcases List.mem_append.1 hx with hx | hx
    · exact resolved_mark? cwd line h x (Option.mem_toList.1 hx)
    · exact ih (resolved_pass cwd line h) x hx

/-- Lines are read by passing them and recording their marks. -/
theorem foldl_passLine (ls : List (List Char)) (m : ChangedLines) :
    ls.foldl (passLine cwd) (m, c) =
      ((c.marks cwd ls).foldl ChangedLines.record m, ls.foldl (pass cwd) c) := by
  induction ls generalizing m c with
  | nil => rfl
  | cons line ls ih =>
    rw [List.foldl_cons, passLine_eq, ih, marks, List.foldl_append]
    cases c.mark? line <;> rfl

end DiffCursor

/-! ### Reading a diff -/

/-- The marks of a diff. -/
def diffMarks (cwd diff : List Char) : List DiffMark :=
  DiffCursor.marks cwd {} (lines diff)

theorem changedLines_eq (cwd diff : List Char) :
    changedLines cwd diff = (diffMarks cwd diff).foldl ChangedLines.record {} := by
  unfold changedLines
  rw [DiffCursor.foldl_passLine]
  rfl

/-- A diff speaks of files by paths that were normalized. -/
theorem resolved_diffMarks (cwd diff : List Char) :
    ∀ x ∈ diffMarks cwd diff, ∃ p, Path.normalize cwd p = x.1 :=
  DiffCursor.resolved_marks cwd (by simp [DiffCursor.Resolved]) _

theorem normal_diffMarks (cwd diff : List Char) : ∀ x ∈ diffMarks cwd diff, IsNormal x.1 := by
  intro x hx
  obtain ⟨p, hp⟩ := resolved_diffMarks cwd diff x hx
  rw [← hp]
  exact isNormal_normalize cwd p

/-- What a diff adds has normal paths, and all is in ascending order. -/
theorem canonical_changedLines (cwd diff : List Char) :
    ChangedLines.Canonical (changedLines cwd diff).files := by
  rw [changedLines_eq]
  exact ChangedLines.canonical_foldl_record (normal_diffMarks cwd diff) ChangedLines.canonical_nil

theorem has_changedLines {cwd diff : List Char} (q : List Char) :
    (changedLines cwd diff).Has q ↔ ∃ n, (q, n) ∈ diffMarks cwd diff := by
  rw [changedLines_eq, ChangedLines.has_foldl_record (normal_diffMarks cwd diff)
    ChangedLines.canonical_nil]
  simp [ChangedLines.not_has_nil]

/-- The paths of a diff are those that were normalized. -/
theorem exists_normalize_of_mem_changedLines {cwd diff : List Char} {f : List Char × List Nat}
    (hf : f ∈ (changedLines cwd diff).files) : ∃ p, Path.normalize cwd p = f.1 := by
  obtain ⟨n, hn⟩ := (has_changedLines f.1).1 ⟨f.2, hf⟩
  exact resolved_diffMarks cwd diff _ hn

theorem holds_changedLines {cwd diff : List Char} (q : List Char) (n : Nat) :
    (changedLines cwd diff).Holds q n ↔ (q, some n) ∈ diffMarks cwd diff := by
  rw [changedLines_eq, ChangedLines.holds_foldl_record (normal_diffMarks cwd diff)
    ChangedLines.canonical_nil]
  simp [ChangedLines.not_holds_nil]

/-! ### Sections -/

/-- The first line of a file's section leaves a hunk, whatever the hunk still has, and nothing of
the cursor before it stays. -/
theorem pass_section (cwd : List Char) (c : DiffCursor) {line : List Char}
    (h : "diff --git ".toList <+: line) :
    c.mark? line = none ∧ c.pass cwd line = DiffCursor.pass cwd {} line := by
  obtain ⟨rest, rfl⟩ := h
  have hhunk : ∀ c : DiffCursor, c.hunkLine? ("diff --git ".toList ++ rest) = none := by
    intro c
    unfold DiffCursor.hunkLine?
    split_ifs <;> rfl
  have hheader : hunkHeader? ("diff --git ".toList ++ rest) = none := rfl
  constructor
  · unfold DiffCursor.mark?
    rw [hhunk, hheader]
    cases c.file <;> rfl
  · unfold DiffCursor.pass
    rw [hhunk, hhunk]
    unfold DiffCursor.passHeader
    rw [after?_append]

/-- The marks of a section do not depend on what came before it. -/
theorem marks_section (cwd : List Char) (c : DiffCursor) {diff : List Char}
    (h : "diff --git ".toList <+: diff) :
    c.marks cwd (lines diff) = diffMarks cwd diff := by
  obtain ⟨line, more, hlines, hline⟩ :=
    Text.exists_lines_of_isPrefix (by simp) (by simp) (by simp) h
  obtain ⟨hmark, hpass⟩ := pass_section cwd c hline
  obtain ⟨hmark', -⟩ := pass_section cwd {} hline
  unfold diffMarks
  rw [hlines, DiffCursor.marks, DiffCursor.marks, hmark, hmark', hpass]

/-- **File sections of a diff are isolated.** Whatever comes before the first line of a section,
with its last line ended, both parts are read as they are alone, and their changed lines are put
together path by path. -/
theorem changedLines_append {cwd d e : List Char} (hd : d = [] ∨ d.getLast? = some '\n')
    (he : "diff --git ".toList <+: e) :
    changedLines cwd (d ++ e) = (changedLines cwd d).union (changedLines cwd e) := by
  have hmarks : diffMarks cwd (d ++ e) = diffMarks cwd d ++ diffMarks cwd e := by
    unfold diffMarks
    rw [Text.lines_append hd, DiffCursor.marks_append, marks_section cwd _ he]
    rfl
  have hd' := canonical_changedLines cwd d
  have he' := canonical_changedLines cwd e
  refine ChangedLines.ext (canonical_changedLines cwd _) (ChangedLines.canonical_union hd' he')
    (fun q => ?_) (fun q n => ?_)
  · rw [ChangedLines.has_union hd' he', has_changedLines, has_changedLines, has_changedLines,
      hmarks, ← exists_or]
    simp only [List.mem_append]
  · rw [ChangedLines.holds_union hd' he', holds_changedLines, holds_changedLines,
      holds_changedLines, hmarks, List.mem_append]

/-- A section after a hunk that was cut off and still waits for eight lines. -/
theorem changedLines_append_unfinished :
    let d := "diff --git a/x b/x\n+++ b/x\n@@ -1,9 +1,9 @@\n+a\n".toList
    let e := "diff --git a/y b/y\n+++ b/y\n@@ -0,0 +1 @@\n+b\n".toList
    d.getLast? = some '\n' ∧ "diff --git ".toList <+: e ∧
      changedLines "/r".toList (d ++ e) =
        (changedLines "/r".toList d).union (changedLines "/r".toList e) ∧
      changedLines "/r".toList (d ++ e) = ⟨[("/r/x".toList, [1]), ("/r/y".toList, [1])]⟩ := by
  intro d e
  have hd : d.getLast? = some '\n' := by decide
  have he : "diff --git ".toList <+: e := by decide
  exact ⟨hd, he, changedLines_append (.inr hd) he, by decide⟩

end Untranslated
