import Mathlib.Data.List.Induction
import Untranslated.Proofs.DiffReading

/-!
# Lines of hunks in any text

A text that is read as a diff need not be one: counts may be wrong, hunks cut off, headers missing.
What is recorded of it is told here from its lines alone, without a cursor. A line is added if it
stands behind the header of a hunk, with nothing but lines of hunks between that do not use up both
counts of the header.

* `Awaits`: what stands before a line ends in a hunk that waits for it.
* `IsTarget`: the file that was named last, outside of hunks.
* `foldl_pass_between`: **inside a hunk the cursor counts the lines since the header**.
* `changedLines_anyText`: **nothing outside of a hunk with a header is recorded**, on any text.
-/

namespace Untranslated

open Text (lines)

/-! ### What may stand in a hunk -/

/-- The line may stand in a hunk: it is empty or begins with a sign of such lines. -/
def isHunkLine (line : List Char) : Bool :=
  line.head?.all ['+', '-', ' ', '\\'].contains

/-- How many lines are added ones. -/
def addedIn (ls : List (List Char)) : Nat :=
  ls.countP (·.head? == some '+')

/-- How many lines are removed ones. -/
def removedIn (ls : List (List Char)) : Nat :=
  ls.countP (·.head? == some '-')

/-- How many lines are context: empty or with a space at the head. -/
def contextIn (ls : List (List Char)) : Nat :=
  ls.countP (·.head?.all (· == ' '))

/-- How many lines are lines of the old file. -/
def oldIn (ls : List (List Char)) : Nat :=
  removedIn ls + contextIn ls

/-- How many lines are lines of the new file. -/
def newIn (ls : List (List Char)) : Nat :=
  addedIn ls + contextIn ls

/-- **A hunk waits for more lines** behind `before`: its header stands behind the lines `earlier`,
and the lines `between` it and the end may all stand in a hunk and do not use up both counts. -/
structure Awaits (before earlier : List (List Char)) (header : HunkHeader)
    (between : List (List Char)) : Prop where
  split : ∃ headerLine, hunkHeader? headerLine = some header ∧
    before = earlier ++ headerLine :: between
  body : ∀ l ∈ between, isHunkLine l = true
  waits : oldIn between < header.oldCount ∨ newIn between < header.newCount

/-- The line stands in a hunk, behind the lines `before`. -/
def StandsInHunk (before : List (List Char)) (line : List Char) : Prop :=
  isHunkLine line = true ∧ ∃ earlier header between, Awaits before earlier header between

/-! ### The file that is named -/

/-- What a line names as the file that follows: a file, or that there is none. -/
def namedFile? (cwd line : List Char) : Option (Option (List Char)) :=
  match after? "diff --git " line with
  | some rest => some ((sectionTarget? rest).map (Path.normalize cwd))
  | none => (after? "+++ " line).map fun rest => (markedTarget? rest).map (Path.normalize cwd)

/-- **The file behind some lines** is what the last of them names that names anything and does not
stand in a hunk. -/
def IsTarget (cwd : List Char) (before : List (List Char)) (file : List Char) : Prop :=
  ∃ earlier line later, before = earlier ++ line :: later ∧ ¬StandsInHunk earlier line ∧
    namedFile? cwd line = some (some file) ∧
    ∀ a l b, later = a ++ l :: b → namedFile? cwd l = none ∨ StandsInHunk (earlier ++ line :: a) l

/-! ### What is recorded -/

/-- The lines add the line `n` of a file: a line with a plus sign in a hunk of the file, whose
number is that of the header and as many more as there are lines of the new file between. -/
def AddsLine (cwd : List Char) (ls : List (List Char)) (file : List Char) (n : Nat) : Prop :=
  ∃ before line after earlier header between, ls = before ++ line :: after ∧
    line.head? = some '+' ∧ Awaits before earlier header between ∧ IsTarget cwd earlier file ∧
    n = header.newStart + newIn between

/-- The lines have the header of a hunk of a file. -/
def HasHunk (cwd : List Char) (ls : List (List Char)) (file : List Char) : Prop :=
  ∃ earlier line later, ls = earlier ++ line :: later ∧ (hunkHeader? line).isSome = true ∧
    IsTarget cwd earlier file

/-- The numbers of added lines fit 64 bits. -/
def NumbersFit (ls : List (List Char)) : Prop :=
  ∀ before line after earlier header between, ls = before ++ line :: after →
    line.head? = some '+' → Awaits before earlier header between →
    header.newStart + newIn between < UInt64.size

section Counts

theorem oldIn_append (ls ms : List (List Char)) : oldIn (ls ++ ms) = oldIn ls + oldIn ms := by
  have hremoved : removedIn (ls ++ ms) = removedIn ls + removedIn ms := List.countP_append
  have hcontext : contextIn (ls ++ ms) = contextIn ls + contextIn ms := List.countP_append
  unfold oldIn
  omega

theorem newIn_append (ls ms : List (List Char)) : newIn (ls ++ ms) = newIn ls + newIn ms := by
  have hadded : addedIn (ls ++ ms) = addedIn ls + addedIn ms := List.countP_append
  have hcontext : contextIn (ls ++ ms) = contextIn ls + contextIn ms := List.countP_append
  unfold newIn
  omega

/-- A line is none of the new file, or one. -/
theorem newIn_le_length (ls : List (List Char)) : newIn ls ≤ ls.length := by
  induction ls with
  | nil => exact le_rfl
  | cons line ls ih =>
    have hsplit := newIn_append [line] ls
    have hone : newIn [line] ≤ 1 := by
      cases line with
      | nil => decide
      | cons c line =>
        by_cases hplus : c = '+'
        · subst hplus
          simp [newIn, addedIn, contextIn]
        · by_cases hspace : c = ' ' <;> simp [newIn, addedIn, contextIn, hplus, hspace]
    rw [List.singleton_append] at hsplit
    rw [List.length_cons]
    omega

/-- Numbers that are far from 64 bits in each header fit. -/
theorem numbersFit_of_headers {ls : List (List Char)}
    (h : ∀ l ∈ ls, ∀ header ∈ hunkHeader? l, header.newStart + ls.length < UInt64.size) :
    NumbersFit ls := by
  rintro before line after earlier header between rfl - ⟨⟨headerLine, hheader, rfl⟩, -, -⟩
  have hfit := h headerLine (by simp) header hheader
  have hcount := newIn_le_length between
  simp only [List.length_append, List.length_cons] at hfit
  omega

end Counts

/-! ### Passing one line -/

namespace DiffCursor

variable {cwd line : List Char} {c : DiffCursor}

theorem hunkHeader?_of_isHunkLine (h : isHunkLine line = true) : hunkHeader? line = none := by
  cases hheader : hunkHeader? line with
  | none => rfl
  | some header =>
    obtain ⟨rest, rfl⟩ := prefix_of_hunkHeader? hheader
    cases h

theorem isSome_passHunkLine : (c.passHunkLine line).isSome = isHunkLine line := by
  unfold passHunkLine
  split
  case h_6 hplus hminus hnil hspace hslash =>
    cases line with
    | nil => exact absurd rfl hnil
    | cons a rest =>
      have hne : ∀ sign ∈ ['+', '-', ' ', '\\'], a ≠ sign := by
        rintro sign hsign rfl
        simp only [List.mem_cons, List.not_mem_nil, or_false] at hsign
        rcases hsign with rfl | rfl | rfl | rfl
        · exact hplus rest rfl
        · exact hminus rest rfl
        · exact hspace rest rfl
        · exact hslash rest rfl
      simp_all [isHunkLine]
  all_goals rfl

/-- A line that stands in a hunk is counted. -/
theorem counts_of_hunkLine? {next : DiffCursor} (h : c.hunkLine? line = some next) :
    next.oldRemaining = c.oldRemaining - oldIn [line] ∧
      next.newRemaining = c.newRemaining - newIn [line] ∧
      (c.newLine + newIn [line] < UInt64.size → next.newLine = c.newLine + newIn [line]) := by
  unfold hunkLine? at h
  split_ifs at h
  unfold passHunkLine at h
  have hsucc : ∀ n, n + 1 < UInt64.size → nextLine n = n + 1 := fun n hn => Nat.mod_eq_of_lt hn
  split at h
  case h_1 =>
    obtain rfl := Option.some.inj h
    exact ⟨rfl, rfl, hsucc _⟩
  case h_2 =>
    obtain rfl := Option.some.inj h
    exact ⟨rfl, rfl, fun _ => rfl⟩
  case h_3 =>
    obtain rfl := Option.some.inj h
    exact ⟨rfl, rfl, hsucc _⟩
  case h_4 =>
    obtain rfl := Option.some.inj h
    exact ⟨rfl, rfl, hsucc _⟩
  case h_5 =>
    obtain rfl := Option.some.inj h
    exact ⟨rfl, rfl, fun _ => rfl⟩
  case h_6 => cases h

/-- Outside of hunks no line but a header opens one. -/
theorem inHunk_passHeader (hc : c.inHunk = false) (h : hunkHeader? line = none) :
    (c.passHeader cwd line).inHunk = false := by
  unfold passHeader
  split
  · rfl
  · split
    · exact hc
    · split
      · rename_i header _ hheader
        rw [h] at hheader
        cases hheader
      · rfl
      · exact hc

theorem inHunk_leaveHunk (c : DiffCursor) : c.leaveHunk.inHunk = false := rfl

/-- The header of a hunk sets the counters, wherever the cursor is. -/
theorem pass_of_hunkHeader? {header : HunkHeader} (h : hunkHeader? line = some header) :
    c.pass cwd line = ⟨c.file, header.newStart, header.oldCount, header.newCount⟩ := by
  obtain ⟨rest, rfl⟩ := prefix_of_hunkHeader? h
  have hline : c.hunkLine? ("@@".toList ++ rest) = none := by
    unfold hunkLine?
    split_ifs <;> rfl
  have hsection : after? "diff --git " ("@@".toList ++ rest) = none := rfl
  have htarget : after? "+++ " ("@@".toList ++ rest) = none := rfl
  unfold pass passHeader
  rw [hline, hsection, htarget, h, after?_append]
  rfl

/-- Any other line that does not stand in a hunk leaves the cursor outside of hunks. -/
theorem inHunk_pass (hline : c.hunkLine? line = none) (h : hunkHeader? line = none) :
    (c.pass cwd line).inHunk = false := by
  unfold pass
  rw [hline]
  exact inHunk_passHeader c.inHunk_leaveHunk h

/-- A line that does not stand in a hunk sets the file if it names one. -/
theorem file_pass (hline : c.hunkLine? line = none) :
    (c.pass cwd line).file = (namedFile? cwd line).getD c.file := by
  unfold pass
  rw [hline]
  change (c.leaveHunk.passHeader cwd line).file = _
  unfold passHeader namedFile?
  cases hsection : after? "diff --git " line with
  | some rest => rfl
  | none =>
    cases htarget : after? "+++ " line with
    | some rest => rfl
    | none =>
      -- A header of a hunk, readable or not, leaves the file as it is.
      dsimp only
      split <;> rfl

variable (cwd) in
/-- The counters behind a line that may stand in a hunk. -/
theorem remaining_pass (h : isHunkLine line = true) :
    (c.pass cwd line).oldRemaining = c.oldRemaining - oldIn [line] ∧
      (c.pass cwd line).newRemaining = c.newRemaining - newIn [line] := by
  cases hline : c.hunkLine? line with
  | some next =>
    obtain ⟨hold, hnew, -⟩ := counts_of_hunkLine? hline
    unfold pass
    rw [hline]
    exact ⟨hold, hnew⟩
  | none =>
    -- The hunk has no lines left, and the line is no header.
    have hzero : ∀ {d : DiffCursor}, d.inHunk = false →
        d.oldRemaining = 0 ∧ d.newRemaining = 0 := by
      intro d hd
      simpa [inHunk] using hd
    have hc : c.inHunk = false := by
      cases hin : c.inHunk with
      | false => rfl
      | true =>
        have hsome : (c.passHunkLine line).isSome = true := by rw [isSome_passHunkLine, h]
        rw [hunkLine?, if_pos hin] at hline
        rw [hline] at hsome
        cases hsome
    obtain ⟨hold, hnew⟩ := hzero hc
    have hout : (c.pass cwd line).inHunk = false := inHunk_pass hline (hunkHeader?_of_isHunkLine h)
    obtain ⟨hold', hnew'⟩ := hzero hout
    omega

/-! ### Passing all lines -/

theorem inHunk_iff : c.inHunk = true ↔ 0 < c.oldRemaining ∨ 0 < c.newRemaining := by
  simp [inHunk]

/-- A line stands in the hunk that the cursor is in if it may stand in a hunk. -/
theorem isSome_hunkLine?_iff :
    (c.hunkLine? line).isSome = true ↔ c.inHunk = true ∧ isHunkLine line = true := by
  rw [← isSome_passHunkLine (c := c), hunkLine?]
  split_ifs with h <;> simp [h]

variable (cwd) in
/-- **Inside a hunk the cursor counts the lines since the header**: what is left of both counts, and
the number of the next line, while the file stays the same. -/
theorem foldl_pass_between {headerLine : List Char} {header : HunkHeader}
    (hheader : hunkHeader? headerLine = some header) (c : DiffCursor) {between : List (List Char)}
    (hbody : ∀ l ∈ between, isHunkLine l = true) :
    let d := between.foldl (pass cwd) (c.pass cwd headerLine)
    d.oldRemaining = header.oldCount - oldIn between ∧
      d.newRemaining = header.newCount - newIn between ∧
      (d.inHunk = true → d.file = c.file ∧ (header.newStart + newIn between < UInt64.size →
        d.newLine = header.newStart + newIn between)) := by
  -- The last line is split off, so that the cursor before it is one that the statement is about.
  induction between using List.reverseRecOn with
  | nil =>
    intro d
    have hd : d = ⟨c.file, header.newStart, header.oldCount, header.newCount⟩ :=
      pass_of_hunkHeader? hheader
    rw [hd]
    exact ⟨rfl, rfl, fun _ => ⟨rfl, fun _ => rfl⟩⟩
  | append_singleton between l ih =>
    intro d
    set d' := between.foldl (pass cwd) (c.pass cwd headerLine) with hd'
    have hd : d = d'.pass cwd l := by simp only [d, List.foldl_append, ← hd']; rfl
    have hl : isHunkLine l = true := hbody l (by simp)
    obtain ⟨hold', hnew', hline'⟩ := ih fun l hl => hbody l (by simp [hl])
    obtain ⟨hold, hnew⟩ := remaining_pass cwd (c := d') hl
    have holdIn := oldIn_append between [l]
    have hnewIn := newIn_append between [l]
    rw [hd]
    refine ⟨by omega, by omega, fun hin => ?_⟩
    -- A hunk that has lines left had lines left before.
    have hin' : d'.inHunk = true := by
      rw [inHunk_iff] at hin ⊢
      omega
    obtain ⟨next, hnext⟩ := Option.isSome_iff_exists.1 (isSome_hunkLine?_iff.2 ⟨hin', hl⟩)
    have hpass : d'.pass cwd l = next := by rw [pass, hnext, Option.getD_some]
    obtain ⟨-, -, hnumber⟩ := counts_of_hunkLine? hnext
    obtain ⟨hfile', hnumber'⟩ := hline' hin'
    rw [hpass]
    refine ⟨(file_of_hunkLine? l hnext).trans hfile', fun hfits => ?_⟩
    have hstart := hnumber' (by omega)
    rw [hnumber (by omega), hstart]
    omega

variable (cwd) in
/-- The cursor behind some lines. -/
def behind (ls : List (List Char)) : DiffCursor :=
  ls.foldl (pass cwd) {}

theorem behind_append_singleton (ls : List (List Char)) (line : List Char) :
    behind cwd (ls ++ [line]) = (behind cwd ls).pass cwd line := by
  rw [behind, List.foldl_append]
  rfl

theorem behind_append_cons (earlier : List (List Char)) (line : List Char)
    (between : List (List Char)) : behind cwd (earlier ++ line :: between) =
      between.foldl (pass cwd) ((behind cwd earlier).pass cwd line) := by
  rw [behind, List.foldl_append]
  rfl

section Behind

variable {before earlier between : List (List Char)} {header : HunkHeader}

variable (cwd) in
/-- The cursor in a hunk that waits for more lines. -/
theorem behind_of_awaits (h : Awaits before earlier header between) :
    (behind cwd before).inHunk = true ∧ (behind cwd before).file = (behind cwd earlier).file ∧
      (header.newStart + newIn between < UInt64.size →
        (behind cwd before).newLine = header.newStart + newIn between) := by
  obtain ⟨⟨headerLine, hheader, rfl⟩, hbody, hwaits⟩ := h
  obtain ⟨hold, hnew, hline⟩ := foldl_pass_between cwd hheader (behind cwd earlier) hbody
  rw [← behind_append_cons] at hold hnew hline
  have hin : (behind cwd (earlier ++ headerLine :: between)).inHunk = true := by
    rw [inHunk_iff]
    omega
  exact ⟨hin, hline hin⟩

/-- **The cursor is in a hunk just if a hunk waits for more lines.** -/
theorem inHunk_behind_iff : (behind cwd before).inHunk = true ↔
    ∃ earlier header between, Awaits before earlier header between := by
  constructor
  · intro h
    induction before using List.reverseRecOn with
    | nil => cases h
    | append_singleton ls l ih =>
      rw [behind_append_singleton] at h
      cases hheader : hunkHeader? l with
      | some header =>
        rw [pass_of_hunkHeader? hheader, inHunk_iff] at h
        exact ⟨ls, header, [], ⟨l, hheader, rfl⟩, by simp, h⟩
      | none =>
        cases hline : (behind cwd ls).hunkLine? l with
        | none =>
          rw [inHunk_pass hline hheader] at h
          cases h
        | some next =>
          obtain ⟨hin, hl⟩ := isSome_hunkLine?_iff.1 (Option.isSome_of_eq_some hline)
          obtain ⟨earlier, header, between, ⟨headerLine, hheader', rfl⟩, hbody, -⟩ := ih hin
          have hbody' : ∀ l' ∈ between ++ [l], isHunkLine l' = true := by
            intro l' hl'
            rcases List.mem_append.1 hl' with hl' | hl'
            · exact hbody l' hl'
            · rw [List.mem_singleton.1 hl']
              exact hl
          obtain ⟨hold, hnew, -⟩ := foldl_pass_between cwd hheader' (behind cwd earlier) hbody'
          have hsplit : (earlier ++ headerLine :: between) ++ [l] =
              earlier ++ headerLine :: (between ++ [l]) := by simp
          rw [← behind_append_cons, ← hsplit] at hold hnew
          rw [← behind_append_singleton, inHunk_iff] at h
          exact ⟨earlier, header, between ++ [l], ⟨headerLine, hheader', hsplit⟩, hbody', by omega⟩
  · rintro ⟨earlier, header, between, h⟩
    exact (behind_of_awaits cwd h).1

theorem isSome_hunkLine?_behind :
    ((behind cwd before).hunkLine? line).isSome = true ↔ StandsInHunk before line := by
  rw [isSome_hunkLine?_iff, inHunk_behind_iff, StandsInHunk, and_comm]

end Behind

/-! ### The file behind some lines -/

section Target

variable {before : List (List Char)} {file : List Char}

/-- The last line names the file, or leaves it as it was. -/
theorem isTarget_append_singleton : IsTarget cwd (before ++ [line]) file ↔
    (¬StandsInHunk before line ∧ namedFile? cwd line = some (some file)) ∨
      ((namedFile? cwd line = none ∨ StandsInHunk before line) ∧ IsTarget cwd before file) := by
  constructor
  · rintro ⟨earlier, l, later, hsplit, hout, hname, hlater⟩
    rcases later.eq_nil_or_concat with rfl | ⟨later, l', rfl⟩
    · obtain ⟨rfl, hl⟩ := List.append_inj' hsplit rfl
      obtain rfl := List.singleton_inj.1 hl
      exact .inl ⟨hout, hname⟩
    · have hsplit' : before ++ [line] = (earlier ++ l :: later) ++ [l'] := by
        rw [hsplit]
        simp
      obtain ⟨rfl, hl⟩ := List.append_inj' hsplit' rfl
      obtain rfl := List.singleton_inj.1 hl
      refine .inr ⟨hlater later line [] (by simp), earlier, l, later, rfl, hout, hname, ?_⟩
      intro a x b hsplit
      exact hlater a x (b ++ [line]) (by rw [hsplit]; simp)
  · rintro (⟨hout, hname⟩ | ⟨hline, earlier, l, later, rfl, hout, hname, hlater⟩)
    · refine ⟨before, line, [], rfl, hout, hname, ?_⟩
      intro a x b hsplit
      simp at hsplit
    · refine ⟨earlier, l, later ++ [line], by simp, hout, hname, ?_⟩
      intro a x b hsplit
      rcases b.eq_nil_or_concat with rfl | ⟨b, y, rfl⟩
      · obtain ⟨rfl, hx⟩ := List.append_inj' hsplit rfl
        obtain rfl := List.singleton_inj.1 hx
        exact hline
      · have hsplit' : later ++ [line] = (a ++ x :: b) ++ [y] := by
          rw [hsplit]
          simp
        exact hlater a x b (List.append_inj' hsplit' rfl).1

/-- **The file at the cursor is the one that was named last**, outside of hunks. -/
theorem file_behind_iff : (behind cwd before).file = some file ↔ IsTarget cwd before file := by
  induction before using List.reverseRecOn with
  | nil =>
    refine iff_of_false nofun ?_
    rintro ⟨earlier, line, later, hsplit, -⟩
    simp at hsplit
  | append_singleton ls l ih =>
    rw [behind_append_singleton, isTarget_append_singleton]
    cases hline : (behind cwd ls).hunkLine? l with
    | some next =>
      have hin : StandsInHunk ls l := isSome_hunkLine?_behind.1 (Option.isSome_of_eq_some hline)
      have hpass : (behind cwd ls).pass cwd l = next := by rw [pass, hline, Option.getD_some]
      rw [hpass, file_of_hunkLine? l hline, ih]
      simp [hin]
    | none =>
      have hout : ¬StandsInHunk ls l := by
        have hstands : ((behind cwd ls).hunkLine? l).isSome = true ↔ StandsInHunk ls l :=
          isSome_hunkLine?_behind
        rw [← hstands, hline]
        exact Bool.false_ne_true
      rw [file_pass hline]
      cases hname : namedFile? cwd l with
      | none => simp [hout, ih]
      | some named => simp [hout]

end Target

/-! ### Marks -/

section Marks

variable {file : List Char} {n : Nat}

/-- A line says that it was added if it stands in a hunk with a plus sign. -/
theorem mark?_eq_added_iff : c.mark? line = some (file, some n) ↔ c.file = some file ∧
    (c.hunkLine? line).isSome = true ∧ line.head? = some '+' ∧ c.newLine = n := by
  unfold mark?
  cases c.file with
  | none => simp
  | some f => split_ifs <;> simp_all

/-- A line says that a file is changed if it is the header of a hunk. -/
theorem mark?_eq_changed_iff : c.mark? line = some (file, none) ↔ c.file = some file ∧
    (hunkHeader? line).isSome = true := by
  have hheader : (hunkHeader? line).isSome = true → (c.hunkLine? line).isSome = false := by
    intro hheader
    rw [Bool.eq_false_iff, ne_eq, isSome_hunkLine?_iff]
    rintro ⟨-, hline⟩
    rw [hunkHeader?_of_isHunkLine hline] at hheader
    cases hheader
  unfold mark?
  cases c.file with
  | none => simp
  | some f => split_ifs <;> simp_all

theorem mem_marks {ls : List (List Char)} {x : DiffMark} : x ∈ c.marks cwd ls ↔
    ∃ before line after, ls = before ++ line :: after ∧
      (before.foldl (pass cwd) c).mark? line = some x := by
  induction ls generalizing c with
  | nil => simp [marks]
  | cons l ls ih =>
    rw [marks, List.mem_append, Option.mem_toList, ih]
    constructor
    · rintro (hl | ⟨before, line, after, rfl, hline⟩)
      · exact ⟨[], l, ls, rfl, hl⟩
      · exact ⟨l :: before, line, after, rfl, hline⟩
    · rintro ⟨_ | ⟨l', before⟩, line, after, hsplit, hline⟩
      · obtain ⟨rfl, rfl⟩ := List.cons.inj hsplit
        exact .inl hline
      · obtain ⟨rfl, rfl⟩ := List.cons.inj hsplit
        exact .inr ⟨before, line, after, rfl, hline⟩

end Marks

end DiffCursor

/-! ### What is recorded of any text -/

open DiffCursor (behind behind_of_awaits file_behind_iff isSome_hunkLine?_behind mem_marks)

variable {cwd diff : List Char}

theorem addsLine_iff (hfits : NumbersFit (lines diff)) {file : List Char} {n : Nat} :
    (file, some n) ∈ diffMarks cwd diff ↔ AddsLine cwd (lines diff) file n := by
  rw [diffMarks, mem_marks]
  constructor
  · rintro ⟨before, line, after, hsplit, hmark⟩
    obtain ⟨hfile, hin, hplus, hn⟩ := DiffCursor.mark?_eq_added_iff.1 hmark
    obtain ⟨-, earlier, header, between, hawaits⟩ := isSome_hunkLine?_behind.1 hin
    obtain ⟨-, hsame, hnumber⟩ := behind_of_awaits cwd hawaits
    have hfit := hfits before line after earlier header between hsplit hplus hawaits
    refine ⟨before, line, after, earlier, header, between, hsplit, hplus, hawaits, ?_, ?_⟩
    · exact file_behind_iff.1 (hsame.symm.trans hfile)
    · exact hn.symm.trans (hnumber hfit)
  · rintro ⟨before, line, after, earlier, header, between, hsplit, hplus, hawaits, htarget, rfl⟩
    obtain ⟨hin, hsame, hnumber⟩ := behind_of_awaits cwd hawaits
    have hfit := hfits before line after earlier header between hsplit hplus hawaits
    have hline : isHunkLine line = true := by
      rw [isHunkLine, hplus]
      rfl
    refine ⟨before, line, after, hsplit, DiffCursor.mark?_eq_added_iff.2 ⟨?_, ?_, hplus, ?_⟩⟩
    · exact hsame.trans (file_behind_iff.2 htarget)
    · exact DiffCursor.isSome_hunkLine?_iff.2 ⟨hin, hline⟩
    · exact hnumber hfit

theorem hasHunk_iff {file : List Char} :
    (∃ n, (file, n) ∈ diffMarks cwd diff) ↔ HasHunk cwd (lines diff) file := by
  constructor
  · rintro ⟨n, hn⟩
    obtain ⟨before, line, after, hsplit, hmark⟩ := mem_marks.1 hn
    cases n with
    | none =>
      obtain ⟨hfile, hheader⟩ := DiffCursor.mark?_eq_changed_iff.1 hmark
      exact ⟨before, line, after, hsplit, hheader, file_behind_iff.1 hfile⟩
    | some n =>
      -- An added line stands behind the header of its hunk, which has the same file.
      obtain ⟨hfile, hin, -, -⟩ := DiffCursor.mark?_eq_added_iff.1 hmark
      obtain ⟨-, earlier, header, between, hawaits⟩ := isSome_hunkLine?_behind.1 hin
      obtain ⟨-, hsame, -⟩ := behind_of_awaits cwd hawaits
      obtain ⟨⟨headerLine, hheader, rfl⟩, -, -⟩ := hawaits
      refine ⟨earlier, headerLine, between ++ line :: after, ?_, ?_, ?_⟩
      · rw [hsplit]
        simp
      · exact Option.isSome_of_eq_some hheader
      · exact file_behind_iff.1 (hsame.symm.trans hfile)
  · rintro ⟨earlier, line, later, hsplit, hheader, htarget⟩
    refine ⟨none, mem_marks.2 ⟨earlier, line, later, hsplit, ?_⟩⟩
    exact DiffCursor.mark?_eq_changed_iff.2 ⟨file_behind_iff.2 htarget, hheader⟩

/-- **Nothing outside of a hunk with a header is recorded**, whatever the text: its added lines are
those that stand in a hunk by their signs and the counts of its header, under their numbers, and its
files are those of the headers. -/
theorem changedLines_anyText (cwd : List Char) {diff : List Char}
    (hfits : NumbersFit (lines diff)) (file : List Char) :
    (∀ n, (changedLines cwd diff).Holds file n ↔ AddsLine cwd (lines diff) file n) ∧
      ((changedLines cwd diff).Has file ↔ HasHunk cwd (lines diff) file) := by
  constructor
  · intro n
    rw [holds_changedLines, addsLine_iff hfits]
  · rw [has_changedLines, hasHunk_iff]

/-- A text with added lines before any header and behind the end of a hunk, a header that cannot be
read, and a hunk that is cut off. -/
def strayLines : List Char :=
  ("+a\n@@ -1 +1 @@\n+b\ndiff --git a/x b/x\n@@ bad @@\n+c\n@@ -1,2 +5,9 @@\n+d\n e\n\n" ++
    "\\ No newline at end of file\n+f\n@@ -9 +20 @@\n-g\n+h\n+i\n").toList

/-- Three of its lines are recorded. -/
theorem changedLines_strayLines :
    NumbersFit (lines strayLines) ∧ HasHunk "/r".toList (lines strayLines) "/r/x".toList ∧
      ∀ n, AddsLine "/r".toList (lines strayLines) "/r/x".toList n ↔ n ∈ [5, 8, 20] := by
  have hfits : NumbersFit (lines strayLines) := by
    apply numbersFit_of_headers
    decide +kernel
  have hchanged : changedLines "/r".toList strayLines = ⟨[("/r/x".toList, [5, 8, 20])]⟩ := by
    decide +kernel
  obtain ⟨hlines, hfile⟩ := changedLines_anyText "/r".toList hfits "/r/x".toList
  rw [hchanged] at hlines hfile
  refine ⟨hfits, hfile.1 ⟨_, List.mem_singleton_self _⟩, fun n => ?_⟩
  rw [← hlines n]
  simp [ChangedLines.Holds]

end Untranslated
