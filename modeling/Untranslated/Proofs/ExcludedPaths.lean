import Untranslated.Proofs.DisplayedPaths
import Untranslated.Target

/-!
# Files that are left out

The globs of tests, specifications and mocks are asked of the whole path of a file and of its path
as seen from the base. Each of them looks for one mark, anywhere in the text, so the second question
adds nothing to the first; and a mark in the path of the base itself leaves out all files below it.

* `covers_anywhere_iff`, `covers_inPart_iff`: what the globs stand for.
* `HoldsMark`: a text holds one of the marks; `holdsMark_append_slash` says that it stands before a
  slash or behind it.
* `display_rooted`: a path below a base, as seen from there.
* `accepts_below_iff`: the files below a base that are looked at.
* `acceptsBelow`: **the base has no say in it, unless it holds a mark**: then no file is looked at.
-/

namespace Untranslated

open Untranslated.Path (IsName components_rooted display display_rooted nameText render rooted
  rooted_append_of_ne_nil slashed)

/-! ### What globs stand for -/

namespace Glob

/-- The glob of texts that hold a mark. -/
def anywhere (mark : List Char) : Glob :=
  ⟨.anyParts :: .anyText :: (mark.map .char ++ [.anyText])⟩

/-- The glob of paths on which a name is followed by others. -/
def inPart (name : List Char) : Glob :=
  ⟨.anyParts :: (name.map .char ++ [.char '/', .anyParts])⟩

theorem someTail_iff {p : List Char → Bool} {s : List Char} :
    someTail p s = true ↔ ∃ t, t <:+ s ∧ p t = true := by
  induction s with
  | nil => simp [someTail]
  | cons c s ih =>
    rw [someTail, Bool.or_eq_true, ih]
    simp only [List.suffix_cons_iff, or_and_right, exists_or, exists_eq_left]

theorem someTailAfterSlash_iff {p : List Char → Bool} {s : List Char} :
    someTailAfterSlash p s = true ↔ p [] = true ∨ ∃ t, '/' :: t <:+ s ∧ p t = true := by
  induction s with
  | nil => simp [someTailAfterSlash]
  | cons c s ih =>
    rw [someTailAfterSlash, Bool.or_eq_true, ih]
    simp only [List.suffix_cons_iff, List.cons.injEq, or_and_right, exists_or, Bool.and_eq_true,
      beq_iff_eq]
    rw [or_left_comm]
    refine or_congr_right (or_congr_left ?_)
    constructor
    · rintro ⟨rfl, h⟩
      exact ⟨s, ⟨rfl, rfl⟩, h⟩
    · rintro ⟨t, ⟨rfl, rfl⟩, h⟩
      exact ⟨rfl, h⟩

/-- Characters stand for themselves. -/
theorem coversFrom_chars {pieces : List GlobPiece} (m : List Char) {s : List Char} :
    coversFrom (m.map .char ++ pieces) s = true ↔ ∃ t, s = m ++ t ∧ coversFrom pieces t = true := by
  induction m generalizing s with
  | nil => simp
  | cons c m ih =>
    cases s with
    | nil => simp [coversFrom]
    | cons d s => simp [coversFrom, GlobPiece.takes, ih, and_assoc]

/-- Any text at the end stands for all that is left, and so do any parts. -/
theorem coversFrom_anyText (s : List Char) : coversFrom [.anyText] s = true :=
  someTail_iff.2 ⟨[], List.nil_suffix, rfl⟩

theorem coversFrom_anyParts (s : List Char) : coversFrom [.anyParts] s = true :=
  Bool.or_eq_true_iff.2 (.inr (someTailAfterSlash_iff.2 (.inl rfl)))

theorem covers_anywhere_iff {mark s : List Char} (hmark : mark ≠ []) :
    (anywhere mark).covers s = true ↔ mark <:+: s := by
  have htail : ∀ s, coversFrom (.anyText :: (mark.map .char ++ [.anyText])) s = true ↔
      mark <:+: s := by
    intro s
    rw [coversFrom, someTail_iff]
    simp only [coversFrom_chars, coversFrom_anyText, and_true]
    constructor
    · rintro ⟨_, ⟨a, rfl⟩, t, rfl⟩
      exact ⟨a, t, by rw [List.append_assoc]⟩
    · rintro ⟨a, t, rfl⟩
      exact ⟨mark ++ t, ⟨a, by rw [List.append_assoc]⟩, t, rfl⟩
  rw [covers, anywhere, coversFrom, Bool.or_eq_true, htail, someTailAfterSlash_iff, htail]
  constructor
  · rintro (h | h | ⟨t, hsuffix, h⟩)
    · exact h
    · exact absurd (List.infix_nil.1 h) hmark
    · exact ((htail t).1 h).trans ((List.suffix_cons _ t).trans hsuffix).isInfix
  · exact .inl

theorem covers_inPart_iff {name s : List Char} :
    (inPart name).covers s = true ↔ '/' :: (name ++ ['/']) <:+: '/' :: s := by
  have hhead : ∀ s, coversFrom (name.map .char ++ [.char '/', .anyParts]) s = true ↔
      name ++ ['/'] <+: s := by
    intro s
    have hchars : name.map GlobPiece.char ++ [.char '/', .anyParts] =
        (name ++ ['/']).map .char ++ [.anyParts] := by simp
    rw [hchars, coversFrom_chars]
    simp only [coversFrom_anyParts, and_true]
    exact exists_congr fun t => eq_comm
  -- Behind a slash the name stands at the head of a tail.
  have htail : (∃ t, '/' :: t <:+ s ∧ name ++ ['/'] <+: t) ↔ '/' :: (name ++ ['/']) <:+: s := by
    rw [List.infix_iff_prefix_suffix]
    constructor
    · rintro ⟨t, hsuffix, hprefix⟩
      exact ⟨'/' :: t, List.cons_prefix_cons.2 ⟨rfl, hprefix⟩, hsuffix⟩
    · rintro ⟨t, hprefix, hsuffix⟩
      obtain ⟨rest, rfl⟩ := hprefix
      exact ⟨name ++ ['/'] ++ rest, hsuffix, List.prefix_append _ _⟩
  have hnil : ¬name ++ ['/'] <+: [] := by simp
  rw [covers, inPart, coversFrom, Bool.or_eq_true, hhead, someTailAfterSlash_iff, hhead]
  simp only [hhead, htail, hnil, false_or, List.infix_cons_iff, List.cons_prefix_cons, true_and]

end Glob

/-! ### Marks -/

/-- What the name of a test, a specification or a mock holds. -/
def fileMarks : List (List Char) :=
  [".test.", ".spec.", ".mock.", "_test."].map String.toList

/-- The names of directories of tests and mocks. -/
def directoryNames : List (List Char) :=
  ["__tests__", "__mocks__"].map String.toList

/-- The marks of files that are left out. -/
def excludedMarks : List (List Char) :=
  fileMarks ++ directoryNames.map fun name => '/' :: (name ++ ['/'])

/-- The text holds a mark. -/
def HoldsMark (s : List Char) : Prop :=
  ∃ mark ∈ excludedMarks, mark <:+: s

instance : DecidablePred HoldsMark := fun s =>
  inferInstanceAs (Decidable (∃ mark ∈ excludedMarks, mark <:+: s))

theorem globs_excludedFiles : globs (excludedFiles.map String.toList) =
    fileMarks.map Glob.anywhere ++ directoryNames.map Glob.inPart := by
  decide +kernel

/-- No mark but those of directories begins with a slash. -/
theorem head?_of_mem_fileMarks : ∀ mark ∈ fileMarks, mark ≠ [] ∧ mark.head? ≠ some '/' := by
  decide

/-- **What is left out holds a mark** where it stands behind a slash. -/
theorem exists_covers_iff {s : List Char} :
    (∃ g ∈ globs (excludedFiles.map String.toList), g.covers s = true) ↔ HoldsMark ('/' :: s) := by
  have hfile : ∀ mark ∈ fileMarks, ((Glob.anywhere mark).covers s = true ↔ mark <:+: '/' :: s) := by
    intro mark hmark
    obtain ⟨hne, hhead⟩ := head?_of_mem_fileMarks mark hmark
    rw [Glob.covers_anywhere_iff hne, List.infix_cons_iff]
    refine (or_iff_right fun hprefix => ?_).symm
    obtain ⟨c, mark, rfl⟩ := List.exists_cons_of_ne_nil hne
    obtain ⟨rfl, -⟩ := List.cons_prefix_cons.1 hprefix
    exact hhead rfl
  rw [globs_excludedFiles, HoldsMark, excludedMarks]
  simp only [List.mem_append, List.mem_map, or_and_right, exists_or, exists_exists_and_eq_and,
    Glob.covers_inPart_iff]
  exact or_congr_left (exists_congr fun mark => and_congr_right (hfile mark))

/-- Marks have no slashes but at their ends. -/
theorem slash_notMem_mark : ∀ mark ∈ excludedMarks, '/' ∉ mark.tail.dropLast := by
  decide

/-- What has no slashes but at its ends stands before a slash or behind it. -/
theorem infix_append_slash {mark a b : List Char} (h : '/' ∉ mark.tail.dropLast) :
    mark <:+: a ++ '/' :: b ↔ mark <:+: a ++ ['/'] ∨ mark <:+: '/' :: b := by
  have hsplit : a ++ '/' :: b = a ++ ['/'] ++ b := by simp
  constructor
  · rintro ⟨before, behind, heq⟩
    rw [List.append_assoc, List.append_eq_append_iff] at heq
    rcases heq with ⟨k, rfl, hk⟩ | ⟨k, rfl, hk⟩
    · -- The mark begins in what stands before the slash.
      rcases List.append_eq_append_iff.1 hk with ⟨l, rfl, -⟩ | ⟨l, rfl, hl⟩
      · exact .inl ⟨before, l ++ ['/'], by simp⟩
      · cases l with
        | nil => exact .inl ⟨before, ['/'], by simp⟩
        | cons c l =>
          obtain ⟨rfl, rfl⟩ := List.cons.inj hl
          cases k with
          | nil => exact .inr ⟨[], behind, by simp⟩
          | cons d k =>
            rcases List.eq_nil_or_concat l with rfl | ⟨l, e, rfl⟩
            · exact .inl ⟨before, [], by simp⟩
            · have hinside : (d :: k ++ '/' :: l.concat e).tail.dropLast = k ++ '/' :: l := by
                rw [List.concat_eq_append, List.cons_append, List.tail_cons, ← List.cons_append,
                  ← List.append_assoc, List.dropLast_concat]
              exact absurd (hinside ▸ List.mem_append_right _ List.mem_cons_self) h
    · exact .inr ⟨k, behind, by rw [hk, List.append_assoc]⟩
  · rintro (hholds | hholds)
    · rw [hsplit]
      exact hholds.trans (List.prefix_append _ _).isInfix
    · exact hholds.trans (List.suffix_append _ _).isInfix

/-- **A mark stands before a slash or behind it.** -/
theorem holdsMark_append_slash {a b : List Char} :
    HoldsMark (a ++ '/' :: b) ↔ HoldsMark (a ++ ['/']) ∨ HoldsMark ('/' :: b) := by
  simp only [HoldsMark, ← exists_or, ← and_or_left]
  exact exists_congr fun mark => and_congr_right fun hmark =>
    infix_append_slash (slash_notMem_mark mark hmark)

/-- A slash more before a path adds no mark. -/
theorem holdsMark_cons_slash {s : List Char} :
    HoldsMark ('/' :: '/' :: s) ↔ HoldsMark ('/' :: s) := by
  have hslashes : ¬HoldsMark (['/'] ++ ['/']) := by decide
  exact (@holdsMark_append_slash ['/'] s).trans (or_iff_right hslashes)

/-! ### Files below a base -/

section Below

variable {base more : List (List Char)}

/-- The name of a directory holds a mark. -/
def IsMarkedName (name : List Char) : Prop :=
  HoldsMark ('/' :: (slashed name ++ ['/']))

instance : DecidablePred IsMarkedName := fun name =>
  inferInstanceAs (Decidable (HoldsMark ('/' :: (slashed name ++ ['/']))))

/-- One of the directories that lead to a place has a name with a mark. -/
def IsMarkedPlace (names : List (List Char)) : Prop :=
  ∃ name ∈ names, IsMarkedName name

instance : DecidablePred IsMarkedPlace := fun names =>
  inferInstanceAs (Decidable (∃ name ∈ names, IsMarkedName name))

/-- A mark in the text of names stands in one of them. -/
theorem holdsMark_nameText (names : List (List Char)) :
    HoldsMark (slashed (nameText names) ++ ['/']) ↔ IsMarkedPlace names := by
  have hnil : ¬HoldsMark ['/'] := by decide
  induction names with
  | nil => exact iff_of_false hnil (by simp [IsMarkedPlace])
  | cons name names ih =>
    -- Behind the name there is a slash, be it that of the next name or the last one.
    obtain ⟨rest, hrest⟩ : ∃ rest, slashed (nameText names) ++ ['/'] = '/' :: rest := by
      cases names with
      | nil => exact ⟨[], rfl⟩
      | cons next names => exact ⟨_, rfl⟩
    have htext : slashed (nameText (name :: names)) ++ ['/'] =
        ('/' :: slashed name) ++ '/' :: rest := by
      rw [← hrest, nameText, List.flatMap_cons, ← nameText, slashed, List.map_append,
        List.append_assoc]
      rfl
    rw [htext, holdsMark_append_slash, ← hrest]
    calc HoldsMark ('/' :: slashed name ++ ['/']) ∨ HoldsMark (slashed (nameText names) ++ ['/'])
      _ ↔ IsMarkedName name ∨ IsMarkedPlace names := or_congr Iff.rfl ih
      _ ↔ IsMarkedPlace (name :: names) := by simp [IsMarkedPlace]

/-- A file is a script by its last name. -/
theorem isScriptPath_append (h : ∀ s ∈ base ++ more, IsName s) (hne : more ≠ []) :
    isScriptPath (rooted (base ++ more)) = isScriptPath (rooted more) := by
  obtain ⟨front, last, rfl⟩ := (List.eq_nil_or_concat more).resolve_left hne
  rw [List.concat_eq_append] at h ⊢
  have hname : ∀ front : List (List Char), (∀ s ∈ front ++ [last], IsName s) →
      Path.fileName? (rooted (front ++ [last])) = some last := by
    intro front hnames
    rw [Path.fileName?, components_rooted hnames, List.map_append, ← List.cons_append,
      List.map_singleton, List.getLast?_concat]
  have hwhole := hname (base ++ front) (by rwa [List.append_assoc])
  rw [List.append_assoc] at hwhole
  rw [isScriptPath, isScriptPath, Path.extension?, Path.extension?, hwhole,
    hname front (List.forall_mem_append.1 h).2]

/-- A mark in the path of a file stands in the part down to the base, or behind it. -/
theorem holdsMark_rooted_append (hne : more ≠ []) : HoldsMark (slashed (rooted (base ++ more))) ↔
    IsMarkedPlace base ∨ HoldsMark (slashed (rooted more)) := by
  have htext : slashed (rooted (base ++ more)) =
      slashed (nameText base) ++ '/' :: slashed (render (more.map .name)) := by
    rw [rooted_append_of_ne_nil hne, slashed, List.map_append]
    rfl
  rw [htext, holdsMark_append_slash, holdsMark_nameText]
  exact Iff.rfl

/-- **The files below a base that are looked at**: scripts with no mark in their path, neither in
the part down to the base nor behind it. -/
theorem accepts_below_iff (h : ∀ s ∈ base ++ more, IsName s) (hne : more ≠ []) :
    (TargetFilter.ofIgnores (rooted base) []).accepts (rooted (base ++ more)) = true ↔
      ¬IsMarkedPlace base ∧ isScriptPath (rooted more) = true ∧
        ¬HoldsMark (slashed (rooted more)) := by
  -- The path as seen from the base stands in the whole path.
  have hshown : HoldsMark ('/' :: display (rooted base) (rooted (base ++ more))) ↔
      HoldsMark (slashed (rooted more)) := by
    rw [display_rooted h]
    exact Iff.rfl
  have hpath : HoldsMark ('/' :: slashed (rooted (base ++ more))) ↔
      IsMarkedPlace base ∨ HoldsMark (slashed (rooted more)) :=
    holdsMark_cons_slash.trans (holdsMark_rooted_append hne)
  -- Nothing is ignored besides, so the globs are those of the marks.
  have hglobs : (TargetFilter.ofIgnores (rooted base) []).globs =
      globs (excludedFiles.map String.toList) := congrArg globs (List.append_nil _)
  have hcovered : (globs (excludedFiles.map String.toList)).any (fun g =>
      g.covers (slashed (rooted (base ++ more))) ||
        g.covers (display (rooted base) (rooted (base ++ more)))) = true ↔
      IsMarkedPlace base ∨ HoldsMark (slashed (rooted more)) := by
    simp only [List.any_eq_true, Bool.or_eq_true, and_or_left, exists_or, exists_covers_iff, hpath,
      hshown, or_assoc, or_self]
  rw [TargetFilter.accepts, hglobs, isScriptPath_append h hne]
  change (isScriptPath (rooted more) && true && !(globs _).any _) = true ↔ _
  rw [Bool.and_true, Bool.and_eq_true, Bool.not_eq_true', ← Bool.not_eq_true]
  exact (and_congr_right' (hcovered.not.trans not_or)).trans and_left_comm

end Below

/-- A script without a mark. -/
def plainNames : List (List Char) :=
  ["src".toList, "App.tsx".toList]

/-- **What the base has to do with what is looked at below it**: a base that holds a mark leaves out
all files below it, and any other has no say. So two bases agree on all files below them exactly if
both hold a mark or neither does. -/
theorem acceptsBelow {base : List (List Char)} (hbase : ∀ s ∈ base, IsName s) :
    (∀ more, (∀ s ∈ more, IsName s) → more ≠ [] →
      ((TargetFilter.ofIgnores (rooted base) []).accepts (rooted (base ++ more)) = true ↔
        ¬IsMarkedPlace base ∧ isScriptPath (rooted more) = true ∧
          ¬HoldsMark (slashed (rooted more)))) ∧
      ∀ base', (∀ s ∈ base', IsName s) →
        ((∀ more, (∀ s ∈ more, IsName s) → more ≠ [] →
          (TargetFilter.ofIgnores (rooted base) []).accepts (rooted (base ++ more)) =
            (TargetFilter.ofIgnores (rooted base') []).accepts (rooted (base' ++ more))) ↔
          (IsMarkedPlace base ↔ IsMarkedPlace base')) := by
  have haccepts : ∀ base more, (∀ s ∈ base, IsName s) → (∀ s ∈ more, IsName s) → more ≠ [] →
      ((TargetFilter.ofIgnores (rooted base) []).accepts (rooted (base ++ more)) = true ↔
        ¬IsMarkedPlace base ∧ isScriptPath (rooted more) = true ∧
          ¬HoldsMark (slashed (rooted more))) :=
    fun base more hbase hmore hne => accepts_below_iff (List.forall_mem_append.2 ⟨hbase, hmore⟩) hne
  refine ⟨fun more => haccepts base more hbase,
    fun base' hbase' => ⟨fun h => ?_, fun h more hmore hne => ?_⟩⟩
  · -- A plain script tells the bases apart.
    have hnames : ∀ s ∈ plainNames, IsName s := by decide
    have hplain : isScriptPath (rooted plainNames) = true ∧
        ¬HoldsMark (slashed (rooted plainNames)) := by decide +kernel
    have hiff := Bool.eq_iff_iff.1 (h plainNames hnames (by decide))
    rw [haccepts base plainNames hbase hnames (by decide),
      haccepts base' plainNames hbase' hnames (by decide), and_iff_left hplain,
      and_iff_left hplain] at hiff
    exact not_iff_not.1 hiff
  · rw [Bool.eq_iff_iff, haccepts base more hbase hmore hne,
      haccepts base' more hbase' hmore hne, h]

/-- The script is looked at below a base without a mark, as it is below another one. -/
theorem acceptsBelow_plainNames : (∀ s ∈ ["work".toList, "app".toList], IsName s) ∧
    (∀ s ∈ ["home.d".toList], IsName s) ∧
    (TargetFilter.ofIgnores "/work/app".toList []).accepts "/work/app/src/App.tsx".toList = true ∧
    (TargetFilter.ofIgnores "/work/app".toList []).accepts "/work/app/src/App.tsx".toList =
      (TargetFilter.ofIgnores "/home.d".toList []).accepts "/home.d/src/App.tsx".toList := by
  have hbase : ∀ s ∈ ["work".toList, "app".toList], IsName s := by decide
  have hbase' : ∀ s ∈ ["home.d".toList], IsName s := by decide
  have hnames : ∀ s ∈ plainNames, IsName s := by decide
  have hne : plainNames ≠ [] := by decide
  have hplain : ¬IsMarkedPlace ["work".toList, "app".toList] ∧
      isScriptPath (rooted plainNames) = true ∧ ¬HoldsMark (slashed (rooted plainNames)) := by
    decide +kernel
  have hplaces : IsMarkedPlace ["work".toList, "app".toList] ↔ IsMarkedPlace ["home.d".toList] := by
    decide +kernel
  obtain ⟨haccepts, hagree⟩ := acceptsBelow hbase
  exact ⟨hbase, hbase', (haccepts plainNames hnames hne).2 hplain,
    (hagree _ hbase').2 hplaces plainNames hnames hne⟩

/-- The same script is not looked at below a directory that has a mark in its name. -/
theorem accepts_markedBase :
    (TargetFilter.ofIgnores "/work/app".toList []).accepts "/work/app/src/App.tsx".toList = true ∧
      (TargetFilter.ofIgnores "/work/app.test.d".toList []).accepts
        "/work/app.test.d/src/App.tsx".toList = false := by
  decide +kernel

end Untranslated
