import Untranslated.Proofs.DiffReading
import Untranslated.Proofs.FileWalk
import Untranslated.Proofs.ScanReports

/-!
# Scans of changed lines

A scan of changed lines looks at named files in the order they are named, or at the files of the
diff in the order of paths; a scan of all lines looks at the same named files, or at those below
the source root, as they are met on a walk. The walk meets them in the order of paths, so both
scans report on the files they share in the same order, and what only changed lines show is what
all lines show with the others left out.

* `CoversChanges`: all that is reported is on changed lines, and nothing on them is lost.
* `RestrictsReports`: what the reports of the two scans have to do with each other.
* `reports?_diffMode`: both hold of every scan of changed lines that comes to an end.
-/

namespace Untranslated

open Untranslated.Path (isBelow)

variable {w : Workspace} {a : Arguments}

/-! ### Reports of changed files -/

/-- The report of the violations on changed lines of its file, if there are any. -/
def ChangedLines.restrict? (changed : ChangedLines) (r : FileReport) : Option FileReport :=
  (changed.get? r.path).bind r.onLines?

namespace Workspace

variable (w) in
/-- The report of the violations on changed lines of a file, if there are any. -/
def changedReport? (changed : ChangedLines) (p : List Char) : Option FileReport :=
  (changed.get? p).bind fun lines => w.fileReport? ⟨p, some lines⟩

variable {changed : ChangedLines}

theorem path_of_changedReport? {p : List Char} {r : FileReport}
    (h : w.changedReport? changed p = some r) : r.path = p := by
  obtain ⟨lines, -, hr⟩ := Option.bind_eq_some_iff.1 h
  exact w.path_of_fileReport? hr

/-- Reports are picked by their paths before they are made or after it. -/
theorem filter_changedReport? (picks : List Char → Bool) (paths : List (List Char)) :
    (paths.filterMap (w.changedReport? changed)).filter (fun r => picks r.path) =
      (paths.filter picks).filterMap (w.changedReport? changed) := by
  rw [List.filter_filterMap, List.filterMap_filter]
  congr 1
  funext p
  cases h : w.changedReport? changed p with
  | none => split_ifs <;> rfl
  | some r =>
    rw [Option.filter_some, path_of_changedReport? h]

theorem filterMap_restrict? (paths : List (List Char)) :
    ((paths.map fun p => (⟨p, none⟩ : Job)).filterMap w.fileReport?).filterMap changed.restrict? =
      paths.filterMap (w.changedReport? changed) := by
  rw [List.filterMap_map, List.filterMap_filterMap]
  congr 1
  funext p
  rw [changedReport?, Function.comp_apply]
  simp only [w.fileReport?_some]
  cases h : w.fileReport? ⟨p, none⟩ with
  | none => cases changed.get? p <;> rfl
  | some r => rw [Option.bind_some, ChangedLines.restrict?, w.path_of_fileReport? h]; rfl

theorem filterMap_changedJobs (hchanged : ChangedLines.Canonical changed.files) :
    (w.changedJobs a changed).filterMap w.fileReport? =
      (if a.files.isEmpty then (changed.files.map Prod.fst).filter w.filter.accepts
        else w.explicitTargets a.files).filterMap (w.changedReport? changed) := by
  unfold changedJobs
  split_ifs
  · rw [List.filterMap_map, List.filter_map, List.filterMap_map]
    refine List.filterMap_congr fun f hf => ?_
    have hget := ChangedLines.get?_of_mem hchanged (List.mem_filter.1 hf).1
    rw [Function.comp_apply, Function.comp_apply, changedReport?, hget]
    rfl
  · rw [List.filterMap_filterMap]
    congr 1
    funext p
    rw [changedReport?]
    cases changed.get? p <;> rfl

end Workspace

/-! ### Changed lines against all lines -/

/-- The diff says so much of the reports `found` on its changed lines: each violation is on a
changed line of its file, and each violation on a changed line of a file that is looked at is
reported. -/
structure CoversChanges (w : Workspace) (a : Arguments) (changed : ChangedLines)
    (found : List FileReport) : Prop where
  onChangedLines : ∀ r ∈ found, ∃ lines, (r.path, lines) ∈ changed.files ∧
    ∀ v ∈ r.violations, v.line ∈ lines
  lossless : ∀ p lines, (p, lines) ∈ changed.files →
    (if a.files.isEmpty then w.filter.accepts p = true else p ∈ w.explicitTargets a.files) →
    ∀ r, w.fileReport? ⟨p, none⟩ = some r → ∀ v ∈ r.violations, v.line ∈ lines →
      ∃ r' ∈ found, r'.path = p ∧ v ∈ r'.violations

/-- The reports `found` on changed lines are the reports `full` on all lines, restricted to the
changed ones; if no files are named, those below the source root are, and the others are on files
of the diff that are looked at. -/
structure RestrictsReports (w : Workspace) (a : Arguments) (changed : ChangedLines)
    (full found : List FileReport) : Prop where
  named : a.files.isEmpty = false → found = full.filterMap changed.restrict?
  below : a.files.isEmpty = true →
    found.filter (fun r => isBelow r.path w.sourceRoot) = full.filterMap changed.restrict?
  elsewhere : a.files.isEmpty = true → ∀ r ∈ found, isBelow r.path w.sourceRoot = false →
    (∃ lines, (r.path, lines) ∈ changed.files) ∧ w.filter.accepts r.path = true

section DiffMode

variable {text : List Char} {full found : List FileReport}

/-- The files of a diff below the source root that can be looked at are targets. -/
theorem mem_rootTargets_iff (hcwd : Path.isAbsolute w.cwd = true) (htree : w.tree.WellFormed)
    (hread : w.read = w.tree.read) {p source : List Char}
    (hp : ∃ q, Path.normalize w.cwd q = p) (hsource : w.read p = .ok source) :
    p ∈ w.rootTargets ↔ isBelow p w.sourceRoot = true ∧ w.filter.accepts p = true := by
  obtain ⟨q, rfl⟩ := hp
  rw [hread] at hsource
  rw [Workspace.rootTargets, List.mem_filter, Workspace.sourceRoot,
    FileTree.mem_filesBelow_normalize htree hcwd, FileTree.isFile_of_read hsource]
  simp

theorem pairwise_rootTargets (hcwd : Path.isAbsolute w.cwd = true) (htree : w.tree.WellFormed) :
    w.rootTargets.Pairwise fun p q => Path.order p q = .lt := by
  obtain ⟨base, hbase, hroot⟩ := Path.exists_rooted hcwd w.config.sourceRoot.toList
  refine List.Pairwise.filter _ ?_
  rw [Workspace.sourceRoot, hroot]
  exact FileTree.pairwise_filesBelow htree hbase

theorem isNormal_of_mem_explicitTargets {p : List Char} (h : p ∈ w.explicitTargets a.files) :
    Path.IsNormal p := by
  rw [Workspace.explicitTargets, List.mem_eraseDups] at h
  obtain ⟨f, -, rfl⟩ := List.mem_map.1 (List.mem_filter.1 h).1
  exact Path.isNormal_normalize _ _

/-- **No violation off a changed line is reported, and none on a changed line is lost.** -/
theorem coversChanges_of_reports? (ha : a.diffOnly = true)
    (htext : w.diff (.ofArguments a) = .ok text)
    (hfound : (scan w a).outcome.reports? = some found) :
    CoversChanges w a (changedLines w.cwd text) found := by
  have hchanged := canonical_changedLines w.cwd text
  rw [reports?_scan_diff ha htext, Workspace.reportsOf?_eq_some] at hfound
  obtain ⟨-, rfl⟩ := hfound
  rw [Workspace.filterMap_changedJobs hchanged]
  constructor
  · intro r hr
    obtain ⟨p, hp, hreport⟩ := List.mem_filterMap.1 hr
    have hpath := Workspace.path_of_changedReport? hreport
    obtain ⟨lines, hlines, hsome⟩ := Option.bind_eq_some_iff.1 hreport
    have hnormal : Path.IsNormal p := by
      split_ifs at hp
      · obtain ⟨f, hf, rfl⟩ := List.mem_map.1 (List.mem_filter.1 hp).1
        exact hchanged.normal f hf
      · exact isNormal_of_mem_explicitTargets hp
    rw [w.fileReport?_some] at hsome
    obtain ⟨all, -, hkept⟩ := Option.bind_eq_some_iff.1 hsome
    refine ⟨lines, hpath ▸ ChangedLines.mem_of_get? hchanged hnormal hlines, fun v hv => ?_⟩
    rw [(FileReport.onLines?_eq_some.1 hkept).2] at hv
    exact List.contains_iff_mem.1 (List.mem_filter.1 hv).2
  · intro p lines hp htarget r hr v hv hline
    obtain ⟨kept, hkept⟩ : ∃ kept, r.onLines? lines = some kept :=
      ⟨_, FileReport.onLines?_eq_some.2 ⟨⟨v, hv, hline⟩, rfl⟩⟩
    have hreport : w.changedReport? (changedLines w.cwd text) p = some kept := by
      rw [Workspace.changedReport?, ChangedLines.get?_of_mem hchanged hp, Option.bind_some,
        w.fileReport?_some, hr, Option.bind_some]
      exact hkept
    refine ⟨kept, List.mem_filterMap.2 ⟨p, ?_, hreport⟩,
      Workspace.path_of_changedReport? hreport, ?_⟩
    · split_ifs at htarget ⊢
      · exact List.mem_filter.2 ⟨List.mem_map.2 ⟨_, hp, rfl⟩, htarget⟩
      · exact htarget
    · rw [(FileReport.onLines?_eq_some.1 hkept).2]
      exact List.mem_filter.2 ⟨hv, List.contains_iff_mem.2 hline⟩

/-- Looking at changed lines is not aborted if looking at the targets is not, and looking at the
changed files outside the source root is not. -/
theorem isAborted_of_mem_changedJobs (hcwd : Path.isAbsolute w.cwd = true)
    (htree : w.tree.WellFormed) (hread : w.read = w.tree.read)
    (htargets : ∀ p ∈ w.targets a, (w.inspect ⟨p, none⟩).isAborted = false)
    (houtside : a.files.isEmpty = true → ∀ f ∈ (changedLines w.cwd text).files,
      w.filter.accepts f.1 = true → isBelow f.1 w.sourceRoot = false →
        (w.inspect ⟨f.1, none⟩).isAborted = false) :
    ∀ job ∈ w.changedJobs a (changedLines w.cwd text), (w.inspect job).isAborted = false := by
  intro job hjob
  unfold Workspace.changedJobs at hjob
  unfold Workspace.targets at htargets
  split_ifs at hjob htargets with hfiles
  · obtain ⟨f, hf, rfl⟩ := List.mem_map.1 hjob
    obtain ⟨hf, haccepts⟩ := List.mem_filter.1 hf
    rw [w.isAborted_inspect_some]
    cases hbelow : isBelow f.1 w.sourceRoot with
    | false => exact houtside hfiles f hf haccepts hbelow
    | true =>
      by_contra haborted
      obtain ⟨source, hsource⟩ := Workspace.exists_read (.inr (by simpa using haborted))
      have hpath := exists_normalize_of_mem_changedLines hf
      exact haborted (htargets f.1
        ((mem_rootTargets_iff hcwd htree hread hpath hsource).2 ⟨hbelow, haccepts⟩))
  · obtain ⟨p, hp, hjob⟩ := List.mem_filterMap.1 hjob
    obtain ⟨lines, -, rfl⟩ := Option.map_eq_some_iff.1 hjob
    rw [w.isAborted_inspect_some]
    exact htargets p hp

/-- Without named files, what is reported below the source root is what is reported on targets. -/
theorem filterMap_filter_isBelow (hcwd : Path.isAbsolute w.cwd = true)
    (htree : w.tree.WellFormed) (hread : w.read = w.tree.read) :
    let changed := changedLines w.cwd text
    (((changed.files.map Prod.fst).filter w.filter.accepts).filter
        fun p => isBelow p w.sourceRoot).filterMap (w.changedReport? changed) =
      w.rootTargets.filterMap (w.changedReport? changed) := by
  intro changed
  have hchanged := canonical_changedLines w.cwd text
  have hkeys : (changed.files.map Prod.fst).Pairwise fun p q => Path.order p q = .lt :=
    List.pairwise_map.2 hchanged.ascending
  refine ChangedLines.filterMap_eq_of_pairwise ChangedLines.order_asymm ((hkeys.filter _).filter _)
    (pairwise_rootTargets hcwd htree) fun p hp => ?_
  obtain ⟨r, hr⟩ := Option.isSome_iff_exists.1 hp
  obtain ⟨lines, hlines, hreport⟩ := Option.bind_eq_some_iff.1 hr
  obtain ⟨source, hsource⟩ :=
    Workspace.exists_read (.inl (Option.isSome_of_eq_some hreport))
  simp only [List.mem_filter]
  constructor
  · rintro ⟨⟨hkey, haccepts⟩, hbelow⟩
    obtain ⟨f, hf, rfl⟩ := List.mem_map.1 hkey
    have hpath := exists_normalize_of_mem_changedLines hf
    exact (mem_rootTargets_iff hcwd htree hread hpath hsource).2 ⟨hbelow, haccepts⟩
  · intro htarget
    obtain ⟨hmem, haccepts⟩ := List.mem_filter.1 htarget
    obtain ⟨hnormal, hbelow⟩ := FileTree.isNormal_of_mem_filesBelow htree hcwd hmem
    have hkey := ChangedLines.mem_of_get? hchanged hnormal hlines
    exact ⟨⟨List.mem_map.2 ⟨_, hkey, rfl⟩, haccepts⟩, hbelow⟩

/-- **A scan of changed lines reports what a scan of all lines reports on them.** -/
theorem restrictsReports_of_reports? (hcwd : Path.isAbsolute w.cwd = true)
    (htree : w.tree.WellFormed) (hread : w.read = w.tree.read) (ha : a.diffOnly = true)
    (htext : w.diff (.ofArguments a) = .ok text)
    (hfull : (scan w a.whole).outcome.reports? = some full)
    (hfound : (scan w a).outcome.reports? = some found) :
    RestrictsReports w a (changedLines w.cwd text) full found := by
  have hchanged := canonical_changedLines w.cwd text
  rw [reports?_scan_whole, Workspace.reportsOf?_eq_some] at hfull
  rw [reports?_scan_diff ha htext, Workspace.reportsOf?_eq_some] at hfound
  obtain ⟨-, rfl⟩ := hfull
  obtain ⟨-, rfl⟩ := hfound
  rw [Workspace.filterMap_changedJobs hchanged]
  refine ⟨fun hfiles => ?_, fun hfiles => ?_, fun hfiles r hr hbelow => ?_⟩
  · rw [Workspace.filterMap_restrict?, Workspace.targets, hfiles]
    rfl
  · rw [Workspace.filterMap_restrict?, Workspace.targets, if_pos hfiles, if_pos hfiles,
      Workspace.filter_changedReport? (isBelow · w.sourceRoot)]
    exact filterMap_filter_isBelow hcwd htree hread
  · rw [if_pos hfiles] at hr
    obtain ⟨p, hp, hreport⟩ := List.mem_filterMap.1 hr
    obtain ⟨hkey, haccepts⟩ := List.mem_filter.1 hp
    obtain ⟨f, hf, rfl⟩ := List.mem_map.1 hkey
    rw [Workspace.path_of_changedReport? hreport]
    exact ⟨⟨f.2, hf⟩, haccepts⟩

end DiffMode

/-- **Diff mode is the full scan restricted to changed lines.** What it reports is on changed lines,
and nothing on them is lost. Where both scans come to an end, its reports are those of the full
scan, restricted; it comes to an end if the full scan does and no changed file outside the source
root aborts it. -/
theorem reports?_diffMode {w : Workspace} {a : Arguments} {text : List Char}
    (hcwd : Path.isAbsolute w.cwd = true) (htree : w.tree.WellFormed)
    (hread : w.read = w.tree.read) (ha : a.diffOnly = true)
    (htext : w.diff (.ofArguments a) = .ok text) :
    let changed := changedLines w.cwd text
    (∀ found, (scan w a).outcome.reports? = some found → CoversChanges w a changed found) ∧
      ∀ full, (scan w a.whole).outcome.reports? = some full →
        (∀ found, (scan w a).outcome.reports? = some found →
          RestrictsReports w a changed full found) ∧
        ((a.files.isEmpty = true → ∀ f ∈ changed.files, w.filter.accepts f.1 = true →
            isBelow f.1 w.sourceRoot = false → (w.inspect ⟨f.1, none⟩).isAborted = false) →
          ∃ found, (scan w a).outcome.reports? = some found) := by
  intro changed
  refine ⟨fun found hfound => coversChanges_of_reports? ha htext hfound, fun full hfull => ⟨?_, ?_⟩⟩
  · exact fun found hfound =>
      restrictsReports_of_reports? hcwd htree hread ha htext hfull hfound
  · intro houtside
    rw [reports?_scan_whole, Workspace.reportsOf?_eq_some] at hfull
    have hjobs := isAborted_of_mem_changedJobs hcwd htree hread
      (fun p hp => hfull.1 _ (List.mem_map.2 ⟨p, hp, rfl⟩)) houtside
    exact ⟨_, (reports?_scan_diff ha htext).trans
      (Workspace.reportsOf?_eq_some.2 ⟨hjobs, rfl⟩)⟩

/-! ### A project -/

/-- The bytes of a text of ASCII characters. -/
def asciiBytes (s : String) : List UInt8 :=
  s.toList.map fun c => c.toNat.toUInt8

/-- A project with a file below the source root and one elsewhere, which has the given bytes. -/
def project (elsewhere : List UInt8) : FileTree :=
  .directory [("repo".toList, .directory
    [("src".toList, .directory [("App.tsx".toList, .file (asciiBytes "<p>Hello</p>\n"))]),
     ("lib".toList, .directory [("Bad.tsx".toList, .file elsewhere)])])]

/-- A diff that changes the first line of both files. -/
def projectDiff : List Char :=
  ("diff --git a/lib/Bad.tsx b/lib/Bad.tsx\n+++ b/lib/Bad.tsx\n@@ -0,0 +1 @@\n+x\n" ++
    "diff --git a/src/App.tsx b/src/App.tsx\n+++ b/src/App.tsx\n@@ -0,0 +1 @@\n+x\n").toList

/-- A scan of the project with that diff. -/
def projectWorkspace (elsewhere : List UInt8) : Workspace where
  tree := project elsewhere
  read := (project elsewhere).read
  diff _ := .ok projectDiff
  cwd := "/repo".toList
  config := {}
  verbose := false

theorem wellFormed_project (elsewhere : List UInt8) : (project elsewhere).WellFormed := by
  have hsource : (FileTree.directory
      [("App.tsx".toList, .file (asciiBytes "<p>Hello</p>\n"))]).WellFormed :=
    .directory (by simp) (by simp; decide) (by simpa using .file _)
  have helsewhere : (FileTree.directory [("Bad.tsx".toList, .file elsewhere)]).WellFormed :=
    .directory (by simp) (by simp; decide) (by simpa using .file _)
  have hrepo : (FileTree.directory
      [("src".toList, .directory [("App.tsx".toList, .file (asciiBytes "<p>Hello</p>\n"))]),
       ("lib".toList, .directory [("Bad.tsx".toList, .file elsewhere)])]).WellFormed :=
    .directory (by simp) (by simp; decide) (by simpa using ⟨hsource, helsewhere⟩)
  exact .directory (by simp) (by simp; decide) (by simpa using hrepo)

/-- The report on the file below the source root. -/
def appReport : FileReport :=
  ⟨"/repo/src/App.tsx".toList, "src/App.tsx".toList, [⟨1, "Hello".toList⟩]⟩

/-- Without marks both files are reported on. -/
theorem reports?_diffMode_project :
    let w := projectWorkspace (asciiBytes "<>Other</>\n")
    let a : Arguments := { diff := true }
    Path.isAbsolute w.cwd = true ∧ w.tree.WellFormed ∧ w.read = w.tree.read ∧
      a.diffOnly = true ∧ w.diff (.ofArguments a) = .ok projectDiff ∧
      (scan w a.whole).outcome.reports? = some [appReport] ∧
      ∃ found, (scan w a).outcome.reports? = some found ∧
        CoversChanges w a (changedLines w.cwd projectDiff) found ∧
        RestrictsReports w a (changedLines w.cwd projectDiff) [appReport] found := by
  intro w a
  have hcwd : Path.isAbsolute w.cwd = true := by decide
  have htree : w.tree.WellFormed := wellFormed_project _
  have hread : w.read = w.tree.read := rfl
  have ha : a.diffOnly = true := rfl
  have htext : w.diff (.ofArguments a) = .ok projectDiff := rfl
  have hfull : (scan w a.whole).outcome.reports? = some [appReport] := by decide +kernel
  have houtside : ∀ f ∈ (changedLines w.cwd projectDiff).files, w.filter.accepts f.1 = true →
      isBelow f.1 w.sourceRoot = false → (w.inspect ⟨f.1, none⟩).isAborted = false := by
    decide +kernel
  obtain ⟨hcovers, hrestricts⟩ := reports?_diffMode hcwd htree hread ha htext
  obtain ⟨found, hfound⟩ := (hrestricts _ hfull).2 fun _ => houtside
  exact ⟨hcwd, htree, hread, ha, htext, hfull, found, hfound, hcovers found hfound,
    (hrestricts _ hfull).1 found hfound⟩

/-- A file elsewhere that begins with a byte order mark aborts the scan of changed lines, and what
is reported below the source root is lost. -/
theorem reports?_diffMode_mark :
    let w := projectWorkspace (0xef :: 0xbb :: 0xbf :: asciiBytes "<>1</>\n")
    let a : Arguments := { diff := true }
    (scan w a.whole).outcome.reports? = some [appReport] ∧
      (changedLines w.cwd projectDiff).restrict? appReport = some appReport ∧
      (scan w a).outcome.reports? = none := by
  decide +kernel

end Untranslated
