import Untranslated.Proofs.SecondReading
import Untranslated.Scan

/-!
# What a scan reports

A scan looks at files one after another, and what it reports is what is found in each
(`reportsOf?`), whether all lines count or only changed ones: then a file is looked at in the same
way, and what is found on other lines is left out (`fileReport?_some`). A scan that is aborted
reports nothing; only a file that begins with a byte order mark does that
(`exists_mark_of_isAborted`).

* `reports?_scan_whole`, `reports?_scan_diff`: what the two kinds of scan report.
-/

namespace Untranslated

/-- The same is asked for, but all lines count. -/
def Arguments.whole (a : Arguments) : Arguments :=
  { a with diff := false, staged := false }

/-- What is reported; `none` if the scan came to no end. -/
def Outcome.reports? : Outcome → Option (List FileReport)
  | noFiles | noChangedLines | clean _ => some []
  | violations reports _ => some reports
  | diffFailed _ | aborted => none

/-- The report of the violations on some lines, if there are any. -/
def FileReport.onLines? (lines : List Nat) (r : FileReport) : Option FileReport :=
  let kept := r.violations.filter fun v => lines.contains v.line
  if kept.isEmpty then none else some { r with violations := kept }

theorem FileReport.onLines?_eq_some {lines : List Nat} {r r' : FileReport} :
    r.onLines? lines = some r' ↔ (∃ v ∈ r.violations, v.line ∈ lines) ∧
      r' = { r with violations := r.violations.filter fun v => lines.contains v.line } := by
  unfold onLines?
  dsimp only
  split_ifs with hempty
  · constructor
    · rintro ⟨⟩
    · rintro ⟨⟨v, hv, hline⟩, -⟩
      have hkept := List.filter_eq_nil_iff.1 (List.isEmpty_iff.1 hempty) v hv
      exact absurd (List.contains_iff_mem.2 hline) hkept
  · obtain ⟨v, hv⟩ := List.exists_mem_of_ne_nil _ fun hnil => hempty (List.isEmpty_iff.2 hnil)
    obtain ⟨hmem, hline⟩ := List.mem_filter.1 hv
    simp only [Option.some.injEq, eq_comm (a := r')]
    exact ⟨fun h => ⟨⟨v, hmem, List.contains_iff_mem.1 hline⟩, h⟩, fun h => h.2⟩

namespace Workspace

variable (w : Workspace)

/-! ### Reports of a job -/

/-- The report of a job, if there is something to report. -/
def fileReport? (job : Job) : Option FileReport :=
  w.report? job (w.inspect job)

/-- The reports of jobs, unless one of them is aborted. -/
def reportsOf? (jobs : List Job) : Option (List FileReport) :=
  if jobs.any fun job => (w.inspect job).isAborted then none
  else some (jobs.filterMap w.fileReport?)

theorem reports?_outcomeOf (jobs : List Job) :
    (w.outcomeOf (w.inspectAll jobs)).reports? = w.reportsOf? jobs := by
  unfold outcomeOf inspectAll reportsOf?
  simp only [List.any_map, List.filterMap_map, Function.comp_def]
  split_ifs with haborted hempty
  · rfl
  · rw [List.isEmpty_iff] at hempty
    exact congrArg some hempty.symm
  · rfl

theorem report?_reported (job : Job) (found : List Violation) :
    w.report? job (.reported found) =
      if found.isEmpty then none else some ⟨job.path, w.shown job.path, found⟩ := by
  cases found <;> rfl

/-- Looking at some lines of a file comes to the same as looking at all of them, with the other
lines left out. -/
theorem fileReport?_some (p : List Char) (lines : List Nat) :
    w.fileReport? ⟨p, some lines⟩ = (w.fileReport? ⟨p, none⟩).bind (·.onLines? lines) := by
  unfold fileReport? inspect
  dsimp only
  cases w.read p with
  | error => rfl
  | ok source =>
    dsimp only
    rw [classify_some]
    cases classify w.config.options (dialectOf p) source none with
    | error e => cases e <;> rfl
    | ok found =>
      simp only [Except.map, report?_reported]
      cases found <;> rfl

/-- Whether a file can be worked on does not depend on the lines that count. -/
theorem isAborted_inspect_some (p : List Char) (lines : List Nat) :
    (w.inspect ⟨p, some lines⟩).isAborted = (w.inspect ⟨p, none⟩).isAborted := by
  unfold inspect
  dsimp only
  cases w.read p with
  | error => rfl
  | ok source =>
    dsimp only
    rw [classify_some]
    cases classify w.config.options (dialectOf p) source none with
    | error e => cases e <;> rfl
    | ok found => rfl

theorem path_of_fileReport? {job : Job} {r : FileReport} (h : w.fileReport? job = some r) :
    r.path = job.path := by
  unfold fileReport? report? at h
  split at h
  · cases h
  · obtain rfl := Option.some.inj h
    rfl
  · cases h

variable {w}

theorem reportsOf?_eq_some {jobs : List Job} {reports : List FileReport} :
    w.reportsOf? jobs = some reports ↔
      (∀ job ∈ jobs, (w.inspect job).isAborted = false) ∧
        reports = jobs.filterMap w.fileReport? := by
  unfold reportsOf?
  split_ifs with haborted
  · obtain ⟨job, hjob, habort⟩ := List.any_eq_true.1 haborted
    constructor
    · rintro ⟨⟩
    · rintro ⟨hall, -⟩
      rw [hall job hjob] at habort
      cases habort
  · have hall : ∀ job ∈ jobs, (w.inspect job).isAborted = false := by
      simpa using haborted
    constructor
    · intro h
      exact ⟨hall, (Option.some.inj h).symm⟩
    · rintro ⟨-, rfl⟩
      rfl

/-- A file that is reported on or aborted can be read. -/
theorem exists_read {job : Job}
    (h : (w.fileReport? job).isSome = true ∨ (w.inspect job).isAborted = true) :
    ∃ source, w.read job.path = .ok source := by
  unfold fileReport? inspect at h
  cases hread : w.read job.path with
  | error fault =>
    rw [hread] at h
    rcases h with h | h <;> cases h
  | ok source => exact ⟨source, rfl⟩

/-- Only a script that begins with a byte order mark aborts a scan. -/
theorem exists_mark_of_isAborted {job : Job} (h : (w.inspect job).isAborted = true) :
    ∃ rest, w.read job.path = .ok ('\ufeff' :: rest) := by
  unfold inspect at h
  cases hread : w.read job.path with
  | error => rw [hread] at h; cases h
  | ok source =>
    rw [hread] at h
    dsimp only at h
    by_cases hmark : source.head? = some '\ufeff'
    · obtain ⟨rest, rfl⟩ := List.head?_eq_some_iff.1 hmark
      exact ⟨rest, rfl⟩
    · have hcut := classify_ne_splitCharacter w.config.options (dialectOf job.path) job.only hmark
      split at h
      · cases h
      · cases h
      · next heq => exact absurd heq hcut

end Workspace

/-! ### Reports of a scan -/

variable {w : Workspace} {a : Arguments}

/-- A scan of all lines reports on its targets. -/
theorem reports?_scan_whole (w : Workspace) (a : Arguments) : (scan w a.whole).outcome.reports? =
    w.reportsOf? ((w.targets a).map fun p => ⟨p, none⟩) := by
  have htargets : w.targets a.whole = w.targets a := rfl
  have hfiles : a.whole.files = a.files := rfl
  have hdiffOnly : a.whole.diffOnly = false := rfl
  unfold scan
  simp only [htargets, hfiles, hdiffOnly, Bool.false_eq_true, if_false]
  split_ifs with hnone hjobs
  · obtain ⟨hfiles, htargets⟩ : a.files.isEmpty = false ∧ w.explicitTargets a.files = [] := by
      simpa using hnone
    rw [Workspace.targets, hfiles, if_neg Bool.false_ne_true, htargets]
    rfl
  · rw [List.isEmpty_iff.1 hjobs]
    rfl
  · exact w.reports?_outcomeOf _

/-- A scan of changed lines reports on its jobs. -/
theorem reports?_scan_diff (ha : a.diffOnly = true) {text : List Char}
    (h : w.diff (.ofArguments a) = .ok text) : (scan w a).outcome.reports? =
    w.reportsOf? (w.changedJobs a (changedLines w.cwd text)) := by
  unfold scan
  simp only [ha, h, if_true]
  split_ifs with hnone hjobs
  · obtain ⟨hfiles, htargets⟩ : a.files.isEmpty = false ∧ w.explicitTargets a.files = [] := by
      simpa using hnone
    rw [Workspace.changedJobs, hfiles, if_neg Bool.false_ne_true, htargets]
    rfl
  · rw [List.isEmpty_iff.1 hjobs]
    rfl
  · exact w.reports?_outcomeOf _

end Untranslated
