import Untranslated.Proofs.DiffMode

/-!
# What a scan comes to

A scan looks at each of its files once and at none for the sake of another: what it reports of a
file depends on that file, and a file that cannot be read or parsed takes nothing from the others.
The one thing that does is a file that begins with a byte order mark and aborts the scan.

* `Workspace.jobs`: what a scan looks at, by the diff if it asks for one; `nodup_path_jobs` says
  that it looks at no file twice.
* `ReportsEach`: the outcome is what was found in each of the files, and their number.
* `mem_jobs_cases`: where the files that are looked at come from.
* `reports?_congr_off`: what is reported of other files does not depend on a file.
* `scan_reportsEach`: all of it for a scan.
-/

namespace Untranslated

variable {w : Workspace} {a : Arguments}

/-- The number of files looked at, if the scan came to look at files. -/
def Outcome.filesScanned? : Outcome → Option Nat
  | clean n | violations _ n => some n
  | noFiles | noChangedLines | diffFailed _ | aborted => none

/-- What a scan looks at; nothing if the diff it asks for is not to be had. -/
def Workspace.jobs (w : Workspace) (a : Arguments) : List Job :=
  if a.diffOnly then
    match w.diff (.ofArguments a) with
    | .ok diff => w.changedJobs a (changedLines w.cwd diff)
    | .error _ => []
  else (w.targets a).map fun p => ⟨p, none⟩

/-- Files are named, and none of them is looked at. -/
def Workspace.NamesNothing (w : Workspace) (a : Arguments) : Prop :=
  a.files.isEmpty = false ∧ w.explicitTargets a.files = []

/-! ### No file is looked at twice -/

section Paths

theorem nodup_eraseDups {α : Type} [BEq α] [LawfulBEq α] (l : List α) : l.eraseDups.Nodup := by
  cases l with
  | nil => simp
  | cons x l =>
    rw [List.eraseDups_cons, List.nodup_cons]
    refine ⟨?_, nodup_eraseDups _⟩
    rw [List.mem_eraseDups, List.mem_filter]
    simp
termination_by l.length
decreasing_by exact Nat.lt_succ_of_le (List.length_filter_le _ _)

/-- What is in the order of paths is there once. -/
theorem nodup_of_pairwise_order {paths : List (List Char)}
    (h : paths.Pairwise fun p q => Path.order p q = .lt) : paths.Nodup := by
  refine h.imp ?_
  rintro p _ hlt rfl
  exact ChangedLines.order_asymm p p hlt hlt

theorem nodup_targets (hcwd : Path.isAbsolute w.cwd = true) (htree : w.tree.WellFormed) :
    (w.targets a).Nodup := by
  unfold Workspace.targets
  split_ifs
  · exact nodup_of_pairwise_order (pairwise_rootTargets hcwd htree)
  · exact nodup_eraseDups _

theorem nodup_path_changedJobs {changed : ChangedLines}
    (hchanged : ChangedLines.Canonical changed.files) :
    ((w.changedJobs a changed).map Job.path).Nodup := by
  unfold Workspace.changedJobs
  split_ifs
  · rw [List.map_map]
    refine nodup_of_pairwise_order (List.pairwise_map.2 ?_)
    exact hchanged.ascending.filter _
  · rw [List.map_filterMap]
    refine (nodup_eraseDups _).filterMap fun p q r hp hq => ?_
    have hpath : ∀ {p' : List Char}, r ∈ ((changed.get? p').map fun lines =>
        (⟨p', some lines⟩ : Job)).map Job.path → r = p' := by
      intro p' hr
      rw [Option.map_map, Option.mem_map] at hr
      obtain ⟨lines, -, rfl⟩ := hr
      rfl
    exact (hpath hp).symm.trans (hpath hq)

/-- **No file is looked at twice.** -/
theorem nodup_path_jobs (hcwd : Path.isAbsolute w.cwd = true) (htree : w.tree.WellFormed) :
    ((w.jobs a).map Job.path).Nodup := by
  unfold Workspace.jobs
  split
  · split
    · exact nodup_path_changedJobs (canonical_changedLines _ _)
    · exact List.nodup_nil
  · rw [List.map_map]
    exact (List.map_id'' (fun _ => rfl) _).symm ▸ nodup_targets hcwd htree

end Paths

/-! ### Where files to look at come from -/

theorem accepts_of_mem_explicitTargets {files : List String} {p : List Char}
    (h : p ∈ w.explicitTargets files) : w.filter.accepts p = true := by
  rw [Workspace.explicitTargets, List.mem_eraseDups] at h
  exact (Bool.and_eq_true_iff.1 (List.mem_filter.1 h).2).2

/-- **A file that is looked at** is named, or lies below the source root, or is changed. -/
theorem mem_jobs_cases {job : Job} (h : job ∈ w.jobs a) :
    job.path ∈ w.explicitTargets a.files ∨ job.path ∈ w.rootTargets ∨
      w.filter.accepts job.path = true ∧
        ∃ diff lines, (job.path, lines) ∈ (changedLines w.cwd diff).files := by
  unfold Workspace.jobs at h
  split at h
  · split at h
    · next diff _ =>
      unfold Workspace.changedJobs at h
      split_ifs at h
      · obtain ⟨f, hf, rfl⟩ := List.mem_map.1 h
        obtain ⟨hchanged, haccepts⟩ := List.mem_filter.1 hf
        exact .inr (.inr ⟨haccepts, diff, f.2, hchanged⟩)
      · obtain ⟨p, hp, hjob⟩ := List.mem_filterMap.1 h
        obtain ⟨lines, -, rfl⟩ := Option.map_eq_some_iff.1 hjob
        exact .inl hp
    · cases h
  · obtain ⟨p, hp, rfl⟩ := List.mem_map.1 h
    unfold Workspace.targets at hp
    split_ifs at hp
    · exact .inr (.inl hp)
    · exact .inl hp

/-- Only files that the filter accepts are looked at. -/
theorem accepts_of_mem_jobs {job : Job} (h : job ∈ w.jobs a) :
    w.filter.accepts job.path = true := by
  rcases mem_jobs_cases h with hnamed | hroot | ⟨haccepts, -⟩
  · exact accepts_of_mem_explicitTargets hnamed
  · exact (List.mem_filter.1 hroot).2
  · exact haccepts

/-! ### How a scan goes -/

/-- A diff is asked for and cannot be had. -/
structure Workspace.DiffFails (w : Workspace) (a : Arguments) (fault : DiffFault) : Prop where
  named : ¬w.NamesNothing a
  diffOnly : a.diffOnly = true
  diff : w.diff (.ofArguments a) = .error fault

/-- Named files that are not looked at end a scan before a diff is asked for. -/
theorem scan_of_namesNothing (h : w.NamesNothing a) :
    scan w a = ⟨.noFiles, w.directoryNotes a.files, none⟩ := by
  obtain ⟨hfiles, htargets⟩ := h
  unfold scan
  rw [htargets, hfiles]
  rfl

theorem isEmpty_of_not_namesNothing (h : ¬w.NamesNothing a) :
    (!a.files.isEmpty && (w.explicitTargets a.files).isEmpty) = false := by
  rw [Bool.eq_false_iff, ne_eq, Bool.and_eq_true, Bool.not_eq_true', List.isEmpty_iff]
  exact h

/-- A diff that cannot be had ends a scan before a file is read. -/
theorem scan_of_diffFails {fault : DiffFault} (h : w.DiffFails a fault) :
    scan w a = ⟨.diffFailed fault, w.directoryNotes a.files ++
      w.say (.callingGit (DiffRequest.ofArguments a).gitArguments), some (.ofArguments a)⟩ := by
  have hfiles := isEmpty_of_not_namesNothing h.named
  unfold scan
  simp only [hfiles, h.diffOnly, h.diff, Bool.false_eq_true, if_true, if_false]

theorem jobs_of_namesNothing (h : w.NamesNothing a) : w.jobs a = [] := by
  obtain ⟨hfiles, htargets⟩ := h
  unfold Workspace.jobs Workspace.changedJobs Workspace.targets
  rw [htargets, hfiles]
  split
  · split <;> rfl
  · rfl

/-- **How a scan goes**: it looks at no file as named files are none to look at, as the diff cannot
be had or as nothing is left to look at, or else it comes to what looking at its files does. -/
theorem scan_cases (w : Workspace) (a : Arguments) :
    (w.NamesNothing a ∧ w.jobs a = [] ∧ (scan w a).outcome = .noFiles) ∨
      (∃ fault, w.DiffFails a fault ∧ w.jobs a = [] ∧ (scan w a).outcome = .diffFailed fault) ∨
      ((∀ fault, ¬w.DiffFails a fault) ∧ w.jobs a = [] ∧
        ((scan w a).outcome = .noFiles ∨ (scan w a).outcome = .noChangedLines)) ∨
      ((∀ fault, ¬w.DiffFails a fault) ∧ w.jobs a ≠ [] ∧
        (scan w a).outcome = w.outcomeOf (w.inspectAll (w.jobs a))) := by
  by_cases hnone : w.NamesNothing a
  · exact .inl ⟨hnone, jobs_of_namesNothing hnone, by rw [scan_of_namesNothing hnone]⟩
  right
  have hfiles := isEmpty_of_not_namesNothing hnone
  -- Only with a diff can the scan end before it looks for files that are left to look at.
  cases ha : a.diffOnly with
  | true =>
    cases hdiff : w.diff (.ofArguments a) with
    | error fault =>
      have hfails : w.DiffFails a fault := ⟨hnone, ha, hdiff⟩
      have hjobs : w.jobs a = [] := by rw [Workspace.jobs, if_pos ha, hdiff]
      exact .inl ⟨fault, hfails, hjobs, by rw [scan_of_diffFails hfails]⟩
    | ok diff =>
      right
      have hfails : ∀ fault, ¬w.DiffFails a fault := by
        intro fault h
        cases hdiff.symm.trans h.diff
      have hjobs : w.jobs a = w.changedJobs a (changedLines w.cwd diff) := by
        rw [Workspace.jobs, if_pos ha, hdiff]
      have houtcome : (scan w a).outcome = if (w.jobs a).isEmpty then .noChangedLines
          else w.outcomeOf (w.inspectAll (w.jobs a)) := by
        rw [hjobs]
        unfold scan
        simp only [hfiles, ha, hdiff, Bool.false_eq_true, if_true, if_false]
        split_ifs <;> rfl
      by_cases hempty : w.jobs a = []
      · exact .inl ⟨hfails, hempty, .inr (by rw [houtcome, hempty]; rfl)⟩
      · rw [if_neg (by simpa using hempty)] at houtcome
        exact .inr ⟨hfails, hempty, houtcome⟩
  | false =>
    right
    have hfails : ∀ fault, ¬w.DiffFails a fault := by
      intro fault h
      cases ha.symm.trans h.diffOnly
    have hjobs : w.jobs a = (w.targets a).map fun p => ⟨p, none⟩ := by
      rw [Workspace.jobs, if_neg (by simp [ha])]
    have houtcome : (scan w a).outcome = if (w.jobs a).isEmpty then .noFiles
        else w.outcomeOf (w.inspectAll (w.jobs a)) := by
      rw [hjobs]
      unfold scan
      simp only [hfiles, ha, Bool.false_eq_true, if_false]
      split_ifs <;> rfl
    by_cases hempty : w.jobs a = []
    · exact .inl ⟨hfails, hempty, .inl (by rw [houtcome, hempty]; rfl)⟩
    · rw [if_neg (by simpa using hempty)] at houtcome
      exact .inr ⟨hfails, hempty, houtcome⟩

/-! ### Each file for itself -/

/-- A report is what was found in a file that could be read and parsed, if anything was. -/
theorem fileReport?_eq_some {job : Job} {r : FileReport} : w.fileReport? job = some r ↔
    ∃ source found, w.read job.path = .ok source ∧
      classify w.config.options (Workspace.dialectOf job.path) source job.only = .ok found ∧
      found ≠ [] ∧ r = ⟨job.path, w.shown job.path, found⟩ := by
  unfold Workspace.fileReport? Workspace.inspect
  cases w.read job.path with
  | error fault => simp [Workspace.report?]
  | ok source =>
    dsimp only
    cases hclassify : classify w.config.options (Workspace.dialectOf job.path) source job.only with
    | error e => cases e <;> simp [Workspace.report?, hclassify]
    | ok found =>
      rw [w.report?_reported]
      cases found with
      | nil => simp [hclassify]
      | cons v found => simp [hclassify, eq_comm]

/-- The outcome is what was found in each of the files, and their number. -/
structure ReportsEach (w : Workspace) (jobs : List Job) (outcome : Outcome) : Prop where
  reports : outcome.reports? = some (jobs.filterMap w.fileReport?)
  filesScanned : outcome.filesScanned? = some jobs.length
  status : outcome.status = .failure ↔ ∃ job ∈ jobs, (w.fileReport? job).isSome = true

/-- Without an abort the outcome tells the reports of all files. -/
theorem outcomeOf_eq {jobs : List Job} (h : ∀ job ∈ jobs, (w.inspect job).isAborted = false) :
    w.outcomeOf (w.inspectAll jobs) =
      if (jobs.filterMap w.fileReport?).isEmpty then .clean jobs.length
      else .violations (jobs.filterMap w.fileReport?) jobs.length := by
  have haborted : (jobs.any fun job => (w.inspect job).isAborted) = false := by
    simpa using h
  unfold Workspace.outcomeOf Workspace.inspectAll
  simp only [List.any_map, List.filterMap_map, Function.comp_def, List.length_map, haborted]
  rfl

/-- Files none of which aborts are each reported on. -/
theorem reportsEach_outcomeOf {jobs : List Job}
    (h : ∀ job ∈ jobs, (w.inspect job).isAborted = false) :
    ReportsEach w jobs (w.outcomeOf (w.inspectAll jobs)) := by
  have hany : (∃ job ∈ jobs, (w.fileReport? job).isSome = true) ↔
      jobs.filterMap w.fileReport? ≠ [] := by
    rw [ne_eq, List.filterMap_eq_nil_iff]
    simp [Option.isSome_iff_ne_none]
  rw [outcomeOf_eq h]
  by_cases hempty : jobs.filterMap w.fileReport? = []
  · rw [hempty]
    exact ⟨congrArg some hempty.symm, rfl, by simp [hany, hempty, Outcome.status]⟩
  · rw [if_neg (by simpa using hempty)]
    exact ⟨rfl, rfl, by simp [hany, hempty, Outcome.status]⟩

/-- A file that aborts takes all reports with it. -/
theorem outcomeOf_eq_aborted {jobs : List Job} :
    w.outcomeOf (w.inspectAll jobs) = .aborted ↔
      ∃ job ∈ jobs, (w.inspect job).isAborted = true := by
  constructor
  · intro houtcome
    by_contra hnone
    have hjobs : ∀ job ∈ jobs, (w.inspect job).isAborted = false := by simpa using hnone
    rw [outcomeOf_eq hjobs] at houtcome
    split_ifs at houtcome
  · rintro ⟨job, hjob, haborted⟩
    have hany : ((w.inspectAll jobs).any (·.2.isAborted)) = true :=
      List.any_eq_true.2 ⟨_, List.mem_map.2 ⟨job, hjob, rfl⟩, haborted⟩
    rw [Workspace.outcomeOf, if_pos hany]

/-- What a scan reports is what its files report. -/
theorem reports?_eq_some {reports : List FileReport}
    (h : (scan w a).outcome.reports? = some reports) :
    reports = (w.jobs a).filterMap w.fileReport? := by
  rcases scan_cases w a with ⟨-, hjobs, houtcome⟩ | ⟨fault, -, hjobs, houtcome⟩ |
    ⟨-, hjobs, houtcome | houtcome⟩ | ⟨-, -, houtcome⟩
  · rw [houtcome] at h
    rw [hjobs]
    exact (Option.some.inj h).symm
  · rw [houtcome] at h
    cases h
  · rw [houtcome] at h
    rw [hjobs]
    exact (Option.some.inj h).symm
  · rw [houtcome] at h
    rw [hjobs]
    exact (Option.some.inj h).symm
  · rw [houtcome, w.reports?_outcomeOf, Workspace.reportsOf?_eq_some] at h
    exact h.2

section Providers

variable {read : List Char → Except ReadFault (List Char)} {p : List Char}

/-- What is reported of a file depends on its own text only. -/
theorem fileReport?_congr {job : Job} (h : read job.path = w.read job.path) :
    ({ w with read := read } : Workspace).fileReport? job = w.fileReport? job := by
  unfold Workspace.fileReport? Workspace.inspect
  dsimp only
  rw [h]
  rfl

/-- The report of a file, with one path left out. -/
theorem filter_fileReport? (w : Workspace) (job : Job) (p : List Char) :
    (w.fileReport? job).filter (·.path != p) =
      if job.path = p then none else w.fileReport? job := by
  cases h : w.fileReport? job with
  | none => split_ifs <;> rfl
  | some r =>
    rw [Option.filter_some, w.path_of_fileReport? h]
    by_cases hpath : job.path = p <;> simp [hpath]

/-- **What is reported of other files does not depend on a file**: whatever the text of one path
is, or if there is none, two scans that come to an end report the same on all other paths. -/
theorem reports?_congr_off (hread : ∀ q, q ≠ p → read q = w.read q)
    {reports reports' : List FileReport} (h : (scan w a).outcome.reports? = some reports)
    (h' : (scan { w with read := read } a).outcome.reports? = some reports') :
    reports'.filter (·.path != p) = reports.filter (·.path != p) := by
  have hreports' : reports' =
      (w.jobs a).filterMap ({ w with read := read } : Workspace).fileReport? := reports?_eq_some h'
  rw [reports?_eq_some h, hreports', List.filter_filterMap, List.filter_filterMap]
  refine List.filterMap_congr fun job _ => ?_
  rw [filter_fileReport?, filter_fileReport?]
  split_ifs with hpath
  · rfl
  · exact fileReport?_congr (hread _ hpath)

end Providers

/-! ### All of a scan -/

/-- What a scan has to do with its files. -/
structure IndependentScan (w : Workspace) (a : Arguments) : Prop where
  /-- No file is looked at twice. -/
  nodup : ((w.jobs a).map Job.path).Nodup
  /-- Named files that are not looked at end the scan, and no diff is asked for. -/
  noFiles : w.NamesNothing a → scan w a = ⟨.noFiles, w.directoryNotes a.files, none⟩
  /-- A diff that cannot be had ends the scan, whatever the files hold. -/
  diffFailed : ∀ fault, w.DiffFails a fault → (scan w a).outcome = .diffFailed fault ∧
    ∀ read, scan { w with read := read } a = scan w a
  /-- A scan that looks at files reports what is found in each, unless one of them aborts it. -/
  reports : w.jobs a ≠ [] → (∀ job ∈ w.jobs a, (w.inspect job).isAborted = false) →
    ReportsEach w (w.jobs a) (scan w a).outcome
  /-- What is reported of a file is what is found in it, if it can be read and parsed. -/
  report : ∀ job r, w.fileReport? job = some r ↔ ∃ source found, w.read job.path = .ok source ∧
    classify w.config.options (Workspace.dialectOf job.path) source job.only = .ok found ∧
    found ≠ [] ∧ r = ⟨job.path, w.shown job.path, found⟩
  /-- The scan fails if the diff cannot be had or something is reported. -/
  status : (scan w a).outcome ≠ .aborted → ((scan w a).outcome.status = .failure ↔
    (∃ fault, w.DiffFails a fault) ∨ ∃ job ∈ w.jobs a, (w.fileReport? job).isSome = true)
  /-- Only a file that begins with a byte order mark aborts a scan. -/
  aborted : (scan w a).outcome = .aborted → ∃ job ∈ w.jobs a,
    (w.inspect job).isAborted = true ∧ ∃ rest, w.read job.path = .ok ('\ufeff' :: rest)
  /-- What one path holds changes no report but that of its file. -/
  independent : ∀ p read, (∀ q, q ≠ p → read q = w.read q) → ∀ reports reports',
    (scan w a).outcome.reports? = some reports →
    (scan { w with read := read } a).outcome.reports? = some reports' →
    reports'.filter (·.path != p) = reports.filter (·.path != p)

theorem status_scan (h : (scan w a).outcome ≠ .aborted) :
    (scan w a).outcome.status = .failure ↔
      (∃ fault, w.DiffFails a fault) ∨ ∃ job ∈ w.jobs a, (w.fileReport? job).isSome = true := by
  rcases scan_cases w a with ⟨hnone, hjobs, houtcome⟩ | ⟨fault, hfails, hjobs, houtcome⟩ |
    ⟨hfails, hjobs, houtcome | houtcome⟩ | ⟨hfails, hjobs, houtcome⟩
  · have hfails : ∀ fault, ¬w.DiffFails a fault := fun fault hfails => hfails.named hnone
    simp [houtcome, hjobs, hfails, Outcome.status]
  · have hfails : ∃ fault, w.DiffFails a fault := ⟨fault, hfails⟩
    simp [houtcome, hfails, Outcome.status]
  · simp [houtcome, hjobs, hfails, Outcome.status]
  · simp [houtcome, hjobs, hfails, Outcome.status]
  · have hnone : ∀ job ∈ w.jobs a, (w.inspect job).isAborted = false := by
      rw [houtcome, ne_eq, outcomeOf_eq_aborted] at h
      simpa using h
    rw [houtcome, (reportsEach_outcomeOf hnone).status]
    simp [hfails]

theorem exists_of_aborted (h : (scan w a).outcome = .aborted) : ∃ job ∈ w.jobs a,
    (w.inspect job).isAborted = true ∧ ∃ rest, w.read job.path = .ok ('\ufeff' :: rest) := by
  rcases scan_cases w a with ⟨-, -, houtcome⟩ | ⟨fault, -, -, houtcome⟩ |
    ⟨-, -, houtcome | houtcome⟩ | ⟨-, -, houtcome⟩
  case inr.inr.inr =>
    rw [houtcome, outcomeOf_eq_aborted] at h
    obtain ⟨job, hjob, haborted⟩ := h
    exact ⟨job, hjob, haborted, Workspace.exists_mark_of_isAborted haborted⟩
  all_goals cases houtcome.symm.trans h

/-- **A scan reports on each of its files, and on each by itself**, unless it is aborted, which only
a file that begins with a byte order mark can do. -/
theorem independentScan (hcwd : Path.isAbsolute w.cwd = true) (htree : w.tree.WellFormed)
    (a : Arguments) : IndependentScan w a where
  nodup := nodup_path_jobs hcwd htree
  noFiles := scan_of_namesNothing
  diffFailed fault h := by
    refine ⟨by rw [scan_of_diffFails h], fun read => ?_⟩
    have h' : ({ w with read := read } : Workspace).DiffFails a fault :=
      ⟨h.named, h.diffOnly, h.diff⟩
    rw [scan_of_diffFails h, scan_of_diffFails h']
    rfl
  reports hjobs h := by
    rcases scan_cases w a with ⟨-, hnil, -⟩ | ⟨-, -, hnil, -⟩ | ⟨-, hnil, -⟩ | ⟨-, -, houtcome⟩
    case inr.inr.inr =>
      rw [houtcome]
      exact reportsEach_outcomeOf h
    all_goals exact absurd hnil hjobs
  report _ _ := fileReport?_eq_some
  status := status_scan
  aborted := exists_of_aborted
  independent _ _ hread _ _ h h' := reports?_congr_off hread h h'

/-- Two named files without marks are each reported on. -/
theorem independentScan_project :
    let w := projectWorkspace (asciiBytes "<>Other</>\n")
    let a : Arguments := { files := ["src/App.tsx", "lib/Bad.tsx"] }
    Path.isAbsolute w.cwd = true ∧ w.tree.WellFormed ∧ w.jobs a ≠ [] ∧
      (∀ job ∈ w.jobs a, (w.inspect job).isAborted = false) ∧ IndependentScan w a ∧
      (scan w a).outcome.reports? = some ((w.jobs a).filterMap w.fileReport?) := by
  intro w a
  have hcwd : Path.isAbsolute w.cwd = true := by decide
  have htree : w.tree.WellFormed := wellFormed_project _
  have hjobs : w.jobs a ≠ [] := by decide +kernel
  have haborted : ∀ job ∈ w.jobs a, (w.inspect job).isAborted = false := by decide +kernel
  have hscan := independentScan hcwd htree a
  exact ⟨hcwd, htree, hjobs, haborted, hscan, (hscan.reports hjobs haborted).reports⟩

/-- A named file that begins with a byte order mark aborts the scan, and the report of the other
one, the same without it, is lost. -/
theorem aborted_scan_project :
    let w := projectWorkspace (0xef :: 0xbb :: 0xbf :: asciiBytes "<>1</>\n")
    let a : Arguments := { files := ["src/App.tsx", "lib/Bad.tsx"] }
    let read := fun p => if p = "/repo/lib/Bad.tsx".toList then .error .missing else w.read p
    (w.jobs a).filterMap w.fileReport? = [appReport] ∧
      (scan { w with read := read } a).outcome.reports? = some [appReport] ∧
      (scan w a).outcome = .aborted := by
  decide +kernel

end Untranslated
