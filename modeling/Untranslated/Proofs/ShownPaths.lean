import Untranslated.Proofs.DisplayedPaths
import Untranslated.Proofs.WalkOrder

/-!
# What is shown leads back

A path is shown by the names behind those of the base, if the base leads to it, and as it is if not.
Read again as seen from the base, what is shown has the normal form that the path had: so no two
files are shown alike, and a user who names a file as it is shown names this file.

* `display_cases`: how a path is shown.
* `normalize_display`: **what is shown leads back**, backslashes aside.
* `normalize_of_mem_jobs`: what a scan looks at has the paths of normal forms.
* `shown_leadsBack`: what this means for files, for the files that a user names and for reports.
-/

namespace Untranslated

namespace Path

variable {base : List Char} {names : List (List Char)}

/-! ### How a path is shown -/

/-- A text is left only of what begins with the components of the base. -/
theorem isPrefix_of_below {text rest : List Char} {cs : List (Component × List Char)}
    {above : List Component} (h : below text cs above = some rest) : above <+: cs.map (·.1) := by
  induction above generalizing text cs with
  | nil => exact List.nil_prefix
  | cons d above ih =>
    cases cs with
    | nil => cases h
    | cons c cs =>
      obtain ⟨c, behind⟩ := c
      rw [below] at h
      split_ifs at h with hc
      rw [hc]
      exact List.cons_prefix_cons.2 ⟨rfl, ih h⟩

theorem relative?_eq_none {p : List Char} (h : ¬components base <+: components p) :
    relative? base p = none := by
  have hbelow : below p (split p) (components base) = none := by
    cases hrest : below p (split p) (components base) with
    | none => rfl
    | some rest => exact absurd (isPrefix_of_below hrest) h
  rw [relative?, hbelow]
  rfl

/-- Of a base only its components are looked at. -/
theorem display_congr {base' : List Char} (h : components base = components base') (p : List Char) :
    display base p = display base' p := by
  rw [display, display, relative?, relative?, h]

/-- The components of a base that leads to a place are the root and some of its names. -/
theorem exists_place (hbase : isAbsolute base = true) (h : ∀ s ∈ names, IsName s)
    (hbelow : components base <+: components (rooted names)) :
    ∃ place more, names = place ++ more ∧ components base = components (rooted place) := by
  obtain ⟨tail, hcomponents, -⟩ := components_of_isAbsolute hbase
  rw [hcomponents, components_rooted h] at hbelow
  obtain ⟨rest, hrest⟩ := (List.cons_prefix_cons.1 hbelow).2
  obtain ⟨place, more, rfl, rfl, -⟩ := List.map_eq_append_iff.1 hrest.symm
  refine ⟨place, more, rfl, ?_⟩
  rw [hcomponents, components_rooted (List.forall_mem_append.1 h).1]

/-- **How a path is shown**: by the names behind those of the base, if it is the base or below it,
and as it is otherwise. -/
theorem display_cases (hbase : isAbsolute base = true) (h : ∀ s ∈ names, IsName s) :
    (∃ place more, names = place ++ more ∧ components base = components (rooted place) ∧
      display base (rooted names) = slashed (render (more.map .name))) ∨
    display base (rooted names) = slashed (rooted names) := by
  by_cases hbelow : components base <+: components (rooted names)
  · left
    obtain ⟨place, more, rfl, hplace⟩ := exists_place hbase h hbelow
    exact ⟨place, more, rfl, hplace, by rw [display_congr hplace, display_rooted h]⟩
  · right
    rw [display, relative?_eq_none hbelow]
    rfl

/-! ### The way back -/

theorem slashed_eq_self {s : List Char} (h : '\\' ∉ s) : slashed s = s := by
  have hself : ∀ c ∈ s, (if c == '\\' then '/' else c) = c := by
    intro c hc
    have hne : c ≠ '\\' := fun heq => h (heq ▸ hc)
    simp [hne]
  rw [slashed, List.map_congr_left hself, List.map_id']

theorem isAbsolute_render (h : ∀ s ∈ names, IsName s) :
    isAbsolute (render (names.map .name)) = false := by
  cases names with
  | nil => rfl
  | cons s names =>
    obtain ⟨htake, -⟩ := nextComponent_render (h s List.mem_cons_self) names
    -- A slash at the head would leave the first name empty.
    cases hrender : render ((s :: names).map .name) with
    | nil => rfl
    | cons c rest =>
      have hc : c ≠ '/' := by
        rintro rfl
        rw [hrender] at htake
        exact (h s List.mem_cons_self).ne_nil htake.symm
      simpa [isAbsolute] using hc

/-- The steps of a path from the root on are its components behind the root. -/
theorem steps_eq_tail (hbase : isAbsolute base = true) : steps base = (components base).tail := by
  obtain ⟨rest, rfl⟩ : ∃ rest, base = '/' :: rest := List.head?_eq_some_iff.1 (eq_of_beq hbase)
  rw [components_slash, steps_slash]
  rfl

/-- Names lead below the place that a base leads to. -/
theorem normalize_render (hbase : isAbsolute base = true) (h : ∀ s ∈ names, IsName s) :
    normalize base (render (names.map .name)) =
      rooted (((steps base).foldl descend []).reverse ++ names) := by
  have hsteps : steps (render (names.map .name)) = names.map .name :=
    (steps_slash _).symm.trans (steps_rooted h)
  rw [normalize_eq hbase, steps_join, isAbsolute_render h, if_neg Bool.false_ne_true, hsteps,
    List.foldl_append, foldl_descend_names, List.reverse_append, List.reverse_reverse]

/-- **What is shown leads back**, if no backslash was turned in it. -/
theorem normalize_display (hbase : isAbsolute base = true) {p : List Char}
    (hp : normalize base p = p) (hslash : '\\' ∉ p) : normalize base (display base p) = p := by
  obtain ⟨names, hnames, heq⟩ := exists_rooted hbase p
  rw [hp] at heq
  subst heq
  rcases display_cases hbase hnames with ⟨place, more, rfl, hplace, hshown⟩ | hshown
  · -- The text behind the base is a part of the path.
    have hmore : '\\' ∉ render (more.map .name) := by
      intro hmem
      have hne : more ≠ [] := by
        rintro rfl
        cases hmem
      apply hslash
      rw [rooted_append_of_ne_nil hne]
      exact List.mem_append_right _ (List.mem_cons_of_mem _ hmem)
    have hsteps : steps base = place.map .name := by
      rw [steps_eq_tail hbase, hplace, components_rooted (List.forall_mem_append.1 hnames).1]
      rfl
    rw [hshown, slashed_eq_self hmore, normalize_render hbase (List.forall_mem_append.1 hnames).2,
      hsteps, foldl_descend_names, List.append_nil, List.reverse_reverse]
  · rw [hshown, slashed_eq_self hslash, hp]

end Path

open Untranslated.Path (normalize display normalize_display)

namespace Workspace

variable {w : Workspace} {a : Arguments}

/-- **What a scan looks at has the paths of normal forms.** -/
theorem normalize_of_mem_jobs (hcwd : Path.isAbsolute w.cwd = true) (htree : w.tree.WellFormed)
    {job : Job} (h : job ∈ w.jobs a) : normalize w.cwd job.path = job.path := by
  rcases mem_jobs_cases h with hnamed | hroot | ⟨-, diff, lines, hchanged⟩
  · obtain ⟨⟨f, -, hf⟩, -⟩ := mem_explicitTargets_iff.1 hnamed
    rw [← hf, Path.normalize_normalize hcwd]
  · exact normalize_of_mem_filesBelow htree hcwd (List.mem_filter.1 hroot).1
  · obtain ⟨q, hq⟩ : ∃ q, normalize w.cwd q = job.path :=
      exists_normalize_of_mem_changedLines hchanged
    rw [← hq, Path.normalize_normalize hcwd]

/-- Files named as they are shown are these files. -/
theorem named_shown (hcwd : Path.isAbsolute w.cwd = true) {paths : List (List Char)}
    (h : ∀ p ∈ paths, normalize w.cwd p = p ∧ '\\' ∉ p) :
    w.named (paths.map fun p => .ofList (w.shown p)) = paths := by
  have hback : ∀ p ∈ paths, normalize w.cwd (w.shown p) = p := by
    intro p hp
    obtain ⟨hnormal, hslash⟩ := h p hp
    rw [shown, normalize_display hcwd hnormal hslash]
  have hmap : w.named (paths.map fun p => .ofList (w.shown p)) =
      paths.map fun p => normalize w.cwd (w.shown p) := by
    simp only [named, List.map_map, Function.comp_def, String.toList_ofList]
  rw [hmap, List.map_congr_left hback, List.map_id']

/-- A report is shown by a path that names the file it is on, and no other. -/
theorem explicitTargets_shown (hcwd : Path.isAbsolute w.cwd = true) (htree : w.tree.WellFormed)
    (hread : w.read = w.tree.read) {reports : List FileReport}
    (h : (scan w a).outcome.reports? = some reports) {r : FileReport} (hr : r ∈ reports)
    (hslash : '\\' ∉ r.path) : w.explicitTargets [.ofList r.shown] = [r.path] := by
  rw [reports?_eq_some h] at hr
  obtain ⟨job, hjob, hreport⟩ := List.mem_filterMap.1 hr
  obtain ⟨source, found, hsource, -, -, rfl⟩ := fileReport?_eq_some.1 hreport
  have hnormal := normalize_of_mem_jobs hcwd htree hjob
  have hnamed : w.named [.ofList (w.shown job.path)] = [job.path] :=
    named_shown hcwd (List.forall_mem_singleton.2 ⟨hnormal, hslash⟩)
  have hfile : w.tree.isFile job.path = true := by
    rw [hread] at hsource
    exact FileTree.isFile_of_read hsource
  rw [explicitTargets, hnamed, List.filter_singleton, hfile, accepts_of_mem_jobs hjob]
  rfl

end Workspace

/-- **What is shown leads back**, backslashes aside: as seen from a base, what is shown has the
normal form that the path has. So no two files are shown alike, files named as they are shown are
these files, and what a report shows names the file that it is on. -/
theorem shown_leadsBack {base : List Char} (hbase : Path.isAbsolute base = true) :
    (∀ p, normalize base p = p → '\\' ∉ p → normalize base (display base p) = p) ∧
      (∀ p q, normalize base p = p → normalize base q = q → '\\' ∉ p → '\\' ∉ q →
        display base p = display base q → p = q) ∧
      ∀ w : Workspace, w.cwd = base →
        (∀ paths : List (List Char), (∀ p ∈ paths, normalize base p = p ∧ '\\' ∉ p) →
          w.named (paths.map fun p => .ofList (w.shown p)) = paths) ∧
        (w.tree.WellFormed → w.read = w.tree.read → ∀ a reports,
          (scan w a).outcome.reports? = some reports → ∀ r ∈ reports, '\\' ∉ r.path →
            w.explicitTargets [.ofList r.shown] = [r.path]) := by
  have hback : ∀ p, normalize base p = p → '\\' ∉ p → normalize base (display base p) = p :=
    fun p => normalize_display hbase
  refine ⟨hback, fun p q hp hq hp' hq' heq => ?_, ?_⟩
  · rw [← hback p hp hp', heq, hback q hq hq']
  · rintro w rfl
    refine ⟨fun paths => Workspace.named_shown hbase, ?_⟩
    intro htree hread a reports h r hr hslash
    exact Workspace.explicitTargets_shown hbase htree hread h hr hslash

/-- A file of the project, a file of a directory whose name begins like that of the project, and the
project itself, as they are shown in the project; the report of a scan names its file. -/
theorem shown_leadsBack_project :
    let w := projectWorkspace (asciiBytes "<>Other</>\n")
    let paths := ["/repo/src/App.tsx", "/repo2/App.tsx", "/repo"].map String.toList
    Path.isAbsolute w.cwd = true ∧ (∀ p ∈ paths, normalize w.cwd p = p ∧ '\\' ∉ p) ∧
      paths.map w.shown = ["src/App.tsx", "/repo2/App.tsx", ""].map String.toList ∧
      w.named (paths.map fun p => .ofList (w.shown p)) = paths ∧
      (scan w {}).outcome.reports? = some [appReport] ∧
      w.explicitTargets [.ofList appReport.shown] = [appReport.path] := by
  intro w paths
  have hcwd : Path.isAbsolute w.cwd = true := by decide
  have hpaths : ∀ p ∈ paths, normalize w.cwd p = p ∧ '\\' ∉ p := by decide +kernel
  have hshown : paths.map w.shown = ["src/App.tsx", "/repo2/App.tsx", ""].map String.toList := by
    decide +kernel
  have hreports : (scan w {}).outcome.reports? = some [appReport] := by decide +kernel
  obtain ⟨-, -, hback⟩ := shown_leadsBack hcwd
  obtain ⟨hnamed, hreported⟩ := hback w rfl
  have htarget := hreported (wellFormed_project _) rfl {} _ hreports appReport (by simp) (by decide)
  exact ⟨hcwd, hpaths, hshown, hnamed paths hpaths, hreports, htarget⟩

end Untranslated
