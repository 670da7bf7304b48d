import Mathlib.Logic.Relation
import Untranslated.Proofs.DiffMode
import Untranslated.Proofs.PathSteps
import Untranslated.Proofs.ScanOutcomes

/-!
# Spellings of a path

A path is read as steps, and its normal form is the place that they lead to. So paths with the same
steps, or with detours among them that come back to where they left, have one normal form
(`oneNormalForm`).

What a scan knows of a named file it knows under the normal form. So a file is listed once, its
changed lines are found, and the outcome is the same, however it is spelled (`knowsFiles`).
-/

namespace Untranslated

namespace Path

/-! ### Normal forms -/

theorem steps_rooted {names : List (List Char)} (h : ∀ s ∈ names, IsName s) :
    steps (rooted names) = names.map .name := by
  have hslash : rooted names = '/' :: render (names.map .name) := rfl
  have hcomponents := components_rooted h
  rw [hslash, components_slash] at hcomponents
  rw [hslash, steps_slash]
  exact (List.cons.inj hcomponents).2

/-- Names lead below the place where they begin. -/
theorem foldl_descend_names (names above : List (List Char)) :
    (names.map Component.name).foldl descend above = names.reverse ++ above := by
  induction names generalizing above with
  | nil => rfl
  | cons s names ih =>
    rw [List.map_cons, List.foldl_cons, ih, List.reverse_cons, List.append_assoc]
    rfl

section Base

variable {base : List Char}

/-- A path of names from the root on is its own normal form. -/
theorem normalize_rooted (hbase : isAbsolute base = true) {names : List (List Char)}
    (h : ∀ s ∈ names, IsName s) : normalize base (rooted names) = rooted names := by
  have habsolute : isAbsolute (rooted names) = true := rfl
  rw [normalize_eq hbase, steps_join, if_pos habsolute, steps_rooted h, foldl_descend_names,
    List.append_nil, List.reverse_reverse]

theorem normalize_normalize (hbase : isAbsolute base = true) (p : List Char) :
    normalize base (normalize base p) = normalize base p := by
  obtain ⟨names, hnames, hp⟩ := exists_rooted hbase p
  rw [hp, normalize_rooted hbase hnames]

theorem isAbsolute_normalize (hbase : isAbsolute base = true) (p : List Char) :
    isAbsolute (normalize base p) = true := by
  obtain ⟨names, -, hp⟩ := exists_rooted hbase p
  rw [hp]
  rfl

/-- The steps of a normal form lead where the steps did that it was made of. -/
theorem foldl_steps_normalize (hbase : isAbsolute base = true) (p : List Char) :
    (steps (normalize base p)).foldl descend [] = (steps (join base p)).foldl descend [] := by
  have hnames : ∀ s ∈ ((steps (join base p)).foldl descend []).reverse, IsName s := by
    intro s hs
    have hsteps : ∀ c ∈ steps (join base p), IsStep c := fun _ hc => isStep_of_mem_steps hc
    exact isName_of_mem_foldl hsteps (by simp) s (List.mem_reverse.1 hs)
  rw [normalize_eq hbase, steps_rooted hnames, foldl_descend_names, List.reverse_reverse,
    List.append_nil]

/-- **A path as seen from another one has the normal form that it has as seen from the normal form
of that one.** -/
theorem normalize_join (hbase : isAbsolute base = true) (p q : List Char) :
    normalize base (join p q) = normalize (normalize base p) q := by
  rw [normalize_eq hbase, normalize_eq (isAbsolute_normalize hbase p)]
  congr 2
  by_cases hq : isAbsolute q = true
  · have hjoin : ∀ base : List Char, join base q = q := fun _ => if_pos hq
    rw [hjoin, hjoin, hjoin]
  · have hsteps : ∀ base : List Char, steps (join base q) = steps base ++ steps q := by
      intro base
      rw [steps_join, if_neg hq]
    -- The path that `q` is joined to decides whether both begin at the root.
    have habsolute : isAbsolute (join p q) = true ↔ isAbsolute p = true := by
      unfold join
      rw [if_neg hq]
      cases p with
      | nil => exact iff_of_false hq (by decide)
      | cons c p => split_ifs <;> rfl
    have hboth : steps (join base (join p q)) = steps (join base p) ++ steps q := by
      rw [steps_join, steps_join base p, hsteps]
      by_cases hp : isAbsolute p = true
      · rw [if_pos (habsolute.2 hp), if_pos hp]
      · rw [if_neg (mt habsolute.1 hp), if_neg hp, List.append_assoc]
    rw [hboth, hsteps, List.foldl_append, List.foldl_append, foldl_steps_normalize hbase]

end Base

/-! ### Detours -/

/-- Parts of a path that lead back to where they begin: nothing, a dot, or a name and out of it. -/
inductive IsDetour : List Char → Prop
  | nothing : IsDetour []
  | dot : IsDetour ['.']
  | inAndOut {s : List Char} (h : IsName s) : IsDetour (s ++ ['/', '.', '.'])

/-- A path with a detour more: with a slash behind it at the head of the path or behind one of its
slashes, or with a slash before it at the end. -/
inductive AddsDetour : List Char → List Char → Prop
  | within {before after m : List Char} (hm : IsDetour m) (hbefore : IsDirectoryText before)
      (hhead : before = [] → isAbsolute after = false ∧ m ≠ []) :
      AddsDetour (before ++ after) (before ++ (m ++ '/' :: after))
  | behind {p m : List Char} (hm : IsDetour m) (hp : p ≠ []) : AddsDetour p (p ++ '/' :: m)

/-- The paths differ in detours only. -/
def SpelledAlike : List Char → List Char → Prop :=
  Relation.EqvGen AddsDetour

/-- A detour comes back to where it begins. -/
theorem IsDetour.foldl_descend {m : List Char} (h : IsDetour m) (names : List (List Char)) :
    (steps m).foldl descend names = names := by
  cases h with
  | nothing => rfl
  | dot => rfl
  | inAndOut hs =>
    have hdots : steps ['.', '.'] = [.parent] := by decide
    rw [steps_cons_slash hs.slash_notMem, hs.component?_eq, hdots]
    rfl

theorem IsDetour.isAbsolute {m : List Char} (h : IsDetour m) : isAbsolute m = false := by
  cases h with
  | nothing => rfl
  | dot => rfl
  | @inAndOut s hs =>
    cases s with
    | nil => exact absurd rfl hs.ne_nil
    | cons c s =>
      have hc : c ≠ '/' := fun heq => hs.slash_notMem (heq ▸ List.mem_cons_self)
      simpa [Path.isAbsolute] using hc

theorem isAbsolute_append {p : List Char} (h : p ≠ []) (q : List Char) :
    isAbsolute (p ++ q) = isAbsolute p := by
  cases p with
  | nil => exact absurd rfl h
  | cons c p => rfl

/-- A detour more leads to the same place, and the path begins at the root just if it did. -/
theorem AddsDetour.sameSteps {p q : List Char} (h : AddsDetour p q) :
    isAbsolute q = isAbsolute p ∧
      ∀ names, (steps q).foldl descend names = (steps p).foldl descend names := by
  cases h with
  | @within before after m hm hbefore hhead =>
    constructor
    · by_cases hnil : before = []
      · obtain ⟨hafter, hne⟩ := hhead hnil
        rw [hnil, List.nil_append, List.nil_append, isAbsolute_append hne, hm.isAbsolute, hafter]
      · rw [isAbsolute_append hnil, isAbsolute_append hnil]
    · intro names
      rw [steps_append hbefore, steps_append hbefore, steps_append_slash, List.foldl_append,
        List.foldl_append, hm.foldl_descend, List.foldl_append]
  | behind hm hp =>
    refine ⟨isAbsolute_append hp _, fun names => ?_⟩
    rw [steps_append_slash, List.foldl_append, hm.foldl_descend]

/-- **Paths that differ in detours only have one normal form.** -/
theorem normalize_eq_of_spelledAlike {base : List Char} (hbase : isAbsolute base = true)
    {p q : List Char} (h : SpelledAlike p q) : normalize base p = normalize base q := by
  induction h with
  | rel p q h =>
    obtain ⟨habsolute, hsteps⟩ := h.sameSteps
    rw [normalize_eq hbase, normalize_eq hbase, steps_join, steps_join, habsolute]
    split_ifs
    · rw [hsteps]
    · rw [List.foldl_append, List.foldl_append, hsteps]
  | refl p => rfl
  | symm p q _ ih => exact ih.symm
  | trans p q r _ _ hpq hqr => exact hpq.trans hqr

/-- All ways to spell a path as seen from `base` have one normal form, made of the root and names
only. -/
structure OneNormalForm (base : List Char) : Prop where
  absolute : ∀ p, isAbsolute (normalize base p) = true
  names : ∀ p, ∃ names : List (List Char), (∀ s ∈ names, IsName s) ∧
    components (normalize base p) = .root :: names.map .name
  normal : ∀ p, IsNormal (normalize base p)
  again : ∀ p, normalize base (normalize base p) = normalize base p
  joined : ∀ p q, normalize base (join p q) = normalize (normalize base p) q
  detours : ∀ p q, SpelledAlike p q → normalize base p = normalize base q

theorem oneNormalForm {base : List Char} (hbase : isAbsolute base = true) :
    OneNormalForm base where
  absolute := isAbsolute_normalize hbase
  names p := by
    obtain ⟨names, hnames, hp⟩ := exists_rooted hbase p
    exact ⟨names, hnames, hp ▸ components_rooted hnames⟩
  normal := isNormal_normalize base
  again := normalize_normalize hbase
  joined := normalize_join hbase
  detours _ _ := normalize_eq_of_spelledAlike hbase

end Path

open Untranslated.Path (OneNormalForm SpelledAlike normalize)

/-! ### Named files -/

namespace Workspace

/-- The arguments name the same files in the same order, perhaps in other spellings. -/
def Respells (w : Workspace) (files files' : List String) : Prop :=
  List.Forall₂ (fun f f' => normalize w.cwd f.toList = normalize w.cwd f'.toList) files files'

/-- Named files are known under their normal forms. -/
structure KnowsFiles (w : Workspace) : Prop where
  /-- A file is listed once, however often and in whatever spellings it is named. -/
  listedOnce : ∀ files, (w.explicitTargets files).Nodup
  listed : ∀ files p, p ∈ w.explicitTargets files ↔
    (∃ f ∈ files, normalize w.cwd f.toList = p) ∧ w.tree.isFile p = true ∧
      w.filter.accepts p = true
  /-- A named file is looked at on its changed lines if the diff has it in whatever spelling. -/
  changedLines : ∀ (a : Arguments) diff job, a.files.isEmpty = false →
    (job ∈ w.changedJobs a (changedLines w.cwd diff) ↔ ∃ f ∈ a.files, ∃ lines,
      job = ⟨normalize w.cwd f.toList, some lines⟩ ∧
        w.tree.isFile (normalize w.cwd f.toList) = true ∧
        w.filter.accepts (normalize w.cwd f.toList) = true ∧
        (normalize w.cwd f.toList, lines) ∈ (Untranslated.changedLines w.cwd diff).files)
  sameTargets : ∀ files files', w.Respells files files' →
    w.explicitTargets files' = w.explicitTargets files
  sameJobs : ∀ (a : Arguments) files' changed, w.Respells a.files files' →
    w.changedJobs { a with files := files' } changed = w.changedJobs a changed
  /-- The spellings of files change no outcome, unless `git` answers otherwise to them. -/
  sameOutcome : ∀ (a : Arguments) files', w.Respells a.files files' →
    (a.diffOnly = true →
      w.diff (.ofArguments { a with files := files' }) = w.diff (.ofArguments a)) →
    (scan w { a with files := files' }).outcome = (scan w a).outcome

section Named

variable {w : Workspace} {files files' : List String}

theorem named_eq_of_respells (h : w.Respells files files') : w.named files' = w.named files := by
  unfold named
  induction h with
  | nil => rfl
  | cons hf _ ih => rw [List.map_cons, List.map_cons, hf, ih]

theorem isEmpty_eq_of_respells (h : w.Respells files files') : files'.isEmpty = files.isEmpty := by
  cases h <;> rfl

theorem explicitTargets_eq_of_respells (h : w.Respells files files') :
    w.explicitTargets files' = w.explicitTargets files := by
  unfold explicitTargets
  rw [named_eq_of_respells h]

theorem changedJobs_eq_of_respells {a : Arguments} (h : w.Respells a.files files')
    (changed : ChangedLines) :
    w.changedJobs { a with files := files' } changed = w.changedJobs a changed := by
  unfold changedJobs
  rw [isEmpty_eq_of_respells h, explicitTargets_eq_of_respells h]

theorem mem_explicitTargets_iff {p : List Char} : p ∈ w.explicitTargets files ↔
    (∃ f ∈ files, normalize w.cwd f.toList = p) ∧ w.tree.isFile p = true ∧
      w.filter.accepts p = true := by
  rw [explicitTargets, List.mem_eraseDups, List.mem_filter, Bool.and_eq_true, named, List.mem_map]

/-- A named file is looked at on its changed lines. -/
theorem mem_changedJobs_iff {a : Arguments} (ha : a.files.isEmpty = false) (diff : List Char)
    {job : Job} : job ∈ w.changedJobs a (changedLines w.cwd diff) ↔ ∃ f ∈ a.files, ∃ lines,
      job = ⟨normalize w.cwd f.toList, some lines⟩ ∧
        w.tree.isFile (normalize w.cwd f.toList) = true ∧
        w.filter.accepts (normalize w.cwd f.toList) = true ∧
        (normalize w.cwd f.toList, lines) ∈ (changedLines w.cwd diff).files := by
  have hchanged := canonical_changedLines w.cwd diff
  have hget : ∀ f lines, (changedLines w.cwd diff).get? (normalize w.cwd f) = some lines ↔
      (normalize w.cwd f, lines) ∈ (changedLines w.cwd diff).files :=
    fun f _ => ChangedLines.get?_eq_some_iff hchanged (Path.isNormal_normalize w.cwd f)
  rw [changedJobs, ha, if_neg Bool.false_ne_true, List.mem_filterMap]
  constructor
  · rintro ⟨_, hp, hjob⟩
    obtain ⟨⟨f, hf, rfl⟩, hfile, haccepts⟩ := mem_explicitTargets_iff.1 hp
    obtain ⟨lines, hlines, rfl⟩ := Option.map_eq_some_iff.1 hjob
    exact ⟨f, hf, lines, rfl, hfile, haccepts, (hget _ _).1 hlines⟩
  · rintro ⟨f, hf, lines, rfl, hfile, haccepts, hlines⟩
    refine ⟨_, mem_explicitTargets_iff.2 ⟨⟨f, hf, rfl⟩, hfile, haccepts⟩, ?_⟩
    rw [(hget _ _).2 hlines]
    rfl

theorem scan_eq_of_respells {a : Arguments} (h : w.Respells a.files files')
    (hdiff : a.diffOnly = true →
      w.diff (.ofArguments { a with files := files' }) = w.diff (.ofArguments a)) :
    (scan w { a with files := files' }).outcome = (scan w a).outcome := by
  have htargets : w.targets { a with files := files' } = w.targets a := by
    unfold targets
    rw [isEmpty_eq_of_respells h, explicitTargets_eq_of_respells h]
  have hnotes : w.directoryNotes files' = w.directoryNotes a.files := by
    unfold directoryNotes
    rw [named_eq_of_respells h]
  have honly : Arguments.diffOnly { a with files := files' } = a.diffOnly := rfl
  unfold scan
  rw [isEmpty_eq_of_respells h, explicitTargets_eq_of_respells h, honly, htargets, hnotes]
  split_ifs with _ ha
  · rfl
  · -- Only what is said of the call of `git` shows the spellings.
    dsimp only
    rw [hdiff ha]
    cases w.diff (.ofArguments a) with
    | error fault => rfl
    | ok text =>
      dsimp only
      rw [changedJobs_eq_of_respells h]
      split_ifs <;> rfl
  · rfl

theorem knowsFiles (w : Workspace) : w.KnowsFiles where
  listedOnce _ := nodup_eraseDups _
  listed _ _ := mem_explicitTargets_iff
  changedLines _ diff _ ha := mem_changedJobs_iff ha diff
  sameTargets _ _ := explicitTargets_eq_of_respells
  sameJobs _ _ changed h := changedJobs_eq_of_respells h changed
  sameOutcome _ _ := scan_eq_of_respells

end Named

end Workspace

/-- **The spelling of a path does not matter.** As seen from a place from the root on, all spellings
have one normal form, and it is under this form that a scan from there knows what the user names. -/
theorem spellings_agree {base : List Char} (hbase : Path.isAbsolute base = true) :
    OneNormalForm base ∧ ∀ w : Workspace, w.cwd = base → w.KnowsFiles :=
  ⟨Path.oneNormalForm hbase, fun w _ => w.knowsFiles⟩

/-- A file of the project in three spellings is listed once; the first two differ in a detour. -/
theorem spellings_agree_project :
    let w := projectWorkspace (asciiBytes "<>Other</>\n")
    let files := ["src/App.tsx", "src/lib/../App.tsx", "../../../repo/./src//App.tsx"]
    Path.isAbsolute w.cwd = true ∧ OneNormalForm w.cwd ∧ w.KnowsFiles ∧
      SpelledAlike "src/App.tsx".toList "src/lib/../App.tsx".toList ∧
      w.Respells files ["src/App.tsx", "src/App.tsx", "src/App.tsx"] ∧
      w.explicitTargets files = ["/repo/src/App.tsx".toList] := by
  intro w files
  have hcwd : Path.isAbsolute w.cwd = true := by decide
  obtain ⟨hform, hknows⟩ := spellings_agree hcwd
  have hdetour : Path.AddsDetour ("src/".toList ++ "App.tsx".toList)
      ("src/".toList ++ (("lib".toList ++ ['/', '.', '.']) ++ '/' :: "App.tsx".toList)) :=
    .within (.inAndOut (by decide)) (.inr (by decide)) (fun h => absurd h (by decide))
  have halike : SpelledAlike "src/App.tsx".toList "src/lib/../App.tsx".toList := by
    refine .rel _ _ ?_
    simpa using hdetour
  have hrespells : w.Respells files ["src/App.tsx", "src/App.tsx", "src/App.tsx"] := by
    refine .cons rfl (.cons (hform.detours _ _ halike).symm (.cons ?_ .nil))
    decide
  have htargets : w.explicitTargets files = ["/repo/src/App.tsx".toList] := by
    decide +kernel
  exact ⟨hcwd, hform, hknows w rfl, halike, hrespells, htargets⟩

end Untranslated
