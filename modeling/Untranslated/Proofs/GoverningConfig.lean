import Untranslated.Proofs.ScanOutcomes
import Untranslated.Run

/-!
# The configuration that governs

The search for a configuration goes up from the working directory and ends at the first directory
that holds a configuration or a repository. If that is a configuration, it decides whether the run
begins at all: a run that fails has looked at nothing else, and a run that begins works with the
values that are written there, each pattern that is ignored included.

* `Governs`: the entry that governs a working directory; `governing?_eq_some_iff`.
* `Provides`, `InForce`: the configuration that an entry provides, and the one in force;
  `loadConfig_cases`.
* `accepts_ofIgnores_iff`: every pattern leaves out what it stands for.
* `configuredRun`: how a run goes, by the entry that governs.
-/

namespace Untranslated

open Untranslated.Path (IsName rooted)

variable {t : FileTree} {cwd : List Char}

/-! ### Directories above -/

theorem isName_configFileName : IsName configFileName := by decide

theorem isName_repositoryName : IsName repositoryName := by decide

namespace FileTree

theorem isName_of_mem_names {p s : List Char} (h : s ∈ names p) : IsName s := by
  obtain ⟨c, hc, hs⟩ := List.mem_filterMap.1 h
  obtain ⟨head, tail, hcomponents, htail, hhead⟩ := Path.components_cases p
  cases c with
  | name u =>
    obtain rfl : u = s := Option.some.inj hs
    rw [hcomponents] at hc
    -- The root or the dot at the head is no name.
    have hmem : .name u ∈ tail := by
      rcases hhead with rfl | rfl | rfl <;> simpa using hc
    rcases htail _ hmem with heq | ⟨v, hv, heq⟩
    · cases heq
    · cases heq
      exact hv
  | _ => cases hs

/-- The directory that names lead to has an entry with a name. -/
def Holds (t : FileTree) (dir : List (List Char)) (name : List Char) : Prop :=
  ∃ entry, find (dir ++ [name]) t = .ok entry

theorem isSome_at?_entryPath {dir : List (List Char)} (h : ∀ s ∈ dir, IsName s)
    {name : List Char} (hname : IsName name) :
    (t.at? (entryPath (rooted dir) name)).isSome = true ↔ t.Holds dir name := by
  rw [entryPath_rooted h, at?, names_rooted (forall_isName_append h hname), Holds]
  cases find (dir ++ [name]) t <;> simp [Except.toOption]

end FileTree

theorem rooted_eq_intercalate (names : List (List Char)) :
    rooted names = '/' :: ['/'].intercalate names := by
  refine congrArg ('/' :: ·) ?_
  induction names with
  | nil => rfl
  | cons s names ih =>
    cases names with
    | nil => simp [Path.render, List.intercalate]
    | cons u names =>
      rw [List.intercalate_cons_cons, ← ih]
      simp [Path.render]

/-- The first `k` of some names and fewer and fewer of them, as paths. -/
def upFrom (names : List (List Char)) (k : Nat) : List (List Char) :=
  (List.range (k + 1)).map fun n => rooted (names.take (k - n))

theorem upFrom_succ (names : List (List Char)) (k : Nat) :
    upFrom names (k + 1) = rooted (names.take (k + 1)) :: upFrom names k := by
  rw [upFrom, List.range_succ_eq_map, List.map_cons, List.map_map]
  refine congrArg (_ :: ·) (List.map_congr_left fun n _ => ?_)
  rw [Function.comp_apply, Nat.succ_eq_add_one, Nat.add_sub_add_right]

theorem ancestors_eq_upFrom (p : List Char) :
    ancestors p = upFrom (FileTree.names p) (FileTree.names p).length := by
  unfold ancestors upFrom
  simp only [rooted_eq_intercalate]

/-! ### The search -/

/-- The search for a configuration goes no further than the directory. -/
def EndsSearch (t : FileTree) (dir : List (List Char)) : Prop :=
  t.Holds dir configFileName ∨ t.Holds dir repositoryName

/-- The nearest directory at which a search from a working directory ends. -/
structure EndOfSearch (t : FileTree) (cwd : List Char) (dir : List (List Char)) : Prop where
  above : dir <+: FileTree.names cwd
  ends : EndsSearch t dir
  nearest : ∀ inner, inner <+: FileTree.names cwd → dir.length < inner.length →
    ¬EndsSearch t inner

/-- The entry at the path governs the working directory: it is the configuration of the directory
at which the search ends. -/
def Governs (t : FileTree) (cwd path : List Char) : Prop :=
  ∃ dir, EndOfSearch t cwd dir ∧ t.Holds dir configFileName ∧
    path = rooted (dir ++ [configFileName])

theorem EndOfSearch.unique {dir dir' : List (List Char)} (h : EndOfSearch t cwd dir)
    (h' : EndOfSearch t cwd dir') : dir = dir' := by
  rcases Nat.lt_trichotomy dir.length dir'.length with hlt | heq | hlt
  · exact absurd h'.ends (h.nearest dir' h'.above hlt)
  · exact (List.prefix_of_prefix_length_le h.above h'.above heq.le).eq_of_length heq
  · exact absurd h.ends (h'.nearest dir h.above hlt)

/-- One step of the search, in a directory given by names. -/
theorem governing?_cons {dir : List (List Char)} (h : ∀ s ∈ dir, IsName s)
    (rest : List (List Char)) {path : List Char} :
    governing? t (rooted dir :: rest) = some path ↔
      (t.Holds dir configFileName ∧ path = rooted (dir ++ [configFileName])) ∨
        ¬EndsSearch t dir ∧ governing? t rest = some path := by
  have hconfig := FileTree.isSome_at?_entryPath (t := t) h isName_configFileName
  have hrepository := FileTree.isSome_at?_entryPath (t := t) h isName_repositoryName
  rw [governing?, EndsSearch, ← hconfig, ← hrepository, FileTree.entryPath_rooted h]
  split_ifs with hfile hgit
  · rw [Option.some.injEq, eq_comm]
    simp [hfile]
  · simp [hfile, hgit]
  · simp [hfile, hgit]

/-- The search from the directory of the first `k` names. -/
theorem governing?_upFrom {names : List (List Char)} (h : ∀ s ∈ names, IsName s) (k : Nat)
    {path : List Char} : governing? t (upFrom names k) = some path ↔
      ∃ n ≤ k, (∀ m, n < m → m ≤ k → ¬EndsSearch t (names.take m)) ∧
        t.Holds (names.take n) configFileName ∧
          path = rooted (names.take n ++ [configFileName]) := by
  have htake : ∀ n, ∀ s ∈ names.take n, IsName s :=
    fun n s hs => h s (List.mem_of_mem_take hs)
  induction k with
  | zero =>
    change governing? t (rooted (names.take 0) :: []) = some path ↔ _
    rw [governing?_cons (htake 0)]
    constructor
    · rintro (⟨hholds, hpath⟩ | ⟨-, hnone⟩)
      · exact ⟨0, le_rfl, fun m hm hm' => absurd hm (by omega), hholds, hpath⟩
      · cases hnone
    · rintro ⟨n, hn, -, hholds, hpath⟩
      obtain rfl : n = 0 := Nat.le_zero.1 hn
      exact .inl ⟨hholds, hpath⟩
  | succ k ih =>
    rw [upFrom_succ, governing?_cons (htake (k + 1))]
    constructor
    · rintro (⟨hholds, hpath⟩ | ⟨hnot, hfound⟩)
      · exact ⟨k + 1, le_rfl, fun m hm hm' => absurd hm (by omega), hholds, hpath⟩
      · obtain ⟨n, hn, hnearest, hrest⟩ := ih.1 hfound
        refine ⟨n, Nat.le_succ_of_le hn, fun m hm hm' => ?_, hrest⟩
        rcases Nat.le_succ_iff.1 hm' with hm' | rfl
        · exact hnearest m hm hm'
        · exact hnot
    · rintro ⟨n, hn, hnearest, hholds, hpath⟩
      rcases Nat.le_succ_iff.1 hn with hn' | rfl
      · refine .inr ⟨hnearest (k + 1) (by omega) le_rfl, ih.2 ⟨n, hn', fun m hm hm' => ?_, hholds,
          hpath⟩⟩
        exact hnearest m hm (by omega)
      · exact .inl ⟨hholds, hpath⟩

/-- **What is found is the configuration of the directory at which the search ends.** -/
theorem governing?_eq_some_iff {path : List Char} :
    governing? t (ancestors cwd) = some path ↔ Governs t cwd path := by
  rw [ancestors_eq_upFrom, governing?_upFrom (fun s hs => FileTree.isName_of_mem_names hs)]
  constructor
  · rintro ⟨n, hn, hnearest, hholds, hpath⟩
    refine ⟨_, ⟨List.take_prefix _ _, .inl hholds, fun inner hinner hlength => ?_⟩, hholds, hpath⟩
    rw [List.prefix_iff_eq_take.1 hinner]
    rw [List.length_take, min_eq_left hn] at hlength
    exact hnearest _ hlength hinner.length_le
  · rintro ⟨dir, hend, hholds, hpath⟩
    have hdir := List.prefix_iff_eq_take.1 hend.above
    rw [hdir] at hholds hpath
    refine ⟨dir.length, hend.above.length_le, fun m hm hm' => ?_, hholds, hpath⟩
    exact hend.nearest _ (List.take_prefix _ _) (by rw [List.length_take]; omega)

theorem governing?_eq_none_iff :
    governing? t (ancestors cwd) = none ↔ ∀ path, ¬Governs t cwd path := by
  simp only [Option.eq_none_iff_forall_ne_some, ne_eq, governing?_eq_some_iff]

/-! ### The values that are written -/

/-- What the values of a configuration must be. -/
structure Config.Usable (c : Config) : Prop where
  /-- Every pattern is a glob, with wildcards or without. -/
  globs : ∀ pattern ∈ c.ignores, ∃ g, Glob.ofText pattern.toList = .ok g
  /-- The source root is not blank. -/
  sourceRoot : ∃ ch ∈ c.sourceRoot.toList, Text.isBlank ch = false

/-- The entry at the path is a text that writes the configuration `c`, which can be used. -/
def Provides (t : FileTree) (path : List Char) (c : Config) : Prop :=
  ∃ s, t.read path = .ok s ∧ Config.read? s = some c ∧ c.Usable

theorem Config.globFault?_eq_none_iff {pattern : String} :
    globFault? pattern = none ↔ ∃ g, Glob.ofText pattern.toList = .ok g := by
  unfold globFault?
  cases Glob.ofText pattern.toList <;> simp

theorem Config.fault?_eq_none_iff {c : Config} : c.fault? = none ↔ c.Usable := by
  have hroot : Text.trim c.sourceRoot.toList ≠ [] ↔
      ∃ ch ∈ c.sourceRoot.toList, Text.isBlank ch = false := by
    simp [Text.trim_eq_nil_iff]
  rw [fault?, Option.or_eq_none_iff, List.findSome?_eq_none_iff]
  simp only [globFault?_eq_none_iff, ite_eq_right_iff, reduceCtorEq, imp_false, List.isEmpty_iff]
  exact ⟨fun h => ⟨h.1, hroot.1 h.2⟩, fun h => ⟨h.globs, hroot.2 h.sourceRoot⟩⟩

theorem Config.usable_default : Config.Usable {} where
  globs := by simp
  sourceRoot := ⟨'s', by decide, by decide⟩

/-- What loading a configuration comes to, once it is known which entry governs. -/
theorem loadConfig_of_governs {path : List Char} (h : Governs t cwd path) :
    (∃ c, Provides t path c ∧ loadConfig t cwd = .ok (c, some path)) ∨
      ((∀ c, ¬Provides t path c) ∧ ∃ fault, loadConfig t cwd = .error fault) := by
  unfold loadConfig
  rw [governing?_eq_some_iff.2 h]
  dsimp only
  cases hread : t.read path with
  | error fault =>
    refine .inr ⟨?_, _, rfl⟩
    rintro c ⟨s, hs, -⟩
    cases hread.symm.trans hs
  | ok s =>
    dsimp only
    cases hdecode : Config.read? s with
    | none =>
      refine .inr ⟨?_, _, rfl⟩
      rintro c ⟨s', hs', hc, -⟩
      cases hread.symm.trans hs'
      cases hdecode.symm.trans hc
    | some c =>
      dsimp only
      cases hfault : c.fault? with
      | none => exact .inl ⟨c, ⟨s, hread, hdecode, Config.fault?_eq_none_iff.1 hfault⟩, rfl⟩
      | some fault =>
        refine .inr ⟨?_, _, rfl⟩
        rintro c' ⟨s', hs', hc', husable⟩
        cases hread.symm.trans hs'
        cases hdecode.symm.trans hc'
        cases hfault.symm.trans (Config.fault?_eq_none_iff.2 husable)

theorem loadConfig_of_not_governs (h : ∀ path, ¬Governs t cwd path) :
    loadConfig t cwd = .ok ({}, none) := by
  rw [loadConfig, governing?_eq_none_iff.2 h]

/-- The configuration `c` is in force: it is provided by the entry that governs, or it is the
default where no entry does. -/
def InForce (t : FileTree) (cwd : List Char) (c : Config) : Prop :=
  (∃ path, Governs t cwd path ∧ Provides t path c) ∨ (∀ path, ¬Governs t cwd path) ∧ c = {}

theorem usable_of_inForce {c : Config} (h : InForce t cwd c) : c.Usable := by
  obtain ⟨path, -, s, -, -, husable⟩ | ⟨-, rfl⟩ := h
  · exact husable
  · exact Config.usable_default

/-- **Loading succeeds with the configuration in force**, or an entry governs that provides none. -/
theorem loadConfig_cases (t : FileTree) (cwd : List Char) :
    (∃ c file, InForce t cwd c ∧ loadConfig t cwd = .ok (c, file)) ∧
        (¬∃ path, Governs t cwd path ∧ ∀ c, ¬Provides t path c) ∨
      (∃ path, Governs t cwd path ∧ ∀ c, ¬Provides t path c) ∧
        ∃ fault, loadConfig t cwd = .error fault := by
  by_cases h : ∃ path, Governs t cwd path
  · obtain ⟨path, hgoverns⟩ := h
    rcases loadConfig_of_governs hgoverns with ⟨c, hprovides, hload⟩ | ⟨hnone, hload⟩
    · refine .inl ⟨⟨c, _, .inl ⟨path, hgoverns, hprovides⟩, hload⟩, ?_⟩
      rintro ⟨path', hgoverns', hnone⟩
      have hpath := governing?_eq_some_iff.2 hgoverns
      cases hpath.symm.trans (governing?_eq_some_iff.2 hgoverns')
      exact hnone c hprovides
    · exact .inr ⟨⟨path, hgoverns, hnone⟩, hload⟩
  · have hnone : ∀ path, ¬Governs t cwd path := not_exists.1 h
    refine .inl ⟨⟨{}, none, .inr ⟨hnone, rfl⟩, loadConfig_of_not_governs hnone⟩, ?_⟩
    rintro ⟨path, hgoverns, -⟩
    exact hnone path hgoverns

/-! ### Where a configuration is looked for -/

/-- The trees cannot be told apart at some places, by what is read there and by whether anything
is. -/
def AgreeAt (t t' : FileTree) (places : List (List Char)) : Prop :=
  ∀ p ∈ places, t'.read p = t.read p ∧ (t'.at? p).isSome = (t.at? p).isSome

theorem governing?_congr {t' : FileTree} {dirs : List (List Char)}
    (h : AgreeAt t t' (dirs.flatMap fun p =>
      [FileTree.entryPath p configFileName, FileTree.entryPath p repositoryName])) :
    governing? t' dirs = governing? t dirs := by
  induction dirs with
  | nil => rfl
  | cons p dirs ih =>
    rw [List.flatMap_cons] at h
    have hfile := (h _ (List.mem_append_left _ List.mem_cons_self)).2
    have hgit := (h _ (List.mem_append_left _ (List.mem_cons_of_mem _ List.mem_cons_self))).2
    have hrest := ih fun q hq => h q (List.mem_append_right _ hq)
    simp only [governing?, hfile, hgit, hrest]

theorem mem_of_governing? {dirs : List (List Char)} {path : List Char}
    (h : governing? t dirs = some path) : path ∈ dirs.flatMap fun p =>
      [FileTree.entryPath p configFileName, FileTree.entryPath p repositoryName] := by
  induction dirs with
  | nil => cases h
  | cons p dirs ih =>
    rw [List.flatMap_cons]
    rw [governing?] at h
    split_ifs at h
    · cases h
      exact List.mem_append_left _ List.mem_cons_self
    · exact List.mem_append_right _ (ih h)

/-- **Only these places matter.** -/
theorem loadConfig_congr {t' : FileTree} (h : AgreeAt t t' (configPlaces cwd)) :
    loadConfig t' cwd = loadConfig t cwd := by
  unfold loadConfig
  rw [governing?_congr h]
  cases hpath : governing? t (ancestors cwd) with
  | none => rfl
  | some path =>
    have hmem : path ∈ configPlaces cwd := mem_of_governing? hpath
    dsimp only
    rw [(h path hmem).1]

theorem fileName?_rooted {dir : List (List Char)} (h : ∀ s ∈ dir, IsName s) {name : List Char}
    (hname : IsName name) : Path.fileName? (rooted (dir ++ [name])) = some name := by
  rw [Path.fileName?, Path.components_rooted (FileTree.forall_isName_append h hname)]
  simp [List.getLast?_cons]

/-- None of them is a file that a scan could look at. -/
theorem isScriptPath_of_mem_configPlaces {p : List Char} (h : p ∈ configPlaces cwd) :
    isScriptPath p = false := by
  obtain ⟨above, habove, hp⟩ := List.mem_flatMap.1 h
  rw [ancestors_eq_upFrom] at habove
  obtain ⟨n, -, rfl⟩ := List.mem_map.1 habove
  have hdir : ∀ s ∈ (FileTree.names cwd).take ((FileTree.names cwd).length - n), IsName s :=
    fun s hs => FileTree.isName_of_mem_names (List.mem_of_mem_take hs)
  rw [FileTree.entryPath_rooted hdir, FileTree.entryPath_rooted hdir, List.mem_pair] at hp
  unfold isScriptPath Path.extension?
  rcases hp with rfl | rfl
  · rw [fileName?_rooted hdir isName_configFileName]
    decide
  · rw [fileName?_rooted hdir isName_repositoryName]
    decide

/-! ### Every pattern takes effect -/

/-- The pattern, as seen from a directory, leaves the path out. -/
def LeavesOut (base pattern p : List Char) : Prop :=
  if isWild pattern then
    ∃ g, Glob.ofText pattern = .ok g ∧
      (g.covers (p.map fun c => if c == '\\' then '/' else c) = true ∨
        g.covers (Path.display base p) = true)
  else Path.startsWith p (Path.normalize base pattern) = true

/-- The filter keeps every pattern that is ignored, and each leaves out what it stands for. -/
structure KeepsPatterns (f : TargetFilter) (base : List Char) (ignores : List (List Char)) :
    Prop where
  globs : f.globs.map .ok =
    (excludedFiles.map String.toList ++ ignores.filter isWild).map Glob.ofText
  places : f.places = (ignores.filter (!isWild ·)).map (Path.normalize base)
  accepts : ∀ p, f.accepts p = true ↔ isScriptPath p = true ∧
    ∀ pattern ∈ excludedFiles.map String.toList ++ ignores, ¬LeavesOut base pattern p

/-- No text is dropped where all of them are globs. -/
theorem map_ok_globs {texts : List (List Char)} (h : ∀ s ∈ texts, ∃ g, Glob.ofText s = .ok g) :
    (globs texts).map .ok = texts.map Glob.ofText := by
  induction texts with
  | nil => rfl
  | cons s texts ih =>
    obtain ⟨⟨g, hg⟩, hrest⟩ := List.forall_mem_cons.1 h
    have hhead : globs (s :: texts) = g :: globs texts := by
      rw [globs, List.filterMap_cons_some (by rw [hg]; rfl), globs]
    rw [hhead, List.map_cons, List.map_cons, ih hrest, hg]

theorem mem_globs {texts : List (List Char)} {g : Glob} :
    g ∈ globs texts ↔ ∃ s ∈ texts, Glob.ofText s = .ok g := by
  rw [globs, List.mem_filterMap]
  refine exists_congr fun s => and_congr_right fun _ => ?_
  cases Glob.ofText s <;> simp [Except.toOption]

theorem isWild_excludedFiles : ∀ s ∈ excludedFiles.map String.toList, isWild s = true := by
  decide

theorem excludedFiles_globs :
    ∀ s ∈ excludedFiles.map String.toList, ∃ g, Glob.ofText s = .ok g := by
  have h : ∀ s ∈ excludedFiles.map String.toList, (Glob.ofText s).toOption.isSome = true := by
    decide +kernel
  intro s hs
  obtain ⟨g, hg⟩ := Option.isSome_iff_exists.1 (h s hs)
  exact ⟨g, eq_ok_of_toOption hg⟩

/-- **What is looked at is what no pattern leaves out.** -/
theorem accepts_ofIgnores_iff (base : List Char) (ignores : List (List Char)) (p : List Char) :
    (TargetFilter.ofIgnores base ignores).accepts p = true ↔ isScriptPath p = true ∧
      ∀ pattern ∈ excludedFiles.map String.toList ++ ignores, ¬LeavesOut base pattern p := by
  have hwilds : ∀ pattern, pattern ∈ excludedFiles.map String.toList ++ ignores.filter isWild ↔
      pattern ∈ excludedFiles.map String.toList ++ ignores ∧ isWild pattern = true := by
    intro pattern
    simp only [List.mem_append, List.mem_filter]
    constructor
    · rintro (h | h)
      · exact ⟨.inl h, isWild_excludedFiles pattern h⟩
      · exact ⟨.inr h.1, h.2⟩
    · rintro ⟨h | h, hwild⟩
      · exact .inl h
      · exact .inr ⟨h, hwild⟩
  rw [TargetFilter.accepts, Bool.and_eq_true, Bool.and_eq_true, Bool.not_eq_true',
    Bool.not_eq_true', List.any_eq_false, List.any_eq_false, and_assoc]
  refine and_congr_right fun _ => ?_
  constructor
  · rintro ⟨hplaces, hglobs⟩ pattern hpattern hout
    unfold LeavesOut at hout
    split_ifs at hout with hwild
    · obtain ⟨g, hg, hcovers⟩ := hout
      refine hglobs g (mem_globs.2 ⟨pattern, (hwilds pattern).2 ⟨hpattern, hwild⟩, hg⟩) ?_
      rw [Bool.or_eq_true]
      exact hcovers
    · have hignored : pattern ∈ ignores :=
        (List.mem_append.1 hpattern).resolve_left fun h => hwild (isWild_excludedFiles pattern h)
      refine hplaces _ (List.mem_map_of_mem (List.mem_filter.2 ⟨hignored, ?_⟩)) hout
      rw [Bool.not_eq_true']
      exact Bool.eq_false_iff.2 hwild
  · refine fun h => ⟨fun place hplace hstarts => ?_, fun g hg hcovers => ?_⟩
    · obtain ⟨pattern, hpattern, rfl⟩ := List.mem_map.1 hplace
      obtain ⟨hignored, hwild⟩ := List.mem_filter.1 hpattern
      refine h pattern (List.mem_append_right _ hignored) ?_
      rw [LeavesOut, if_neg (by simpa using hwild)]
      exact hstarts
    · obtain ⟨pattern, hpattern, hg⟩ := mem_globs.1 hg
      obtain ⟨hmem, hwild⟩ := (hwilds pattern).1 hpattern
      refine h pattern hmem ?_
      rw [LeavesOut, if_pos hwild]
      rw [Bool.or_eq_true] at hcovers
      exact ⟨g, hg, hcovers⟩

theorem keepsPatterns {w : Workspace} (h : w.config.Usable) :
    KeepsPatterns w.filter w.cwd (w.config.ignores.map String.toList) where
  globs := by
    refine map_ok_globs fun s hs => ?_
    rcases List.mem_append.1 hs with hs | hs
    · exact excludedFiles_globs s hs
    · obtain ⟨pattern, hpattern, rfl⟩ := List.mem_map.1 (List.mem_filter.1 hs).1
      exact h.globs pattern hpattern
  places := rfl
  accepts := accepts_ofIgnores_iff _ _

/-! ### Runs -/

/-- What the scan of a run works on, with the configuration `c`. -/
def workspaceOf (t : FileTree) (diff : DiffRequest → Except DiffFault (List Char))
    (cwd : List Char) (a : Arguments) (c : Config) : Workspace :=
  { tree := t, read := t.read, diff, cwd, config := c, verbose := a.verbose }

/-- The run `r` is the scan `w`: it prints what the scan comes to, asks of `git` what the scan asks,
looks only at files that no pattern leaves out, and ends with success or failure unless a file that
begins with a byte order mark aborts it. -/
structure IsScan (w : Workspace) (a : Arguments) (colours : Bool) (r : RunResult) : Prop where
  stdout : r.stdout = (scan w a).outcome.output colours
  request : r.request = (scan w a).request
  keeps : KeepsPatterns w.filter w.cwd (w.config.ignores.map String.toList)
  accepts : ∀ job ∈ w.jobs a, w.filter.accepts job.path = true
  exit : (r.exitCode = 0 ∨ r.exitCode = 1) ∧ r.exitCode = (scan w a).outcome.status.code ∨
    r.exitCode = 101 ∧ ∃ job ∈ w.jobs a, (w.inspect job).isAborted = true ∧
      ∃ rest, w.read job.path = .ok ('\ufeff' :: rest)

/-- How a run goes, by the entry that governs the working directory. -/
structure ConfiguredRun (t : FileTree) (diff : DiffRequest → Except DiffFault (List Char))
    (colours : Bool) (cwd : List Char) (a : Arguments) : Prop where
  /-- A run fails exactly if an entry governs that provides no configuration. -/
  fails : (run t diff colours cwd a).exitCode = 2 ↔
    ∃ path, Governs t cwd path ∧ ∀ c, ¬Provides t path c
  /-- A run that fails prints nothing to the standard output and asks nothing of `git`. -/
  silent : (run t diff colours cwd a).exitCode = 2 →
    (run t diff colours cwd a).stdout = [] ∧ (run t diff colours cwd a).request = none
  /-- It depends on nothing but the places where a configuration is looked for, and no file that a
  scan could look at is among these. -/
  untouched : (run t diff colours cwd a).exitCode = 2 →
    (∀ p ∈ configPlaces cwd, isScriptPath p = false) ∧
      ∀ t' diff' colours' a', AgreeAt t t' (configPlaces cwd) →
        run t' diff' colours' cwd a' = run t diff colours cwd a
  /-- Every other run is a scan with the configuration in force. -/
  begins : (run t diff colours cwd a).exitCode ≠ 2 → ∃ c, InForce t cwd c ∧
    IsScan (workspaceOf t diff cwd a c) a colours (run t diff colours cwd a)

section Run

variable {diff : DiffRequest → Except DiffFault (List Char)} {colours : Bool} {a : Arguments}

theorem run_of_error {fault : StartFault} (h : loadConfig t cwd = .error fault) :
    run t diff colours cwd a =
      { status := .error, stdout := [], stderr := "Error: ".toList ++ fault.message ++ ['\n']
        request := none, aborted := false } := by
  rw [run, h]

theorem isScan_of_ok {c : Config} {file : Option (List Char)} (hc : c.Usable)
    (h : loadConfig t cwd = .ok (c, file)) :
    IsScan (workspaceOf t diff cwd a c) a colours (run t diff colours cwd a) := by
  let w := workspaceOf t diff cwd a c
  have hstdout : (run t diff colours cwd a).stdout = (scan w a).outcome.output colours := by
    rw [run, h]
    rfl
  have hrequest : (run t diff colours cwd a).request = (scan w a).request := by
    rw [run, h]
    rfl
  have hexit : (run t diff colours cwd a).exitCode =
      if (scan w a).outcome == .aborted then 101 else (scan w a).outcome.status.code := by
    rw [run, h]
    rfl
  refine ⟨hstdout, hrequest, keepsPatterns (w := w) hc, fun job => accepts_of_mem_jobs, ?_⟩
  by_cases haborted : (scan w a).outcome = .aborted
  · rw [haborted] at hexit
    exact .inr ⟨hexit, exists_of_aborted haborted⟩
  · rw [if_neg (by simpa using haborted)] at hexit
    refine .inl ⟨?_, hexit⟩
    rw [hexit]
    cases (scan w a).outcome <;> simp [Outcome.status, ExitStatus.code]

theorem exitCode_ne_of_isScan {w : Workspace} {r : RunResult} (h : IsScan w a colours r) :
    r.exitCode ≠ 2 := by
  rcases h.exit with ⟨hexit | hexit, -⟩ | ⟨hexit, -⟩ <;> omega

/-- **A run fails exactly if the entry that governs provides no configuration**, and then it has
looked at nothing else; otherwise it is a scan with the configuration in force. -/
theorem configuredRun (t : FileTree) (diff : DiffRequest → Except DiffFault (List Char))
    (colours : Bool) (cwd : List Char) (a : Arguments) : ConfiguredRun t diff colours cwd a := by
  rcases loadConfig_cases t cwd with ⟨⟨c, file, hforce, hload⟩, hnone⟩ | ⟨hsome, fault, hload⟩
  · have hscan : IsScan (workspaceOf t diff cwd a c) a colours (run t diff colours cwd a) :=
      isScan_of_ok (usable_of_inForce hforce) hload
    have hexit := exitCode_ne_of_isScan hscan
    exact ⟨iff_of_false hexit hnone, fun h => absurd h hexit, fun h => absurd h hexit,
      fun _ => ⟨c, hforce, hscan⟩⟩
  · have hrun : run t diff colours cwd a = _ := run_of_error hload
    have hexit : (run t diff colours cwd a).exitCode = 2 := by
      rw [hrun]
      rfl
    refine ⟨iff_of_true hexit hsome, fun _ => by rw [hrun]; exact ⟨rfl, rfl⟩, fun _ => ⟨?_, ?_⟩,
      fun h => absurd hexit h⟩
    · exact fun p hp => isScriptPath_of_mem_configPlaces hp
    · intro t' diff' colours' a' hagree
      rw [hrun, run_of_error ((loadConfig_congr hagree).trans hload)]

/-- A file that begins with a byte order mark aborts a run that no entry governs. -/
theorem exitCode_run_project :
    let t := project (0xef :: 0xbb :: 0xbf :: asciiBytes "<>1</>\n")
    (∀ path, ¬Governs t "/repo".toList path) ∧
      (run t (fun _ => .ok []) false "/repo".toList { files := ["lib/Bad.tsx"] }).exitCode =
        101 := by
  intro t
  have hnone : governing? t (ancestors "/repo".toList) = none := by decide +kernel
  exact ⟨governing?_eq_none_iff.1 hnone, by decide +kernel⟩

/-- A pattern without wildcards that is no glob stops the run as well. -/
example :
    let t : FileTree :=
      .directory [(configFileName, .file (asciiBytes "[\"src\", [\"[\"]]"))]
    (run t (fun _ => .ok []) false "/".toList {}).exitCode = 2 := by
  decide +kernel

end Run

end Untranslated
