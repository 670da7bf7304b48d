import Untranslated.Proofs.ExcludedPaths
import Untranslated.Proofs.ShownPaths

/-!
# Files that are looked at

Where nothing that the user ignores has wildcards, a file is told by three questions about its own
path: is it a script, is it one of the ignored places or below one, and does its text hold a mark of
tests or mocks. The globs of these marks are also asked of the path as it is shown; but that text is
the end of the path behind a slash, so what they find there they find in the path as well.

* `covers_of_suffix`: a glob of a mark that stands for the end of a path stands for the path.
* `accepts_ofPlaces_iff`: **the files that are looked at**.
* `acceptsByPath`: with it, that what is shown has no say, and that a place is left out by its
  components, not by how its name begins.
-/

namespace Untranslated

open Untranslated.Path (IsName components components_rooted display display_cases isAbsolute
  nameText normalize normalize_render render rooted rooted_append_of_ne_nil slashed)

variable {base p : List Char} {ignores : List (List Char)}

/-! ### The path as it is shown -/

/-- A glob of a mark that stands for the end of a path behind a slash stands for the path. -/
theorem covers_of_suffix {g : Glob} (hg : g ∈ globs (excludedFiles.map String.toList))
    {s t : List Char} (hsuffix : '/' :: s <:+ t) (h : g.covers s = true) : g.covers t = true := by
  rw [globs_excludedFiles, List.mem_append] at hg
  rcases hg with hg | hg
  · obtain ⟨mark, hmark, rfl⟩ := List.mem_map.1 hg
    have hne := (head?_of_mem_fileMarks mark hmark).1
    rw [Glob.covers_anywhere_iff hne] at h ⊢
    exact h.trans ((List.suffix_cons '/' s).trans hsuffix).isInfix
  · obtain ⟨name, -, rfl⟩ := List.mem_map.1 hg
    rw [Glob.covers_inPart_iff] at h ⊢
    exact h.trans (hsuffix.trans (List.suffix_cons '/' t)).isInfix

/-- No glob of a mark stands for the empty text. -/
theorem covers_nil : ∀ g ∈ globs (excludedFiles.map String.toList), g.covers [] = false := by
  decide +kernel

/-- **The globs of marks find nothing in what is shown that is not in the path.** -/
theorem covers_of_covers_display (hbase : isAbsolute base = true) (hp : normalize base p = p)
    {g : Glob} (hg : g ∈ globs (excludedFiles.map String.toList))
    (h : g.covers (display base p) = true) : g.covers (slashed p) = true := by
  obtain ⟨names, hnames, heq⟩ := Path.exists_rooted hbase p
  rw [hp] at heq
  subst heq
  rcases display_cases hbase hnames with ⟨place, more, rfl, -, hshown⟩ | hshown
  · rw [hshown] at h
    by_cases hne : more = []
    · -- The base itself is shown by the empty text.
      subst hne
      exact absurd h (Bool.eq_false_iff.1 (covers_nil g hg))
    · have htext : slashed (rooted (place ++ more)) =
          slashed (nameText place) ++ '/' :: slashed (render (more.map .name)) := by
        rw [rooted_append_of_ne_nil hne, slashed, List.map_append]
        rfl
      exact covers_of_suffix hg (htext ▸ List.suffix_append _ _) h
  · rwa [hshown] at h

/-! ### What is asked of a path -/

theorem isScriptPath_iff : isScriptPath p = true ↔
    ∃ e ∈ ["tsx", "ts", "jsx", "js"], Path.extension? p = some e.toList := by
  rw [isScriptPath, Option.any_eq_true]
  constructor
  · rintro ⟨e, hextension, he⟩
    refine ⟨String.ofList e, List.contains_iff_mem.1 he, ?_⟩
    rw [hextension, String.toList_ofList]
  · rintro ⟨e, he, hextension⟩
    refine ⟨e.toList, hextension, List.contains_iff_mem.2 ?_⟩
    rwa [String.ofList_toList]

/-- Without wildcards only the globs of marks are asked. -/
theorem globs_ofPlaces (hignores : ∀ i ∈ ignores, isWild i = false) :
    (TargetFilter.ofIgnores base ignores).globs = globs (excludedFiles.map String.toList) := by
  have hnone : ignores.filter isWild = [] :=
    List.filter_eq_nil_iff.2 fun i hi => by rw [hignores i hi]; exact Bool.false_ne_true
  rw [TargetFilter.ofIgnores, hnone, List.append_nil]

/-- **The files that are looked at**, where nothing ignored has wildcards: scripts, at or below no
ignored place, and without a mark in their path. -/
theorem accepts_ofPlaces_iff (hbase : isAbsolute base = true) (hp : normalize base p = p)
    (hignores : ∀ i ∈ ignores, isWild i = false) :
    (TargetFilter.ofIgnores base ignores).accepts p = true ↔ isScriptPath p = true ∧
      (∀ i ∈ ignores, ¬components (normalize base i) <+: components p) ∧
        ¬HoldsMark (slashed p) := by
  have hplaces : (TargetFilter.ofIgnores base ignores).places = ignores.map (normalize base) := by
    have hall : ignores.filter (!isWild ·) = ignores :=
      List.filter_eq_self.2 fun i hi => by rw [hignores i hi]; rfl
    rw [TargetFilter.ofIgnores, hall]
  -- A normal path begins with a slash, so a slash more before it adds no mark.
  have hmark : HoldsMark ('/' :: slashed p) ↔ HoldsMark (slashed p) := by
    obtain ⟨names, -, heq⟩ := Path.exists_rooted hbase p
    rw [hp] at heq
    rw [heq]
    exact holdsMark_cons_slash
  have hcovered : (globs (excludedFiles.map String.toList)).any (fun g =>
      g.covers (slashed p) || g.covers (display base p)) = true ↔ HoldsMark (slashed p) := by
    rw [← hmark, ← exists_covers_iff, List.any_eq_true]
    refine exists_congr fun g => and_congr_right fun hg => ?_
    rw [Bool.or_eq_true, or_iff_left_of_imp (covers_of_covers_display hbase hp hg)]
  have hplaced : (ignores.map (normalize base)).any (Path.startsWith p) = true ↔
      ∃ i ∈ ignores, components (normalize base i) <+: components p := by
    rw [List.any_map, List.any_eq_true]
    exact exists_congr fun i => and_congr_right fun _ => List.isPrefixOf_iff_prefix
  rw [TargetFilter.accepts, hplaces, globs_ofPlaces hignores, Bool.and_eq_true, Bool.and_eq_true,
    Bool.not_eq_true', Bool.not_eq_true', ← Bool.not_eq_true, ← Bool.not_eq_true, hplaced,
    and_assoc]
  refine and_congr_right fun _ => and_congr ?_ (not_congr hcovered)
  push Not
  exact Iff.rfl

/-! ### Ignored places -/

/-- A place leads to another one, both given by names as seen from a base, just if its names are the
first ones of the other. -/
theorem isPrefix_normalize_render_iff (hbase : isAbsolute base = true)
    {place names : List (List Char)} (hplace : ∀ s ∈ place, IsName s)
    (hnames : ∀ s ∈ names, IsName s) :
    components (normalize base (render (place.map .name))) <+:
      components (normalize base (render (names.map .name))) ↔ place <+: names := by
  have hsteps : ∀ s ∈ ((Path.steps base).foldl Path.descend []).reverse, IsName s := by
    intro s hs
    have hstep : ∀ c ∈ Path.steps base, Path.IsStep c := fun _ hc => Path.isStep_of_mem_steps hc
    exact Path.isName_of_mem_foldl hstep (by simp) s (List.mem_reverse.1 hs)
  have hinjective : Function.Injective Path.Component.name := fun _ _ h => Path.Component.name.inj h
  rw [normalize_render hbase hplace, normalize_render hbase hnames,
    components_rooted (List.forall_mem_append.2 ⟨hsteps, hplace⟩),
    components_rooted (List.forall_mem_append.2 ⟨hsteps, hnames⟩), List.cons_prefix_cons,
    and_iff_right rfl, List.prefix_map_iff_of_injective hinjective, List.prefix_append_right_inj]

/-- The marks of tests and mocks, written out. -/
theorem excludedMarks_eq : excludedMarks =
    [".test.", ".spec.", ".mock.", "_test.", "/__tests__/", "/__mocks__/"].map String.toList := by
  decide

/-- **Which files are looked at is told by their path**, where nothing ignored has wildcards: it is
that of a script, is at or below no ignored place by its components, and holds none of six texts.
What the globs find in the path as it is shown they find in the path as well, and a name that only
begins like that of an ignored place is not left out. -/
theorem acceptsByPath (hbase : isAbsolute base = true) (hp : normalize base p = p)
    (hignores : ∀ i ∈ ignores, isWild i = false) :
    ((TargetFilter.ofIgnores base ignores).accepts p = true ↔
        (∃ e ∈ ["tsx", "ts", "jsx", "js"], Path.extension? p = some e.toList) ∧
        (∀ i ∈ ignores, ¬components (normalize base i) <+: components p) ∧
        ∀ mark ∈ [".test.", ".spec.", ".mock.", "_test.", "/__tests__/", "/__mocks__/"],
          ¬mark.toList <:+: slashed p) ∧
      (∀ g ∈ (TargetFilter.ofIgnores base ignores).globs,
        g.covers (display base p) = true → g.covers (slashed p) = true) ∧
      (TargetFilter.ofIgnores base ["src/gen".toList]).accepts
          (normalize base "src/generated/a.ts".toList) =
        (TargetFilter.ofIgnores base []).accepts (normalize base "src/generated/a.ts".toList) := by
  have hmarks : ¬HoldsMark (slashed p) ↔
      ∀ mark ∈ [".test.", ".spec.", ".mock.", "_test.", "/__tests__/", "/__mocks__/"],
        ¬mark.toList <:+: slashed p := by
    rw [HoldsMark, excludedMarks_eq]
    simp only [List.mem_map, exists_exists_and_eq_and, not_exists, not_and]
  refine ⟨?_, fun g hg => ?_, ?_⟩
  · rw [accepts_ofPlaces_iff hbase hp hignores, isScriptPath_iff, hmarks]
  · rw [globs_ofPlaces hignores] at hg
    exact covers_of_covers_display hbase hp hg
  · have hnormal := Path.normalize_normalize hbase "src/generated/a.ts".toList
    have hgen : ∀ i ∈ ["src/gen".toList], isWild i = false := by decide
    have hapart : ¬components (normalize base "src/gen".toList) <+:
        components (normalize base "src/generated/a.ts".toList) := by
      have hiff := @isPrefix_normalize_render_iff _ hbase ["src".toList, "gen".toList]
        ["src".toList, "generated".toList, "a.ts".toList] (by decide) (by decide)
      exact mt hiff.1 (by decide)
    rw [Bool.eq_iff_iff, accepts_ofPlaces_iff hbase hnormal hgen,
      accepts_ofPlaces_iff hbase hnormal (by simp)]
    simp only [List.forall_mem_singleton, hapart, List.not_mem_nil, false_imp_iff, forall_true_iff,
      not_false_eq_true]

/-- A file beside an ignored directory whose name begins alike is looked at; a file of the directory
and a test are not. -/
theorem acceptsByPath_project :
    let base := "/repo".toList
    let ignores := ["src/gen", "lib"].map String.toList
    let filter := TargetFilter.ofIgnores base ignores
    let paths := ["/repo/src/generated/a.ts", "/repo/src/gen/a.ts", "/repo/src/a.test.ts"].map
      String.toList
    isAbsolute base = true ∧ (∀ p ∈ paths, normalize base p = p) ∧
      (∀ i ∈ ignores, isWild i = false) ∧ paths.map filter.accepts = [true, false, false] := by
  intro base ignores filter paths
  have hbase : isAbsolute base = true := by decide
  have hpaths : ∀ p ∈ paths, normalize base p = p := by decide +kernel
  have hignores : ∀ i ∈ ignores, isWild i = false := by decide
  have haccepts : ∀ p ∈ paths, (filter.accepts p = true ↔
      (∃ e ∈ ["tsx", "ts", "jsx", "js"], Path.extension? p = some e.toList) ∧
        (∀ i ∈ ignores, ¬components (normalize base i) <+: components p) ∧
        ∀ mark ∈ [".test.", ".spec.", ".mock.", "_test.", "/__tests__/", "/__mocks__/"],
          ¬mark.toList <:+: slashed p) :=
    fun p hp => (acceptsByPath hbase (hpaths p hp) hignores).1
  have hbeside := (haccepts "/repo/src/generated/a.ts".toList (by decide)).2 (by decide +kernel)
  have hbelow := mt (haccepts "/repo/src/gen/a.ts".toList (by decide)).1 (by decide +kernel)
  have htest := mt (haccepts "/repo/src/a.test.ts".toList (by decide)).1 (by decide +kernel)
  rw [Bool.not_eq_true] at hbelow htest
  refine ⟨hbase, hpaths, hignores, ?_⟩
  simp only [paths, List.map_cons, List.map_nil, hbeside, hbelow, htest]

end Untranslated
