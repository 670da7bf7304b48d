import Untranslated.FileTree
import Untranslated.Proofs.NormalPaths

/-!
# Paths from the root on

A path that is normalized as seen from a path from the root on is the root with names below it.
Such a path and its names say the same.

* `exists_rooted`: the names of a normalized path.
* `order_rooted`: paths come in the order of the names at which they part.
* `isBelow_iff`: the places below a place are those whose names go on from its names.
-/

namespace Untranslated.Path

/-- The path that leads from the root on along names. -/
def rooted (names : List (List Char)) : List Char :=
  render (.root :: names.map .name)

/-- The path is strictly below the place `base`. -/
def isBelow (p base : List Char) : Bool :=
  startsWith p base && (components base).length < (components p).length

variable {names : List (List Char)}

theorem isPlace_rooted (h : ∀ s ∈ names, IsName s) :
    IsPlace (names.reverse.map .name ++ [.root]) :=
  ⟨names.reverse, fun s hs => h s (List.mem_reverse.1 hs), .inr rfl⟩

theorem components_rooted (h : ∀ s ∈ names, IsName s) :
    components (rooted names) = .root :: names.map .name := by
  have hcomponents := components_render (isPlace_rooted h)
  rw [List.reverse_append, ← List.map_reverse, List.reverse_reverse] at hcomponents
  exact hcomponents

theorem rooted_inj {names' : List (List Char)} (h : ∀ s ∈ names, IsName s)
    (h' : ∀ s ∈ names', IsName s) (heq : rooted names = rooted names') : names = names' := by
  have hcomponents := congrArg components heq
  rw [components_rooted h, components_rooted h'] at hcomponents
  exact List.map_injective_iff.2 (fun s t hst => Component.name.inj hst)
    (List.cons.inj hcomponents).2

/-! ### Normalized paths -/

/-- A step from a place below the root leads to one. -/
theorem exists_names_foldl {steps : List Component} (hsteps : ∀ c ∈ steps, IsStep c)
    (h : ∀ s ∈ names, IsName s) : ∃ names' : List (List Char), (∀ s ∈ names', IsName s) ∧
      steps.foldl step (names.map .name ++ [.root]) = names'.map .name ++ [.root] := by
  induction steps generalizing names with
  | nil => exact ⟨names, h, rfl⟩
  | cons c steps ih =>
    obtain ⟨hc, hrest⟩ := List.forall_mem_cons.1 hsteps
    rw [List.foldl_cons]
    rcases hc with rfl | ⟨s, hs, rfl⟩
    · cases names with
      | nil => exact ih hrest h
      | cons n names => exact ih hrest (List.forall_mem_cons.1 h).2
    · exact ih hrest (List.forall_mem_cons.2 ⟨hs, h⟩)

theorem components_of_isAbsolute {p : List Char} (h : isAbsolute p = true) :
    ∃ tail, components p = .root :: tail ∧ ∀ c ∈ tail, IsStep c := by
  obtain ⟨rest, rfl⟩ : ∃ rest, p = '/' :: rest := List.head?_eq_some_iff.1 (eq_of_beq h)
  exact ⟨_, rfl, fun c hc => isStep_of_mem_componentsIn hc⟩

theorem isAbsolute_join {base : List Char} (h : isAbsolute base = true) (p : List Char) :
    isAbsolute (join base p) = true := by
  obtain ⟨rest, rfl⟩ : ∃ rest, base = '/' :: rest := List.head?_eq_some_iff.1 (eq_of_beq h)
  unfold join
  split_ifs with hp hbase
  · exact hp
  · rfl
  · rfl

/-- **What is normalized as seen from a path from the root on is one.** -/
theorem exists_rooted {base : List Char} (h : isAbsolute base = true) (p : List Char) :
    ∃ names, (∀ s ∈ names, IsName s) ∧ normalize base p = rooted names := by
  obtain ⟨tail, hcomponents, htail⟩ := components_of_isAbsolute (isAbsolute_join h p)
  obtain ⟨names, hnames, hplace⟩ := @exists_names_foldl [] tail htail (by simp)
  refine ⟨names.reverse, fun s hs => hnames s (List.mem_reverse.1 hs), ?_⟩
  rw [normalize, hcomponents, List.foldl_cons]
  change render (tail.foldl step [.root]).reverse = _
  rw [List.map_nil, List.nil_append] at hplace
  rw [hplace, rooted, List.reverse_append, List.map_reverse]
  rfl

/-! ### Order and places -/

/-- Lists that part somewhere come in the order of the elements they part at. -/
theorem compare_append_cons {α : Type} [Ord α] [Std.ReflOrd α] (same : List α) {a b : α}
    (as bs : List α) (h : compare a b = .lt) :
    compare (same ++ a :: as) (same ++ b :: bs) = .lt := by
  induction same with
  | nil => rw [List.nil_append, List.nil_append, List.compare_cons_cons, h]; rfl
  | cons c same ih =>
    rw [List.cons_append, List.cons_append, List.compare_cons_cons, Std.ReflOrd.compare_self, ih]
    rfl

/-- Paths that part at a name come in the order of these names. -/
theorem order_rooted {a b : List Char} {as bs : List (List Char)}
    (ha : ∀ s ∈ names ++ a :: as, IsName s) (hb : ∀ s ∈ names ++ b :: bs, IsName s)
    (h : compare (a.map Char.toNat) (b.map Char.toNat) = .lt) :
    order (rooted (names ++ a :: as)) (rooted (names ++ b :: bs)) = .lt := by
  have hkey : compare (Component.name a).key (Component.name b).key = .lt := by
    simpa [Component.key, List.compare_cons_cons] using h
  rw [order, components_rooted ha, components_rooted hb]
  simp only [List.map_append, List.map_cons]
  exact compare_append_cons (Component.root.key :: (names.map .name).map Component.key) _ _ hkey

/-- The places below a place are those whose names go on from its names. -/
theorem isBelow_iff {base : List (List Char)} (hbase : ∀ s ∈ base, IsName s)
    (h : ∀ s ∈ names, IsName s) :
    isBelow (rooted names) (rooted base) = true ↔ ∃ more, more ≠ [] ∧ names = base ++ more := by
  have hprefix : base.map Component.name <+: names.map Component.name ↔ base <+: names :=
    List.prefix_map_iff_of_injective fun s t hst => Component.name.inj hst
  rw [isBelow, startsWith, components_rooted hbase, components_rooted h, Bool.and_eq_true,
    List.isPrefixOf_iff_prefix, List.cons_prefix_cons, decide_eq_true_eq]
  simp only [List.length_cons, List.length_map, true_and, hprefix]
  constructor
  · rintro ⟨⟨more, rfl⟩, hlength⟩
    refine ⟨more, ?_, rfl⟩
    rintro rfl
    simp at hlength
  · rintro ⟨more, hmore, rfl⟩
    have hpos := List.length_pos_iff.2 hmore
    exact ⟨List.prefix_append _ _, by rw [List.length_append]; omega⟩

end Untranslated.Path
