import Mathlib.Data.List.TakeWhile
import Mathlib.Data.List.Basic
import Untranslated.Path

/-!
# Normal paths

A path that was normalized has one form only: the root if there is one, then names with single
slashes between them. It is the text of its own components, so the order of paths, which looks
at components only, tells any two normal paths apart.

* `isNormal_normalize`: what was normalized is the text of its components.
* `order_eq_iff`: paths are at one place of the order iff they have the same components.
* `IsNormal.order_eq_iff`: normal paths are at one place of the order iff they are equal.
-/

namespace Untranslated.Path

/-- A text that can be a component: not empty, no dots alone, and without slashes. -/
structure IsName (s : List Char) : Prop where
  component?_eq : component? s = some (.name s)
  slash_notMem : '/' ∉ s

instance : DecidablePred IsName := fun s =>
  decidable_of_iff (component? s = some (.name s) ∧ '/' ∉ s)
    ⟨fun h => ⟨h.1, h.2⟩, fun h => ⟨h.component?_eq, h.slash_notMem⟩⟩

theorem component?_eq_name {s t : List Char} (h : component? s = some (.name t)) : t = s := by
  unfold component? at h
  split at h <;> simp_all

/-- A component that is neither the root nor a single dot. -/
def IsStep (c : Component) : Prop :=
  c = .parent ∨ ∃ s, IsName s ∧ c = .name s

theorem isStep_of_component? {p : List Char} {c : Component}
    (h : component? (p.takeWhile (· != '/')) = some c) : IsStep c := by
  have hslash : '/' ∉ p.takeWhile (· != '/') := by
    intro hmem
    have hall : (p.takeWhile (· != '/')).all (· != '/') = true := List.all_takeWhile
    have := List.all_eq_true.1 hall _ hmem
    simp at this
  generalize p.takeWhile (· != '/') = s at h hslash
  cases c with
  | name t =>
    have ht := component?_eq_name h
    subst ht
    exact .inr ⟨t, ⟨h, hslash⟩, rfl⟩
  | parent => exact .inl rfl
  | root => unfold component? at h; split at h <;> simp at h
  | current => unfold component? at h; split at h <;> simp at h

theorem isStep_of_mem_componentsIn {fuel : Nat} {p : List Char} {c : Component}
    (h : c ∈ (componentsIn fuel p).map (·.1)) : IsStep c := by
  induction fuel generalizing p with
  | zero => simp [componentsIn] at h
  | succ fuel ih =>
    cases p with
    | nil => simp [componentsIn] at h
    | cons a p =>
      simp only [componentsIn, nextComponent] at h
      cases hc : component? ((a :: p).takeWhile (· != '/')) with
      | none => rw [hc] at h; exact ih h
      | some d =>
        rw [hc] at h
        rcases List.mem_cons.1 h with rfl | h
        · exact isStep_of_component? hc
        · exact ih h

/-- Only the first component of a path can be the root or a single dot. -/
theorem components_cases (p : List Char) :
    ∃ head tail, components p = head ++ tail ∧ (∀ c ∈ tail, IsStep c) ∧
      (head = [] ∨ head = [.root] ∨ head = [.current]) := by
  unfold components split
  split
  · exact ⟨[.root], _, rfl, fun c hc => isStep_of_mem_componentsIn hc, by simp⟩
  · exact ⟨[.current], [], rfl, by simp, by simp⟩
  · exact ⟨[.current], _, rfl, fun c hc => isStep_of_mem_componentsIn hc, by simp⟩
  · exact ⟨[], _, rfl, fun c hc => isStep_of_mem_componentsIn hc, by simp⟩

/-! ### Places -/

/-- Where a walk along components can be: names, innermost first, perhaps below the root. -/
def IsPlace (place : List Component) : Prop :=
  ∃ names : List (List Char), (∀ s ∈ names, IsName s) ∧
    (place = names.map .name ∨ place = names.map .name ++ [.root])

theorem isPlace_step {place : List Component} (h : IsPlace place) {c : Component}
    (hc : IsStep c) : IsPlace (step place c) := by
  obtain ⟨names, hnames, hplace⟩ := h
  rcases hc with rfl | ⟨s, hs, rfl⟩
  · -- two dots take the innermost name away, and lead nowhere from the root
    cases names with
    | nil => exact ⟨[], by simp, by rcases hplace with rfl | rfl <;> simp [step]⟩
    | cons n names =>
      refine ⟨names, fun s hs => hnames s (List.mem_cons_of_mem _ hs), ?_⟩
      rcases hplace with rfl | rfl <;> simp [step]
  · refine ⟨s :: names, ?_, ?_⟩
    · intro t ht
      rcases List.mem_cons.1 ht with rfl | ht
      · exact hs
      · exact hnames t ht
    · rcases hplace with rfl | rfl <;> simp [step]

theorem isPlace_foldl {steps : List Component} (hsteps : ∀ c ∈ steps, IsStep c)
    {place : List Component} (h : IsPlace place) : IsPlace (steps.foldl step place) := by
  induction steps generalizing place with
  | nil => exact h
  | cons c steps ih =>
    have hc := hsteps c (by simp)
    exact ih (fun d hd => hsteps d (List.mem_cons_of_mem _ hd)) (isPlace_step h hc)

theorem isPlace_components (p : List Char) : IsPlace ((components p).foldl step []) := by
  obtain ⟨head, tail, hp, htail, hhead⟩ := components_cases p
  rw [hp, List.foldl_append]
  refine isPlace_foldl htail ⟨[], by simp, ?_⟩
  rcases hhead with rfl | rfl | rfl <;> simp [step]

/-! ### Texts of places -/

theorem IsName.ne_nil {s : List Char} (h : IsName s) : s ≠ [] := by
  rintro rfl
  have := h.component?_eq
  simp [component?] at this

theorem IsName.ne_dot {s : List Char} (h : IsName s) : s ≠ ['.'] := by
  rintro rfl
  have := h.component?_eq
  simp [component?] at this

/-- The first name of a text of names, and the text after it. -/
theorem nextComponent_render {s : List Char} (hs : IsName s) (names : List (List Char)) :
    (render ((s :: names).map .name)).takeWhile (· != '/') = s ∧
      nextComponent (render ((s :: names).map .name)) =
        (some (.name s), render (names.map .name)) := by
  have hall : ∀ c ∈ s, (c != '/') = true := by
    intro c hc
    have : c ≠ '/' := fun heq => hs.slash_notMem (heq ▸ hc)
    simpa using this
  have htake : (render ((s :: names).map .name)).takeWhile (· != '/') = s := by
    cases names with
    | nil => exact List.takeWhile_eq_self_iff.2 hall
    | cons t names =>
      simp only [List.map_cons, render]
      rw [List.takeWhile_append_of_pos hall]
      simp
  refine ⟨htake, ?_⟩
  simp only [nextComponent, htake, hs.component?_eq]
  cases names with
  | nil => simp [render]
  | cons t names =>
    simp only [List.map_cons, render]
    rw [List.drop_append]
    simp

/-- The text of names holds these names between its slashes. -/
theorem componentsIn_render (names : List (List Char)) (h : ∀ s ∈ names, IsName s) (fuel : Nat)
    (hfuel : (render (names.map .name)).length ≤ fuel) :
    (componentsIn fuel (render (names.map .name))).map (·.1) = names.map .name := by
  induction names generalizing fuel with
  | nil => cases fuel <;> simp [render, componentsIn]
  | cons s names ih =>
    have hs := h s (by simp)
    obtain ⟨htake, hnext⟩ := nextComponent_render hs names
    generalize hp : render ((s :: names).map .name) = p at *
    cases p with
    | nil => exact absurd htake.symm hs.ne_nil
    | cons a p =>
      obtain ⟨fuel, rfl⟩ : ∃ f, fuel = f + 1 := ⟨fuel - 1, by simp at hfuel; omega⟩
      have hlength : (render (names.map .name)).length ≤ p.length := by
        have := congrArg (fun x => x.2.length) hnext
        simp only [nextComponent, List.length_drop, List.length_cons] at this
        omega
      simp only [componentsIn, hnext, List.map_cons]
      rw [ih (fun t ht => h t (List.mem_cons_of_mem _ ht)) fuel (by simp at hfuel; omega)]

/-- The text of a place seen from its outermost component has just these components. -/
theorem components_render {place : List Component} (h : IsPlace place) :
    components (render place.reverse) = place.reverse := by
  obtain ⟨names, hnames, hplace⟩ := h
  have hrev : ∀ s ∈ names.reverse, IsName s := fun s hs => hnames s (List.mem_reverse.1 hs)
  have hin := componentsIn_render names.reverse hrev
  rcases hplace with rfl | rfl
  · rw [← List.map_reverse]
    cases hn : names.reverse with
    | nil => rfl
    | cons s ns =>
      -- the text begins with a name, so neither with a slash nor with a dot alone
      rw [hn] at hrev hin
      have hs := hrev s (by simp)
      have htake := (nextComponent_render hs ns).1
      unfold components split
      split
      · next heq => rw [heq] at htake; exact absurd htake.symm hs.ne_nil
      · next heq => rw [heq] at htake; exact absurd htake.symm hs.ne_dot
      · next heq => rw [heq] at htake; exact absurd htake.symm hs.ne_dot
      · exact hin _ le_rfl
  · rw [List.reverse_append, ← List.map_reverse]
    simp only [List.reverse_cons, List.reverse_nil, List.nil_append, List.singleton_append, render]
    unfold components split
    simp only [List.map_cons]
    rw [hin _ (by simp)]

/-- A path that is the text of its components. -/
def IsNormal (p : List Char) : Prop :=
  render (components p) = p

/-- **What was normalized is the text of its components.** -/
theorem isNormal_normalize (base p : List Char) : IsNormal (normalize base p) := by
  unfold IsNormal normalize
  rw [components_render (isPlace_components _)]

/-! ### Order -/

theorem Component.key_injective {c d : Component} (h : c.key = d.key) : c = d := by
  cases c <;> cases d <;> simp_all [Component.key]
  next s t =>
    exact List.map_injective_iff.2 (fun a b hab => Char.toNat_inj.1 hab) h

/-- Paths are at one place of the order iff they have the same components. -/
theorem order_eq_iff (p q : List Char) : order p q = .eq ↔ components p = components q := by
  unfold order
  rw [Std.compare_eq_iff_eq]
  exact (List.map_injective_iff.2 fun _ _ h => Component.key_injective h).eq_iff

/-- **Normal paths are at one place of the order iff they are equal.** -/
theorem IsNormal.order_eq_iff {p q : List Char} (hp : IsNormal p) (hq : IsNormal q) :
    order p q = .eq ↔ p = q := by
  rw [Path.order_eq_iff]
  constructor
  · intro h
    rw [← hp, h, hq]
  · intro h
    rw [h]

theorem order_lt_trans {p q r : List Char} (h : order p q = .lt) (h' : order q r = .lt) :
    order p r = .lt := by
  unfold order at *
  exact Std.TransCmp.lt_trans h h'

theorem order_gt_iff {p q : List Char} : order p q = .gt ↔ order q p = .lt := by
  unfold order
  exact Std.OrientedCmp.gt_iff_lt

end Untranslated.Path
