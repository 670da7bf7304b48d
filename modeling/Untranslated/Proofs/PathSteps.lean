import Untranslated.Proofs.RootedPaths

/-!
# The steps of a path

A path that does not begin at the root is read from a place as steps into names and out of them.
The steps of a text are those of its parts between slashes, and where they lead from a place below
the root is again told by names.

* `steps_append`: the steps of a text that is cut behind a slash.
* `steps_join`, `normalize_eq`: what is normalized, as names reached by steps.
* `length_foldl_descend_le`: renaming all names of a path leads as deep as before.
-/

namespace Untranslated.Path

/-- The steps of a text that is not the head of a path. -/
def steps (p : List Char) : List Component :=
  (componentsIn p.length p).map (·.1)

/-- A text that ends at a slash, or has nothing before it. -/
def IsDirectoryText (p : List Char) : Prop :=
  p = [] ∨ p.getLast? = some '/'

/-! ### Steps of a text -/

/-- The first component of a text is the text before its first slash. -/
theorem nextComponent_append {s : List Char} (h : '/' ∉ s) {rest : List Char}
    (hrest : ∀ c ∈ rest.head?, c = '/') :
    nextComponent (s ++ rest) = (component? s, rest.tail) := by
  have hall : ∀ c ∈ s, (c != '/') = true := by
    intro c hc
    have : c ≠ '/' := fun heq => h (heq ▸ hc)
    simpa using this
  have htake : (s ++ rest).takeWhile (· != '/') = s := by
    rw [List.takeWhile_append_of_pos hall]
    cases rest with
    | nil => simp
    | cons c rest => simp [hrest c rfl]
  simp [nextComponent, htake]

/-- More fuel than characters is not used. -/
theorem map_componentsIn {fuel : Nat} {p : List Char} (h : p.length ≤ fuel) :
    (componentsIn fuel p).map (·.1) = steps p := by
  unfold steps
  -- Each step takes a character at least, so of two fuels that suffice neither is told apart.
  suffices hfuel : ∀ n fuel fuel' (p : List Char), p.length ≤ n → p.length ≤ fuel →
      p.length ≤ fuel' → componentsIn fuel p = componentsIn fuel' p by
    rw [hfuel p.length fuel p.length p le_rfl h le_rfl]
  intro n
  induction n with
  | zero =>
    intro fuel fuel' p hp _ _
    obtain rfl := List.eq_nil_of_length_eq_zero (Nat.le_zero.1 hp)
    cases fuel <;> cases fuel' <;> rfl
  | succ n ih =>
    intro fuel fuel' p hp hfuel hfuel'
    cases p with
    | nil => cases fuel <;> cases fuel' <;> rfl
    | cons c p =>
      rw [List.length_cons] at hp hfuel hfuel'
      obtain ⟨fuel, rfl⟩ : ∃ f, fuel = f + 1 := ⟨fuel - 1, by omega⟩
      obtain ⟨fuel', rfl⟩ : ∃ f, fuel' = f + 1 := ⟨fuel' - 1, by omega⟩
      have hrest : (nextComponent (c :: p)).2.length ≤ p.length := by
        simp only [nextComponent, List.length_drop, List.length_cons]
        omega
      simp only [componentsIn]
      rw [ih fuel fuel' _ (by omega) (by omega) (by omega)]

/-- A text without slashes is one step, if it is any. -/
theorem steps_of_notMem {s : List Char} (h : '/' ∉ s) : steps s = (component? s).toList := by
  cases s with
  | nil => rfl
  | cons c s =>
    have hnext := @nextComponent_append _ h [] (by simp)
    rw [List.append_nil] at hnext
    unfold steps
    simp only [List.length_cons, componentsIn, hnext, List.tail_nil]
    cases component? (c :: s) <;> cases s.length <;> rfl

theorem steps_cons_slash {s : List Char} (h : '/' ∉ s) (rest : List Char) :
    steps (s ++ '/' :: rest) = (component? s).toList ++ steps rest := by
  have hnext := @nextComponent_append _ h ('/' :: rest) (by simp)
  have hfuel : rest.length ≤ (s ++ rest).length := by simp
  rw [← map_componentsIn hfuel]
  unfold steps
  generalize hp : s ++ '/' :: rest = p at hnext
  have hlength : p.length = (s ++ rest).length + 1 := by
    rw [← hp]
    simp
    omega
  cases p with
  | nil => simp at hlength
  | cons c p =>
    rw [hlength]
    simp only [componentsIn, hnext, List.tail_cons]
    cases component? s <;> rfl

/-- A text is cut at its first slash, if it has one. -/
theorem eq_or_exists_slash (p : List Char) :
    '/' ∉ p ∨ ∃ s rest, '/' ∉ s ∧ p = s ++ '/' :: rest := by
  by_cases h : '/' ∈ p
  · right
    obtain ⟨s, rest, hp, hs⟩ := List.eq_append_cons_of_mem h
    exact ⟨s, rest, hs, hp⟩
  · exact .inl h

/-- **The steps of a text that is cut at a slash** are those of both sides. -/
theorem steps_append_slash (p q : List Char) : steps (p ++ '/' :: q) = steps p ++ steps q := by
  induction hn : p.length using Nat.strong_induction_on generalizing p with
  | _ n ih =>
    rcases eq_or_exists_slash p with hp | ⟨s, rest, hs, rfl⟩
    · rw [steps_cons_slash hp, steps_of_notMem hp]
    · have hlength : rest.length < n := by
        rw [← hn]
        simp
        omega
      rw [List.append_assoc, List.cons_append, steps_cons_slash hs, steps_cons_slash hs,
        ih _ hlength rest rfl, List.append_assoc]

/-- The steps of a text that is cut behind a slash. -/
theorem steps_append {p : List Char} (h : IsDirectoryText p) (q : List Char) :
    steps (p ++ q) = steps p ++ steps q := by
  rcases h with rfl | h
  · rfl
  · obtain ⟨p, rfl⟩ : ∃ d, p = d ++ ['/'] := by
      obtain ⟨d, hd⟩ := List.getLast?_eq_some_iff.1 h
      exact ⟨d, hd⟩
    rw [List.append_assoc, List.singleton_append, steps_append_slash, steps_append_slash]
    simp [steps, componentsIn]

/-- A text is its last part and what leads to it. -/
theorem exists_directoryText (p : List Char) :
    ∃ d last, IsDirectoryText d ∧ '/' ∉ last ∧ p = d ++ last := by
  induction p with
  | nil => exact ⟨[], [], .inl rfl, List.not_mem_nil, rfl⟩
  | cons c p ih =>
    obtain ⟨d, last, hd, hlast, rfl⟩ := ih
    rcases hd with rfl | hd
    · by_cases hc : c = '/'
      · exact ⟨[c], last, .inr (by rw [hc]; rfl), hlast, rfl⟩
      · refine ⟨[], c :: last, .inl rfl, ?_, rfl⟩
        rw [List.mem_cons, not_or]
        exact ⟨fun h => hc h.symm, hlast⟩
    · refine ⟨c :: d, last, .inr ?_, hlast, rfl⟩
      rw [List.getLast?_cons, hd]
      rfl

theorem isStep_of_mem_steps {p : List Char} {c : Component} (h : c ∈ steps p) : IsStep c :=
  isStep_of_mem_componentsIn h

/-! ### Where steps lead -/

/-- Where a step leads from names below the root, innermost first. -/
def descend (names : List (List Char)) : Component → List (List Char)
  | .parent => names.tail
  | .name s => s :: names
  | _ => names

theorem step_eq_descend {c : Component} (hc : IsStep c) (names : List (List Char)) :
    step (names.map .name ++ [.root]) c = (descend names c).map .name ++ [.root] := by
  rcases hc with rfl | ⟨s, -, rfl⟩
  · cases names <;> rfl
  · rfl

theorem foldl_step_eq {cs : List Component} (hcs : ∀ c ∈ cs, IsStep c) (names : List (List Char)) :
    cs.foldl step (names.map .name ++ [.root]) =
      (cs.foldl descend names).map .name ++ [.root] := by
  induction cs generalizing names with
  | nil => rfl
  | cons c cs ih =>
    obtain ⟨hc, hrest⟩ := List.forall_mem_cons.1 hcs
    rw [List.foldl_cons, List.foldl_cons, step_eq_descend hc, ih hrest]

theorem isName_of_mem_foldl {cs : List Component} (hcs : ∀ c ∈ cs, IsStep c)
    {names : List (List Char)} (h : ∀ s ∈ names, IsName s) :
    ∀ s ∈ cs.foldl descend names, IsName s := by
  induction cs generalizing names with
  | nil => exact h
  | cons c cs ih =>
    obtain ⟨hc, hrest⟩ := List.forall_mem_cons.1 hcs
    refine ih hrest ?_
    rcases hc with rfl | ⟨s, hs, rfl⟩
    · exact fun t ht => h t (List.mem_of_mem_tail ht)
    · exact List.forall_mem_cons.2 ⟨hs, h⟩

theorem components_slash (p : List Char) : components ('/' :: p) = .root :: steps p := by
  have hsteps : (componentsIn ('/' :: p).length p).map (·.1) = steps p :=
    map_componentsIn (by simp)
  rw [← hsteps]
  rfl

theorem steps_slash (p : List Char) : steps ('/' :: p) = steps p :=
  steps_append_slash [] p

/-- The steps of a path as seen from a place: those of the place come first, unless the path begins
at the root. -/
theorem steps_join (base p : List Char) :
    steps (join base p) = if isAbsolute p then steps p else steps base ++ steps p := by
  unfold join
  split_ifs with hp hslash
  · rfl
  · have hbase : IsDirectoryText base := by
      rw [Bool.or_eq_true, List.isEmpty_iff, beq_iff_eq] at hslash
      exact hslash
    exact steps_append hbase p
  · exact steps_append_slash base p

/-- **What is normalized is the root with the names that its steps lead to.** -/
theorem normalize_eq {base : List Char} (hbase : isAbsolute base = true) (p : List Char) :
    normalize base p = rooted ((steps (join base p)).foldl descend []).reverse := by
  obtain ⟨rest, hrest⟩ : ∃ rest, join base p = '/' :: rest :=
    List.head?_eq_some_iff.1 (eq_of_beq (isAbsolute_join hbase p))
  have hsteps : ∀ c ∈ steps rest, IsStep c := fun _ hc => isStep_of_mem_steps hc
  have hplace := foldl_step_eq hsteps []
  rw [List.map_nil, List.nil_append] at hplace
  rw [normalize, hrest, components_slash, List.foldl_cons, steps_slash]
  change render ((steps rest).foldl step [.root]).reverse = _
  rw [hplace, rooted, List.reverse_append, ← List.map_reverse]
  rfl

/-- What is normalized is reached from names below the root by the steps of the path. -/
theorem exists_descend {base : List Char} (hbase : isAbsolute base = true) :
    ∃ names : List (List Char), (∀ s ∈ names, IsName s) ∧ ∀ p, isAbsolute p = false →
      normalize base p = rooted ((steps p).foldl descend names).reverse := by
  have hsteps : ∀ c ∈ steps base, IsStep c := fun _ hc => isStep_of_mem_steps hc
  refine ⟨(steps base).foldl descend [], isName_of_mem_foldl hsteps (by simp), fun p hp => ?_⟩
  rw [normalize_eq hbase, steps_join, hp, if_neg Bool.false_ne_true, List.foldl_append]

/-- **Two paths are normalized to one** just if their steps lead to the same names. -/
theorem normalize_eq_iff {names : List (List Char)} (hnames : ∀ s ∈ names, IsName s)
    {p q : List Char} :
    rooted ((steps p).foldl descend names).reverse =
        rooted ((steps q).foldl descend names).reverse ↔
      (steps p).foldl descend names = (steps q).foldl descend names := by
  have hall : ∀ p : List Char, ∀ s ∈ ((steps p).foldl descend names).reverse, IsName s := by
    intro p s hs
    exact isName_of_mem_foldl (fun _ hc => isStep_of_mem_steps hc) hnames s (List.mem_reverse.1 hs)
  constructor
  · intro h
    exact List.reverse_injective (rooted_inj (hall p) (hall q) h)
  · intro h
    rw [h]

/-! ### How deep steps lead -/

/-- The component with its name changed, if it is one. -/
def Component.mapName (f : List Char → List Char) : Component → Component
  | .name s => .name (f s)
  | c => c

/-- Steps with other names lead as deep, and deeper from a deeper place. -/
theorem length_foldl_descend_le (f : List Char → List Char) (cs : List Component)
    {names names' : List (List Char)} (h : names.length ≤ names'.length) :
    (cs.foldl descend names).length ≤
      ((cs.map (Component.mapName f)).foldl descend names').length := by
  induction cs generalizing names names' with
  | nil => exact h
  | cons c cs ih =>
    rw [List.map_cons, List.foldl_cons, List.foldl_cons]
    apply ih
    cases c <;> simp only [descend, Component.mapName, List.length_cons, List.length_tail] <;> omega

/-- A name behind at least as many leads elsewhere than a part that is another name, or none. -/
theorem cons_ne_foldl_descend {names names' : List (List Char)} (h : names'.length ≤ names.length)
    {s : List Char} {c : Option Component} (hne : ∀ t, c = some (.name t) → t ≠ s) :
    s :: names ≠ c.toList.foldl descend names' := by
  intro heq
  have hlength := congrArg List.length heq
  cases c with
  | none =>
    simp only [Option.toList_none, List.foldl_nil, List.length_cons] at hlength
    omega
  | some c =>
    simp only [Option.toList_some, List.foldl_cons, List.foldl_nil] at hlength heq
    cases c with
    | name t => exact hne t rfl (List.cons.inj heq).1.symm
    | _ =>
      simp only [descend, List.length_cons, List.length_tail] at hlength
      omega

end Untranslated.Path
