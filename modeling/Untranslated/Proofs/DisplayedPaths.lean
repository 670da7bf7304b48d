import Untranslated.Proofs.RootedPaths

/-!
# Paths as seen from a base

A path below a base is shown by the names that lead there from the base, with slashes between them.

* `nameText`: the text of names, each behind a slash; `rooted_eq_nameText` says that a path is such
  a text.
* `below_render`: what is left of a path below the names of a base.
* `display_rooted`: **a path below a base is shown by the names behind those of the base**.
-/

namespace Untranslated.Path

/-- The text with slashes only. -/
def slashed (s : List Char) : List Char :=
  s.map fun c => if c == '\\' then '/' else c

/-- The text of names, each behind a slash. -/
def nameText (names : List (List Char)) : List Char :=
  names.flatMap ('/' :: ·)

variable {base more : List (List Char)}

/-! ### Texts of names -/

theorem cons_render (hne : more ≠ []) : '/' :: render (more.map .name) = nameText more := by
  induction more with
  | nil => exact absurd rfl hne
  | cons s more ih =>
    cases more with
    | nil => simp [render, nameText]
    | cons t more =>
      have hrest := ih (List.cons_ne_nil t more)
      rw [nameText, List.flatMap_cons, ← nameText, ← hrest]
      rfl

theorem rooted_eq_nameText (hne : more ≠ []) : rooted more = nameText more :=
  cons_render hne

/-- The text of a path below a base: that of the base, a slash, and that of the names behind it. -/
theorem rooted_append_of_ne_nil (hne : more ≠ []) :
    rooted (base ++ more) = nameText base ++ '/' :: render (more.map .name) := by
  rw [rooted_eq_nameText (List.append_ne_nil_of_right_ne_nil base hne), nameText,
    List.flatMap_append, ← nameText, ← nameText, ← cons_render hne]

/-- The text of names ends in the last of them, behind a slash or at the head. -/
theorem exists_render_concat (front : List (List Char)) (last : List Char) :
    ∃ lead, render ((front ++ [last]).map .name) = lead ++ last ∧
      ∀ c ∈ lead.getLast?, c = '/' := by
  have htext : '/' :: render ((front ++ [last]).map .name) = nameText front ++ '/' :: last := by
    rw [cons_render (by simp), nameText, List.flatMap_append, ← nameText, List.flatMap_singleton]
  cases hfront : nameText front with
  | nil =>
    rw [hfront] at htext
    exact ⟨[], (List.cons.inj htext).2, nofun⟩
  | cons c lead =>
    rw [hfront] at htext
    refine ⟨lead ++ ['/'], ?_, by simp⟩
    rw [(List.cons.inj htext).2]
    simp

/-! ### What is left of a path -/

theorem componentsIn_render_cons {s : List Char} (hs : IsName s) (names : List (List Char))
    (fuel : Nat) : componentsIn (fuel + 1) (render ((s :: names).map .name)) =
      (.name s, render (names.map .name)) :: componentsIn fuel (render (names.map .name)) := by
  obtain ⟨htake, hnext⟩ := nextComponent_render hs names
  cases hp : render ((s :: names).map .name) with
  | nil =>
    rw [hp] at htake
    exact absurd htake.symm hs.ne_nil
  | cons a p =>
    rw [hp] at hnext
    simp only [componentsIn, hnext]

theorem length_render_lt {s : List Char} (hs : IsName s) (names : List (List Char)) :
    (render (names.map .name)).length < (render ((s :: names).map .name)).length := by
  have hpos := List.length_pos_iff.2 hs.ne_nil
  cases names with
  | nil => simpa [render] using hpos
  | cons t names =>
    simp only [List.map_cons, render, List.length_append, List.length_cons]
    omega

/-- **What is left of a path below the names of a base** is the text of the names behind them. -/
theorem below_render (h : ∀ s ∈ base ++ more, IsName s) {fuel : Nat}
    (hfuel : (render ((base ++ more).map .name)).length ≤ fuel) :
    below (render ((base ++ more).map .name))
      (componentsIn fuel (render ((base ++ more).map .name))) (base.map .name) =
        some (render (more.map .name)) := by
  induction base generalizing fuel with
  | nil =>
    rw [List.map_nil, List.nil_append]
    cases componentsIn fuel (render (more.map .name)) <;> rfl
  | cons s base ih =>
    obtain ⟨hs, hrest⟩ := List.forall_mem_cons.1 h
    have hlength := length_render_lt hs (base ++ more)
    obtain ⟨fuel, rfl⟩ : ∃ f, fuel = f + 1 := by
      refine ⟨fuel - 1, ?_⟩
      rw [List.cons_append] at hfuel
      omega
    have hmap : (s :: base).map Component.name = .name s :: base.map .name := rfl
    rw [List.cons_append, componentsIn_render_cons hs, hmap, below, if_pos rfl]
    refine ih hrest ?_
    rw [List.cons_append] at hfuel
    omega

/-- Nothing is taken off the head of the text of names. -/
theorem trimHead_render (h : ∀ s ∈ more, IsName s) (fuel : Nat) :
    trimHead fuel (render (more.map .name)) = render (more.map .name) := by
  cases more with
  | nil => cases fuel <;> rfl
  | cons s more =>
    have hnext := (nextComponent_render (h s List.mem_cons_self) more).2
    cases fuel with
    | zero => rfl
    | succ fuel =>
      cases hp : render ((s :: more).map .name) with
      | nil => rfl
      | cons c p =>
        rw [hp] at hnext
        simp only [trimHead, hnext]

/-- Nothing is taken off its end. -/
theorem trimTail_render (h : ∀ s ∈ more, IsName s) (fuel : Nat) :
    trimTail fuel (render (more.map .name)) = render (more.map .name) := by
  cases fuel with
  | zero => rfl
  | succ fuel =>
    rcases List.eq_nil_or_concat more with rfl | ⟨front, last, rfl⟩
    · rfl
    · rw [List.concat_eq_append] at h ⊢
      obtain ⟨lead, hrender, hlead⟩ := exists_render_concat front last
      have hlast : IsName last := h last (by simp)
      -- What stands behind the last slash is the last name.
      have htake : ((lead ++ last).reverse.takeWhile (· != '/')).reverse = last := by
        have hall : ∀ c ∈ last.reverse, (c != '/') = true := by
          intro c hc
          have hne : c ≠ '/' := fun heq => hlast.slash_notMem (heq ▸ List.mem_reverse.1 hc)
          simpa using hne
        have hstop : lead.reverse.takeWhile (· != '/') = [] := by
          cases hreverse : lead.reverse with
          | nil => rfl
          | cons c rest =>
            have hc : c = '/' := hlead c (by rw [← List.head?_reverse, hreverse]; rfl)
            simp [hc]
        rw [List.reverse_append, List.takeWhile_append_of_pos hall, hstop, List.append_nil,
          List.reverse_reverse]
      rw [hrender, trimTail, htake, hlast.component?_eq]
      simp

/-- **A path below a base is shown by the names behind those of the base.** -/
theorem display_rooted (h : ∀ s ∈ base ++ more, IsName s) :
    display (rooted base) (rooted (base ++ more)) = slashed (render (more.map .name)) := by
  obtain ⟨hbase, hmore⟩ := List.forall_mem_append.1 h
  have hbelow : below (rooted (base ++ more)) (split (rooted (base ++ more)))
      (.root :: base.map .name) = some (render (more.map .name)) := by
    have hsplit : split (rooted (base ++ more)) = (.root, render ((base ++ more).map .name)) ::
        componentsIn (rooted (base ++ more)).length (render ((base ++ more).map .name)) := rfl
    rw [hsplit, below, if_pos rfl, below_render h]
    exact Nat.le_succ _
  have hrelative : relative? (rooted base) (rooted (base ++ more)) =
      some (render (more.map .name)) := by
    rw [relative?, components_rooted hbase, hbelow]
    simp [trimHead_render hmore, trimTail_render hmore]
  rw [display, hrelative]
  rfl

end Untranslated.Path
