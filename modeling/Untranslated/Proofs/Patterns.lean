import Untranslated.Text.Pattern

/-!
# What patterns match

One statement for each way to write a pattern, so that what a pattern stands for is read off the way
it is written.

* `matches_literal`, `matches_inRow_cons`, `matches_anyOf`: texts, patterns in a row, one of
  several.
* `matches_star_one`, `matches_plus_one`: characters of a class in a row.
* `matches_repeated`, `matches_anyOf_repeated`: a character a number of times.
* `matches_star_flatten`, `matches_plus_iff`: what is repeated is put together of texts that may
  themselves be repeated.
-/

namespace Untranslated.Text.Pattern

/-! ### Texts and characters -/

theorem matches_literal {w : String} {s : List Char} : (literal w).Matches s ↔ s = w.toList := by
  unfold literal
  induction w.toList generalizing s with
  | nil => rfl
  | cons c w ih =>
    rw [List.foldr_cons, Matches]
    constructor
    · rintro ⟨u, v, rfl, ⟨d, rfl, hd⟩, hv⟩
      obtain rfl : d = c := by simpa [CharClass.contains] using hd
      rw [ih.1 hv]
      rfl
    · rintro rfl
      exact ⟨[c], w, rfl, ⟨c, rfl, by simp [CharClass.contains]⟩, ih.2 rfl⟩

theorem matches_star_one {k : CharClass} {s : List Char} :
    (star (one k)).Matches s ↔ ∀ c ∈ s, k.contains c = true := by
  induction s with
  | nil => simpa using ⟨[], rfl, by simp⟩
  | cons c s ih =>
    rw [matches_star_cons, List.forall_mem_cons, ← ih]
    constructor
    · rintro ⟨u, v, rfl, ⟨d, hd, hk⟩, hv⟩
      obtain ⟨rfl, rfl⟩ := List.cons.inj hd
      exact ⟨hk, hv⟩
    · rintro ⟨hc, hs⟩
      exact ⟨[], s, rfl, ⟨c, rfl, hc⟩, hs⟩

theorem matches_plus_one {k : CharClass} {s : List Char} :
    (plus (one k)).Matches s ↔ s ≠ [] ∧ ∀ c ∈ s, k.contains c = true := by
  constructor
  · rintro ⟨_, v, rfl, ⟨c, rfl, hc⟩, hv⟩
    exact ⟨List.cons_ne_nil c v, List.forall_mem_cons.2 ⟨hc, matches_star_one.1 hv⟩⟩
  · rintro ⟨hne, hall⟩
    obtain ⟨c, v, rfl⟩ := List.exists_cons_of_ne_nil hne
    obtain ⟨hc, hv⟩ := List.forall_mem_cons.1 hall
    exact ⟨[c], v, rfl, ⟨c, rfl, hc⟩, matches_star_one.2 hv⟩

/-! ### Patterns together -/

theorem matches_inRow_nil {s : List Char} : (inRow []).Matches s ↔ s = [] :=
  Iff.rfl

theorem matches_inRow_cons {p : Pattern} {ps : List Pattern} {s : List Char} :
    (inRow (p :: ps)).Matches s ↔ ∃ u v, s = u ++ v ∧ p.Matches u ∧ (inRow ps).Matches v :=
  Iff.rfl

theorem matches_inRow_singleton {p : Pattern} {s : List Char} :
    (inRow [p]).Matches s ↔ p.Matches s := by
  rw [matches_inRow_cons]
  constructor
  · rintro ⟨u, v, rfl, hu, rfl⟩
    rwa [List.append_nil]
  · intro h
    exact ⟨s, [], (List.append_nil s).symm, h, rfl⟩

theorem matches_optional {p : Pattern} {s : List Char} :
    (optional p).Matches s ↔ p.Matches s ∨ s = [] :=
  Iff.rfl

theorem matches_anyOf {ps : List Pattern} {s : List Char} :
    (anyOf ps).Matches s ↔ ∃ p ∈ ps, p.Matches s := by
  induction ps with
  | nil => simp [anyOf, Matches]
  | cons p ps ih => simpa [anyOf, Matches] using or_congr_right ih

theorem matches_anyOf_append {ps qs : List Pattern} {s : List Char} :
    (anyOf (ps ++ qs)).Matches s ↔ (anyOf ps).Matches s ∨ (anyOf qs).Matches s := by
  simp only [matches_anyOf, List.mem_append, or_and_right, exists_or]

theorem matches_atTail {p : Pattern} {s : List Char} :
    (atTail p).Matches s ↔ ∃ u v, s = u ++ v ∧ p.Matches v := by
  constructor
  · rintro ⟨u, v, rfl, -, hv⟩
    exact ⟨u, v, rfl, hv⟩
  · rintro ⟨u, v, rfl, hv⟩
    exact ⟨u, v, rfl, matches_star_one.2 fun _ _ => rfl, hv⟩

/-- A pattern can be found in a text where a part of it follows the pattern. -/
theorem matches_within {p : Pattern} {s : List Char} :
    (within p).Matches s ↔ ∃ v, v <:+: s ∧ p.Matches v := by
  have hany : ∀ t, anything.Matches t := fun t => matches_star_one.2 fun _ _ => rfl
  constructor
  · rintro ⟨u, _, rfl, -, v, w, rfl, hv, -⟩
    exact ⟨v, ⟨u, w, List.append_assoc u v w⟩, hv⟩
  · rintro ⟨v, ⟨u, w, rfl⟩, hv⟩
    exact ⟨u, v ++ w, List.append_assoc u v w, hany u, v, w, rfl, hv, hany w⟩

/-! ### Patterns again and again -/

/-- A text of one character, a number of times. -/
theorem matches_repeated {w : String} {c : Char} (hw : w.toList = [c]) {lo extra : Nat}
    {s : List Char} : (repeated lo extra (literal w)).Matches s ↔
      ∃ n, lo ≤ n ∧ n ≤ lo + extra ∧ s = List.replicate n c := by
  unfold repeated
  induction lo generalizing s with
  | zero =>
    rw [List.replicate_zero, List.nil_append]
    induction extra generalizing s with
    | zero =>
      rw [List.replicate_zero, matches_inRow_nil]
      constructor
      · rintro rfl
        exact ⟨0, Nat.le_refl 0, Nat.le_refl 0, rfl⟩
      · rintro ⟨n, -, hn, rfl⟩
        rw [Nat.le_zero.1 hn, List.replicate_zero]
    | succ extra ih =>
      rw [List.replicate_succ, matches_inRow_cons]
      constructor
      · rintro ⟨u, v, rfl, hu, hv⟩
        obtain ⟨n, -, hn, rfl⟩ := ih.1 hv
        rcases matches_optional.1 hu with hu | rfl
        · rw [matches_literal, hw] at hu
          subst hu
          exact ⟨n + 1, Nat.zero_le _, by omega, rfl⟩
        · exact ⟨n, Nat.zero_le _, by omega, rfl⟩
      · rintro ⟨n, -, hn, rfl⟩
        cases n with
        | zero => exact ⟨[], [], rfl, .inr rfl, ih.2 ⟨0, Nat.le_refl 0, Nat.zero_le _, rfl⟩⟩
        | succ n =>
          refine ⟨[c], List.replicate n c, rfl, .inl (matches_literal.2 hw.symm), ?_⟩
          exact ih.2 ⟨n, Nat.zero_le _, by omega, rfl⟩
  | succ lo ih =>
    rw [List.replicate_succ, List.cons_append, matches_inRow_cons]
    constructor
    · rintro ⟨u, v, rfl, hu, hv⟩
      rw [matches_literal, hw] at hu
      obtain ⟨n, hlo, hn, rfl⟩ := ih.1 hv
      subst hu
      exact ⟨n + 1, by omega, by omega, rfl⟩
    · rintro ⟨n, hlo, hn, rfl⟩
      obtain ⟨n, rfl⟩ : ∃ m, n = m + 1 := ⟨n - 1, by omega⟩
      refine ⟨[c], List.replicate n c, rfl, matches_literal.2 hw.symm, ?_⟩
      exact ih.2 ⟨n, by omega, by omega, rfl⟩

/-- Texts of one of several characters, a number of times. -/
theorem matches_anyOf_repeated {ws : List String} {cs : List Char}
    (hws : ws.map String.toList = cs.map fun c => [c]) {lo extra : Nat} {s : List Char} :
    (anyOf (ws.map fun w => repeated lo extra (literal w))).Matches s ↔
      ∃ c ∈ cs, ∃ n, lo ≤ n ∧ n ≤ lo + extra ∧ s = List.replicate n c := by
  rw [matches_anyOf]
  constructor
  · rintro ⟨_, hp, hs⟩
    obtain ⟨w, hw, rfl⟩ := List.mem_map.1 hp
    have hmem : w.toList ∈ cs.map fun c => [c] := hws ▸ List.mem_map_of_mem hw
    obtain ⟨c, hc, hwc⟩ := List.mem_map.1 hmem
    exact ⟨c, hc, (matches_repeated hwc.symm).1 hs⟩
  · rintro ⟨c, hc, hs⟩
    have hmem : [c] ∈ ws.map String.toList := hws ▸ List.mem_map_of_mem hc
    obtain ⟨w, hw, hwc⟩ := List.mem_map.1 hmem
    exact ⟨_, List.mem_map_of_mem hw, (matches_repeated hwc).2 hs⟩

theorem matches_star_append {p : Pattern} {u v : List Char} (hu : (star p).Matches u)
    (hv : (star p).Matches v) : (star p).Matches (u ++ v) := by
  obtain ⟨us, rfl, hus⟩ := hu
  obtain ⟨vs, rfl, hvs⟩ := hv
  exact ⟨us ++ vs, List.flatten_append.symm, List.forall_mem_append.2 ⟨hus, hvs⟩⟩

/-- Texts that repeat a pattern do so together. -/
theorem matches_star_flatten {p : Pattern} {us : List (List Char)}
    (h : ∀ u ∈ us, (star p).Matches u) : (star p).Matches us.flatten := by
  induction us with
  | nil => exact ⟨[], rfl, by simp⟩
  | cons u us ih =>
    obtain ⟨hu, hus⟩ := List.forall_mem_cons.1 h
    exact matches_star_append hu (ih hus)

theorem matches_star_of_matches {p : Pattern} {s : List Char} (h : p.Matches s) :
    (star p).Matches s :=
  ⟨[s], by simp, by simpa using h⟩

/-- Once or more often is any number of times, if nothing else than something follows the
pattern. -/
theorem matches_plus_iff {p : Pattern} (hp : ¬p.Matches []) {s : List Char} :
    (plus p).Matches s ↔ s ≠ [] ∧ (star p).Matches s := by
  constructor
  · rintro ⟨u, v, rfl, hu, hv⟩
    refine ⟨fun hnil => hp ?_, matches_star_append (matches_star_of_matches hu) hv⟩
    rwa [(List.append_eq_nil_iff.1 hnil).1] at hu
  · rintro ⟨hne, us, rfl, hus⟩
    cases us with
    | nil => exact absurd rfl hne
    | cons u us =>
      obtain ⟨hu, hrest⟩ := List.forall_mem_cons.1 hus
      exact ⟨u, us.flatten, rfl, hu, us, rfl, hrest⟩

end Untranslated.Text.Pattern
