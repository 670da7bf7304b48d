import Untranslated.Classification

/-!
# Verdicts on a script

A classification strips a script, reads the candidates of what is left and reports those that
neither a translation nor a rule lets through. It has no other outcome than these stages give it
(`classify_eq`). The candidates come by line, so the lines that are asked for can be picked before
reporting or after it (`classify_some`).

* `strip_error`, `candidates_error`: a stage fails with what the reading of its text fails with.
* `mem_of_mem_reported`: what is reported is the line and the text of a candidate.
-/

namespace Untranslated

open Script (Dialect Failure Tree read strip)

variable {o : Options} {dialect : Dialect} {s : List Char}

/-! ### The stages -/

theorem eq_ok_of_toOption {ε α : Type} {e : Except ε α} {x : α} (h : e.toOption = some x) :
    e = .ok x := by
  cases e with
  | error => cases h
  | ok y => rw [Option.some.inj h]

/-- What is reported of candidates; with `only`, of these lines. -/
def reported (o : Options) (ignores : Ignores) (only : Option (List Nat)) (cs : List Candidate) :
    List Violation :=
  (((cs.map (Candidate.verdict o ignores)).filter fun v =>
    v.isViolation o && only.all (·.contains v.candidate.line)).map fun v =>
      (⟨v.candidate.line, v.candidate.text⟩ : Violation)).mergeSort fun a b => a.line ≤ b.line

/-- **A classification strips, reads candidates and reports.** -/
theorem classify_eq (o : Options) (dialect : Dialect) (s : List Char) (only : Option (List Nat)) :
    classify o dialect s only = do
      let stripped ← strip dialect s
      let cs ← candidates o dialect stripped
      return reported o (.ofSource s) only cs := by
  unfold classify verdicts
  simp only [bind_assoc, pure_bind]
  rfl

/-- Stripping fails as reading does. -/
theorem strip_error {e : Failure} (h : read dialect s = .error e) : strip dialect s = .error e := by
  rw [strip, h]
  rfl

/-- Reading candidates fails as reading does. -/
theorem candidates_error {e : Failure} (h : read dialect s = .error e) :
    candidates o dialect s = .error e := by
  rw [candidates, h]
  rfl

/-- Reading fails only with a rejection. -/
theorem ne_splitCharacter_of_read {e : Failure} (h : read dialect s = .error e) :
    e ≠ .splitCharacter := by
  unfold Script.read at h
  dsimp only at h
  split at h
  · cases h
  · obtain rfl := Except.error.inj h
    exact nofun

section Outcome

variable {out : List Char} {only : Option (List Nat)}

/-- A script that cannot be read is not classified. -/
theorem classify_error {e : Failure} (h : read dialect s = .error e) :
    classify o dialect s only = .error e := by
  rw [classify_eq, strip_error h]
  rfl

/-- A script is not classified if what stripping leaves of it cannot be read. -/
theorem classify_error_of_strip {e : Failure} (hout : strip dialect s = .ok out)
    (h : read dialect out = .error e) : classify o dialect s only = .error e := by
  rw [classify_eq, hout]
  simp only [bind, Except.bind, candidates_error h]

theorem classify_of_candidates {cs : List Candidate} (hout : strip dialect s = .ok out)
    (hcs : candidates o dialect out = .ok cs) :
    classify o dialect s only = .ok (reported o (.ofSource s) only cs) := by
  rw [classify_eq, hout]
  simp only [bind, Except.bind, hcs]
  rfl

end Outcome

/-! ### What is reported -/

/-- What is reported are lines and texts of candidates. -/
theorem mem_of_mem_reported {ignores : Ignores} {only : Option (List Nat)} {cs : List Candidate}
    {v : Violation} (h : v ∈ reported o ignores only cs) : ∃ c ∈ cs, v = ⟨c.line, c.text⟩ := by
  rw [reported, List.mem_mergeSort, List.mem_map] at h
  obtain ⟨verdict, hmem, rfl⟩ := h
  obtain ⟨c, hc, rfl⟩ := List.mem_map.1 (List.mem_filter.1 hmem).1
  exact ⟨c, hc, rfl⟩

/-- Candidates come by line. -/
theorem pairwise_candidates {cs : List Candidate} (h : candidates o dialect s = .ok cs) :
    cs.Pairwise fun a b => a.line ≤ b.line := by
  unfold candidates at h
  cases hread : read dialect s with
  | error => simp [hread, bind, Except.bind] at h
  | ok t =>
    simp only [hread, bind, Except.bind] at h
    split at h
    case h_1 => cases h
    case h_2 found hfound =>
      obtain rfl := Except.ok.inj h
      have hsorted : ((found.filterMap id).mergeSort fun a b => a.line ≤ b.line).Pairwise
          fun a b => decide (a.line ≤ b.line) = true :=
        List.pairwise_mergeSort (fun a b c hab hbc => by simp only [decide_eq_true_eq] at *; omega)
          (fun a b => by simp only [Bool.or_eq_true, decide_eq_true_eq]; omega) _
      exact hsorted.imp of_decide_eq_true

/-- Of candidates that come by line, violations come in their order. -/
theorem reported_of_pairwise {ignores : Ignores} {only : Option (List Nat)} {cs : List Candidate}
    (h : cs.Pairwise fun a b => a.line ≤ b.line) : reported o ignores only cs =
      (cs.filter fun c => (c.verdict o ignores).isViolation o && only.all (·.contains c.line)).map
        fun c => ⟨c.line, c.text⟩ := by
  unfold reported
  rw [List.filter_map, List.map_map]
  apply List.mergeSort_of_pairwise
  rw [List.pairwise_map]
  exact (h.filter _).imp fun hab => decide_eq_true hab

/-- **The lines that are asked for are picked after all else.** -/
theorem classify_some (o : Options) (dialect : Dialect) (s : List Char) (lines : List Nat) :
    classify o dialect s (some lines) =
      (classify o dialect s none).map (·.filter fun v => lines.contains v.line) := by
  rw [classify_eq, classify_eq]
  cases hstrip : strip dialect s with
  | error => rfl
  | ok out =>
    simp only [bind, Except.bind]
    cases hcs : candidates o dialect out with
    | error => rfl
    | ok cs =>
      have hsorted := pairwise_candidates hcs
      simp only [pure, Except.pure, Except.map, reported_of_pairwise hsorted]
      rw [List.filter_map, List.filter_filter]
      simp [Bool.and_comm]

end Untranslated
