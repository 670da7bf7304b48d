import Untranslated.Proofs.LineNumbers
import Untranslated.Proofs.StrippedLines
import Untranslated.Text.Blank

/-!
# Characters that stay

What erasing leaves of a text holds spaces, newlines and characters that stayed. A character that
stayed has as many newlines before it as where it comes from. No newline is lost or put in, so a
carriage return that stays still has its newline after it.

* `Text.Keeps.exists_split`: where a character that is no space comes from.
* `strip_eq`, `keeps_offsets`: stripping leaves of a script what erasing says.
* `exists_source`: where a character of a stripped script comes from, and that nothing erased it.
-/

namespace Untranslated

namespace Text

theorem ne_of_isBlank {c d : Char} (hc : isBlank c = false) (hd : isBlank d = true) : c ≠ d := by
  rintro rfl
  exact Bool.false_ne_true (hc.symm.trans hd)

/-- Newlines are kept; each other character is dropped, made a space or kept. -/
def Keeps (f : Nat × Char → List Char) (xs : List (Nat × Char)) : Prop :=
  ∀ x ∈ xs, (f x = [] ∧ x.2 ≠ '\n') ∨ (f x = [' '] ∧ x.2 ≠ '\n') ∨ f x = [x.2]

section Keeps

variable {f : Nat × Char → List Char} {xs : List (Nat × Char)}

/-- What is left holds spaces and characters of the text. -/
theorem Keeps.mem (h : Keeps f xs) {c : Char} (hc : c ∈ xs.flatMap f) :
    c = ' ' ∨ c ∈ xs.map Prod.snd := by
  obtain ⟨x, hx, hcx⟩ := List.mem_flatMap.1 hc
  rcases h x hx with ⟨hf, -⟩ | ⟨hf, -⟩ | hf
  · rw [hf] at hcx
    exact absurd hcx List.not_mem_nil
  · rw [hf, List.mem_singleton] at hcx
    exact .inl hcx
  · rw [hf, List.mem_singleton] at hcx
    exact .inr (List.mem_map.2 ⟨x, hx, hcx.symm⟩)

/-- **A character of what is left that is no space stayed**, with as many newlines before it. -/
theorem Keeps.exists_split (h : Keeps f xs) {a b : List Char} {c : Char} (hc : c ≠ ' ')
    (hsplit : xs.flatMap f = a ++ c :: b) :
    ∃ before x after, xs = before ++ x :: after ∧ x.2 = c ∧ f x = [c] ∧
      before.flatMap f = a ∧ (before.map Prod.snd).count '\n' = a.count '\n' := by
  induction xs generalizing a with
  | nil => simp at hsplit
  | cons x xs ih =>
    obtain ⟨hx, hxs⟩ := List.forall_mem_cons.1 h
    rw [List.flatMap_cons] at hsplit
    rcases hx with ⟨hf, hn⟩ | ⟨hf, hn⟩ | hf
    · rw [hf, List.nil_append] at hsplit
      obtain ⟨before, y, after, rfl, hy, hfy, ha, hcount⟩ := ih hxs hsplit
      refine ⟨x :: before, y, after, rfl, hy, hfy, ?_, ?_⟩
      · rw [List.flatMap_cons, hf, ha, List.nil_append]
      · rw [List.map_cons, List.count_cons_of_ne hn, hcount]
    · rw [hf, List.singleton_append] at hsplit
      cases a with
      | nil => exact absurd (List.cons.inj hsplit).1.symm hc
      | cons d a =>
        obtain ⟨rfl, hrest⟩ := List.cons.inj hsplit
        obtain ⟨before, y, after, rfl, hy, hfy, ha, hcount⟩ := ih hxs hrest
        refine ⟨x :: before, y, after, rfl, hy, hfy, ?_, ?_⟩
        · rw [List.flatMap_cons, hf, ha, List.singleton_append]
        · rw [List.map_cons, List.count_cons_of_ne hn, hcount, List.count_cons_of_ne (by decide)]
    · rw [hf, List.singleton_append] at hsplit
      cases a with
      | nil =>
        obtain ⟨rfl, -⟩ := List.cons.inj hsplit
        exact ⟨[], x, xs, rfl, rfl, hf, rfl, rfl⟩
      | cons d a =>
        obtain ⟨rfl, hrest⟩ := List.cons.inj hsplit
        obtain ⟨before, y, after, rfl, hy, hfy, ha, hcount⟩ := ih hxs hrest
        refine ⟨x :: before, y, after, rfl, hy, hfy, ?_, ?_⟩
        · rw [List.flatMap_cons, hf, ha, List.singleton_append]
        · rw [List.map_cons, List.count_cons, List.count_cons, hcount]

/-- **Carriage returns that stay are followed by a newline** if all were. -/
theorem Keeps.returnsEnd (h : Keeps f xs) (hreturns : ReturnsEnd (xs.map Prod.snd)) :
    ReturnsEnd (xs.flatMap f) := by
  induction xs with
  | nil => exact returnsEnd_nil
  | cons x xs ih =>
    obtain ⟨hx, hxs⟩ := List.forall_mem_cons.1 h
    obtain ⟨hhead, hrest⟩ := returnsEnd_cons.1 hreturns
    have ih := ih hxs hrest
    rw [List.flatMap_cons]
    rcases hx with ⟨hf, -⟩ | ⟨hf, -⟩ | hf
    · rw [hf]
      exact ih
    · rw [hf]
      exact returnsEnd_cons.2 ⟨fun hc => absurd hc (by decide), ih⟩
    · rw [hf]
      refine returnsEnd_cons.2 ⟨fun hc => ?_, ih⟩
      -- The newline after the carriage return is the next character, and it is kept.
      cases xs with
      | nil => exact hhead hc
      | cons y ys =>
        have hy : y.2 = '\n' := Option.some.inj (hhead hc)
        rcases (List.forall_mem_cons.1 hxs).1 with ⟨-, hn⟩ | ⟨-, hn⟩ | hfy
        · exact absurd hy hn
        · exact absurd hy hn
        · rw [List.flatMap_cons, hfy, hy]
          rfl

/-- A cut of a text with offsets is one of the text. -/
theorem offsets_eq_append {lo : Nat} {s : List Char} {before after : List (Nat × Char)}
    {x : Nat × Char} (h : offsets lo s = before ++ x :: after) :
    s = before.map Prod.snd ++ x.2 :: after.map Prod.snd ∧
      x.1 = lo + bytes (before.map Prod.snd) := by
  have hs := map_snd_offsets lo s
  rw [h, List.map_append, List.map_cons] at hs
  refine ⟨hs.symm, ?_⟩
  rw [← hs, offsets_append, offsets] at h
  have hlength : (offsets lo (before.map Prod.snd)).length = before.length := by
    rw [← List.length_map, map_snd_offsets, List.length_map]
  have hx := (List.cons.inj (List.append_inj h hlength).2).1
  exact (congrArg Prod.fst hx).symm

end Keeps

end Text

namespace Script

open Text (ReturnsEnd bytes offsets deciding eraseBy remains)

variable {dialect : Dialect} {s out : List Char} {t : Tree}

/-- The character at an offset is in no comment and in no statement that brings in a module. -/
structure IsOutside (s : List Char) (t : Tree) (p : Nat) : Prop where
  noComment : ∀ kind lo hi, kind = .lineComment ∨ kind = .blockComment →
    HasComment t kind lo hi → ¬(lo ≤ p ∧ p < hi)
  noStatement : ∀ lo hi, HasStatement s t lo hi → ¬(lo ≤ p ∧ p < hi)

/-- A character that stays and is no space is in nothing that is erased. -/
theorem Becomes.isOutside {p : Nat} {c : Char} (hc : c ≠ ' ') (h : Becomes s t p c [c]) :
    IsOutside s t p := by
  generalize hout : [c] = cs at h
  cases h with
  | deleted => cases hout
  | comment => exact absurd (List.singleton_inj.1 hout) hc
  | statement => exact absurd (List.singleton_inj.1 hout) hc
  | kept noComment noStatement => exact ⟨noComment, noStatement⟩

/-- What stripping leaves of a script that is accepted. -/
theorem strip_eq (hmark : s.head? ≠ some '\ufeff') (h : read dialect s = .ok t) :
    strip dialect s = .ok (eraseBy (deciding (allRegions s t)) 0 s) := by
  obtain rfl := text_of_read hmark h
  have herase := Text.erase_eq fun r hr => isBoundary_of_mem_allRegions (t := t) hr
  rw [strip, h]
  simp only [bind, Except.bind, regions?_eq, herase]

/-- Stripping keeps newlines, and drops, blanks or keeps each other character. -/
theorem keeps_offsets (hmark : s.head? ≠ some '\ufeff') (h : read dialect s = .ok t) :
    Text.Keeps (fun x => remains (deciding (allRegions s t) x.1) x.2) (offsets 0 s) := by
  have hends := commentsEnd_of_parse (parse_of_read h)
  obtain rfl := text_of_read hmark h
  intro x hx
  dsimp only
  cases hr : deciding (allRegions t.text t) x.1 with
  | none => exact .inr (.inr rfl)
  | some r =>
    cases he : r.erasure with
    | drop =>
      refine .inl ⟨by simp [remains, he, Text.Erasure.apply], ?_⟩
      intro hn
      have hnot := notMem_offsets_of_drop hends hr he
      rw [← hn] at hnot
      exact hnot hx
    | blank =>
      by_cases hn : x.2 = '\n'
      · exact .inr (.inr (by simp [remains, he, Text.Erasure.apply, hn]))
      · exact .inr (.inl ⟨by simp [remains, he, Text.Erasure.apply, hn], hn⟩)

section Stripped

variable (hmark : s.head? ≠ some '\ufeff') (h : read dialect s = .ok t)
  (hout : strip dialect s = .ok out)

include hmark h hout

theorem stripped_eq : out = eraseBy (deciding (allRegions s t)) 0 s := by
  rw [strip_eq hmark h] at hout
  exact (Except.ok.inj hout).symm

/-- A stripped script holds spaces and characters of the script. -/
theorem mem_of_mem_strip {c : Char} (hc : c ∈ out) : c = ' ' ∨ c ∈ s := by
  rw [stripped_eq hmark h hout] at hc
  have hmem := (keeps_offsets hmark h).mem hc
  rwa [Text.map_snd_offsets] at hmem

/-- In a stripped script carriage returns are followed by newlines if they are in the script. -/
theorem returnsEnd_strip (hreturns : ReturnsEnd s) : ReturnsEnd out := by
  rw [stripped_eq hmark h hout]
  refine (keeps_offsets hmark h).returnsEnd ?_
  rwa [Text.map_snd_offsets]

/-- **A character of a stripped script that is no blank comes from the same line of the script**,
and from no comment and no statement that brings in a module. -/
theorem exists_source {a b : List Char} {c : Char} (hc : Text.isBlank c = false)
    (hsplit : out = a ++ c :: b) : ∃ a' b', s = a' ++ c :: b' ∧
      a'.count '\n' = a.count '\n' ∧ IsOutside s t (bytes a') := by
  have hspace : c ≠ ' ' := Text.ne_of_isBlank hc (by decide)
  have hnewline : c ≠ '\n' := Text.ne_of_isBlank hc (by decide)
  rw [stripped_eq hmark h hout] at hsplit
  obtain ⟨before, x, after, hoffsets, rfl, hf, -, hcount⟩ :=
    (keeps_offsets hmark h).exists_split hspace hsplit
  obtain ⟨hs, hx⟩ := Text.offsets_eq_append hoffsets
  refine ⟨before.map Prod.snd, after.map Prod.snd, hs, hcount, ?_⟩
  have htext := text_of_read hmark h
  have hbecomes := becomes_of_deciding t x.1 hnewline
  rw [htext, hf] at hbecomes
  rw [Nat.zero_add] at hx
  rw [← hx]
  exact hbecomes.isOutside hspace

end Stripped

end Script

end Untranslated
