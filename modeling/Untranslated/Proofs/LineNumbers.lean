import Untranslated.Proofs.Lines
import Untranslated.Text.Bytes

/-!
# Line numbers

A reader of scripts also ends a line at a carriage return, a reader of directives and of diffs
only at a newline. Where every carriage return is directly followed by a newline (`ReturnsEnd`)
both give each character the same line: one more than there are newlines before it.

* `lineAt_append`: the line of a character for a reader of scripts.
* `exists_lines_of_append`: the line of that number for the other readers, and that the character
  is in it.
-/

namespace Untranslated.Text

/-- Every carriage return is directly followed by a newline. -/
def ReturnsEnd (s : List Char) : Prop :=
  ∀ a b, s = a ++ '\r' :: b → b.head? = some '\n'

theorem returnsEnd_nil : ReturnsEnd [] := by
  simp [ReturnsEnd]

theorem returnsEnd_cons {c : Char} {s : List Char} :
    ReturnsEnd (c :: s) ↔ (c = '\r' → s.head? = some '\n') ∧ ReturnsEnd s := by
  constructor
  · intro h
    exact ⟨fun hc => h [] s (by rw [hc]; rfl), fun a b hs => h (c :: a) b (by rw [hs]; rfl)⟩
  · rintro ⟨hc, hs⟩ a b heq
    cases a with
    | nil =>
      obtain ⟨rfl, rfl⟩ : c = '\r' ∧ s = b := by simpa using heq
      exact hc rfl
    | cons d a =>
      obtain ⟨rfl, rfl⟩ : c = d ∧ s = a ++ '\r' :: b := by simpa using heq
      exact hs a b rfl

instance decidableReturnsEnd : DecidablePred ReturnsEnd
  | [] => .isTrue returnsEnd_nil
  | _ :: s =>
    have := decidableReturnsEnd s
    decidable_of_iff' _ returnsEnd_cons

/-! ### The line of an offset -/

/-- A line ends at a newline with a carriage return before it, at once. -/
theorem lineEndsBefore_return (offset : Nat) {s : List Char} (h : s ≠ []) :
    lineEndsBefore (offset + 2) ('\r' :: '\n' :: s) = 1 + lineEndsBefore offset s := by
  rw [lineEndsBefore, if_neg]
  · rfl
  · simp [h]

/-- Of other characters a newline ends a line. -/
theorem lineEndsBefore_cons (offset : Nat) {c : Char} {s : List Char} (hc : c ≠ '\r') (h : s ≠ []) :
    lineEndsBefore (c.utf8Size + offset) (c :: s) =
      (if c = '\n' then 1 else 0) + lineEndsBefore offset s := by
  rw [lineEndsBefore, if_neg (by omega)]
  · have hne : s.isEmpty = false := by simpa using h
    by_cases hn : c = '\n' <;> simp [hn, hc, hne]
  · rintro rest rfl
    exact absurd rfl hc

theorem lineEndsBefore_zero (s : List Char) : lineEndsBefore 0 s = 0 := by
  unfold lineEndsBefore
  split
  · rfl
  · simp
  · rw [if_pos (Char.utf8Size_pos _)]

/-- There are no fewer line ends before a later offset. -/
theorem lineEndsBefore_mono {m n : Nat} (s : List Char) (h : m ≤ n) :
    lineEndsBefore m s ≤ lineEndsBefore n s := by
  fun_induction lineEndsBefore n s generalizing m with
  | case1 => simp [lineEndsBefore]
  | case2 n rest hstop =>
    have hstop' : (m < 2 || rest.isEmpty) = true := by
      simp only [Bool.or_eq_true, decide_eq_true_eq] at hstop ⊢
      exact hstop.imp_left fun hn => by omega
    have hzero : lineEndsBefore m ('\r' :: '\n' :: rest) = 0 := by
      rw [lineEndsBefore, if_pos hstop']
    exact Nat.le_of_eq hzero
  | case3 n rest hgo ih =>
    rw [lineEndsBefore]
    split
    · omega
    · have hrest := ih (m := m - 2) (by omega)
      omega
  | case4 n c rest hreturn hstop =>
    have hzero : lineEndsBefore m (c :: rest) = 0 := by
      rw [lineEndsBefore, if_pos (by omega)]
      exact hreturn
    exact Nat.le_of_eq hzero
  | case5 n c rest hreturn hgo =>
    rename_i ih
    rw [lineEndsBefore]
    · split
      · omega
      · exact Nat.add_le_add_left (ih (by omega)) 1
    · exact hreturn
  | case6 n c rest hreturn hgo =>
    rename_i ih
    rw [lineEndsBefore]
    · split
      · omega
      · exact ih (by omega)
    · exact hreturn

/-- A later offset is not on an earlier line. -/
theorem lineAt_mono {m n : Nat} (s : List Char) (h : m ≤ n) : lineAt m s ≤ lineAt n s :=
  Nat.add_le_add_left (lineEndsBefore_mono s h) 1

/-- **The line ends before a character that is no newline are the newlines before it.** -/
theorem lineEndsBefore_append : ∀ (a : List Char) {c : Char} {b : List Char}, c ≠ '\n' →
    ReturnsEnd (a ++ c :: b) → lineEndsBefore (bytes a) (a ++ c :: b) = a.count '\n'
  | [], c, b, _, _ => lineEndsBefore_zero _
  | [d], c, b, hc, h => by
    have hd : d ≠ '\r' := by
      rintro rfl
      exact hc (Option.some.inj ((returnsEnd_cons.1 h).1 rfl))
    have ih := lineEndsBefore_zero (c :: b)
    rw [bytes_cons, bytes_nil, List.singleton_append, lineEndsBefore_cons _ hd (by simp), ih,
      List.count_singleton]
    simp
  | d :: e :: a, c, b, hc, h => by
    obtain ⟨hhead, hrest⟩ := returnsEnd_cons.1 h
    by_cases hd : d = '\r'
    · subst hd
      obtain rfl : e = '\n' := Option.some.inj (hhead rfl)
      have ih := lineEndsBefore_append a hc (returnsEnd_cons.1 hrest).2
      have hbytes : bytes ('\r' :: '\n' :: a) = bytes a + 2 := by
        have hr : '\r'.utf8Size = 1 := rfl
        have hn : '\n'.utf8Size = 1 := rfl
        rw [bytes_cons, bytes_cons]
        omega
      rw [hbytes, List.cons_append, List.cons_append, lineEndsBefore_return _ (by simp), ih]
      simp [Nat.add_comm]
    · have ih := lineEndsBefore_append (e :: a) hc hrest
      rw [bytes_cons, List.cons_append, lineEndsBefore_cons _ hd (by simp), ih]
      simp only [List.count_cons, beq_iff_eq]
      omega

/-- **The line of a character**, counted from 1: one more than there are newlines before it. -/
theorem lineAt_append {a b : List Char} {c : Char} (hc : c ≠ '\n') (h : ReturnsEnd (a ++ c :: b)) :
    lineAt (bytes a) (a ++ c :: b) = a.count '\n' + 1 := by
  rw [lineAt, lineEndsBefore_append a hc h, Nat.add_comm]

/-! ### The line of a character -/

/-- The piece between newlines that holds a character comes after as many others as there are
newlines before the character. -/
theorem exists_splitLines_of_append (a b : List Char) {c : Char} (hc : c ≠ '\n') :
    ∃ before piece after, splitLines (a ++ c :: b) = before ++ piece :: after ∧
      before.length = a.count '\n' ∧ c ∈ piece := by
  induction a with
  | nil =>
    obtain ⟨line, more, hb⟩ := List.exists_cons_of_ne_nil (splitLines_ne_nil b)
    exact ⟨[], c :: line, more, splitLines_cons hc hb, rfl, List.mem_cons_self⟩
  | cons d a ih =>
    obtain ⟨before, piece, after, hsplit, hlength, hmem⟩ := ih
    by_cases hd : d = '\n'
    · subst hd
      refine ⟨[] :: before, piece, after, ?_, ?_, hmem⟩
      · rw [List.cons_append, splitLines_newline, hsplit, List.cons_append]
      · rw [List.length_cons, hlength, List.count_cons_self]
    · rw [List.count_cons_of_ne hd]
      cases before with
      | nil =>
        exact ⟨[], d :: piece, after, splitLines_cons hd hsplit, hlength,
          List.mem_cons_of_mem d hmem⟩
      | cons first before =>
        exact ⟨(d :: first) :: before, piece, after, splitLines_cons hd hsplit, hlength, hmem⟩

theorem mem_dropReturn {c : Char} {s : List Char} (hc : c ≠ '\r') (h : c ∈ s) :
    c ∈ dropReturn s := by
  fun_induction dropReturn s with
  | case1 => exact h
  | case2 => exact absurd (List.mem_singleton.1 h) hc
  | case3 d s _ ih => exact List.mem_cons.2 ((List.mem_cons.1 h).imp_right ih)

/-- **A character is in the line of its number.** -/
theorem exists_lines_of_append (a b : List Char) {c : Char} (hc : c ≠ '\n') (hr : c ≠ '\r') :
    ∃ line, (lines (a ++ c :: b))[a.count '\n']? = some line ∧ c ∈ line := by
  obtain ⟨before, piece, after, hsplit, hlength, hmem⟩ := exists_splitLines_of_append a b hc
  unfold lines
  rw [hsplit, linesOf_append before (List.cons_ne_nil piece after), ← hlength,
    List.getElem?_append_right (by simp)]
  cases after with
  | nil =>
    have hne : piece ≠ [] := List.ne_nil_of_mem hmem
    exact ⟨piece, by simp [linesOf, hne], hmem⟩
  | cons next after => exact ⟨dropReturn piece, by simp [linesOf], mem_dropReturn hr hmem⟩

end Untranslated.Text
