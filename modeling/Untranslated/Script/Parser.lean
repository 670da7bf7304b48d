import Untranslated.Script.Grammar.Markup
import Untranslated.Script.Grammar.Modules

/-!
# Reading a script

The grammar tied together, and a script as a tree.

* `text_of_parse`: the leaves of a script's tree are its text, all of it and in order.
* `commentsEnd_of_parse`: no line comment of the tree holds a newline.
* `runsOut_of_parse`: each line comment of the tree goes on to the end of its line.
* `marks_of_parse`: no lexeme of the tree is a slash that begins a comment.
* `bordered_of_parse`: text between tags stands between tags or braces.
-/

namespace Untranslated.Script

open Grammar

/-- What a symbol of the grammar goes through. -/
def production (g : Grammar) : Symbol → Parse Unit
  | .expression c => expression g c
  | .assignment c => assignment g c
  | .unary c arrow => unary g c arrow
  | .operators c bound => operators g c bound
  | .leftHand c => leftHand g c false
  | .constructor c => constructor g c false
  | .decoration c => decoration g c
  | .element c after => element g c after
  | .type c => typeExpression g c
  | .pattern c => bindingPattern g c
  | .statement c level => statement g c level

/-- The grammar for scripts nested at most `fuel` deep. -/
def grammar : Nat → Grammar
  | 0, _ => Parse.fail .tooDeep
  | fuel + 1, symbol => production (grammar fuel) symbol

/-- Statements up to the end of the text. -/
def module (g : Grammar) (c : Context) : Parse Unit :=
  Parse.loop do
    if (← Parse.peek) == .endOfText then return false
    g (.statement c .module)
    return true

/-- The tree of all that a cursor has passed. -/
def Cursor.tree (c : Cursor) : Tree :=
  .node .group (c.frames.reverse.flatMap List.reverse)

/-- The script as a tree, or why it is not accepted. -/
def parse (dialect : Dialect) (s : List Char) : Except Fault Tree :=
  match module (grammar (32 * (s.length + 8))) { dialect } (Cursor.start s) with
  | .ok _ c _ => if c.ahead.isEmpty then .ok c.flush.tree else .error ⟨.unexpected, c.ahead⟩
  | .error fault _ _ => .error fault

/-! ### The tree holds the whole script -/

@[simp] theorem Cursor.leaves_tree (c : Cursor) : c.tree.leaves = frameLeaves c.frames := by
  rw [Cursor.tree, Tree.leaves_node]
  induction c.frames with
  | nil => rfl
  | cons f fs ih => simp [ih]

/-- An accepted script was passed by a cursor that follows the one at its start. -/
theorem parse_eq_ok {dialect : Dialect} {s : List Char} {t : Tree} (h : parse dialect s = .ok t) :
    ∃ c, (Cursor.start s).Follows c ∧ c.ahead = [] ∧ t = c.flush.tree := by
  unfold parse at h
  split at h
  · next c follows _ =>
    split at h
    · next hc =>
      injection h with h
      exact ⟨c, follows, by simpa using hc, h.symm⟩
    · simp at h
  · simp at h

@[simp] theorem Cursor.leaves_flush_tree (c : Cursor) : c.flush.tree.leaves = c.leaves := by
  simp [Cursor.flush, Cursor.leaves]

theorem text_of_parse {dialect : Dialect} {s : List Char} {t : Tree}
    (h : parse dialect s = .ok t) : t.text = s := by
  obtain ⟨c, follows, hc, rfl⟩ := parse_eq_ok h
  have ht := follows.text_eq
  rw [Cursor.text_start, Cursor.text, hc, List.append_nil] at ht
  rw [Tree.text, Cursor.leaves_flush_tree, ht]

theorem commentsEnd_of_parse {dialect : Dialect} {s : List Char} {t : Tree}
    (h : parse dialect s = .ok t) : Tree.CommentsEnd t.leaves := by
  obtain ⟨c, follows, _, rfl⟩ := parse_eq_ok h
  rw [Cursor.leaves_flush_tree]
  exact follows.commentsEnd (Cursor.commentsEnd_start s)

theorem runsOut_of_parse {dialect : Dialect} {s : List Char} {t : Tree}
    (h : parse dialect s = .ok t) : RunsOut t.leaves [] := by
  obtain ⟨c, follows, hc, rfl⟩ := parse_eq_ok h
  rw [Cursor.leaves_flush_tree, ← hc]
  exact follows.runsOut (Cursor.runsOut_start s)

theorem marks_of_parse {dialect : Dialect} {s : List Char} {t : Tree}
    (h : parse dialect s = .ok t) : Marks t.leaves [] := by
  obtain ⟨c, follows, hc, rfl⟩ := parse_eq_ok h
  rw [Cursor.leaves_flush_tree, ← hc]
  exact (follows.marks (Cursor.marks_start s)).1

theorem bordered_of_parse {dialect : Dialect} {s : List Char} {t : Tree}
    (h : parse dialect s = .ok t) : Bordered [] t.leaves [] := by
  obtain ⟨c, follows, hc, rfl⟩ := parse_eq_ok h
  have hleaves := (follows.bordered (Cursor.bordered_start s)).leaves
  rw [hc] at hleaves
  rw [Cursor.leaves_flush_tree]
  exact hleaves

end Untranslated.Script
