import Untranslated.Script.Lexer

/-!
# Reading a script

A cursor stands before a lexeme of a script. What it has passed is kept as trees: the finished
parts of each node that is still open. A reading step moves the cursor, may fail, and can
neither lose nor invent text.

* `Cursor.text`: all the text a cursor knows of, behind it and ahead.
* `Cursor.Follows`: a later cursor has the same text, adds only line comments that are whole, takes
  no slash for a lexeme that begins a comment, and takes text between tags only where it stands
  between them.
* `Parse`: reading steps, each of which ends at a cursor that follows the one it began at.
-/

namespace Untranslated.Script

/-- Why a script is not accepted. -/
inductive Cause
  | lexical (fault : LexicalFault)
  | unexpected
  | missingSign (sign : String)
  | missingWord (word : String)
  | misplacedLineBreak
  | mismatchedTag
  | emptyAttribute
  | emptyParentheses
  | misplacedSpread
  | misplacedArrow
  | misplacedDecorator
  | misplacedExport
  | misplacedChain
  | misplacedSuper
  | invalidPattern
  | invalidMember
  | tooDeep
  deriving DecidableEq, Repr

/-- A refusal: its cause, and the text from its place on. -/
structure Fault where
  cause : Cause
  rest : List Char

/-- A place in a script, with all that was read before it. -/
structure Cursor where
  /-- The finished parts of the open nodes, innermost node and latest part first. -/
  frames : List (List Tree)
  /-- The trivia before the token. -/
  gap : List Tree
  token : Token
  /-- The text of the token. -/
  lexeme : List Char
  rest : List Char
  /-- A line ends in the gap, or nothing comes before it. -/
  newline : Bool

namespace Cursor

/-- The leaves of open nodes in the order of the text. -/
def frameLeaves : List (List Tree) → List (LeafKind × List Char)
  | [] => []
  | frame :: frames => frameLeaves frames ++ Tree.leavesAll frame.reverse

@[simp] theorem frameLeaves_nil : frameLeaves [] = [] := rfl

@[simp] theorem frameLeaves_cons (f : List Tree) (fs : List (List Tree)) :
    frameLeaves (f :: fs) = frameLeaves fs ++ Tree.leavesAll f.reverse := rfl

/-- The leaves a cursor has passed or is about to pass as trivia. -/
def leaves (c : Cursor) : List (LeafKind × List Char) :=
  frameLeaves c.frames ++ Tree.leavesAll c.gap

/-- The text from the token on. -/
def ahead (c : Cursor) : List Char :=
  c.lexeme ++ c.rest

/-- All the text a cursor knows of. -/
def text (c : Cursor) : List Char :=
  c.leaves.flatMap (·.2) ++ c.ahead

/-- Comments begin only where trivia do, as far as it has been read and at the token. -/
def Marks (c : Cursor) : Prop :=
  Script.Marks c.leaves c.ahead ∧ (c.lexeme = ['/'] → beginsComment c.ahead = false)

/-- Text between tags stands between tags or braces, as far as it has been read and at the token.
A token that is none is one of code. -/
structure Bordered (c : Cursor) : Prop where
  leaves : Script.Bordered [] c.leaves c.ahead
  token : (c.token = .markupText ∧ (∀ x ∈ (c.leaves.flatMap (·.2)).getLast?, ClosesMarkup x) ∧
    ∀ x ∈ c.rest.head?, OpensMarkup x) ∨ c.token.Spells c.lexeme

/-- The cursor `d` can come after `c`: no text is lost or invented, line comments end with their
lines, comments begin only where trivia do, and text between tags stands between them. -/
structure Follows (c d : Cursor) : Prop where
  text_eq : d.text = c.text
  commentsEnd : Tree.CommentsEnd c.leaves → Tree.CommentsEnd d.leaves
  runsOut : RunsOut c.leaves c.ahead → RunsOut d.leaves d.ahead
  marks : c.Marks → d.Marks
  bordered : c.Bordered → d.Bordered

theorem Follows.refl (c : Cursor) : Follows c c :=
  ⟨rfl, id, id, id, id⟩

theorem Follows.trans {c d e : Cursor} (h : Follows c d) (h' : Follows d e) : Follows c e :=
  ⟨h'.text_eq.trans h.text_eq, h'.commentsEnd ∘ h.commentsEnd, h'.runsOut ∘ h.runsOut,
    h'.marks ∘ h.marks, h'.bordered ∘ h.bordered⟩

/-- A cursor that has the same leaves and is before the same token follows. -/
theorem follows_of_eq {c d : Cursor} (h : d.leaves = c.leaves) (htoken : d.token = c.token)
    (hlexeme : d.lexeme = c.lexeme) (hrest : d.rest = c.rest) : Follows c d := by
  have hahead : d.ahead = c.ahead := by rw [ahead, ahead, hlexeme, hrest]
  refine ⟨by simp [text, h, hahead], by rw [h]; exact id, by rw [h, hahead]; exact id, ?_, ?_⟩
  · rw [Marks, Marks, h, hahead, hlexeme]
    exact id
  · intro hc
    refine ⟨?_, ?_⟩
    · rw [h, hahead]
      exact hc.leaves
    · rw [h, htoken, hlexeme, hrest]
      exact hc.token

/-! ### Moves -/

/-- The part is added to the innermost open node. -/
def pushPart (t : Tree) : List (List Tree) → List (List Tree)
  | [] => [[t]]
  | frame :: frames => (t :: frame) :: frames

@[simp] theorem frameLeaves_pushPart (t : Tree) (fs : List (List Tree)) :
    frameLeaves (pushPart t fs) = frameLeaves fs ++ t.leaves := by
  cases fs <;> simp [pushPart]

/-- The parts are added to the innermost open node. -/
def pushParts (ts : List Tree) (frames : List (List Tree)) : List (List Tree) :=
  ts.foldl (fun fs t => pushPart t fs) frames

@[simp] theorem frameLeaves_pushParts (ts : List Tree) (fs : List (List Tree)) :
    frameLeaves (pushParts ts fs) = frameLeaves fs ++ Tree.leavesAll ts := by
  induction ts generalizing fs with
  | nil => simp [pushParts]
  | cons t ts ih =>
    have h := ih (pushPart t fs)
    simp only [pushParts, List.foldl_cons] at h ⊢
    simp [h]

/-- The gap before the token becomes part of the innermost open node. -/
def flush (c : Cursor) : Cursor :=
  { c with frames := pushParts c.gap c.frames, gap := [] }

theorem follows_flush (c : Cursor) : Follows c c.flush :=
  follows_of_eq (by simp [flush, leaves]) rfl rfl rfl

/-- The trivia before the next lexeme, and the text from it on. Only code has trivia. -/
def gapIn (mode : Mode) (s : List Char) : List Tree × List Char :=
  if mode = .normal then cutTrivia false s else ([], s)

theorem gapIn_of_ne {mode : Mode} (h : mode ≠ .normal) (s : List Char) : gapIn mode s = ([], s) :=
  if_neg h

@[simp] theorem gapIn_text (mode : Mode) (s : List Char) :
    (Tree.leavesAll (gapIn mode s).1).flatMap (·.2) ++ (gapIn mode s).2 = s := by
  have htext := cutTrivia_text false s
  rw [Tree.textAll] at htext
  by_cases hm : mode = .normal <;> simp [gapIn, hm, htext]

theorem gapIn_marks (mode : Mode) (s : List Char) :
    Script.Marks (Tree.leavesAll (gapIn mode s).1) (gapIn mode s).2 := by
  by_cases hm : mode = .normal <;> simp [gapIn, hm, cutTrivia_marks]

theorem gapIn_bordered (mode : Mode) (s before rest : List Char) :
    Script.Bordered before (Tree.leavesAll (gapIn mode s).1) rest := by
  by_cases hm : mode = .normal <;> simp [gapIn, hm, cutTrivia_bordered]

/-- The token becomes a leaf, and `mode` says how the next one is read. -/
def advance (kind : Lexeme) (mode : Mode) (c : Cursor) : Cursor :=
  let gap := gapIn mode c.rest
  let next := tokenIn mode gap.2
  { frames := pushPart (.leaf (.lexeme kind) c.lexeme) (pushParts c.gap c.frames)
    gap := gap.1
    token := next.1
    lexeme := gap.2.take next.2
    rest := gap.2.drop next.2
    newline := gap.1.any Tree.endsLine }

@[simp] theorem leaves_advance (kind : Lexeme) (mode : Mode) (c : Cursor) :
    (c.advance kind mode).leaves =
      c.leaves ++ (.lexeme kind, c.lexeme) :: Tree.leavesAll (gapIn mode c.rest).1 := by
  simp [advance, leaves]

@[simp] theorem ahead_advance (kind : Lexeme) (mode : Mode) (c : Cursor) :
    (c.advance kind mode).ahead = (gapIn mode c.rest).2 := by
  simp [advance, ahead]

/-- A slash that is taken as a lexeme begins no comment, nor does one that comes next. -/
theorem marks_advance (kind : Lexeme) (mode : Mode) (c : Cursor) (h : c.Marks) :
    (c.advance kind mode).Marks := by
  have hnext : (gapIn mode c.rest).2.take (tokenIn mode (gapIn mode c.rest).2).2 = ['/'] →
      beginsComment (gapIn mode c.rest).2 = false := by
    by_cases hm : mode = .normal
    · simp [gapIn, hm, beginsComment_cutTrivia]
    · exact keepsSlash_tokenIn hm _
  have hlexeme : LeafMarks (.lexeme kind, c.lexeme) c.rest := by
    intro hslash
    have hbegins := h.2 hslash
    rw [ahead] at hbegins
    dsimp only at hslash
    rwa [hslash] at hbegins
  rw [Marks, ahead_advance, leaves_advance, marks_append, marks_cons, List.flatMap_cons,
    List.append_assoc, gapIn_text]
  exact ⟨⟨h.1, hlexeme, gapIn_marks mode c.rest⟩, hnext⟩

/-- What is asked of the token when it is taken as a lexeme of a kind and a mode reads the next
one: text between tags is taken as nothing else is, and comes only behind it, a tag or a brace. -/
structure Admits (c : Cursor) (kind : Lexeme) (mode : Mode) : Prop where
  text : kind = .markupText → c.token = .markupText
  markup : mode = .markup →
    c.token = .markupText ∨ c.token = .sign ">" ∨ c.token = .sign closeBrace

/-- The sign that is the token is its own spelling. -/
theorem Bordered.lexeme_eq {c : Cursor} (h : c.Bordered) {sign : String}
    (hsign : c.token = .sign sign) : c.lexeme = sign.toList := by
  have htoken := h.token
  rw [hsign] at htoken
  cases htoken with
  | inl htext => cases htext.1
  | inr hspells => exact hspells.symm

/-- Text between tags that is the token stands between them. -/
theorem Bordered.of_markupText {c : Cursor} (h : c.Bordered) (htext : c.token = .markupText) :
    (∀ x ∈ (c.leaves.flatMap (·.2)).getLast?, ClosesMarkup x) ∧
      ∀ x ∈ c.rest.head?, OpensMarkup x := by
  have htoken := h.token
  rw [htext] at htoken
  cases htoken with
  | inl hborders => exact hborders.2
  | inr hspells => exact absurd hspells id

/-- Text between tags that comes next stands behind a tag or a brace. -/
theorem Bordered.token_advance {kind : Lexeme} {mode : Mode} {c : Cursor} (h : c.Bordered)
    (hadmits : c.Admits kind mode) (hmode : mode = .markup) :
    ((tokenIn .markup c.rest).1 = .markupText ∧
        (∀ x ∈ (c.leaves.flatMap (·.2) ++ c.lexeme).getLast?, ClosesMarkup x) ∧
        ∀ x ∈ (c.rest.drop (tokenIn .markup c.rest).2).head?, OpensMarkup x) ∨
      (tokenIn .markup c.rest).1.Spells (c.rest.take (tokenIn .markup c.rest).2) := by
  refine (tokenIn_markup c.rest).imp_left fun ⟨hnext, ⟨first, hfirst, hopens⟩, hrest⟩ => ?_
  refine ⟨hnext, ?_, hrest⟩
  have hsign : ∀ {sign : String} {last : Char}, c.token = .sign sign → sign.toList = [last] →
      ClosesMarkup last →
        ∀ x ∈ (c.leaves.flatMap (·.2) ++ c.lexeme).getLast?, ClosesMarkup x := by
    intro sign last hsign hlast hcloses x hx
    rw [h.lexeme_eq hsign, hlast, List.getLast?_append] at hx
    exact Option.some.inj hx ▸ hcloses
  obtain htext | hangle | hbrace := hadmits.markup hmode
  · -- Text behind text would begin at a tag or a brace.
    exact absurd ((h.of_markupText htext).2 first hfirst) hopens
  · exact hsign hangle rfl (.inr rfl)
  · exact hsign hbrace rfl (.inl rfl)

theorem bordered_advance {kind : Lexeme} {mode : Mode} {c : Cursor}
    (hadmits : c.Admits kind mode) (h : c.Bordered) : (c.advance kind mode).Bordered := by
  constructor
  · have hleaves := h.leaves
    rw [leaves_advance, ahead_advance, bordered_append, bordered_cons, List.flatMap_cons,
      List.append_assoc, gapIn_text]
    refine ⟨hleaves, fun hkind => ?_, gapIn_bordered mode c.rest _ _⟩
    exact h.of_markupText (hadmits.text (LeafKind.lexeme.inj hkind))
  · rw [leaves_advance]
    by_cases hmode : mode = .markup
    · have htoken := h.token_advance hadmits hmode
      subst hmode
      simpa [advance, gapIn_of_ne] using htoken
    · exact .inr (spells_tokenIn hmode _)

theorem follows_advance {kind : Lexeme} {mode : Mode} {c : Cursor} (h : c.Admits kind mode) :
    Follows c (c.advance kind mode) := by
  have hc := cutTrivia_commentsEnd false c.rest
  have hr := cutTrivia_runsOut false c.rest
  constructor
  · rw [text, leaves_advance, ahead_advance]
    simp [text, ahead]
  · rw [leaves_advance]
    by_cases hm : mode = .normal <;> simp +contextual [gapIn, hm, hc]
  · rw [leaves_advance, ahead_advance, runsOut_append, runsOut_cons, List.flatMap_cons,
      List.append_assoc, gapIn_text]
    intro hleaves
    refine ⟨hleaves, nofun, ?_⟩
    by_cases hm : mode = .normal <;> simp [gapIn, hm, hr]
  · exact marks_advance kind mode c
  · exact bordered_advance h

/-- The token is read again in another way from where it begins. -/
def reread (scan : List Char → Token × Nat) (c : Cursor) : Cursor :=
  let next := scan c.ahead
  { c with token := next.1, lexeme := c.ahead.take next.2, rest := c.ahead.drop next.2 }

theorem follows_reread {scan : List Char → Token × Nat} (hscan : ReadsCode scan) (c : Cursor) :
    Follows c (c.reread scan) := by
  have hleaves : (c.reread scan).leaves = c.leaves := rfl
  have hahead : (c.reread scan).ahead = c.ahead := by simp [reread, ahead]
  refine ⟨by simp [text, hleaves, hahead], id, by rw [hleaves, hahead]; exact id, ?_, ?_⟩
  · unfold Marks
    rw [hleaves, hahead]
    exact fun hc => ⟨hc.1, hscan.keepsSlash _⟩
  · intro hc
    refine ⟨?_, .inr (hscan.spells _)⟩
    rw [hleaves, hahead]
    exact hc.leaves

/-- A node is opened. -/
def openNode (c : Cursor) : Cursor :=
  { c with frames := [] :: c.frames }

theorem follows_openNode (c : Cursor) : Follows c c.openNode :=
  follows_of_eq (by simp [openNode, leaves]) rfl rfl rfl

/-- A node is opened whose first part is the latest finished part. -/
def adoptFrames : List (List Tree) → List (List Tree)
  | (t :: frame) :: frames => [t] :: frame :: frames
  | frames => [] :: frames

@[simp] theorem frameLeaves_adoptFrames (fs : List (List Tree)) :
    frameLeaves (adoptFrames fs) = frameLeaves fs := by
  match fs with
  | [] => rfl
  | [] :: fs => simp [adoptFrames]
  | (t :: f) :: fs => simp [adoptFrames]

/-- A node is opened whose first part is the latest finished part. -/
def adopt (c : Cursor) : Cursor :=
  { c with frames := adoptFrames c.frames }

theorem follows_adopt (c : Cursor) : Follows c c.adopt :=
  follows_of_eq (by simp [adopt, leaves]) rfl rfl rfl

/-- The innermost open node is finished. -/
def closeFrames (kind : NodeKind) : List (List Tree) → List (List Tree)
  | frame :: frames => pushPart (.node kind frame.reverse) frames
  | [] => []

@[simp] theorem frameLeaves_closeFrames (kind : NodeKind) (fs : List (List Tree)) :
    frameLeaves (closeFrames kind fs) = frameLeaves fs := by
  cases fs <;> simp [closeFrames]

/-- The innermost open node is finished as a node of a kind. -/
def closeNode (kind : NodeKind) (c : Cursor) : Cursor :=
  { c with frames := closeFrames kind c.frames }

theorem follows_closeNode (kind : NodeKind) (c : Cursor) : Follows c (c.closeNode kind) :=
  follows_of_eq (by simp [closeNode, leaves]) rfl rfl rfl

/-- The parts of the innermost open node become parts of the node around it. -/
def spliceFrames : List (List Tree) → List (List Tree)
  | inner :: outer :: frames => (inner ++ outer) :: frames
  | frames => frames

@[simp] theorem frameLeaves_spliceFrames (fs : List (List Tree)) :
    frameLeaves (spliceFrames fs) = frameLeaves fs := by
  match fs with
  | [] => rfl
  | [_] => rfl
  | inner :: outer :: fs => simp [spliceFrames]

/-- The parts of the innermost open node become parts of the node around it. -/
def splice (c : Cursor) : Cursor :=
  { c with frames := spliceFrames c.frames }

theorem follows_splice (c : Cursor) : Follows c c.splice :=
  follows_of_eq (by simp [splice, leaves]) rfl rfl rfl

/-- The latest finished part is replaced by others with its leaves. -/
def regroupFrames (f : Tree → List Tree) : List (List Tree) → List (List Tree)
  | (t :: frame) :: frames => ((f t).reverse ++ frame) :: frames
  | frames => frames

theorem frameLeaves_regroupFrames {f : Tree → List Tree} (h : ∀ t, Tree.leavesAll (f t) = t.leaves)
    (fs : List (List Tree)) : frameLeaves (regroupFrames f fs) = frameLeaves fs := by
  match fs with
  | [] => rfl
  | [] :: fs => rfl
  | (t :: frame) :: fs => simp [regroupFrames, h]

/-- The latest finished part is replaced by others with its leaves. -/
def regroup (f : Tree → List Tree) (c : Cursor) : Cursor :=
  { c with frames := regroupFrames f c.frames }

theorem follows_regroup {f : Tree → List Tree} (h : ∀ t, Tree.leavesAll (f t) = t.leaves)
    (c : Cursor) : Follows c (c.regroup f) :=
  follows_of_eq (by simp [regroup, leaves, frameLeaves_regroupFrames h]) rfl rfl rfl

/-- The `n` innermost open nodes are given up as one discarded part. -/
def discardFrames : Nat → List (List Tree) → List (List Tree)
  | 0, frames => frames
  | n + 1, frames => discardFrames n (closeFrames .discarded frames)

@[simp] theorem frameLeaves_discardFrames (n : Nat) (fs : List (List Tree)) :
    frameLeaves (discardFrames n fs) = frameLeaves fs := by
  induction n generalizing fs with
  | zero => rfl
  | succ n ih => simp [discardFrames, ih]

/-- Open nodes are given up until only `depth` are left. -/
def discard (depth : Nat) (c : Cursor) : Cursor :=
  { c with frames := discardFrames (c.frames.length - depth) c.frames }

theorem follows_discard (depth : Nat) (c : Cursor) : Follows c (c.discard depth) :=
  follows_of_eq (by simp [discard, leaves]) rfl rfl rfl

/-- The cursor before the first token of a script; `#!` makes its first line a comment of the
system, not of the script. -/
def start (s : List Char) : Cursor :=
  let header := match s with
    | '#' :: '!' :: rest => 2 + lineLength rest
    | _ => 0
  let gap := cutTrivia true (s.drop header)
  let next := tokenAt gap.2
  { frames := [if header = 0 then [] else [.leaf (.lexeme .plain) (s.take header)]]
    gap := gap.1
    token := next.1
    lexeme := gap.2.take next.2
    rest := gap.2.drop next.2
    newline := true }

theorem text_start (s : List Char) : (start s).text = s := by
  have h (n : Nat) := cutTrivia_text true (s.drop n)
  simp only [Tree.textAll] at h
  rw [text, ahead, leaves]
  unfold start
  generalize (match s with
    | '#' :: '!' :: rest => 2 + lineLength rest
    | _ => 0) = header
  by_cases hh : header = 0
  · subst hh
    simpa using h 0
  · simp [hh, h header]

theorem commentsEnd_start (s : List Char) : Tree.CommentsEnd (start s).leaves := by
  rw [leaves]
  unfold start
  generalize (match s with
    | '#' :: '!' :: rest => 2 + lineLength rest
    | _ => 0) = header
  by_cases hh : header = 0 <;> simp [hh, cutTrivia_commentsEnd]

theorem marks_start (s : List Char) : (start s).Marks := by
  rw [Marks, leaves, ahead]
  unfold start
  split
  · simp [LeafMarks, cutTrivia_marks, beginsComment_cutTrivia, Nat.add_comm 2]
  · simp [cutTrivia_marks, beginsComment_cutTrivia]

theorem bordered_start (s : List Char) : (start s).Bordered := by
  refine ⟨?_, .inr (spells_tokenAt _)⟩
  rw [leaves, ahead]
  unfold start
  generalize (match s with
    | '#' :: '!' :: rest => 2 + lineLength rest
    | _ => 0) = header
  by_cases hh : header = 0 <;> simp [hh, cutTrivia_bordered]

theorem runsOut_start (s : List Char) : RunsOut (start s).leaves (start s).ahead := by
  rw [leaves, ahead]
  unfold start
  generalize (match s with
    | '#' :: '!' :: rest => 2 + lineLength rest
    | _ => 0) = header
  by_cases hh : header = 0 <;> simp [hh, cutTrivia_runsOut]

end Cursor

/-! ### Steps -/

/-- Where a step from `c` ends. -/
inductive Outcome (c : Cursor) (α : Type)
  | ok (value : α) (next : Cursor) (follows : c.Follows next)
  | error (fault : Fault) (next : Cursor) (follows : c.Follows next)

/-- A reading step. -/
def Parse (α : Type) : Type :=
  (c : Cursor) → Outcome c α

namespace Parse

/-- The step that reads nothing. -/
protected def pure {α : Type} (value : α) : Parse α := fun c =>
  .ok value c (.refl c)

/-- One step after another. -/
protected def bind {α β : Type} (p : Parse α) (f : α → Parse β) : Parse β := fun c =>
  match p c with
  | .ok value d h =>
    match f value d with
    | .ok value' e h' => .ok value' e (h.trans h')
    | .error fault e h' => .error fault e (h.trans h')
  | .error fault d h => .error fault d h

instance : Monad Parse where
  pure := Parse.pure
  bind := Parse.bind

/-- A move of the cursor as a step. -/
def move (f : Cursor → Cursor) (h : ∀ c, Cursor.Follows c (f c)) : Parse Unit := fun c =>
  .ok () (f c) (h c)

/-- The token. -/
def peek : Parse Token := fun c =>
  .ok c.token c (.refl c)

/-- The text from the token on: the place a fault may be reported at. -/
def place : Parse (List Char) := fun c =>
  .ok c.ahead c (.refl c)

/-- A line ends before the token. -/
def newline : Parse Bool := fun c =>
  .ok c.newline c (.refl c)

/-- The latest finished part. -/
def latest : Parse (Option Tree) := fun c =>
  .ok (c.frames.head?.bind List.head?) c (.refl c)

/-- The script is refused at a place. -/
def failAt {α : Type} (cause : Cause) (place : List Char) : Parse α := fun c =>
  .error ⟨cause, place⟩ c (.refl c)

/-- The script is refused at the token; a token that cannot be read has a cause of its own. -/
def fail {α : Type} (cause : Cause) : Parse α := fun c =>
  match c.token with
  | .bad fault => .error ⟨.lexical fault, c.ahead⟩ c (.refl c)
  | _ => .error ⟨cause, c.ahead⟩ c (.refl c)

/-- The lexeme is no text between tags, and neither is the next one. -/
def isCode (kind : Lexeme) (mode : Mode) : Bool :=
  kind != .markupText && mode != .markup

theorem admits_of_isCode {kind : Lexeme} {mode : Mode} (h : isCode kind mode = true)
    (c : Cursor) : c.Admits kind mode := by
  rw [isCode, Bool.and_eq_true, bne_iff_ne, bne_iff_ne] at h
  exact ⟨fun hkind => absurd hkind h.1, fun hmode => absurd hmode h.2⟩

/-- The token is taken as a lexeme of a kind, and `mode` says how the next one is read. -/
def advance (kind : Lexeme) (mode : Mode) (h : isCode kind mode = true) : Parse Unit :=
  move (Cursor.advance kind mode) fun c => Cursor.follows_advance (admits_of_isCode h c)

/-- The token is taken. -/
def take : Parse Unit :=
  advance .plain .normal (.refl true)

/-- Text between tags is taken, and a tag or a brace comes next. -/
def markupText : Parse Unit := fun c =>
  if h : c.token = .markupText then
    .ok () (c.advance .markupText .markup) (Cursor.follows_advance ⟨fun _ => h, fun _ => .inl h⟩)
  else fail .unexpected c

/-- The sign that ends a tag or a brace between tags must come next; `mode` says how what follows
it is read. -/
def expectEndOf (sign : String) (mode : Mode) (hsign : sign = ">" ∨ sign = closeBrace) :
    Parse Unit := fun c =>
  if h : c.token = .sign sign then
    have hends : c.token = .sign ">" ∨ c.token = .sign closeBrace := by
      rwa [h, Token.sign.injEq, Token.sign.injEq]
    .ok () (c.advance .plain mode) (Cursor.follows_advance ⟨nofun, fun _ => .inr hends⟩)
  else fail (.missingSign sign) c

/-- The token is read again in another way. -/
def reread (scan : List Char → Token × Nat) (h : ReadsCode scan) : Parse Unit :=
  move (Cursor.reread scan) (Cursor.follows_reread h)

/-- The latest finished part is cut up in another way. -/
def regroup (f : Tree → List Tree) (h : ∀ t, Tree.leavesAll (f t) = t.leaves) : Parse Unit :=
  move (Cursor.regroup f) (Cursor.follows_regroup h)

/-- What `p` reads becomes a node, without the trivia before it. -/
def node {α : Type} (kind : NodeKind) (p : Parse α) : Parse α :=
  Parse.bind (move Cursor.flush Cursor.follows_flush) fun _ =>
  Parse.bind (move Cursor.openNode Cursor.follows_openNode) fun _ =>
  Parse.bind p fun value =>
  Parse.bind (move (Cursor.closeNode kind) (Cursor.follows_closeNode kind)) fun _ =>
  Parse.pure value

/-- The latest finished part and what `p` reads become a node. -/
def wrap {α : Type} (kind : NodeKind) (p : Parse α) : Parse α :=
  Parse.bind (move Cursor.adopt Cursor.follows_adopt) fun _ =>
  Parse.bind p fun value =>
  Parse.bind (move (Cursor.closeNode kind) (Cursor.follows_closeNode kind)) fun _ =>
  Parse.pure value

/-- As `node`, where what was read decides the kind. -/
def nodeOf (p : Parse NodeKind) : Parse Unit :=
  Parse.bind (move Cursor.flush Cursor.follows_flush) fun _ =>
  Parse.bind (move Cursor.openNode Cursor.follows_openNode) fun _ =>
  Parse.bind p fun kind =>
  move (Cursor.closeNode kind) (Cursor.follows_closeNode kind)

/-- As `wrap`, where what was read decides the kind. -/
def wrapOf (p : Parse NodeKind) : Parse Unit :=
  Parse.bind (move Cursor.adopt Cursor.follows_adopt) fun _ =>
  Parse.bind p fun kind =>
  move (Cursor.closeNode kind) (Cursor.follows_closeNode kind)

/-- What `p` reads, or `none` and no step at all if it fails. -/
def attempt {α : Type} (p : Parse α) : Parse (Option α) := fun c =>
  match p c with
  | .ok value d h => .ok (some value) d h
  | .error _ _ _ => .ok none c (.refl c)

/-- Whether `p` would go well; no step is taken. -/
def test (p : Parse Bool) : Parse Bool := fun c =>
  match p c with
  | .ok value _ _ => .ok value c (.refl c)
  | .error _ _ _ => .ok false c (.refl c)

/-- A failure of `p` before a token that `accepts` is mended: what it read is discarded, and
reading goes on where it failed. -/
def mend (accepts : Token → Bool) (p : Parse Unit) : Parse Unit := fun c =>
  let depth := c.flush.frames.length
  match p c.flush.openNode with
  | .ok () d h =>
    .ok () d.splice (((c.follows_flush.trans c.flush.follows_openNode).trans h).trans
      d.follows_splice)
  | .error fault d h =>
    have follows := ((c.follows_flush.trans c.flush.follows_openNode).trans h)
    if accepts d.token then .ok () (d.discard depth) (follows.trans (d.follows_discard depth))
    else .error fault d follows

/-- Whether `p` was read; if it fails no step is taken. -/
def succeeds {α : Type} (p : Parse α) : Parse Bool :=
  Parse.bind (attempt p) fun value => Parse.pure value.isSome

/-- The step is taken until it says that it is the last, at most once more than `fuel` has
characters. -/
def repeatIn : List Char → Parse Bool → Parse Unit
  | [], p => Parse.bind p fun _ => Parse.pure ()
  | _ :: fuel, p => Parse.bind p fun more => if more then repeatIn fuel p else Parse.pure ()

/-- The step is taken until it says that it is the last. Each step but the last passes a
token, so there is at most one more than there are characters ahead. -/
def loop (p : Parse Bool) : Parse Unit := fun c =>
  repeatIn c.ahead p c

/-! ### Tokens -/

/-- The token is this sign. -/
def sees (sign : String) : Parse Bool :=
  Parse.bind peek fun t => pure (t.isSign sign)

/-- The token is this word. -/
def seesWord (word : String) : Parse Bool :=
  Parse.bind peek fun t => pure (t.isWord word)

/-- The sign is taken if it is there. -/
def eat (sign : String) : Parse Bool :=
  Parse.bind (sees sign) fun yes =>
    if yes then Parse.bind take fun _ => Parse.pure true else Parse.pure false

/-- The word is taken if it is there. -/
def eatWord (word : String) : Parse Bool :=
  Parse.bind (seesWord word) fun yes =>
    if yes then Parse.bind take fun _ => Parse.pure true else Parse.pure false

/-- The sign must come next. -/
def expect (sign : String) : Parse Unit :=
  Parse.bind (sees sign) fun yes => if yes then take else fail (.missingSign sign)

/-- The word must come next. -/
def expectWord (word : String) : Parse Unit :=
  Parse.bind (seesWord word) fun yes => if yes then take else fail (.missingWord word)

/-- Whether the tokens from here on answer to `p`, taken for a look only. -/
def ahead (p : Parse Bool) : Parse Bool :=
  test (Parse.bind take fun _ => p)

/-- A statement may end here: at a semicolon, a closing brace, the end of the text, or where a
line ends before the token. -/
def atEnd : Parse Bool := do
  let t ← peek
  let broken ← newline
  return t.isSign ";" || t.isSign closeBrace || t == .endOfText || broken

/-- A statement ends here; a semicolon is taken. -/
def eatEnd : Parse Bool := do
  if ← eat ";" then return true
  atEnd

/-- A statement must end here. -/
def expectEnd : Parse Unit := do
  unless ← eatEnd do fail (.missingSign ";")

/-- If the token begins with an angle bracket, that bracket alone becomes the token. -/
def splitAngle : Parse Unit := do
  match ← peek with
  | .sign s => if s != "<=" && (s.startsWith "<" || s.startsWith ">") then
    reread angleToken readsCode_angleToken
  | _ => pure ()

end Parse

end Untranslated.Script
