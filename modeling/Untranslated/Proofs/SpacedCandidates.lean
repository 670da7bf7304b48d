import Untranslated.Proofs.Neighbours
import Untranslated.Proofs.SpacedScripts

/-!
# Candidates of a script with a gap

A gap of spaces moves no character to another line, so each literal is read from its text as it
was, with other text around it at most (`candidates_spaced`). Only a template can have the gap
inside: then its own text changes, and what is told of its pieces does not.

* `Occurrence.candidateIn`: what a literal is read as, from itself and what is seen around it.
* `Candidate.Spaced`: what becomes of a candidate.
-/

namespace Untranslated

namespace Text

/-! ### Lines around a gap -/

theorem lineEndsBefore_of_lt {offset : Nat} {c : Char} (h : offset < c.utf8Size) (s : List Char) :
    lineEndsBefore offset (c :: s) = 0 := by
  by_cases hboth : c = '\r' ∧ ∃ rest, s = '\n' :: rest
  · obtain ⟨rfl, rest, rfl⟩ := hboth
    have hsize : '\r'.utf8Size = 1 := rfl
    rw [lineEndsBefore, if_pos]
    simp only [Bool.or_eq_true, decide_eq_true_eq]
    omega
  · rw [lineEndsBefore, if_pos h]
    exact fun rest hc hs => hboth ⟨hc, rest, hs⟩

/-- A carriage return and a newline end one line. -/
theorem lineEndsBefore_both (offset : Nat) {s : List Char} (hs : s ≠ []) :
    lineEndsBefore (bytes ['\r', '\n'] + offset) ('\r' :: '\n' :: s) =
      1 + lineEndsBefore offset s := by
  rw [← lineEndsBefore_return offset hs, Nat.add_comm offset]
  rfl

/-- Any other newline or carriage return ends a line of its own. -/
theorem lineEndsBefore_one (offset : Nat) {c : Char} {s : List Char} (hs : s ≠ [])
    (h : ¬(c = '\r' ∧ s.head? = some '\n')) :
    lineEndsBefore (c.utf8Size + offset) (c :: s) =
      (if c = '\n' ∨ c = '\r' then 1 else 0) + lineEndsBefore offset s := by
  rw [lineEndsBefore, if_neg (by omega)]
  · have hne : s.isEmpty = false := by simpa using hs
    by_cases hc : c = '\n' ∨ c = '\r' <;> simp [hc, hne]
  · rintro rest rfl rfl
    exact h ⟨rfl, rfl⟩

/-- **What comes after a character has no say in its line.** -/
theorem lineEndsBefore_congr : ∀ (a : List Char) {b b' : List Char} {offset : Nat},
    offset < bytes a → lineEndsBefore offset (a ++ b) = lineEndsBefore offset (a ++ b')
  | [], _, _, _, h => absurd h (Nat.not_lt_zero _)
  | [c], b, b', offset, h => by
    rw [bytes_cons, bytes_nil, Nat.add_zero] at h
    rw [List.singleton_append, List.singleton_append, lineEndsBefore_of_lt h,
      lineEndsBefore_of_lt h]
  | c :: d :: a, b, b', offset, h => by
    rw [List.cons_append, List.cons_append, List.cons_append, List.cons_append]
    -- Both are passed at once where they end one line.
    by_cases hboth : c = '\r' ∧ d = '\n'
    · obtain ⟨rfl, rfl⟩ := hboth
      by_cases hoffset : offset < bytes ['\r', '\n']
      · rw [lineEndsBefore, if_pos, lineEndsBefore, if_pos]
        all_goals exact Bool.or_eq_true_iff.2 (.inl (decide_eq_true hoffset))
      · obtain ⟨rest, rfl⟩ := Nat.exists_eq_add_of_le (Nat.le_of_not_lt hoffset)
        have hrest : rest < bytes a := by
          simp only [bytes_cons, bytes_nil] at h
          omega
        have ha : a ≠ [] := by
          rintro rfl
          exact absurd hrest (Nat.not_lt_zero _)
        rw [lineEndsBefore_both rest (by simp [ha]), lineEndsBefore_both rest (by simp [ha]),
          lineEndsBefore_congr a hrest]
    · by_cases hoffset : offset < c.utf8Size
      · rw [lineEndsBefore_of_lt hoffset, lineEndsBefore_of_lt hoffset]
      · obtain ⟨rest, rfl⟩ := Nat.exists_eq_add_of_le (Nat.le_of_not_lt hoffset)
        rw [bytes_cons] at h
        have hrest : rest < bytes (d :: a) := by omega
        have hhead : ∀ b : List Char, ¬(c = '\r' ∧ (d :: (a ++ b)).head? = some '\n') := by
          rintro b ⟨hr, hn⟩
          exact hboth ⟨hr, Option.some.inj hn⟩
        have ih := @lineEndsBefore_congr (d :: a) b b' rest hrest
        rw [List.cons_append, List.cons_append] at ih
        rw [lineEndsBefore_one rest (by simp) (hhead b),
          lineEndsBefore_one rest (by simp) (hhead b'), ih]

/-- The line ends of a text count the same before whatever comes next, unless a carriage return
and its newline are parted. -/
theorem exists_lineEnds : ∀ a : List Char, ∃ ends : Nat, ∀ (s : List Char) (offset : Nat), s ≠ [] →
    ¬(a.getLast? = some '\r' ∧ s.head? = some '\n') →
    lineEndsBefore (bytes a + offset) (a ++ s) = ends + lineEndsBefore offset s
  | [] => ⟨0, fun s offset _ _ => by simp⟩
  | [c] => by
    refine ⟨if c = '\n' ∨ c = '\r' then 1 else 0, fun s offset hs h => ?_⟩
    rw [bytes_cons, bytes_nil, Nat.add_zero, List.singleton_append]
    exact lineEndsBefore_one offset hs fun hc => h ⟨by rw [hc.1]; rfl, hc.2⟩
  | c :: d :: a => by
    by_cases hboth : c = '\r' ∧ d = '\n'
    · obtain ⟨rfl, rfl⟩ := hboth
      obtain ⟨ends, hends⟩ := exists_lineEnds a
      refine ⟨1 + ends, fun s offset hs h => ?_⟩
      have hlast : ¬(a.getLast? = some '\r' ∧ s.head? = some '\n') := by
        rintro ⟨ha, hn⟩
        obtain ⟨front, rfl⟩ := List.getLast?_eq_some_iff.1 ha
        exact h ⟨by simp [List.getLast?_cons], hn⟩
      have hbytes : bytes ('\r' :: '\n' :: a) + offset =
          bytes ['\r', '\n'] + (bytes a + offset) := by
        simp only [bytes_cons, bytes_nil]
        omega
      rw [hbytes, List.cons_append, List.cons_append, lineEndsBefore_both _ (by simp [hs]),
        hends s offset hs hlast, Nat.add_assoc]
    · obtain ⟨ends, hends⟩ := exists_lineEnds (d :: a)
      refine ⟨(if c = '\n' ∨ c = '\r' then 1 else 0) + ends, fun s offset hs h => ?_⟩
      have hlast : ¬((d :: a).getLast? = some '\r' ∧ s.head? = some '\n') := by
        rintro ⟨ha, hn⟩
        exact h ⟨by rw [List.getLast?_cons_cons]; exact ha, hn⟩
      have hhead : ¬(c = '\r' ∧ (d :: a ++ s).head? = some '\n') := by
        rintro ⟨hr, hn⟩
        exact hboth ⟨hr, Option.some.inj hn⟩
      rw [bytes_cons, Nat.add_assoc, List.cons_append, lineEndsBefore_one _ (by simp) hhead,
        hends s offset hs hlast, Nat.add_assoc]

/-- **A gap moves the characters behind it to no other line**, unless it parts a carriage return
from its newline. -/
theorem lineEndsBefore_gap {a b : List Char} (offset count : Nat) (hb : b ≠ [])
    (h : ¬(a.getLast? = some '\r' ∧ b.head? = some '\n')) :
    lineEndsBefore (bytes a + offset + count) (a ++ (List.replicate count ' ' ++ b)) =
      lineEndsBefore (bytes a + offset) (a ++ b) := by
  obtain ⟨ends, hends⟩ := exists_lineEnds a
  have hspaces : lineEndsBefore (offset + count) (List.replicate count ' ' ++ b) =
      lineEndsBefore offset b := by
    induction count with
    | zero => rfl
    | succ count ih =>
      have hone := lineEndsBefore_one (offset + count) (c := ' ')
        (s := List.replicate count ' ' ++ b) (by simp [hb]) (by simp)
      have hsize : ' '.utf8Size = 1 := rfl
      rw [ih, hsize, Nat.add_comm 1] at hone
      simpa [List.replicate_succ, Nat.add_assoc] using hone
  have hhead : ¬(a.getLast? = some '\r' ∧ (List.replicate count ' ' ++ b).head? = some '\n') := by
    cases count with
    | zero => exact h
    | succ count => simp [List.replicate_succ]
  rw [Nat.add_assoc, hends _ _ (by simp [hb]) hhead, hends _ _ hb h, hspaces]

/-- Of two cuts of a text the one that is further on passes what the other one does. -/
theorem exists_of_append_eq {a b c d : List Char} (h : a ++ b = c ++ d) (hle : bytes c ≤ bytes a) :
    ∃ m, a = c ++ m ∧ d = m ++ b := by
  rcases List.append_eq_append_iff.1 h with ⟨m, hc, hb⟩ | ⟨m, ha, hd⟩
  · rw [hc, bytes_append] at hle
    obtain rfl : m = [] := eq_nil_of_bytes (by omega)
    exact ⟨[], by simpa using hc.symm, hb.symm⟩
  · exact ⟨m, ha, hd⟩

end Text

open Script (Dialect Gap ReadsAlike Tree delimiterAt read shift shift_cases)
open Text (bytes trim trimStart lineAt isBlank)

/-! ### A template with a gap -/

/-- What comes before the closing mark of a template. -/
def untilClosing (s : List Char) : List Char :=
  if s.getLast? == some '\x60' then s.dropLast else s

theorem untilClosing_append (u : List Char) {v : List Char} (hv : v ≠ []) :
    untilClosing (u ++ v) = u ++ untilClosing v := by
  unfold untilClosing
  rw [List.getLast?_append_of_ne_nil u hv, List.dropLast_append_of_ne_nil hv]
  split <;> rfl

theorem content_template_of_notMem {s : List Char} (h : '\x60' ∉ s) :
    content .template s = (s, 0) := by
  have hall : s.takeWhile (· != '\x60') = s :=
    List.takeWhile_eq_self_iff.2 fun c hc => by simpa using ne_of_mem_of_not_mem hc h
  rw [content, if_pos (by rw [hall])]

theorem content_template_append {u : List Char} (h : '\x60' ∉ u) (s : List Char) :
    content .template (u ++ '\x60' :: s) = (untilClosing s, bytes u + 1) := by
  have hall : ∀ c ∈ u, (c != '\x60') = true :=
    fun c hc => by simpa using ne_of_mem_of_not_mem hc h
  have hbefore : (u ++ '\x60' :: s).takeWhile (· != '\x60') = u := by
    rw [List.takeWhile_append_of_pos hall, List.takeWhile_cons_of_neg (by simp), List.append_nil]
  have hinner : (u ++ '\x60' :: s).drop (u.length + 1) = s := by simp [List.drop_append]
  simp only [content, hbefore]
  rw [if_neg (by simp), hinner]
  rfl

/-- The gap in a template stands before its content or in it. -/
theorem content_gap {u gap v : List Char} (hgap : '\x60' ∉ gap) (hv : v ≠ []) :
    (∃ body skipped, content .template (u ++ v) = (body, bytes u + skipped) ∧
      content .template (u ++ (gap ++ v)) = (body, bytes u + bytes gap + skipped)) ∨
    ∃ front back skipped, content .template (u ++ v) = (front ++ back, skipped) ∧
      content .template (u ++ (gap ++ v)) = (front ++ (gap ++ back), skipped) ∧
      skipped + bytes front = bytes u := by
  -- The content begins behind the first mark, and that is in `u`, or in `v`, or nowhere.
  by_cases hu : '\x60' ∈ u
  · obtain ⟨lead, front, rfl, hlead⟩ := List.eq_append_cons_of_mem hu
    refine .inr ⟨front, untilClosing v, bytes lead + 1, ?_, ?_, ?_⟩
    · rw [List.append_assoc, List.cons_append, content_template_append hlead,
        untilClosing_append front hv]
    · rw [List.append_assoc, List.cons_append, content_template_append hlead,
        untilClosing_append front (by simp [hv]), untilClosing_append gap hv]
    · rw [Text.bytes_append, Text.bytes_cons, ← Nat.add_assoc]
      rfl
  · by_cases hmem : '\x60' ∈ v
    · obtain ⟨lead, body, rfl, hlead⟩ := List.eq_append_cons_of_mem hmem
      refine .inl ⟨untilClosing body, bytes lead + 1, ?_, ?_⟩
      · rw [← List.append_assoc, content_template_append (by simp [hu, hlead]), Text.bytes_append,
          Nat.add_assoc]
      · rw [← List.append_assoc, ← List.append_assoc,
          content_template_append (by simp [hu, hgap, hlead]), Text.bytes_append, Text.bytes_append,
          Nat.add_assoc]
    · exact .inr ⟨u, v, 0, content_template_of_notMem (by simp [hu, hmem]),
        content_template_of_notMem (by simp [hu, hgap, hmem]), Nat.zero_add _⟩

/-- Where the first character that is kept of a literal stands in it. -/
def firstKept (d : Delimiter) (outer : List Char) : Nat :=
  let (body, skipped) := content d outer
  skipped + (bytes body - bytes (trimStart body))

/-- The first character that is kept of a literal is in the literal. -/
theorem firstKept_lt {d : Delimiter} (hd : ∀ mark, d = .quote mark → mark.utf8Size = 1)
    {outer : List Char} (h : trim (content d outer).1 ≠ []) : firstKept d outer < bytes outer := by
  obtain ⟨opening, closing, houter, hskipped⟩ := exists_content hd outer
  unfold firstKept
  dsimp only
  generalize (content d outer).1 = body at h houter ⊢
  obtain ⟨indent, tail, hbody, hindent⟩ := Text.exists_trim body
  have hkept : 0 < bytes (trim body) := by
    rw [Nat.pos_iff_ne_zero]
    exact fun hzero => h (Text.eq_nil_of_bytes hzero)
  have houter := congrArg bytes houter
  have hbody := congrArg bytes hbody
  simp only [Text.bytes_append] at houter hbody
  omega

theorem bytes_sub_trimStart (s : List Char) :
    bytes s - bytes (trimStart s) = bytes (s.takeWhile isBlank) := by
  have hs := congrArg bytes (List.takeWhile_append_dropWhile (p := isBlank) (l := s))
  rw [Text.bytes_append] at hs
  rw [trimStart]
  omega

/-- The blanks at the head of a text with a gap are those it had, and the gap if it stands among
them. -/
theorem bytes_takeWhile_gap {front gap : List Char} (hgap : ∀ c ∈ gap, isBlank c = true)
    (back : List Char) : bytes ((front ++ (gap ++ back)).takeWhile isBlank) =
      shift (bytes front) (bytes gap) (bytes ((front ++ back).takeWhile isBlank)) := by
  by_cases hfront : ∀ c ∈ front, isBlank c = true
  · rw [List.takeWhile_append_of_pos hfront, List.takeWhile_append_of_pos hfront,
      List.takeWhile_append_of_pos hgap, Text.bytes_append, Text.bytes_append, Text.bytes_append,
      shift, if_neg (by omega)]
    omega
  · have hne : (front.takeWhile isBlank).length ≠ front.length := by
      intro heq
      refine hfront (List.takeWhile_eq_self_iff.1 ?_)
      exact (List.takeWhile_prefix isBlank).eq_of_length heq
    have hrest : ∀ s, (front ++ s).takeWhile isBlank = front.takeWhile isBlank := by
      intro s
      rw [List.takeWhile_append, if_neg hne]
    have hlt : bytes (front.takeWhile isBlank) < bytes front := by
      have hdrop : front.dropWhile isBlank ≠ [] := by
        simpa [List.dropWhile_eq_nil_iff] using hfront
      have hfront := congrArg bytes (List.takeWhile_append_dropWhile (p := isBlank) (l := front))
      have hpos : bytes (front.dropWhile isBlank) ≠ 0 := fun h => hdrop (Text.eq_nil_of_bytes h)
      rw [Text.bytes_append] at hfront
      omega
    rw [hrest, hrest, shift, if_pos hlt]

/-- **What is kept of a template with a gap begins where it did**, or is moved with the gap. -/
theorem firstKept_gap {u gap v : List Char} (hgap : ∀ c ∈ gap, isBlank c = true) (hv : v ≠ []) :
    firstKept .template (u ++ (gap ++ v)) =
        shift (bytes u) (bytes gap) (firstKept .template (u ++ v)) ∧
      (trim (content .template (u ++ (gap ++ v))).1 = [] ↔
        trim (content .template (u ++ v)).1 = []) := by
  have hmark : '\x60' ∉ gap := fun hmem => absurd (hgap _ hmem) (by decide)
  unfold firstKept
  rcases content_gap hmark hv with
    ⟨body, skipped, heq, heq'⟩ | ⟨front, back, skipped, heq, heq', hsize⟩
  · rw [heq, heq']
    refine ⟨?_, Iff.rfl⟩
    have hshift := shift_cases (bytes u) (bytes gap)
      (bytes u + skipped + (bytes body - bytes (trimStart body)))
    dsimp only
    omega
  · rw [heq, heq']
    dsimp only
    rw [bytes_sub_trimStart, bytes_sub_trimStart, bytes_takeWhile_gap hgap]
    constructor
    · have hinner := shift_cases (bytes front) (bytes gap)
        (bytes ((front ++ back).takeWhile isBlank))
      have houter := shift_cases (bytes u) (bytes gap)
        (skipped + bytes ((front ++ back).takeWhile isBlank))
      omega
    · simp only [Text.trim_eq_nil_iff, List.forall_mem_append]
      exact ⟨fun h => ⟨h.1, h.2.2⟩, fun h => ⟨h.1, hgap, h.2⟩⟩

/-! ### Candidates -/

/-- The candidate that the literal `outer` of the script `s` is, with the text that is seen around
it. -/
def Occurrence.candidateIn (x : Occurrence) (d : Delimiter) (outer s before after : List Char) :
    Option Candidate :=
  let text := trim (content d outer).1
  if text.isEmpty then none
  else some {
    kind := x.origin.kind
    line := lineAt (x.lo + firstKept d outer) s
    text := text
    staticText := x.pieces.elim text fun pieces => trim (joinPieces pieces)
    delimiter := d
    attributeName := x.origin.attributeName
    callee := x.origin.callee
    tag := x.origin.tag
    before := before
    after := after }

/-- **A literal is read from what it is and from what stands around it.** Its line is counted in
the text `read`. -/
theorem candidate?_of_split {x : Occurrence} {a outer b : List Char} (read : List Char)
    (hlo : x.lo = bytes a) (hhi : x.hi = bytes (a ++ outer)) :
    x.candidate? (a ++ outer ++ b) read =
      some (x.candidateIn (delimiterAt x (outer ++ b)) outer read (contextBefore a.reverse)
        (contextAfter b)) := by
  have hcut : x.hi - x.lo = bytes outer := by
    rw [hhi, hlo, Text.bytes_append]
    omega
  unfold Occurrence.candidate? Occurrence.candidateIn
  rw [List.append_assoc]
  conv_lhs => rw [hlo, Text.cutBack?_append, ← hlo]
  simp only [Option.bind_eq_bind, Option.bind_some, hcut, Text.cut?_append, List.append_nil]
  by_cases hblank : (trim (content (delimiterAt x (outer ++ b)) outer).1).isEmpty = true
  · rw [if_pos hblank]
    exact if_pos hblank
  · rw [if_neg hblank, firstKept, ← Nat.add_assoc]
    exact if_neg hblank

/-- A literal can be read just where its range cuts no character. -/
theorem candidate?_eq_some_iff {x : Occurrence} {source read : List Char} {c : Option Candidate}
    (hle : x.lo ≤ x.hi) : x.candidate? source read = some c ↔
      ∃ a outer b, source = a ++ outer ++ b ∧ x.lo = bytes a ∧ x.hi = bytes (a ++ outer) ∧
        c = x.candidateIn (delimiterAt x (outer ++ b)) outer read (contextBefore a.reverse)
          (contextAfter b) := by
  constructor
  · intro h
    obtain ⟨⟨behind, rest⟩, hbefore, hrest⟩ := Option.bind_eq_some_iff.1 h
    obtain ⟨⟨outer, b⟩, hcut, -⟩ := Option.bind_eq_some_iff.1 hrest
    obtain ⟨a, -, rfl, hlo⟩ := Text.exists_of_cutBack? hbefore
    obtain ⟨rfl, hsize⟩ := Text.append_eq_of_cut? hcut
    have hhi : x.hi = bytes (a ++ outer) := by
      rw [Text.bytes_append]
      omega
    rw [← List.append_assoc, candidate?_of_split read hlo.symm hhi] at h
    exact ⟨a, outer, b, (List.append_assoc a outer b).symm, hlo.symm, hhi,
      (Option.some.inj h).symm⟩
  · rintro ⟨a, outer, b, rfl, hlo, hhi, rfl⟩
    exact candidate?_of_split read hlo hhi

/-- **What becomes of a candidate when a gap is put between `x` and `y`**: the text that is seen on
the side of the gap changes, or the candidate's own text if the gap is inside, which is only said of
candidates that are `quiet`. -/
inductive Candidate.Spaced (quiet : Candidate → Prop) (x gap y : List Char) (c : Candidate) :
    Candidate → Prop
  | ahead (a outer m : List Char) (split : x = a ++ outer ++ m)
      (view : contextLength ≤ m.length ∨ Shows (m ++ (gap ++ y)))
      (context : c.after = contextAfter (m ++ y)) :
      Spaced quiet x gap y c { c with after := contextAfter (m ++ (gap ++ y)) }
  | within (h : quiet c) (text : List Char) : Spaced quiet x gap y c { c with text := text }
  | behind (m outer b : List Char) (split : y = m ++ outer ++ b)
      (view : contextLength ≤ m.length ∨ Shows (m.reverse ++ (gap.reverse ++ x.reverse)))
      (context : c.before = contextBefore (m.reverse ++ x.reverse)) :
      Spaced quiet x gap y c
        { c with before := contextBefore (m.reverse ++ (gap.reverse ++ x.reverse)) }

/-- On the side where a gap is put between `x` and `y`, the literal shows what stands next to it,
unless the gap is out of sight. -/
structure Occurrence.InView (x gap y : List Char) (lit : Occurrence) : Prop where
  ahead : ∀ a outer m, x = a ++ outer ++ m → lit.lo = bytes a → lit.hi = bytes (a ++ outer) →
    contextLength ≤ m.length ∨ Shows (m ++ (gap ++ y))
  behind : ∀ m outer b, y = m ++ outer ++ b → lit.lo = bytes (x ++ m) →
    lit.hi = bytes (x ++ m ++ outer) →
      contextLength ≤ m.length ∨ Shows (m.reverse ++ (gap.reverse ++ x.reverse))

/-- The quote of a literal that is not empty is in it. -/
theorem delimiterAt_append (lit : Occurrence) {outer : List Char} (h : outer ≠ [])
    (b b' : List Char) : delimiterAt lit (outer ++ b) = delimiterAt lit (outer ++ b') := by
  obtain ⟨c, outer, rfl⟩ := List.exists_cons_of_ne_nil h
  rfl

/-- Nothing is read of a literal without characters. -/
theorem candidateIn_nil (lit : Occurrence) (d : Delimiter) (s before after : List Char) :
    lit.candidateIn d [] s before after = none := by
  cases d with
  | quote mark => cases mark; rfl
  | _ => rfl

theorem bytes_replicate_space (count : Nat) : bytes (List.replicate count ' ') = count := by
  induction count with
  | zero => rfl
  | succ count ih =>
    have hsize : ' '.utf8Size = 1 := rfl
    rw [List.replicate_succ, Text.bytes_cons, ih, hsize, Nat.add_comm]

section Gap

variable {quiet : Candidate → Prop} {x gap y : List Char} {lit : Occurrence} {count : Nat}

/-- **A character that is moved with a gap stays on its line.** -/
theorem lineAt_shift (hgap : gap = List.replicate count ' ')
    (hseam : ¬(x.getLast? = some '\r' ∧ y.head? = some '\n')) {i : Nat}
    (hy : bytes x ≤ i → y ≠ []) :
    lineAt (shift (bytes x) (bytes gap) i) (x ++ (gap ++ y)) = lineAt i (x ++ y) := by
  unfold shift
  split
  case isTrue hlt => rw [lineAt, lineAt, Text.lineEndsBefore_congr x hlt]
  case isFalse hle =>
    obtain ⟨offset, rfl⟩ := Nat.exists_eq_add_of_le (Nat.le_of_not_lt hle)
    rw [lineAt, lineAt, hgap, bytes_replicate_space,
      Text.lineEndsBefore_gap offset count (hy (Nat.le_add_right _ _)) hseam]

/-- A literal before a gap stays on its line, and only the text after it changes. -/
theorem candidateIn_ahead {a outer m : List Char} (split : x = a ++ outer ++ m)
    (hlo : lit.lo = bytes a) (view : contextLength ≤ m.length ∨ Shows (m ++ (gap ++ y)))
    {d : Delimiter} (hd : ∀ mark, d = .quote mark → mark.utf8Size = 1) (before : List Char) :
    Option.Rel (Candidate.Spaced quiet x gap y)
      (lit.candidateIn d outer (x ++ y) before (contextAfter (m ++ y)))
      (lit.candidateIn d outer (x ++ (gap ++ y)) before (contextAfter (m ++ (gap ++ y)))) := by
  unfold Occurrence.candidateIn
  dsimp only
  by_cases hblank : (trim (content d outer).1).isEmpty = true
  · rw [if_pos hblank, if_pos hblank]
    exact .none
  · have hne : trim (content d outer).1 ≠ [] := fun h => hblank (List.isEmpty_iff.2 h)
    have hfirst := firstKept_lt hd hne
    have hx : bytes x = bytes a + bytes outer + bytes m := by
      rw [split, Text.bytes_append, Text.bytes_append]
    rw [if_neg hblank, if_neg hblank, lineAt, lineAt,
      @Text.lineEndsBefore_congr x y (gap ++ y) _ (by omega)]
    exact .some (.ahead a outer m split view rfl)

/-- A template around a gap stays on its line, and only its own text changes. -/
theorem candidateIn_within {a u v b : List Char} (hx : x = a ++ u) (hy : y = v ++ b) (hv : v ≠ [])
    (hgap : gap = List.replicate count ' ')
    (hseam : ¬(x.getLast? = some '\r' ∧ y.head? = some '\n')) (hlo : lit.lo = bytes a)
    (hpieces : lit.pieces.isSome = true) (hi : Nat) {before after : List Char}
    (hquiet : ∀ c ∈ lit.candidateIn .template (u ++ v) (x ++ y) before after, quiet c) :
    Option.Rel (Candidate.Spaced quiet x gap y)
      (lit.candidateIn .template (u ++ v) (x ++ y) before after)
      ({ lit with hi := hi }.candidateIn .template (u ++ (gap ++ v)) (x ++ (gap ++ y)) before
        after) := by
  have hblanks : ∀ c ∈ gap, isBlank c = true := by
    intro c hc
    rw [hgap] at hc
    rw [List.eq_of_mem_replicate hc]
    rfl
  obtain ⟨hfirst, hempty⟩ := firstKept_gap (u := u) hblanks hv
  obtain ⟨pieces, hpieces⟩ := Option.isSome_iff_exists.1 hpieces
  unfold Occurrence.candidateIn at hquiet ⊢
  dsimp only at hquiet ⊢
  by_cases hblank : (trim (content .template (u ++ v)).1).isEmpty = true
  · have hblank' := List.isEmpty_iff.2 (hempty.2 (List.isEmpty_iff.1 hblank))
    rw [if_pos hblank, if_pos hblank']
    exact .none
  · have hblank' : ¬(trim (content .template (u ++ (gap ++ v))).1).isEmpty = true :=
      fun h => hblank (List.isEmpty_iff.2 (hempty.1 (List.isEmpty_iff.1 h)))
    have hline : lit.lo + firstKept .template (u ++ (gap ++ v)) =
        shift (bytes x) (bytes gap) (lit.lo + firstKept .template (u ++ v)) := by
      have hinner := shift_cases (bytes u) (bytes gap) (firstKept .template (u ++ v))
      have houter := shift_cases (bytes x) (bytes gap) (lit.lo + firstKept .template (u ++ v))
      have hsize : bytes x = bytes a + bytes u := by rw [hx, Text.bytes_append]
      omega
    rw [if_neg hblank] at hquiet ⊢
    rw [if_neg hblank', hline, lineAt_shift hgap hseam fun _ => by simp [hy, hv]]
    rw [hpieces] at hquiet ⊢
    exact .some (.within (hquiet _ rfl) _)

/-- A literal behind a gap stays on its line, and only the text before it changes. -/
theorem candidateIn_behind {m outer b : List Char} (split : y = m ++ outer ++ b)
    (hgap : gap = List.replicate count ' ') (hlo : lit.lo = bytes (x ++ m))
    (hseam : ¬(x.getLast? = some '\r' ∧ y.head? = some '\n')) (houter : outer ≠ [])
    (view : contextLength ≤ m.length ∨ Shows (m.reverse ++ (gap.reverse ++ x.reverse)))
    {d : Delimiter} (after : List Char) :
    Option.Rel (Candidate.Spaced quiet x gap y)
      (lit.candidateIn d outer (x ++ y) (contextBefore (m.reverse ++ x.reverse)) after)
      ((lit.move (bytes gap)).candidateIn d outer (x ++ (gap ++ y))
        (contextBefore (m.reverse ++ (gap.reverse ++ x.reverse))) after) := by
  unfold Occurrence.candidateIn Occurrence.move
  dsimp only
  by_cases hblank : (trim (content d outer).1).isEmpty = true
  · rw [if_pos hblank, if_pos hblank]
    exact .none
  · have hline : lit.lo + bytes gap + firstKept d outer =
        shift (bytes x) (bytes gap) (lit.lo + firstKept d outer) := by
      rw [hlo, Text.bytes_append, shift, if_neg (by omega)]
      omega
    rw [if_neg hblank, if_neg hblank, hline,
      lineAt_shift hgap hseam fun _ => by simp [split, houter]]
    exact .some (.behind m outer b split view rfl)

/-- A literal before the gap is read as it was. -/
theorem candidate?_ahead {a outer m : List Char} (hx : x = a ++ outer ++ m) (hlo : lit.lo = bytes a)
    (hhi : lit.hi = bytes (a ++ outer)) (view : lit.InView x gap y) :
    Option.Rel (Candidate.Spaced quiet x gap y) (lit.candidate? (x ++ y) (x ++ y)).join
      (lit.candidate? (x ++ (gap ++ y)) (x ++ (gap ++ y))).join := by
  have hsplit : ∀ s, x ++ s = a ++ outer ++ (m ++ s) := fun s => by rw [hx, List.append_assoc]
  have hcandidate : ∀ s, lit.candidate? (x ++ s) (x ++ s) = _ := fun s => by
    rw [hsplit s, candidate?_of_split _ hlo hhi, ← hsplit s]
  rw [hcandidate, hcandidate]
  by_cases houter : outer = []
  · rw [houter, candidateIn_nil, candidateIn_nil]
    exact .none
  · rw [delimiterAt_append lit houter (m ++ (gap ++ y)) (m ++ y)]
    exact candidateIn_ahead hx hlo (view.ahead a outer m hx hlo hhi)
      (fun _ => utf8Size_of_delimiterAt) _

/-- A template around the gap is read as it was, but for its own text. -/
theorem candidate?_within {a u v b : List Char} (hx : x = a ++ u) (hy : y = v ++ b) (hv : v ≠ [])
    (hgap : gap = List.replicate count ' ')
    (hseam : ¬(x.getLast? = some '\r' ∧ y.head? = some '\n')) (hlo : lit.lo = bytes a)
    (hhi : lit.hi = bytes (a ++ (u ++ v))) (hdelimiter : lit.delimiter = .template)
    (hpieces : lit.pieces.isSome = true)
    (hquiet : ∀ c, lit.candidate? (x ++ y) (x ++ y) = some (some c) → quiet c) :
    Option.Rel (Candidate.Spaced quiet x gap y) (lit.candidate? (x ++ y) (x ++ y)).join
      ({ lit with hi := lit.hi + bytes gap }.candidate?
        (x ++ (gap ++ y)) (x ++ (gap ++ y))).join := by
  have hsplit : x ++ y = a ++ (u ++ v) ++ b := by simp [hx, hy]
  have hspaced : x ++ (gap ++ y) = a ++ (u ++ (gap ++ v)) ++ b := by simp [hx, hy]
  have htemplate : ∀ rest, delimiterAt lit rest = .template := by
    intro rest
    rw [delimiterAt, hdelimiter]
  have htemplate' :
      ∀ rest, delimiterAt { lit with hi := lit.hi + bytes gap } rest = .template := htemplate
  have hhi' : lit.hi + bytes gap = bytes (a ++ (u ++ (gap ++ v))) := by
    simp only [hhi, Text.bytes_append]
    omega
  have hcandidate := @candidate?_of_split lit a (u ++ v) b (x ++ y) hlo hhi
  have hcandidate' := @candidate?_of_split { lit with hi := lit.hi + bytes gap } a
    (u ++ (gap ++ v)) b (x ++ (gap ++ y)) hlo hhi'
  rw [← hsplit, htemplate] at hcandidate
  rw [← hspaced, htemplate'] at hcandidate'
  rw [hcandidate, hcandidate']
  exact candidateIn_within hx hy hv hgap hseam hlo hpieces _
    fun c hc => hquiet c (hcandidate.trans (congrArg some hc))

/-- A literal behind the gap is read as it was. -/
theorem candidate?_behind {m outer b : List Char} (hy : y = m ++ outer ++ b)
    (hgap : gap = List.replicate count ' ')
    (hseam : ¬(x.getLast? = some '\r' ∧ y.head? = some '\n')) (hlo : lit.lo = bytes (x ++ m))
    (hhi : lit.hi = bytes (x ++ m ++ outer)) (view : lit.InView x gap y) :
    Option.Rel (Candidate.Spaced quiet x gap y) (lit.candidate? (x ++ y) (x ++ y)).join
      ((lit.move (bytes gap)).candidate? (x ++ (gap ++ y)) (x ++ (gap ++ y))).join := by
  have hsplit : x ++ y = x ++ m ++ outer ++ b := by simp [hy]
  have hspaced : x ++ (gap ++ y) = x ++ gap ++ m ++ outer ++ b := by simp [hy]
  have hlo' : (lit.move (bytes gap)).lo = bytes (x ++ gap ++ m) := by
    simp only [Occurrence.move, hlo, Text.bytes_append]
    omega
  have hhi' : (lit.move (bytes gap)).hi = bytes (x ++ gap ++ m ++ outer) := by
    simp only [Occurrence.move, hhi, Text.bytes_append]
    omega
  rw [hsplit, hspaced, candidate?_of_split _ hlo hhi, candidate?_of_split _ hlo' hhi', ← hsplit,
    ← hspaced]
  by_cases houter : outer = []
  · rw [houter, candidateIn_nil, candidateIn_nil]
    exact .none
  · have hrel : Option.Rel (Candidate.Spaced quiet x gap y) _ _ :=
      candidateIn_behind (d := delimiterAt lit (outer ++ b)) hy hgap hlo hseam houter
        (view.behind m outer b hy hlo hhi) (contextAfter b)
    have hdelimiter : delimiterAt (lit.move (bytes gap)) (outer ++ b) =
        delimiterAt lit (outer ++ b) := rfl
    rw [hdelimiter, List.reverse_append, List.reverse_append, List.reverse_append]
    exact hrel

/-- **A literal is read as before**, but for the text around it, or for its own text if the gap is
inside. -/
theorem candidate?_spaced {lit' : Occurrence} (hgap : gap = List.replicate count ' ')
    (hseam : ¬(x.getLast? = some '\r' ∧ y.head? = some '\n'))
    (h : lit.Moved (bytes x) (bytes gap) lit') (view : lit.InView x gap y)
    (hquiet : lit.lo < bytes x → bytes x < lit.hi →
      ∀ c, lit.candidate? (x ++ y) (x ++ y) = some (some c) → quiet c)
    {a outer b : List Char} (htext : x ++ y = a ++ outer ++ b) (hlo : lit.lo = bytes a)
    (hhi : lit.hi = bytes (a ++ outer)) :
    Option.Rel (Candidate.Spaced quiet x gap y) (lit.candidate? (x ++ y) (x ++ y)).join
      (lit'.candidate? (x ++ (gap ++ y)) (x ++ (gap ++ y))).join := by
  cases h with
  | ahead hle =>
    obtain ⟨m, hx, -⟩ := Text.exists_of_append_eq htext (hhi ▸ hle)
    exact candidate?_ahead hx hlo hhi view
  | around hlt hgt delimiter pieces =>
    rw [List.append_assoc] at htext
    obtain ⟨u, hx, houter⟩ := Text.exists_of_append_eq htext (hlo ▸ hlt.le)
    have hsize : bytes u < bytes outer := by
      rw [hhi, hx, Text.bytes_append, Text.bytes_append] at hgt
      omega
    obtain ⟨v, rfl, hy⟩ := Text.exists_of_append_eq houter hsize.le
    have hv : v ≠ [] := by
      rintro rfl
      simp at hsize
    exact candidate?_within hx hy hv hgap hseam hlo hhi delimiter pieces (hquiet hlt hgt)
  | behind hle =>
    rw [List.append_assoc] at htext
    obtain ⟨m, rfl, hy⟩ := Text.exists_of_append_eq htext.symm (hlo ▸ hle)
    rw [← List.append_assoc] at hy
    exact candidate?_behind hy hgap hseam hlo hhi view

end Gap

/-! ### The candidates of a script -/

/-- A literal of a tree is cut out of its text. -/
theorem exists_split_of_mem_occurrences {o : Options} {t : Tree} {lit : Occurrence}
    (h : lit ∈ t.occurrences o .code none 0) : ∃ a outer b, t.text = a ++ outer ++ b ∧
      lit.lo = bytes a ∧ lit.hi = bytes (a ++ outer) := by
  obtain ⟨a, outer, b, htext, hlo, hhi⟩ := Tree.cutOut_of_mem_occurrences t lit h
  rw [Nat.zero_add] at hlo
  exact ⟨a, outer, b, htext, hlo, by rw [hhi, hlo, Text.bytes_append]⟩

theorem forall₂_filterMap {α β γ δ : Type} {R : α → β → Prop} {S : γ → δ → Prop}
    {f : α → Option γ} {f' : β → Option δ} {xs : List α} {ys : List β} (h : List.Forall₂ R xs ys)
    (hf : ∀ x ∈ xs, ∀ y, R x y → Option.Rel S (f x) (f' y)) :
    List.Forall₂ S (xs.filterMap f) (ys.filterMap f') := by
  induction h with
  | nil => exact .nil
  | @cons x y xs ys hxy _ ih =>
    obtain ⟨hx, hxs⟩ := List.forall_mem_cons.1 hf
    have hrel := hx y hxy
    rw [List.filterMap_cons, List.filterMap_cons]
    generalize f x = z at hrel
    generalize f' y = z' at hrel
    cases hrel with
    | none => exact ih hxs
    | some hz => exact .cons hz (ih hxs)

/-- Sorting keeps what is told of each two in the same place, if it goes by what they share. -/
theorem forall₂_mergeSort {α β : Type} {R : α → β → Prop} {le : α → α → Bool} {le' : β → β → Bool}
    {xs : List α} {ys : List β} (h : List.Forall₂ R xs ys)
    (hle : ∀ a b a' b', R a a' → R b b' → le a b = le' a' b') :
    List.Forall₂ R (xs.mergeSort le) (ys.mergeSort le') := by
  obtain ⟨hlength, hzip⟩ := List.forall₂_iff_zip.1 h
  let both := (xs.zip ys).mergeSort fun z z' => le z.1 z'.1
  have hmem : ∀ z ∈ xs.zip ys, R z.1 z.2 := fun z hz => hzip hz
  have hfirst : both.map Prod.fst = xs.mergeSort le := by
    rw [List.map_mergeSort (s := le) (f := Prod.fst) fun _ _ _ _ => rfl,
      List.map_fst_zip (by omega)]
  have hsecond : both.map Prod.snd = ys.mergeSort le' := by
    rw [List.map_mergeSort (s := le') (f := Prod.snd) fun z hz z' hz' =>
      hle _ _ _ _ (hmem z hz) (hmem z' hz'), List.map_snd_zip (by omega)]
  rw [← hfirst, ← hsecond, List.forall₂_map_left_iff, List.forall₂_map_right_iff,
    List.forall₂_same]
  exact fun z hz => hmem z (List.mem_mergeSort.1 hz)

/-- **The candidates of a script with a gap** are those it had, each with other text around it at
most, or with other text if the gap is inside. -/
theorem candidates_spaced {quiet : Candidate → Prop} {o : Options} {dialect : Dialect} {count : Nat}
    {x y : List Char} (q : ReadsAlike dialect (.spaces count) x y)
    (hmark : (x ++ y).head? ≠ some '\ufeff')
    (hseam : ¬(x.getLast? = some '\r' ∧ y.head? = some '\n'))
    (hview : ∀ lit ∈ q.tree.occurrences o .code none 0,
      lit.InView x (List.replicate count ' ') y)
    (hquiet : ∀ lit ∈ q.tree.occurrences o .code none 0, lit.lo < bytes x → bytes x < lit.hi →
      ∀ c, lit.candidate? (x ++ y) (x ++ y) = some (some c) → quiet c) :
    ∃ cs cs', candidates o dialect (x ++ y) = .ok cs ∧
      candidates o dialect (x ++ (List.replicate count ' ' ++ y)) = .ok cs' ∧
      List.Forall₂ (Candidate.Spaced quiet x (List.replicate count ' ') y) cs cs' := by
  have hmark' := ReadsAlike.head?_spaced (g := .spaces count) hmark
  have htext := Script.text_of_read hmark q.read_eq
  have htext' := Script.text_of_read hmark' q.read_spaced
  refine ⟨_, _, Script.candidates_eq o _ hmark q.read_eq,
    Script.candidates_eq o _ hmark' q.read_spaced, ?_⟩
  have hmoved := @Tree.Spaced.occurrences _ _ 0 o _ _ q.spaced .code none
  rw [Nat.zero_add] at hmoved
  refine forall₂_mergeSort (forall₂_filterMap hmoved fun lit hlit lit' hlit' => ?_) ?_
  · obtain ⟨a, outer, b, hsplit, hlo, hhi⟩ := exists_split_of_mem_occurrences hlit
    unfold Script.candidateOf?
    rw [htext] at hsplit ⊢
    rw [htext']
    exact candidate?_spaced rfl hseam hlit' (hview lit hlit) (hquiet lit hlit) hsplit hlo hhi
  · intro a b a' b' ha hb
    cases ha <;> cases hb <;> rfl

end Untranslated
