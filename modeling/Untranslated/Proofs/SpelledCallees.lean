import Mathlib.Logic.Relation
import Untranslated.Proofs.Layout

/-!
# Callees in other spellings

What is called can be written in many ways: with parentheses around any part of it, with `!` behind
it, and with `?.` where something is looked up. One mark more is a step (`AddsMark`), with one case
for each kind of mark and one that leads to the object or the callee in front; two spellings are
related by any number of steps in either direction (`Respelled`). Trivia may stand between the parts
of a node, wherever marks are.

A spelling moves the arguments of a call and changes what is seen around them. So a literal of
theirs is compared with itself at another place in another text (`forall₂_candidates`).

* `path_eq_of_respelled`: the name of a callee does not depend on its spelling.
* `IsCall.occurrences_eq`: what is found in a call is found in its callee, then in its arguments.
* `calls_agree`: with them, that the candidates of the arguments are the same in all but their lines
  and surroundings.
-/

namespace Untranslated

open Script (Tree NodeKind LeafKind Lexeme Turn)
open Script.Tree (node leaf isSolid lastName headPath tailPath partScope sizeAll textAll
  occurrences occurrencesAll occurrencesOf occurrencesAll_append occurrencesAll_cons
  occurrencesAll_eq_nil)
open Text (bytes)

/-! ### Parts of a node -/

/-- The parts of a node are `xs`, with trivia between them at most. -/
inductive Spread : List Tree → List Tree → Prop
  | last {t : Tree} (ht : t.isSolid = true) : Spread [t] [t]
  | cons {t : Tree} (ht : t.isSolid = true) {xs parts : List Tree} (trivia : List Tree)
      (htrivia : ∀ u ∈ trivia, u.isSolid = false) (rest : Spread xs parts) :
      Spread (t :: xs) (t :: (trivia ++ parts))

namespace Spread

variable {x y : Tree} {xs parts : List Tree}

/-- There may be no trivia. -/
theorem refl (hne : xs ≠ []) (h : ∀ t ∈ xs, t.isSolid = true) : Spread xs xs := by
  induction xs with
  | nil => exact absurd rfl hne
  | cons t ts ih =>
    obtain ⟨ht, hts⟩ := List.forall_mem_cons.1 h
    cases ts with
    | nil => exact .last ht
    | cons u us => exact .cons ht [] nofun (ih (List.cons_ne_nil u us) hts)

theorem filter_isSolid (h : Spread xs parts) : parts.filter isSolid = xs := by
  induction h with
  | last ht => simp [ht]
  | cons ht trivia htrivia _ ih =>
    rw [List.filter_cons_of_pos ht, List.filter_append, ih,
      List.filter_eq_nil_iff.2 fun u hu => by simp [htrivia u hu], List.nil_append]

theorem headPath_eq (h : Spread (x :: xs) parts) : headPath parts = x.path := by
  cases h with
  | last ht => simp [headPath, ht]
  | cons ht _ _ _ => simp [headPath, ht]

theorem tailPath_eq (h : Spread (x :: y :: xs) parts) : tailPath parts = y.path := by
  cases h with
  | @cons _ _ _ parts trivia htrivia rest =>
    have hskip : headPath (trivia ++ parts) = headPath parts :=
      Script.Tree.headPath_skip htrivia [] parts
    rw [tailPath, hskip, rest.headPath_eq]

/-- The last part is the last of the parts. -/
theorem exists_init (h : Spread (xs ++ [x]) parts) :
    ∃ init, parts = init ++ [x] ∧ ∀ t ∈ init, t.isSolid = false ∨ t ∈ xs := by
  induction xs generalizing parts with
  | nil =>
    cases h with
    | last => exact ⟨[], rfl, fun t ht => absurd ht List.not_mem_nil⟩
    | cons _ _ _ rest => cases rest
  | cons z zs ih =>
    rw [List.cons_append] at h
    generalize hmore : zs ++ [x] = more at h
    cases h with
    | last => exact absurd hmore (by simp)
    | @cons _ _ _ parts trivia htrivia rest =>
      subst hmore
      obtain ⟨init, rfl, hinit⟩ := ih rest
      refine ⟨z :: (trivia ++ init), by simp, fun t ht => ?_⟩
      rcases List.mem_cons.1 ht with rfl | ht
      · exact .inr List.mem_cons_self
      · rcases List.mem_append.1 ht with ht | ht
        · exact .inl (htrivia t ht)
        · exact (hinit t ht).imp_right (List.mem_cons_of_mem z)

theorem exists_middle (h : Spread (x :: (xs ++ [y])) parts) :
    ∃ middle, parts = x :: (middle ++ [y]) ∧ ∀ t ∈ middle, t.isSolid = false ∨ t ∈ xs := by
  generalize hmore : xs ++ [y] = more at h
  cases h with
  | last => exact absurd hmore (by simp)
  | @cons _ _ _ parts trivia htrivia rest =>
    subst hmore
    obtain ⟨init, rfl, hinit⟩ := rest.exists_init
    refine ⟨trivia ++ init, by simp, fun t ht => ?_⟩
    rcases List.mem_append.1 ht with ht | ht
    · exact .inl (htrivia t ht)
    · exact hinit t ht

theorem lastName_eq (h : Spread (xs ++ [x]) parts) : lastName parts = lastName [x] := by
  obtain ⟨init, rfl, -⟩ := h.exists_init
  exact Script.Tree.lastName_append init (List.cons_ne_nil x [])

end Spread

/-! ### Spellings -/

/-- A mark that says nothing by itself. -/
def mark (s : String) : Tree :=
  leaf (.lexeme .plain) s.toList

/-- What stands behind an object to look something up in it, and the same where the object may be
missing: a name, a hidden name or a key. -/
inductive LooksUp : (Bool → NodeKind) → List Tree → List Tree → Prop
  | name (name : Tree) : LooksUp .member [mark ".", name] [mark "?.", name]
  | hidden (name : Tree) :
    LooksUp .index [mark ".", mark "#", name] [mark "?.", mark "#", name]
  | key (key : Tree) :
    LooksUp .index [mark "[", key, mark "]"] [mark "?.", mark "[", key, mark "]"]

/-- A node that begins with the object that something is looked up in, or with what is called. -/
def HasObject : NodeKind → Prop
  | .member _ | .index _ | .call _ | .tagged => True
  | _ => False

/-- The second expression is the first with one mark more. -/
inductive AddsMark : Tree → Tree → Prop
  | paren {t : Tree} {parts : List Tree} (h : Spread [mark "(", t, mark ")"] parts) :
    AddsMark t (node .paren parts)
  | nonNull {t : Tree} {parts : List Tree} (h : Spread [t, mark "!"] parts) :
    AddsMark t (node .nonNull parts)
  | optional {kind : Bool → NodeKind} {object : Tree} {tail tail' parts parts' : List Tree}
    (look : LooksUp kind tail tail') (h : Spread (object :: tail) parts)
    (h' : Spread (object :: tail') parts') :
    AddsMark (node (kind false) parts) (node (kind true) parts')
  /-- The mark is in the object or in what is called. -/
  | object {kind : NodeKind} {object object' last : Tree} {parts parts' : List Tree}
    (hkind : HasObject kind) (between : List Tree) (step : AddsMark object object')
    (h : Spread (object :: (between ++ [last])) parts)
    (h' : Spread (object' :: (between ++ [last])) parts') :
    AddsMark (node kind parts) (node kind parts')

/-- The expressions differ in parentheses, in `!` and in `?.` only. -/
def Respelled : Tree → Tree → Prop :=
  Relation.EqvGen AddsMark

/-- The name of a member is told by its object and by its last part. -/
theorem path_member_congr {b b' : Bool} {x x' last : Tree} (xs xs' : List Tree)
    {parts parts' : List Tree} (h : Spread (x :: (xs ++ [last])) parts)
    (h' : Spread (x' :: (xs' ++ [last])) parts') (hpath : x.path = x'.path) :
    (node (.member b) parts).path = (node (.member b') parts').path := by
  have hlast : lastName parts = lastName [last] := by
    rw [← List.cons_append] at h
    exact h.lastName_eq
  have hlast' : lastName parts' = lastName [last] := by
    rw [← List.cons_append] at h'
    exact h'.lastName_eq
  rw [Tree.path, Tree.path, hlast, hlast', h.headPath_eq, h'.headPath_eq, hpath]

/-- **A mark more does not change the name.** -/
theorem path_eq_of_addsMark {t t' : Tree} (h : AddsMark t t') : t.path = t'.path := by
  induction h with
  | paren h =>
    rw [Tree.path, h.filter_isSolid, h.tailPath_eq]
    rfl
  | nonNull h => rw [Script.Tree.path_nonNull, h.headPath_eq]
  | optional look h h' =>
    cases look with
    | name name => exact path_member_congr [mark "."] [mark "?."] h h' rfl
    | hidden | key => rfl
  | @object kind _ _ _ _ _ hkind between _ h h' ih =>
    cases kind with
    | member b => exact path_member_congr between between h h' ih
    | index | call | tagged => rfl
    | _ => cases hkind

theorem path_eq_of_respelled {t t' : Tree} (h : Respelled t t') : t.path = t'.path := by
  induction h with
  | rel t t' step => exact path_eq_of_addsMark step
  | refl t => rfl
  | symm t t' _ ih => exact ih.symm
  | trans t t' t'' _ _ ih ih' => exact ih.trans ih'

/-! ### What is found in a call -/

/-- An expression is no trivia and none of the parts that only other nodes have. -/
def IsOperand : Tree → Prop
  | leaf (.trivia _) _ | node (.late _) _ | node .arguments _ | node .typeArguments _ => False
  | _ => True

/-- A call of `callee` with these arguments, plain or where the callee may be missing, perhaps with
type arguments. -/
inductive IsCall (callee : Tree) : Tree → Tree → Prop
  | intro {optional : Bool} {arguments parts : List Tree} (operand : IsOperand callee)
    (between : List Tree)
    (between_marks : ∀ t ∈ between, t = mark "?." ∨ ∃ types, t = node .typeArguments types)
    (spread : Spread (callee :: (between ++ [node .arguments arguments])) parts) :
    IsCall callee (node .arguments arguments) (node (.call optional) parts)

theorem IsOperand.turn_eq {t : Tree} (h : IsOperand t) : t.turn = .plain := by
  unfold Script.Tree.turn
  split
  · cases h
  · cases h
  · rfl

/-- A call looks into its callee as it is looked into itself. -/
theorem IsOperand.partScope_eq {t : Tree} (h : IsOperand t) (s : Scope) (optional : Bool)
    (parts : List Tree) : partScope s (.call optional) parts t = some s := by
  cases t with
  | leaf => rfl
  | node kind ts => cases kind <;> first | rfl | exact h.elim

/-- Where nothing is found between the first part and the last, what is found is found in these. -/
theorem occurrencesAll_ends {o : Options} {scope : Tree → Option Scope} {tag : Option String}
    {first last : Tree} {middle : List Tree} (hfirst : first.turn = .plain)
    (hlast : last.turn = .plain)
    (hmiddle : ∀ t ∈ middle, ∀ lo, occurrencesOf o tag lo scope t = []) (lo : Nat) :
    (Turn.all.flatMap fun turn =>
        occurrencesAll o scope tag turn lo (first :: (middle ++ [last]))) =
      occurrencesOf o tag lo scope first ++
        occurrencesOf o tag (lo + first.size + sizeAll middle) scope last := by
  refine Eq.trans ?_ (Turn.flatMap_all .plain _)
  congr 1
  funext turn
  rw [occurrencesAll_cons, hfirst, occurrencesAll_append, occurrencesAll_eq_nil hmiddle,
    occurrencesAll_cons, hlast]
  split <;> simp [occurrencesAll]

/-- Between a callee and its arguments nothing is found. -/
theorem occurrencesOf_between {o : Options} {s : Scope} {optional : Bool} {parts : List Tree}
    {tag : Option String} {t : Tree}
    (h : t.isSolid = false ∨ t = mark "?." ∨ ∃ types, t = node .typeArguments types) (lo : Nat) :
    occurrencesOf o tag lo (partScope s (.call optional) parts) t = [] := by
  rcases h with h | rfl | ⟨types, rfl⟩
  · obtain ⟨kind, text, rfl⟩ := Script.Tree.eq_trivia_of_isSolid h
    rfl
  · rfl
  · rfl

/-- **What is found in a call** is found in its callee, then in its arguments, which are given to
the name of the callee. -/
theorem IsCall.occurrences_eq {callee arguments call : Tree} (h : IsCall callee arguments call)
    (o : Options) (s : Scope) (tag : Option String) (lo : Nat) :
    ∃ front, call.text = front ++ arguments.text ∧
      call.occurrences o s tag lo = callee.occurrences o s none lo ++
        arguments.occurrences o ⟨s.owner, callee.path⟩ none (lo + bytes front) := by
  obtain @⟨optional, arguments, parts, operand, between, hbetween, spread⟩ := h
  have hname := spread.headPath_eq
  obtain ⟨middle, hparts, hmiddle⟩ := spread.exists_middle
  have hquiet : ∀ t ∈ middle, ∀ lo,
      occurrencesOf o none lo (partScope s (.call optional) parts) t = [] :=
    fun t ht => occurrencesOf_between ((hmiddle t ht).imp_right (hbetween t))
  have hcallee : occurrencesOf o none lo (partScope s (.call optional) parts) callee =
      callee.occurrences o s none lo := by
    rw [occurrencesOf, operand.partScope_eq]
    rfl
  have harguments : partScope s (.call optional) parts (node .arguments arguments) =
      some ⟨s.owner, callee.path⟩ := by
    rw [← hname]
    rfl
  have hlast : (node .arguments arguments).turn = .plain := rfl
  have hread := occurrencesAll_ends operand.turn_eq hlast hquiet lo
  rw [← hparts, hcallee, occurrencesOf, harguments, Option.elim_some] at hread
  have htag : Script.Tree.tagOf (.call optional) parts = none := rfl
  refine ⟨callee.text ++ textAll middle, ?_, ?_⟩
  · simp [hparts]
  · rw [Script.Tree.occurrences_of_parts o s tag lo parts (fun h => by cases h), htag, hread,
      Text.bytes_append, ← Script.Tree.size_eq, ← Script.Tree.sizeAll_eq,
      Nat.add_assoc]

/-! ### Candidates in another place -/

/-- The candidates that literals of a text are. -/
def candidatesOf (source : List Char) (found : List Occurrence) : Option (List Candidate) :=
  (found.mapM (Occurrence.candidate? source source)).map (·.filterMap id)

/-- The candidates are of one literal in two places: they differ in their lines and in what is seen
around them only, so they are decided on alike as far as their callees go. -/
structure Candidate.Displaced (o : Options) (c c' : Candidate) : Prop where
  same : c' = { c with line := c'.line, before := c'.before, after := c'.after }
  translated : c'.callee.any o.isTranslation = c.callee.any o.isTranslation
  checked : c'.callee.any o.isCheckedCall = c.callee.any o.isCheckedCall

theorem displaced_of_eq {o : Options} {c c' : Candidate}
    (h : c' = { c with line := c'.line, before := c'.before, after := c'.after }) :
    c.Displaced o c' := by
  have hcallee : c'.callee = c.callee := by rw [h]
  exact ⟨h, by rw [hcallee], by rw [hcallee]⟩

theorem rel_candidateIn (o : Options) (x : Occurrence) (n n' : Nat) (d : Delimiter)
    (outer source source' before before' after after' : List Char) :
    Option.Rel (Candidate.Displaced o) ((x.move n).candidateIn d outer source before after)
      ((x.move n').candidateIn d outer source' before' after') := by
  unfold Occurrence.candidateIn
  by_cases hblank : (Text.trim (content d outer).1).isEmpty = true
  · rw [if_pos hblank, if_pos hblank]
    exact .none
  · rw [if_neg hblank, if_neg hblank]
    exact .some (displaced_of_eq rfl)

/-- **A literal is the same candidate wherever the text stands that it is cut out of.** -/
theorem rel_candidate? (o : Options) {x : Occurrence} {s : List Char}
    (h : Script.Tree.CutOut 0 s x) (a b a' b' : List Char) :
    ∃ r r' : Option Candidate,
      (x.move (bytes a)).candidate? (a ++ s ++ b) (a ++ s ++ b) = some r ∧
        (x.move (bytes a')).candidate? (a' ++ s ++ b') (a' ++ s ++ b') = some r' ∧
        Option.Rel (Candidate.Displaced o) r r' := by
  obtain ⟨u, outer, v, rfl, hlo, hhi⟩ := h
  have hread (a b : List Char) : (x.move (bytes a)).candidate? (a ++ (u ++ outer ++ v) ++ b)
      (a ++ (u ++ outer ++ v) ++ b) =
        some ((x.move (bytes a)).candidateIn (Script.delimiterAt x (outer ++ (v ++ b))) outer
          (a ++ u ++ outer ++ (v ++ b)) (contextBefore (a ++ u).reverse)
          (contextAfter (v ++ b))) := by
    have hsplit : a ++ (u ++ outer ++ v) ++ b = a ++ u ++ outer ++ (v ++ b) := by simp
    rw [hsplit]
    refine candidate?_of_split _ ?_ ?_
    · simp only [Occurrence.move, Text.bytes_append]
      omega
    · simp only [Occurrence.move, Text.bytes_append]
      omega
  refine ⟨_, _, hread a b, hread a' b', ?_⟩
  by_cases hne : outer = []
  · subst hne
    rw [candidateIn_nil, candidateIn_nil]
    exact .none
  · rw [delimiterAt_append x hne (v ++ b) (v ++ b')]
    exact rel_candidateIn o x _ _ _ _ _ _ _ _ _ _

/-- Where each literal can be read, the candidates are those of the literals in turn. -/
theorem candidatesOf_eq {source : List Char} {found : List Occurrence}
    (h : ∀ x ∈ found, ∃ r, x.candidate? source source = some r) :
    candidatesOf source found =
      some (found.filterMap fun x => (x.candidate? source source).join) := by
  have hread : found.mapM (Occurrence.candidate? source source) =
      some (found.map fun x => (x.candidate? source source).join) := by
    refine Script.mapM_eq_some fun x hx => ?_
    obtain ⟨r, hr⟩ := h x hx
    rw [hr]
    rfl
  rw [candidatesOf, hread, Option.map_some, List.filterMap_map]
  rfl

/-- **The literals of a tree are the same candidates wherever it stands.** -/
theorem forall₂_candidates (o : Options) (t : Tree) (s : Scope) (tag : Option String)
    (a b a' b' : List Char) :
    ∃ cs cs', candidatesOf (a ++ t.text ++ b) (t.occurrences o s tag (bytes a)) = some cs ∧
      candidatesOf (a' ++ t.text ++ b') (t.occurrences o s tag (bytes a')) = some cs' ∧
      List.Forall₂ (Candidate.Displaced o) cs cs' := by
  have hcut : ∀ x ∈ t.occurrences o s tag 0, Script.Tree.CutOut 0 t.text x :=
    Script.Tree.cutOut_of_mem_occurrences t
  have hmove (a : List Char) : t.occurrences o s tag (bytes a) =
      (t.occurrences o s tag 0).map (Occurrence.move (bytes a)) := by
    rw [← Script.Tree.occurrences_add, Nat.zero_add]
  have hread (a b : List Char) : ∀ y ∈ (t.occurrences o s tag 0).map (Occurrence.move (bytes a)),
      ∃ r, y.candidate? (a ++ t.text ++ b) (a ++ t.text ++ b) = some r := by
    intro y hy
    obtain ⟨x, hx, rfl⟩ := List.mem_map.1 hy
    obtain ⟨r, -, hr, -, -⟩ := rel_candidate? o (hcut x hx) a b a b
    exact ⟨r, hr⟩
  rw [hmove a, hmove a']
  refine ⟨_, _, candidatesOf_eq (hread a b), candidatesOf_eq (hread a' b'), ?_⟩
  rw [List.filterMap_map, List.filterMap_map]
  refine forall₂_filterMap (R := Eq) (List.forall₂_same.2 fun _ _ => rfl) ?_
  rintro x hx _ rfl
  obtain ⟨r, r', hr, hr', hrel⟩ := rel_candidate? o (hcut x hx) a b a' b'
  rw [Function.comp_apply, Function.comp_apply, hr, hr']
  exact hrel

/-- **The spelling of a callee does not hide a call.** Parentheses, `!` and `?.` anywhere in an
expression leave its name as it is. A call of either spelling, plain or where the callee may be
missing, finds the same candidates in its arguments, wherever it stands: they are given to the same
name, so they are decided on alike as far as it goes. -/
theorem calls_agree {e e' : Tree} (h : Respelled e e') :
    e.path = e'.path ∧
    ∀ {args call call' : Tree}, IsCall e args call → IsCall e' args call' →
      ∀ (o : Options) (s : Scope) (tag tag' : Option String) (a b a' b' : List Char),
        ∃ front front' found found' cs cs',
          call.text = front ++ args.text ∧ call'.text = front' ++ args.text ∧
          found = args.occurrences o ⟨s.owner, e.path⟩ none (bytes (a ++ front)) ∧
          found' = args.occurrences o ⟨s.owner, e'.path⟩ none (bytes (a' ++ front')) ∧
          call.occurrences o s tag (bytes a) = e.occurrences o s none (bytes a) ++ found ∧
          call'.occurrences o s tag' (bytes a') = e'.occurrences o s none (bytes a') ++ found' ∧
          candidatesOf (a ++ call.text ++ b) found = some cs ∧
          candidatesOf (a' ++ call'.text ++ b') found' = some cs' ∧
          List.Forall₂ (Candidate.Displaced o) cs cs' := by
  have hpath := path_eq_of_respelled h
  refine ⟨hpath, ?_⟩
  intro args call call' hcall hcall' o s tag tag' a b a' b'
  obtain ⟨front, htext, hfound⟩ := hcall.occurrences_eq o s tag (bytes a)
  obtain ⟨front', htext', hfound'⟩ := hcall'.occurrences_eq o s tag' (bytes a')
  rw [← Text.bytes_append] at hfound hfound'
  obtain ⟨cs, cs', hcs, hcs', hforall⟩ := forall₂_candidates o args ⟨s.owner, e.path⟩ none
    (a ++ front) b (a' ++ front') b'
  refine ⟨front, front', _, _, cs, cs', htext, htext', rfl, rfl, hfound, hfound', ?_, ?_, hforall⟩
  · rw [htext, ← List.append_assoc, hcs]
  · rw [htext', ← hpath, ← List.append_assoc, hcs']

/-! ### A callee with three marks -/

def nameLeaf (s : String) : Tree :=
  leaf (.lexeme (.name s)) s.toList

/-- `toast.error` -/
def toastCallee : Tree :=
  node (.member false) [nameLeaf "toast", mark ".", nameLeaf "error"]

def toastInParens : Tree :=
  node .paren [mark "(", nameLeaf "toast", mark ")"]

/-- `(toast) ?.error!` -/
def markedToastCallee : Tree :=
  node .nonNull [node (.member true)
    [toastInParens, leaf (.trivia .blank) [' '], mark "?.", nameLeaf "error"], mark "!"]

theorem respelled_toastCallee : Respelled toastCallee markedToastCallee := by
  let parens : Tree := node (.member false) [toastInParens, mark ".", nameLeaf "error"]
  let lookUp : Tree := node (.member true)
    [toastInParens, leaf (.trivia .blank) [' '], mark "?.", nameLeaf "error"]
  have hparens : AddsMark toastCallee parens :=
    .object trivial [mark "."] (.paren (.refl (by decide) (by decide)))
      (.refl (by decide) (by decide)) (.refl (by decide) (by decide))
  have hlookUp : AddsMark parens lookUp :=
    .optional (.name (nameLeaf "error")) (.refl (by decide) (by decide))
      (.cons rfl [leaf (.trivia .blank) [' ']] (by decide)
        (.refl (by decide) (by decide)))
  have hnonNull : AddsMark lookUp markedToastCallee :=
    .nonNull (.refl (by decide) (by decide))
  exact .trans _ _ _ (.rel _ _ hparens) (.trans _ _ _ (.rel _ _ hlookUp) (.rel _ _ hnonNull))

def helloArguments : Tree :=
  node .arguments [mark "(", leaf (.lexeme .string) "'Hello'".toList, mark ")"]

/-- `toast.error('Hello')` -/
def toastCall : Tree :=
  node (.call false) [toastCallee, helloArguments]

/-- `(toast) ?.error!?.('Hello')` -/
def markedToastCall : Tree :=
  node (.call true) [markedToastCallee, mark "?.", helloArguments]

/-- Both calls are read in scripts, and the text in them is found for `toast.error`. -/
theorem calls_agree_toast :
    let o : Options := ⟨[], ["toast.error"], [], []⟩
    let script (call : Tree) : Tree := node .group [node .expressionStatement [call]]
    Script.read .typed "toast.error('Hello')".toList = .ok (script toastCall) ∧
      Script.read .typed "(toast) ?.error!?.('Hello')".toList = .ok (script markedToastCall) ∧
      Respelled toastCallee markedToastCallee ∧ IsCall toastCallee helloArguments toastCall ∧
      IsCall markedToastCallee helloArguments markedToastCall ∧
      toastCallee.path = some "toast.error" ∧ markedToastCallee.path = some "toast.error" ∧
      ∃ cs cs',
        candidatesOf "toast.error('Hello')".toList (toastCall.occurrences o .code none 0) =
          some cs ∧
        candidatesOf "(toast) ?.error!?.('Hello')".toList
          (markedToastCall.occurrences o .code none 0) = some cs' ∧
        cs.map (·.text) = ["Hello".toList] ∧ List.Forall₂ (Candidate.Displaced o) cs cs' := by
  intro o script
  have hcall : IsCall toastCallee helloArguments toastCall :=
    .intro trivial [] nofun (.refl (by decide) (by decide))
  have hcall' : IsCall markedToastCallee helloArguments markedToastCall :=
    .intro trivial [mark "?."] (fun t ht => .inl (List.mem_singleton.1 ht))
      (.refl (by decide) (by decide))
  obtain ⟨hpath, hcalls⟩ := calls_agree respelled_toastCallee
  -- No literals are in the callees.
  obtain ⟨_, _, found, found', cs, cs', -, -, -, -, hfound, hfound', hcs, hcs', hforall⟩ :=
    hcalls hcall hcall' o .code none none [] [] [] []
  have hcs : candidatesOf "toast.error('Hello')".toList (toastCall.occurrences o .code none 0) =
      some cs := (congrArg (candidatesOf _) hfound).trans hcs
  have hcs' : candidatesOf "(toast) ?.error!?.('Hello')".toList
      (markedToastCall.occurrences o .code none 0) = some cs' :=
    (congrArg (candidatesOf _) hfound').trans hcs'
  have htexts : (candidatesOf "toast.error('Hello')".toList
      (toastCall.occurrences o .code none 0)).map (·.map (·.text)) = some ["Hello".toList] := by
    decide +kernel
  rw [hcs] at htexts
  have hname : toastCallee.path = some "toast.error" := by decide +kernel
  exact ⟨eq_ok_of_toOption (by decide +kernel), eq_ok_of_toOption (by decide +kernel),
    respelled_toastCallee, hcall, hcall', hname, hpath ▸ hname, cs, cs', hcs, hcs',
    Option.some.inj htexts, hforall⟩

end Untranslated
