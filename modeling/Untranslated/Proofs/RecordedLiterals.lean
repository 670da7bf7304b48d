import Untranslated.Proofs.ReadingOrder
import Untranslated.Proofs.Scopes
import Untranslated.Proofs.StrippedLines

/-!
# The literals that are recorded

Extraction reads a tree once, from its root on, and records what it meets in the scope it has
reached. What it records is told here without reading: each part of the tree that is a literal,
that is looked into and whose scope, read off the way to it, reports literals (`IsRecorded`).
Nothing else is recorded, nothing twice, and all in the order of reading
(`occurrences_eq_readOrder`).

* `Spot.occurrence?`: what is recorded of a part; `isSome_occurrence?` says when anything is.
* `exists_candidates`: the candidates of a tree are those of its recorded literals, one for each
  that is not all blank.
-/

namespace Untranslated

namespace Script

open Untranslated.Script.Tree (node leaf partScope readFrom readAll occurrences occurrencesAll
  sizeAll)

/-- What is recorded of a part that is looked into. -/
def Spot.literal? (o : Options) (x : Spot) : Option Occurrence :=
  match x.tree with
  | leaf (.lexeme .string) text =>
    ((scopeOf x.way).origin? o none).map fun origin =>
      ⟨x.lo, x.lo + Text.bytes text, .quote '"', origin, none⟩
  | leaf (.lexeme .regex) text =>
    ((scopeOf x.way).origin? o none).map fun origin =>
      ⟨x.lo, x.lo + Text.bytes text, .regex, origin, none⟩
  | leaf (.lexeme .markupText) text =>
    if ownerOf x.way = .children then
      some ⟨x.lo, x.lo + Text.bytes text, .none, ⟨.text, none, none, none⟩, none⟩ else none
  | node .template parts =>
    ((scopeOf x.way).origin? o (tagAt x.way)).map fun origin =>
      ⟨x.lo, x.lo + sizeAll parts, .template, origin, some (Tree.pieces parts)⟩
  | _ => none

open Classical in
/-- What is recorded of a part: nothing of what is not looked into. -/
noncomputable def Spot.occurrence? (o : Options) (x : Spot) : Option Occurrence :=
  if Reached o x.way then x.literal? o else none

theorem literal?_of_occurrence? {o : Options} {x : Spot} {y : Occurrence}
    (h : x.occurrence? o = some y) : x.literal? o = some y := by
  unfold Spot.occurrence? at h
  split_ifs at h
  exact h

/-- The part is a literal that is recorded: it is looked into, and a string, a regular expression
or a template in a scope that reports literals, or text between the tags of children. -/
def Spot.IsRecorded (o : Options) (x : Spot) : Prop :=
  Reached o x.way ∧
    match x.tree with
    | leaf (.lexeme .string) _ => Reports o (scopeOf x.way)
    | leaf (.lexeme .regex) _ => Reports o (scopeOf x.way)
    | node .template _ => Reports o (scopeOf x.way)
    | leaf (.lexeme .markupText) _ => ownerOf x.way = .children
    | _ => False

theorem isSome_occurrence? {o : Options} {x : Spot} :
    (x.occurrence? o).isSome = true ↔ x.IsRecorded o := by
  obtain ⟨way, lo, t⟩ := x
  unfold Spot.occurrence? Spot.IsRecorded Spot.literal?
  by_cases hreached : Reached o way
  · rw [if_pos hreached]
    dsimp only
    split <;> simp [hreached, isSome_origin?]
  · simp [hreached]

/-! ### Nothing is recorded of what is not looked into -/

section Hidden

variable {o : Options} {way : List Step} {lo : Nat}

theorem filterMap_of_not_reached {xs : List Spot} (h : ∀ x ∈ xs, ¬Reached o x.way) :
    xs.filterMap (Spot.occurrence? o) = [] := by
  rw [List.filterMap_eq_nil_iff]
  intro x hx
  rw [Spot.occurrence?, if_neg (h x hx)]

theorem filterMap_readFrom_eq_nil {t : Tree} (h : ¬Reached o way) :
    (readFrom way lo t).filterMap (Spot.occurrence? o) = [] := by
  apply filterMap_of_not_reached
  intro x hx hreached
  exact h (hreached.of_suffix (Tree.suffix_of_mem_readFrom hx))

/-- Nothing is recorded inside of a template that counts. -/
theorem filterMap_readAll_eq_nil {turn : Turn} {before parts : List Tree}
    (h : Reports o (scopeOf way)) :
    (readAll turn way lo .template before parts).filterMap (Spot.occurrence? o) = [] := by
  apply filterMap_of_not_reached
  intro x hx hreached
  obtain ⟨step, hkind, -, -, -, hsuffix⟩ := Tree.exists_step_of_mem_readAll x hx
  exact (reached_cons.1 (hreached.of_suffix hsuffix)).2.1 ⟨hkind, h⟩

end Hidden

/-! ### Reading and looking up agree -/

/-- Of a leaf that is looked into, what is recorded is what is read. -/
theorem occurrences_leaf {o : Options} {way : List Step} {lo : Nat} (kind : LeafKind)
    (text : List Char) (hreached : Reached o way) :
    occurrences o (scopeOf way) (tagAt way) lo (leaf kind text) =
      (readFrom way lo (leaf kind text)).filterMap (Spot.occurrence? o) := by
  have hspot : (readFrom way lo (leaf kind text)).filterMap (Spot.occurrence? o) =
      (Spot.literal? o ⟨way, lo, leaf kind text⟩).toList := by
    rw [readFrom, List.filterMap_cons, List.filterMap_nil, Spot.occurrence?, if_pos hreached]
    cases Spot.literal? o ⟨way, lo, leaf kind text⟩ <;> rfl
  rw [hspot]
  unfold Spot.literal?
  cases kind with
  | trivia => rfl
  | lexeme kind =>
    cases kind with
    | markupText =>
      have howner : (scopeOf way).owner = ownerOf way := rfl
      rw [occurrences, howner]
      dsimp only
      split <;> rfl
    | _ => rfl

/-- A template that counts is read as one. -/
theorem occurrences_template {o : Options} {way : List Step} {lo : Nat} (parts : List Tree)
    (hreached : Reached o way) (h : Reports o (scopeOf way)) :
    occurrences o (scopeOf way) (tagAt way) lo (node .template parts) =
      (readFrom way lo (node .template parts)).filterMap (Spot.occurrence? o) := by
  have hsome : ((scopeOf way).origin? o (tagAt way)).isSome = true := isSome_origin?.2 h
  obtain ⟨origin, horigin⟩ := Option.isSome_iff_exists.1 hsome
  have hinside : (Turn.all.flatMap fun turn => readAll turn way lo .template [] parts).filterMap
      (Spot.occurrence? o) = [] := by
    rw [List.filterMap_flatMap, List.flatMap_eq_nil_iff]
    exact fun turn _ => filterMap_readAll_eq_nil h
  rw [readFrom, List.filterMap_cons, hinside, Spot.occurrence?, if_pos hreached, Spot.literal?,
    occurrences, horigin]
  · rfl
  · exact horigin

/-- Any other node is looked through. -/
theorem occurrences_node {o : Options} {way : List Step} {kind : NodeKind} (lo : Nat)
    (parts : List Tree) (h : ¬(kind = .template ∧ Reports o (scopeOf way))) :
    occurrences o (scopeOf way) (tagAt way) lo (node kind parts) = (Turn.all.flatMap fun turn =>
        occurrencesAll o (partScope (scopeOf way) kind parts) (Tree.tagOf kind parts) turn lo
          parts) ∧
      (readFrom way lo (node kind parts)).filterMap (Spot.occurrence? o) =
        Turn.all.flatMap fun turn =>
          (readAll turn way lo kind [] parts).filterMap (Spot.occurrence? o) := by
  have hnone : kind = .template → (scopeOf way).origin? o (tagAt way) = none := by
    intro hkind
    rw [Option.eq_none_iff_forall_ne_some]
    intro origin horigin
    exact h ⟨hkind, isSome_origin?.1 (Option.isSome_of_eq_some horigin)⟩
  have hspot : Spot.occurrence? o ⟨way, lo, node kind parts⟩ = none := by
    unfold Spot.occurrence? Spot.literal?
    split
    case isTrue =>
      dsimp only
      split
      case h_4 heq =>
        obtain ⟨rfl, rfl⟩ := Tree.node.inj heq
        rw [hnone rfl]
        rfl
      all_goals first | rfl | contradiction
    case isFalse => rfl
  constructor
  · exact Tree.occurrences_of_parts o _ _ lo parts hnone
  · rw [readFrom, List.filterMap_cons, hspot, List.filterMap_flatMap]

mutual

/-- **What is read of a part that is looked into is what is recorded of its parts**, in the order
of reading. -/
theorem occurrences_eq_readFrom {o : Options} : ∀ (t : Tree) {way : List Step} {lo : Nat},
    Reached o way → occurrences o (scopeOf way) (tagAt way) lo t =
      (readFrom way lo t).filterMap (Spot.occurrence? o)
  | leaf kind text, way, lo, hreached => occurrences_leaf kind text hreached
  | node kind parts, way, lo, hreached => by
    by_cases htemplate : kind = .template ∧ Reports o (scopeOf way)
    · obtain ⟨rfl, hreports⟩ := htemplate
      exact occurrences_template parts hreached hreports
    · obtain ⟨hread, hlisted⟩ := occurrences_node lo parts htemplate
      rw [hread, hlisted]
      congr 1
      funext turn
      exact occurrencesAll_eq_readAll parts [] turn hreached htemplate

/-- What is read in a turn is what is recorded of the parts with this turn. -/
theorem occurrencesAll_eq_readAll {o : Options} : ∀ (after before : List Tree) (turn : Turn)
    {kind : NodeKind} {way : List Step} {lo : Nat},
    Reached o way → ¬(kind = .template ∧ Reports o (scopeOf way)) →
      occurrencesAll o (partScope (scopeOf way) kind (before ++ after))
          (Tree.tagOf kind (before ++ after)) turn (lo + sizeAll before) after =
        (readAll turn way lo kind before after).filterMap (Spot.occurrence? o)
  | [], _, _, _, _, _, _, _ => rfl
  | t :: ts, before, turn, kind, way, lo, hreached, htemplate => by
    have hrest :=
      @occurrencesAll_eq_readAll o ts (before ++ [t]) turn kind way lo hreached htemplate
    simp only [List.append_assoc, List.singleton_append, Tree.sizeAll_append, sizeAll,
      Nat.add_zero, ← Nat.add_assoc] at hrest
    let step : Step := ⟨kind, before, t, ts⟩
    have hhere : Tree.occurrencesOf o (Tree.tagOf kind (before ++ t :: ts)) (lo + sizeAll before)
        (partScope (scopeOf way) kind (before ++ t :: ts)) t =
        (readFrom (step :: way) (lo + sizeAll before) t).filterMap (Spot.occurrence? o) := by
      have hscope : partScope (scopeOf way) kind (before ++ t :: ts) t =
          if step.isUnread then none else some (scopeOf (step :: way)) := partScope_step way step
      rw [Tree.occurrencesOf, hscope]
      cases hunread : step.isUnread with
      | true =>
        rw [filterMap_readFrom_eq_nil fun h => by simp [reached_cons, hunread] at h]
        rfl
      | false =>
        exact occurrences_eq_readFrom t (reached_cons.2 ⟨hunread, htemplate, hreached⟩)
    rw [readAll, List.filterMap_append, ← hrest, Tree.occurrencesAll_cons, hhere]
    split <;> rfl

end

/-- **What is read of a tree is what is recorded of its parts**, in the order of reading. -/
theorem occurrences_eq_readOrder (o : Options) (t : Tree) :
    t.occurrences o .code none 0 = t.readOrder.filterMap (Spot.occurrence? o) :=
  occurrences_eq_readFrom t reached_nil

/-- What is read of a tree is what is recorded of its parts, each once. -/
theorem occurrences_perm (o : Options) (t : Tree) :
    (t.occurrences o .code none 0).Perm (t.spots.filterMap (Spot.occurrence? o)) := by
  rw [occurrences_eq_readOrder]
  exact (Tree.readOrder_perm t).filterMap _

/-! ### Candidates -/

/-- The text of a literal without its delimiters. -/
def Spot.body (x : Spot) : List Char :=
  match x.tree with
  | leaf (.lexeme .string) text => (content (.quote (quoteOf text)) text).1
  | node .template parts => (content .template (Tree.textAll parts)).1
  | t => t.text

/-- Nothing is in a literal without a first character, whatever quote it has. -/
theorem content_quoteOf_append (outer b : List Char) :
    (content (.quote (quoteOf (outer ++ b))) outer).1 =
      (content (.quote (quoteOf outer)) outer).1 := by
  cases outer with
  | nil => rfl
  | cons c outer => rfl

/-- The delimiter of a literal that stands at the head of a text. -/
def delimiterAt (y : Occurrence) (rest : List Char) : Delimiter :=
  match y.delimiter with
  | .quote _ => .quote (quoteOf rest)
  | d => d

/-- A literal of a text is read as a candidate, or as none if it is all blank. -/
theorem exists_candidate? {y : Occurrence} {a outer b : List Char} (hlo : y.lo = Text.bytes a)
    (hhi : y.hi = y.lo + Text.bytes outer) :
    ∃ c, y.candidate? (a ++ outer ++ b) (a ++ outer ++ b) = some c ∧
      (c = none ↔ Text.trim (content (delimiterAt y (outer ++ b)) outer).1 = []) := by
  have hcut : y.hi - y.lo = Text.bytes outer := by omega
  unfold Occurrence.candidate?
  rw [List.append_assoc, hlo, Text.cutBack?_append, ← hlo]
  simp only [Option.bind_eq_bind, Option.bind_some, hcut, Text.cut?_append]
  by_cases hblank : (Text.trim (content (delimiterAt y (outer ++ b)) outer).1).isEmpty = true
  · exact ⟨none, if_pos hblank, by simpa using hblank⟩
  · exact ⟨some _, if_neg hblank, by simpa using hblank⟩

/-- A recorded literal stands where its part does, and its body is that of the part. -/
theorem spec_of_literal? {o : Options} {x : Spot} {y : Occurrence} (h : x.literal? o = some y)
    (b : List Char) : y.lo = x.lo ∧ y.hi = y.lo + Text.bytes x.tree.text ∧
      (content (delimiterAt y (x.tree.text ++ b)) x.tree.text).1 = x.body := by
  obtain ⟨way, lo, t⟩ := x
  unfold Spot.literal? at h
  dsimp only at h
  split at h
  case h_1 text =>
    obtain ⟨origin, -, rfl⟩ := Option.map_eq_some_iff.1 h
    rw [Tree.text_leaf]
    exact ⟨rfl, rfl, content_quoteOf_append text b⟩
  case h_2 text =>
    obtain ⟨origin, -, rfl⟩ := Option.map_eq_some_iff.1 h
    rw [Spot.body, Tree.text_leaf]
    exact ⟨rfl, rfl, (Tree.text_leaf _ text).symm⟩
  case h_3 text =>
    split at h
    case isTrue =>
      obtain rfl := Option.some.inj h
      rw [Spot.body, Tree.text_leaf]
      exact ⟨rfl, rfl, (Tree.text_leaf _ text).symm⟩
    case isFalse => cases h
  case h_4 parts =>
    obtain ⟨origin, -, rfl⟩ := Option.map_eq_some_iff.1 h
    rw [Tree.text_node]
    exact ⟨rfl, by rw [Tree.sizeAll_eq], rfl⟩
  case h_5 => cases h

/-- **A recorded literal is read as a candidate**, or as none if it is all blank. -/
theorem exists_candidate?_of_place {o : Options} {t : Tree} {x : Spot} {y : Occurrence}
    (hplace : t.Place x.way x.lo x.tree) (h : x.occurrence? o = some y) :
    ∃ c, y.candidate? t.text t.text = some c ∧ (c = none ↔ Text.trim x.body = []) := by
  obtain ⟨a, b, htext, hlo⟩ := hplace.exists_text
  obtain ⟨hlo', hhi, hbody⟩ := spec_of_literal? (literal?_of_occurrence? h) b
  obtain ⟨c, hc, hblank⟩ := exists_candidate? (hlo'.trans hlo.symm) hhi (b := b)
  rw [hbody] at hblank
  rw [← htext] at hc
  exact ⟨c, hc, hblank⟩

section Candidates

variable (o : Options) (t : Tree)

/-- The candidate of a literal of a tree, if it is not all blank. -/
def candidateOf? (y : Occurrence) : Option Candidate :=
  (y.candidate? t.text t.text).join

/-- The candidate of a part, if it is a literal that is recorded and not all blank. -/
noncomputable def Spot.candidate? (x : Spot) : Option Candidate :=
  (x.occurrence? o).bind (candidateOf? t)

variable {o t}

theorem candidate?_of_place {x : Spot} {y : Occurrence} (hplace : t.Place x.way x.lo x.tree)
    (h : x.occurrence? o = some y) : y.candidate? t.text t.text = some (candidateOf? t y) := by
  obtain ⟨c, hc, -⟩ := exists_candidate?_of_place hplace h
  rw [candidateOf?, hc]
  rfl

/-- A part has a candidate if it is a literal that is recorded and not all blank. -/
theorem isSome_candidate? {x : Spot} (hplace : t.Place x.way x.lo x.tree) :
    (x.candidate? o t).isSome = true ↔ x.IsRecorded o ∧ Text.trim x.body ≠ [] := by
  rw [← isSome_occurrence?]
  unfold Spot.candidate?
  cases h : x.occurrence? o with
  | none => simp
  | some y =>
    obtain ⟨c, hc, hblank⟩ := exists_candidate?_of_place hplace h
    have hcandidate : candidateOf? t y = c := by rw [candidateOf?, hc]; rfl
    rw [Option.bind_some, hcandidate, ne_eq, ← hblank, Option.isSome_iff_ne_none]
    simp

variable (o t)

/-- The recorded literals of a tree that are not all blank, with their candidates. -/
noncomputable def recorded : List (Spot × Candidate) :=
  t.spots.filterMap fun x => (x.candidate? o t).map (x, ·)

variable {o t}

theorem mem_recorded {r : Spot × Candidate} :
    r ∈ recorded o t ↔ t.Place r.1.way r.1.lo r.1.tree ∧ r.1.candidate? o t = some r.2 := by
  obtain ⟨x, c⟩ := r
  rw [← Tree.mem_spots]
  simp [recorded, List.mem_filterMap]

variable (o t)

theorem map_fst_recorded : (recorded o t).map Prod.fst =
    t.spots.filterMap fun x => (x.candidate? o t).map fun _ => x := by
  rw [recorded, List.map_filterMap]
  congr 1
  funext x
  cases x.candidate? o t <;> rfl

theorem map_snd_recorded : (recorded o t).map Prod.snd =
    (t.spots.filterMap (Spot.occurrence? o)).filterMap (candidateOf? t) := by
  rw [recorded, List.map_filterMap, List.filterMap_filterMap]
  congr 1
  funext x
  rw [Spot.candidate?]
  cases (x.occurrence? o).bind (candidateOf? t) <;> rfl

/-- No literal is recorded twice. -/
theorem nodup_recorded : ((recorded o t).map Prod.fst).Nodup := by
  rw [map_fst_recorded]
  refine (Tree.nodup_spots t).filterMap fun x x' b hb hb' => ?_
  obtain ⟨-, -, rfl⟩ := Option.map_eq_some_iff.1 hb
  obtain ⟨-, -, rfl⟩ := Option.map_eq_some_iff.1 hb'
  rfl

/-- What is read of a tree can be made into candidates. -/
theorem mapM_candidate? :
    (t.occurrences o .code none 0).mapM (Occurrence.candidate? t.text t.text) =
    some ((t.occurrences o .code none 0).map (candidateOf? t)) := by
  apply mapM_eq_some
  intro y hy
  obtain ⟨x, hx, hy⟩ := List.mem_filterMap.1 ((occurrences_perm o t).mem_iff.1 hy)
  exact candidate?_of_place (Tree.mem_spots.1 hx) hy

/-- The candidates of a script without a byte order mark are made from what is read of its tree. -/
theorem candidates_eq {dialect : Dialect} {s : List Char} (hmark : s.head? ≠ some '\ufeff')
    (h : read dialect s = .ok t) : candidates o dialect s =
      .ok (((t.occurrences o .code none 0).filterMap (candidateOf? t)).mergeSort
        fun a b => a.line ≤ b.line) := by
  have htext := text_of_read hmark h
  unfold candidates
  rw [h, dropMark_of_head? hmark, ← htext]
  simp only [bind, Except.bind, mapM_candidate?, List.filterMap_map]
  rfl

/-- Candidates that are read line by line stay as they are read. -/
theorem candidates_of_lines {dialect : Dialect} {s : List Char} {lines : List Nat}
    (hmark : s.head? ≠ some '\ufeff') (h : read dialect s = .ok t)
    (hlines : ((t.occurrences o .code none 0).filterMap (candidateOf? t)).map (·.line) = lines)
    (hsorted : lines.Pairwise (· ≤ ·)) : candidates o dialect s =
      .ok ((t.occurrences o .code none 0).filterMap (candidateOf? t)) := by
  rw [← hlines, List.pairwise_map] at hsorted
  rw [candidates_eq o t hmark h,
    List.mergeSort_of_pairwise (hsorted.imp fun hab => decide_eq_true hab)]

/-- **The candidates of a tree are those of its recorded literals**, one for each that is not all
blank. Those of a script are sorted by their lines. -/
theorem exists_candidates :
    ∃ (found : List Candidate) (recorded : List (Spot × Candidate)),
      ((t.occurrences o .code none 0).mapM (Occurrence.candidate? t.text t.text)).map
        (·.filterMap id) = some found ∧
      found.Perm (recorded.map Prod.snd) ∧ (recorded.map Prod.fst).Nodup ∧
      (∀ x, x ∈ recorded.map Prod.fst ↔
        t.Place x.way x.lo x.tree ∧ x.IsRecorded o ∧ Text.trim x.body ≠ []) ∧
      (∀ r ∈ recorded, ∃ y, r.1.occurrence? o = some y ∧
        y.candidate? t.text t.text = some (some r.2)) ∧
      ∀ dialect s, s.head? ≠ some '\ufeff' → read dialect s = .ok t →
        candidates o dialect s = .ok (found.mergeSort fun a b => a.line ≤ b.line) := by
  refine ⟨(t.occurrences o .code none 0).filterMap (candidateOf? t), recorded o t, ?_, ?_,
    nodup_recorded o t, ?_, ?_, fun dialect s hmark h => candidates_eq o t hmark h⟩
  · rw [mapM_candidate?, Option.map_some, List.filterMap_map]
    rfl
  · rw [map_snd_recorded]
    exact (occurrences_perm o t).filterMap _
  · intro x
    rw [List.mem_map]
    constructor
    · rintro ⟨r, hr, rfl⟩
      obtain ⟨hplace, hcandidate⟩ := mem_recorded.1 hr
      exact ⟨hplace, (isSome_candidate? hplace).1 (Option.isSome_of_eq_some hcandidate)⟩
    · rintro ⟨hplace, hrecorded⟩
      obtain ⟨c, hc⟩ := Option.isSome_iff_exists.1 ((isSome_candidate? hplace).2 hrecorded)
      exact ⟨(x, c), mem_recorded.2 ⟨hplace, hc⟩, rfl⟩
  · intro r hr
    obtain ⟨hplace, hcandidate⟩ := mem_recorded.1 hr
    obtain ⟨y, hy, hc⟩ := Option.bind_eq_some_iff.1 hcandidate
    exact ⟨y, hy, by rw [candidate?_of_place hplace hy, hc]⟩

variable {o t}

/-- A candidate of a script is that of a literal in its tree. -/
theorem exists_place_of_mem_candidates {dialect : Dialect} {s : List Char} {cs : List Candidate}
    (hmark : s.head? ≠ some '\ufeff') (h : read dialect s = .ok t)
    (hcs : candidates o dialect s = .ok cs) {c : Candidate} (hc : c ∈ cs) :
    ∃ (x : Spot) (y : Occurrence), t.Place x.way x.lo x.tree ∧ x.occurrence? o = some y ∧
      y.candidate? t.text t.text = some (some c) := by
  rw [candidates_eq o t hmark h] at hcs
  obtain rfl := Except.ok.inj hcs
  obtain ⟨y, hy, hcandidate⟩ := List.mem_filterMap.1 (List.mem_mergeSort.1 hc)
  obtain ⟨x, hx, hoccurrence⟩ := List.mem_filterMap.1 ((occurrences_perm o t).mem_iff.1 hy)
  have hplace := Tree.mem_spots.1 hx
  exact ⟨x, y, hplace, hoccurrence, by rw [candidate?_of_place hplace hoccurrence, hcandidate]⟩

end Candidates

/-- Markup with an attribute to look at and a text. -/
def greeting : List Char :=
  "<p title='Hello'>World</p>".toList

/-- The attribute and the text are found. -/
theorem exists_candidates_greeting :
    ∃ (t : Tree) (found : List Candidate),
      greeting.head? ≠ some '\ufeff' ∧ read .markup greeting = .ok t ∧
      candidates ⟨["title"], [], [], []⟩ .markup greeting =
        .ok (found.mergeSort fun a b => a.line ≤ b.line) ∧
      found.map (·.text) = ["Hello".toList, "World".toList] := by
  let o : Options := ⟨["title"], [], [], []⟩
  have hmark : greeting.head? ≠ some '\ufeff' := by decide +kernel
  have htexts : ((read .markup greeting).toOption.map fun t =>
      (((t.occurrences o .code none 0).mapM (Occurrence.candidate? t.text t.text)).map
        (·.filterMap id)).map (·.map (·.text))) =
      some (some ["Hello".toList, "World".toList]) := by decide +kernel
  cases h : read .markup greeting with
  | error => rw [h] at htexts; cases htexts
  | ok t =>
    obtain ⟨found, -, hfound, -, -, -, -, hsorted⟩ := exists_candidates o t
    rw [h] at htexts
    have htexts := Option.some.inj htexts
    dsimp only at htexts
    rw [hfound] at htexts
    exact ⟨t, found, hmark, rfl, hsorted _ _ hmark h, Option.some.inj htexts⟩

end Script

end Untranslated
