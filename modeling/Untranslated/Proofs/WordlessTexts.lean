import Untranslated.Proofs.Neighbours
import Untranslated.Rule

/-!
# Texts whose letters are those of entities

A text without words is told by reading it from left to right with a space for each entity. What
this comes to is told of the text itself: each of its letters stands in an entity
(`isWordless_iff`). An entity has its marks at its ends and nowhere else, so no two overlap, and
none goes on past a blank: a text falls into parts at its blanks, and each part is judged alone
(`isWordless_append_blank`).

* `IsEntity`: what an entity is.
* `InEntity`: where a character stands in one.
* `isWordless_append`: a text that no entity crosses the middle of.
* `matches?_noWordCharacters`: which candidates the rule lets through, and templates by their
  pieces.
-/

namespace Untranslated

open Script (Tree)
open Text (CharClass Pattern containsAlphabetic isAlphabetic isBlank isDecimalDigit isWordChar trim)

/-! ### Entities -/

/-- A digit in base sixteen. -/
def isHexDigit (c : Char) : Bool :=
  c.isDigit || ('A' ≤ c && c ≤ 'F') || ('a' ≤ c && c ≤ 'f')

/-- What stands between the marks of an entity: letters, or a number in base ten or sixteen. -/
inductive IsEntityBody : List Char → Prop
  | name {letters : List Char} (ne_nil : letters ≠ []) (all : ∀ c ∈ letters, c.isAlpha = true) :
      IsEntityBody letters
  | decimal {digits : List Char} (ne_nil : digits ≠ [])
      (all : ∀ c ∈ digits, isDecimalDigit c = true) : IsEntityBody ('#' :: digits)
  | hex {digits : List Char} (ne_nil : digits ≠ []) (all : ∀ c ∈ digits, isHexDigit c = true) :
      IsEntityBody ('#' :: 'x' :: digits)

/-- A character entity, such as `&nbsp;`, `&#160;` or `&#xa0;`. -/
inductive IsEntity : List Char → Prop
  | intro {body : List Char} (h : IsEntityBody body) : IsEntity ('&' :: (body ++ [';']))

variable {s t u v e : List Char} {c : Char}

theorem accepts_entityBody_iff {body : List Char} :
    entityBody.accepts body = true ↔ IsEntityBody body := by
  have hletter : ∀ c, (CharClass.union (.between 'A' 'Z') (.between 'a' 'z')).contains c =
      c.isAlpha := by
    intro c
    have hupper : c.isUpper = (CharClass.between 'A' 'Z').contains c := Bool.decide_and _ _
    exact congrArg (· || (CharClass.between 'a' 'z').contains c) hupper.symm
  have hhex : ∀ c, (CharClass.union (.between '0' '9')
      (.union (.between 'A' 'F') (.between 'a' 'f'))).contains c = isHexDigit c := by
    intro c
    rw [isHexDigit, Bool.or_assoc]
    rfl
  have hnumber : ∀ (w : String) (k : CharClass),
      (Pattern.inRow [.literal w, .plus (.one k)]).Matches body ↔
        ∃ digits, body = w.toList ++ digits ∧ digits ≠ [] ∧ ∀ c ∈ digits, k.contains c = true := by
    intro w k
    simp only [Pattern.matches_inRow_cons (p := .literal w), Pattern.matches_inRow_singleton,
      Pattern.matches_literal, Pattern.matches_plus_one]
    constructor
    · rintro ⟨_, digits, hbody, rfl, h⟩
      exact ⟨digits, hbody, h⟩
    · rintro ⟨digits, hbody, h⟩
      exact ⟨_, digits, hbody, rfl, h⟩
  simp only [Pattern.accepts_iff, entityBody, Pattern.matches_anyOf, List.mem_cons,
    List.not_mem_nil, or_false, exists_eq_or_imp, exists_eq_left, Pattern.matches_plus_one, hnumber,
    hletter, hhex]
  constructor
  · rintro (⟨hne, hall⟩ | ⟨digits, rfl, hne, hall⟩ | ⟨digits, rfl, hne, hall⟩)
    · exact .name hne hall
    · exact .decimal hne hall
    · exact .hex hne hall
  · rintro (⟨hne, hall⟩ | ⟨hne, hall⟩ | ⟨hne, hall⟩)
    · exact .inl ⟨hne, hall⟩
    · exact .inr (.inl ⟨_, rfl, hne, hall⟩)
    · exact .inr (.inr ⟨_, rfl, hne, hall⟩)

/-- A character that may stand between the marks of an entity. -/
def isBodyChar (c : Char) : Bool :=
  c.isAlpha || isDecimalDigit c || isHexDigit c || c == '#'

theorem IsEntityBody.isBodyChar_of_mem {body : List Char} (h : IsEntityBody body) (hc : c ∈ body) :
    isBodyChar c = true := by
  unfold isBodyChar
  cases h with
  | name _ hall => simp [hall c hc]
  | decimal _ hall =>
    rcases List.mem_cons.1 hc with rfl | hc
    · simp
    · simp [hall c hc]
  | hex _ hall =>
    rcases List.mem_cons.1 hc with rfl | hc
    · simp
    rcases List.mem_cons.1 hc with rfl | hc
    · decide
    · simp [hall c hc]

theorem IsEntityBody.notMem {body : List Char} (h : IsEntityBody body)
    (hc : isBodyChar c = false) : c ∉ body := by
  intro hmem
  rw [h.isBodyChar_of_mem hmem] at hc
  cases hc

/-- No blank stands in an entity. -/
theorem IsEntity.notMem_of_isBlank (h : IsEntity e) (hc : isBlank c = true) : c ∉ e := by
  obtain ⟨hbody⟩ := h
  have hall : ∀ n ∈ blankCodes, isBodyChar (Char.ofNat n) = false := by decide +kernel
  have hnot := hall c.toNat (mem_blankCodes hc)
  rw [Char.ofNat_toNat] at hnot
  have hopening : c ≠ '&' := by
    rintro rfl
    exact absurd hc (by decide)
  have hclosing : c ≠ ';' := by
    rintro rfl
    exact absurd hc (by decide)
  simp [hopening, hclosing, hbody.notMem hnot]

/-- The closing mark of an entity is its last character only. -/
theorem IsEntity.eq_nil_of_append (h : IsEntity (u ++ ';' :: v)) : v = [] := by
  generalize hs : u ++ ';' :: v = s at h
  obtain @⟨body, hbody⟩ := h
  have hmark : ';' ∉ '&' :: body := by
    rw [List.mem_cons, not_or]
    exact ⟨by decide, hbody.notMem (by decide)⟩
  rw [← List.cons_append] at hs
  exact ((List.append_cons_inj_of_notMem hmark List.not_mem_nil).1 hs.symm).2.2.symm

/-- **The entity at the head of a text** is what its length tells. -/
theorem entityLength?_append (h : IsEntity e) (s : List Char) :
    entityLength? (e ++ s) = some e.length := by
  obtain @⟨body, hbody⟩ := h
  have hclosing : (body ++ ';' :: s).takeWhile (· != ';') = body := by
    have hall : ∀ c ∈ body, (c != ';') = true := by
      rintro c hc
      simpa using ne_of_mem_of_not_mem hc (hbody.notMem (by decide))
    rw [List.takeWhile_append_of_pos hall, List.takeWhile_cons_of_neg (by simp), List.append_nil]
  have hfound : body.length < (body ++ ';' :: s).length ∧ entityBody.accepts body = true :=
    ⟨by simp, accepts_entityBody_iff.2 hbody⟩
  rw [List.cons_append, List.append_assoc, List.singleton_append, entityLength?]
  simp only [hclosing, hfound, decide_true, Bool.and_self, if_true]
  simp

theorem exists_of_entityLength? {n : Nat} (h : entityLength? s = some n) :
    ∃ e rest, s = e ++ rest ∧ IsEntity e := by
  unfold entityLength? at h
  split at h
  case h_1 rest =>
    have hsplit := List.takeWhile_append_dropWhile (p := (· != ';')) (l := rest)
    have hhead := List.head?_dropWhile_not (· != ';') rest
    dsimp only at h
    generalize rest.takeWhile (· != ';') = body at h hsplit
    split_ifs at h with hfound
    obtain rfl := Option.some.inj h
    rw [Bool.and_eq_true, decide_eq_true_eq] at hfound
    obtain ⟨hlength, haccepts⟩ := hfound
    cases hbehind : rest.dropWhile (· != ';') with
    | nil =>
      rw [hbehind, List.append_nil] at hsplit
      rw [hsplit] at hlength
      exact absurd hlength (Nat.lt_irrefl _)
    | cons d behind =>
      rw [hbehind] at hsplit hhead
      obtain rfl : d = ';' := by simpa using hhead
      refine ⟨'&' :: (body ++ [';']), behind, ?_, .intro (accepts_entityBody_iff.1 haccepts)⟩
      rw [← hsplit, List.cons_append, List.append_assoc, List.singleton_append]
  case h_2 => cases h

/-! ### Letters and entities -/

/-- The character, with `u` before it and `v` behind it, stands in an entity. -/
def InEntity (u : List Char) (c : Char) (v : List Char) : Prop :=
  ∃ a b, a <:+ u ∧ b <+: v ∧ IsEntity (a ++ c :: b)

/-- Each letter of the text stands in an entity. -/
def IsWordless (s : List Char) : Prop :=
  ∀ u c v, s = u ++ c :: v → isAlphabetic c = true → InEntity u c v

/-- A character of two texts in a row is one of the first or one of the second. -/
theorem split_append (h : s ++ t = u ++ c :: v) :
    (∃ m, s = u ++ c :: m ∧ v = m ++ t) ∨ ∃ m, t = m ++ c :: v ∧ u = s ++ m := by
  rcases List.append_eq_append_iff.1 h with ⟨m, hu, ht⟩ | ⟨m, hs, hm⟩
  · exact .inr ⟨m, ht, hu⟩
  · cases m with
    | nil => exact .inr ⟨[], hm.symm, by rw [hs, List.append_nil, List.append_nil]⟩
    | cons d m =>
      obtain ⟨rfl, hv⟩ := List.cons.inj hm
      exact .inl ⟨m, hs, hv⟩

/-- **A text falls into two parts where no entity crosses.** -/
theorem isWordless_append (h : ∀ a b, a <:+ s → b <+: t → IsEntity (a ++ b) → a = [] ∨ b = []) :
    IsWordless (s ++ t) ↔ IsWordless s ∧ IsWordless t := by
  constructor
  · intro hst
    constructor
    · rintro u c v rfl hc
      obtain ⟨a, b, ha, ⟨r, hr⟩, he⟩ := hst u c (v ++ t) (by simp) hc
      refine ⟨a, b, ha, ?_, he⟩
      rcases List.append_eq_append_iff.1 hr with ⟨m, rfl, -⟩ | ⟨m, rfl, rfl⟩
      · exact List.prefix_append b m
      · -- What the entity has of `t` would be across.
        have hacross : a ++ c :: v <:+ u ++ c :: v := List.suffix_append_self_iff.2 ha
        rcases h _ m hacross (List.prefix_append m r) (by simpa using he) with hnil | rfl
        · simp at hnil
        · simp
    · rintro u c v rfl hc
      obtain ⟨a, b, ⟨r, hr⟩, hb, he⟩ := hst (s ++ u) c v (by simp) hc
      refine ⟨a, b, ?_, hb, he⟩
      rcases List.append_eq_append_iff.1 hr with ⟨m, rfl, rfl⟩ | ⟨m, -, rfl⟩
      · have hacross : u ++ c :: b <+: u ++ c :: v :=
          List.prefix_self_append_iff.2 (List.cons_prefix_cons.2 ⟨rfl, hb⟩)
        rcases h m _ (List.suffix_append r m) hacross (by simpa using he) with rfl | hnil
        · simp
        · simp at hnil
      · exact List.suffix_append m a
  · rintro ⟨hs, ht⟩ u c v heq hc
    rcases split_append heq with ⟨m, hm, rfl⟩ | ⟨m, hm, rfl⟩
    · obtain ⟨a, b, ha, hb, he⟩ := hs u c m hm hc
      exact ⟨a, b, ha, hb.trans (List.prefix_append m t), he⟩
    · obtain ⟨a, b, ha, hb, he⟩ := ht m c v hm hc
      exact ⟨a, b, ha.trans (List.suffix_append s m), hb, he⟩

theorem isWordless_nil : IsWordless [] := by
  intro u c v h
  simp at h

/-- A character alone is no entity. -/
theorem isWordless_singleton : IsWordless [c] ↔ isAlphabetic c = false := by
  constructor
  · intro h
    rw [Bool.eq_false_iff]
    intro hc
    obtain ⟨a, b, ha, hb, he⟩ := h [] c [] rfl hc
    rw [List.suffix_nil.1 ha, List.prefix_nil.1 hb] at he
    generalize hs : [] ++ [c] = s at he
    obtain ⟨-⟩ := he
    simpa using congrArg List.length hs
  · intro h u d v heq hd
    obtain ⟨rfl, rfl, rfl⟩ : u = [] ∧ d = c ∧ v = [] := by
      simpa [eq_comm, List.append_eq_singleton_iff] using heq
    rw [h] at hd
    cases hd

theorem IsEntity.isWordless (h : IsEntity e) : IsWordless e := by
  rintro u c v rfl -
  exact ⟨u, v, List.suffix_rfl, List.prefix_rfl, h⟩

/-- An entity at the head of a text tells nothing of the rest. -/
theorem IsEntity.isWordless_append (h : IsEntity e) : IsWordless (e ++ s) ↔ IsWordless s := by
  have hapart : IsWordless (e ++ s) ↔ IsWordless e ∧ IsWordless s := by
    refine Untranslated.isWordless_append fun a b ha _ hab => ?_
    obtain @⟨body, -⟩ := h
    rcases List.eq_nil_or_concat a with rfl | ⟨a, d, rfl⟩
    · exact .inl rfl
    · obtain rfl : d = ';' := by
        obtain ⟨r, hr⟩ := ha
        have hlast := congrArg List.getLast? hr
        rw [List.concat_eq_append, ← List.append_assoc, List.getLast?_concat, ← List.cons_append,
          List.getLast?_concat] at hlast
        exact Option.some.inj hlast
      rw [List.concat_eq_append, List.append_assoc] at hab
      exact .inr hab.eq_nil_of_append
  rw [hapart, and_iff_right h.isWordless]

/-- A character that no entity begins with stands in none. -/
theorem isWordless_cons (h : entityLength? (c :: s) = none) :
    IsWordless (c :: s) ↔ isAlphabetic c = false ∧ IsWordless s := by
  rw [← isWordless_singleton, ← List.singleton_append]
  refine isWordless_append fun a b ha hb hab => ?_
  rcases List.suffix_cons_iff.1 ha with rfl | ha
  · obtain ⟨r, rfl⟩ := hb
    have hfound := entityLength?_append hab r
    rw [List.append_assoc, List.singleton_append, h] at hfound
    cases hfound
  · exact .inl (List.suffix_nil.1 ha)

/-! ### What is left of a text -/

theorem replaceEntities_eq_drop (n : Nat) (s : List Char) :
    replaceEntities n s = replaceEntities 0 (s.drop n) := by
  induction s generalizing n with
  | nil => rw [List.drop_nil]; rfl
  | cons c s ih =>
    cases n with
    | zero => rfl
    | succ n => rw [replaceEntities, ih, List.drop_succ_cons]

theorem replaceEntities_append (h : IsEntity e) (s : List Char) :
    replaceEntities 0 (e ++ s) = ' ' :: replaceEntities 0 s := by
  have hlength := entityLength?_append h s
  obtain ⟨-⟩ := h
  rw [List.cons_append, replaceEntities]
  rw [List.cons_append] at hlength
  rw [hlength]
  dsimp only
  rw [replaceEntities_eq_drop, List.length_cons, Nat.add_sub_cancel, List.drop_left]

theorem replaceEntities_cons (h : entityLength? (c :: s) = none) :
    replaceEntities 0 (c :: s) = c :: replaceEntities 0 s := by
  rw [replaceEntities, h]

/-- **Nothing with letters is left of a text just if each of its letters stands in an entity.** -/
theorem containsAlphabetic_replaceEntities_iff (s : List Char) :
    containsAlphabetic (replaceEntities 0 s) = false ↔ IsWordless s := by
  -- The text is read as it is replaced: an entity or a character is taken off its head.
  induction hn : s.length using Nat.strong_induction_on generalizing s with
  | _ n ih =>
    cases s with
    | nil => exact iff_of_true rfl isWordless_nil
    | cons c s =>
      cases hlength : entityLength? (c :: s) with
      | none =>
        rw [replaceEntities_cons hlength, isWordless_cons hlength,
          ← ih s.length (by simp [← hn]) s rfl]
        simp [containsAlphabetic]
      | some k =>
        obtain ⟨e, rest, hsplit, he⟩ := exists_of_entityLength? hlength
        have hshort : rest.length < n := by
          rw [← hn, hsplit, List.length_append]
          obtain ⟨-⟩ := he
          simp
        have hspace : isAlphabetic ' ' = false := by decide
        rw [hsplit, replaceEntities_append he, he.isWordless_append, ← ih _ hshort rest rfl]
        simp [containsAlphabetic, hspace]

/-! ### Texts in parts -/

/-- **A text falls into parts at its blanks.** -/
theorem isWordless_append_blank (hc : isBlank c = true) :
    IsWordless (s ++ c :: t) ↔ IsWordless s ∧ IsWordless t := by
  have hnot : ∀ a b, c ∈ b → ¬IsEntity (a ++ b) := fun a b hb he =>
    he.notMem_of_isBlank hc (List.mem_append_right a hb)
  have hbefore : IsWordless (s ++ c :: t) ↔ IsWordless s ∧ IsWordless (c :: t) := by
    refine isWordless_append fun a b _ hb hab => ?_
    cases b with
    | nil => exact .inr rfl
    | cons d b =>
      obtain ⟨rfl, -⟩ := List.cons_prefix_cons.1 hb
      exact absurd hab (hnot a _ List.mem_cons_self)
  have hhead : entityLength? (c :: t) = none := by
    rw [Option.eq_none_iff_forall_ne_some]
    intro n hn
    obtain ⟨e, rest, hsplit, he⟩ := exists_of_entityLength? hn
    obtain ⟨-⟩ := he
    obtain ⟨rfl, -⟩ := List.cons.inj hsplit
    exact absurd hc (by decide)
  have hletter : isAlphabetic c = false := by
    have hall : ∀ n ∈ blankCodes, isAlphabetic (Char.ofNat n) = false := by decide +kernel
    have hnot := hall c.toNat (mem_blankCodes hc)
    rwa [Char.ofNat_toNat] at hnot
  rw [hbefore, isWordless_cons hhead, and_iff_right hletter]

/-- Blanks at its ends tell nothing of a text. -/
theorem isWordless_blanks {lead tail : List Char} (hlead : ∀ b ∈ lead, isBlank b = true)
    (htail : ∀ b ∈ tail, isBlank b = true) :
    IsWordless (lead ++ (s ++ tail)) ↔ IsWordless s := by
  have hbehind : IsWordless (s ++ tail) ↔ IsWordless s := by
    induction tail generalizing s with
    | nil => rw [List.append_nil]
    | cons b tail ih =>
      obtain ⟨hb, htail⟩ := List.forall_mem_cons.1 htail
      have hrest := ih (s := []) htail
      rw [List.nil_append] at hrest
      rw [isWordless_append_blank hb, hrest, and_iff_left isWordless_nil]
  induction lead with
  | nil => exact hbehind
  | cons b lead ih =>
    obtain ⟨hb, hlead⟩ := List.forall_mem_cons.1 hlead
    have hcut := isWordless_append_blank (s := []) (t := lead ++ (s ++ tail)) hb
    rw [List.nil_append, and_iff_right isWordless_nil] at hcut
    exact hcut.trans (ih hlead)

theorem isWordless_trim : IsWordless (trim s) ↔ IsWordless s := by
  obtain ⟨lead, tail, hs, hlead, htail, -, -⟩ := exists_trim_blanks s
  conv_rhs => rw [hs]
  exact (isWordless_blanks hlead htail).symm

/-- **Pieces with spaces between them are judged one by one.** -/
theorem isWordless_joinPieces {pieces : List (List Char)} :
    IsWordless (joinPieces pieces) ↔ ∀ p ∈ pieces, IsWordless p := by
  unfold joinPieces
  induction pieces with
  | nil => exact iff_of_true isWordless_nil (by simp)
  | cons p pieces ih =>
    cases pieces with
    | nil => simp
    | cons q pieces =>
      rw [List.intercalate_cons_cons, List.append_assoc, List.singleton_append,
        isWordless_append_blank (by decide), ih]
      exact List.forall_mem_cons.symm

/-! ### Candidates -/

theorem matches?_noWordCharacters_iff (ignores : Ignores) (c : Candidate) :
    Rule.matches? ignores c .noWordCharacters = true ↔ IsWordless c.staticText := by
  rw [← containsAlphabetic_replaceEntities_iff, Rule.matches?, Candidate.isWordless,
    Bool.not_eq_true']

/-- A template is judged by its pieces with spaces between them. -/
theorem Occurrence.staticText_of_candidate? {source read : List Char} {y : Occurrence}
    {c : Candidate} (h : y.candidate? source read = some (some c)) {pieces : List (List Char)}
    (hpieces : y.pieces = some pieces) : c.staticText = trim (joinPieces pieces) := by
  unfold Occurrence.candidate? at h
  obtain ⟨⟨behind, rest⟩, -, h⟩ := Option.bind_eq_some_iff.1 h
  obtain ⟨⟨outer, after⟩, -, h⟩ := Option.bind_eq_some_iff.1 h
  dsimp only at h
  split_ifs at h with hblank
  · cases Option.some.inj h
  · obtain rfl := Option.some.inj (Option.some.inj h)
    rw [hpieces]
    rfl

/-- **Which candidates have no words**: those of whose letters each stands in an entity. So two
texts with a space between them have none just if each of them has none, and a template has none
just if each of its pieces, as a text of its own, has none. -/
theorem matches?_noWordCharacters (ignores : Ignores) (c : Candidate) :
    (Rule.matches? ignores c .noWordCharacters = true ↔
        ∀ u x v, c.staticText = u ++ x :: v → isAlphabetic x = true → InEntity u x v) ∧
      (∀ a b : List Char,
        Rule.matches? ignores { c with staticText := a ++ ' ' :: b } .noWordCharacters = true ↔
          Rule.matches? ignores { c with staticText := a } .noWordCharacters = true ∧
            Rule.matches? ignores { c with staticText := b } .noWordCharacters = true) ∧
      ∀ (o : Options) (s : Scope) (tag : Option String) (lo : Nat) (parts : List Tree)
        (source read : List Char), (s.origin? o tag).isSome = true →
        ∀ y ∈ Tree.occurrences o s tag lo (.node .template parts),
          y.candidate? source read = some (some c) →
            (Rule.matches? ignores c .noWordCharacters = true ↔ ∀ p ∈ Tree.pieces parts,
              Rule.matches? ignores { c with staticText := trim p } .noWordCharacters = true) := by
  simp only [matches?_noWordCharacters_iff, isWordless_trim]
  refine ⟨Iff.rfl, fun a b => isWordless_append_blank (by decide), ?_⟩
  intro o s tag lo parts source read horigin y hy hcandidate
  obtain ⟨origin, horigin⟩ := Option.isSome_iff_exists.1 horigin
  have hread : Tree.occurrences o s tag lo (.node .template parts) =
      [⟨lo, lo + Tree.sizeAll parts, .template, origin, some (Tree.pieces parts)⟩] := by
    rw [Tree.occurrences]
    exact horigin
  have hpieces : y.pieces = some (Tree.pieces parts) := by
    rw [hread] at hy
    rw [List.mem_singleton.1 hy]
  rw [Occurrence.staticText_of_candidate? hcandidate hpieces, isWordless_trim,
    isWordless_joinPieces]

/-- A template of entities, signs and substitutions. -/
def pricesTemplate : List Tree :=
  [.leaf (.lexeme .plain) ['\x60'], .leaf (.lexeme .quasi) "&euro;".toList,
    .leaf (.lexeme .plain) "$\x7b".toList, .leaf (.lexeme (.name "n")) ['n'],
    .leaf (.lexeme .plain) ['\x7d'], .leaf (.lexeme .quasi) " &#xa0;".toList,
    .leaf (.lexeme .plain) ['\x60']]

/-- The letters of the template are those of its entities, so it has no words; nor have its
pieces. -/
theorem matches?_noWordCharacters_prices :
    let source := Tree.textAll pricesTemplate
    ((⟨.children, none⟩ : Scope).origin? ⟨[], [], [], []⟩ none).isSome = true ∧
      ∃ y c, y ∈ Tree.occurrences ⟨[], [], [], []⟩ ⟨.children, none⟩ none 0
          (.node .template pricesTemplate) ∧ y.candidate? source source = some (some c) ∧
        c.staticText = "&euro;  &#xa0;".toList ∧
        ∀ p ∈ ["&euro;", " &#xa0;"].map String.toList, ∀ ignores,
          Rule.matches? ignores { c with staticText := trim p } .noWordCharacters = true := by
  intro source
  let y : Occurrence := ⟨0, Tree.sizeAll pricesTemplate, .template, ⟨.text, none, none, none⟩,
    some (Tree.pieces pricesTemplate)⟩
  have horigin : ((⟨.children, none⟩ : Scope).origin? ⟨[], [], [], []⟩ none).isSome = true := rfl
  have hy : y ∈ Tree.occurrences ⟨[], [], [], []⟩ ⟨.children, none⟩ none 0
      (.node .template pricesTemplate) := by decide +kernel
  have hfound : (y.candidate? source source).map (fun c => c.map fun c => c.staticText) =
      some (some "&euro;  &#xa0;".toList) := by decide +kernel
  have hwordless : ((y.candidate? source source).join.map fun c =>
      Rule.matches? {} c .noWordCharacters) = some true := by decide +kernel
  obtain ⟨c?, hc, hmap⟩ := Option.map_eq_some_iff.1 hfound
  obtain ⟨c, rfl, hstatic⟩ := Option.map_eq_some_iff.1 hmap
  rw [hc] at hwordless
  obtain ⟨-, -, htemplate⟩ := matches?_noWordCharacters {} c
  have hpieces := (htemplate _ _ _ _ _ _ _ horigin y hy hc).1 (Option.some.inj hwordless)
  exact ⟨horigin, y, c, hy, hc, hstatic, fun p hp ignores => hpieces p hp⟩

end Untranslated
