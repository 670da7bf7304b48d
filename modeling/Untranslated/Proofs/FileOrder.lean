import Mathlib.Data.List.Pairwise
import Untranslated.Proofs.Anchors
import Untranslated.Proofs.DisjointLiterals
import Untranslated.Proofs.SecondReading

/-!
# The order of candidates

Candidates come by line, and those of one line in the order in which the script is read. Literals
stand apart, so those of different lines are in the order of the text. Those of one line are too,
but for a literal in a part with a later turn than what stands behind it in the same node, such as
the body of a `do` loop.

* `Spot.Delayed`: a part waits for its turn, behind another one that stands after it.
* `pairwise_mergeSort_stable`: what sorting by line keeps of an order.
* `InOrder`, `ComeInOrder`: one candidate before another, and candidates in this order.
* `comeInOrder`: the candidates of a script are in this order, and so are its violations.
-/

namespace Untranslated

open Text (bytes lineAt)

/-! ### Sorting keeps the order -/

section Sorting

variable {α : Type} {l : List α} {le : α → α → Bool} {R : α → α → Prop}

/-- In a list without repetitions two elements come in one order only. -/
theorem not_sublist_swap (hnodup : l.Nodup) {a b : α} (hab : [a, b].Sublist l) :
    ¬[b, a].Sublist l := by
  induction l with
  | nil => cases hab
  | cons x l ih =>
    obtain ⟨hx, hrest⟩ := List.nodup_cons.1 hnodup
    intro hba
    cases hab with
    | cons _ hab =>
      cases hba with
      | cons _ hba => exact ih hrest hab hba
      | cons_cons _ _ => exact hx (hab.subset (by simp))
    | cons_cons _ hb =>
      cases hba with
      | cons _ hba => exact hx (hba.subset (by simp))
      | cons_cons _ _ => exact hx (hb.subset (by simp))

/-- **Sorting keeps elements in their order** if it may. -/
theorem pairwise_mergeSort_stable (htrans : ∀ a b c, le a b = true → le b c = true → le a c = true)
    (htotal : ∀ a b, (le a b || le b a) = true) (hnodup : l.Nodup) (hR : l.Pairwise R) :
    (l.mergeSort le).Pairwise fun a b => le a b = true ∧ (le b a = true → R a b) := by
  refine List.pairwise_iff_forall_sublist.2 fun {a b} hab => ?_
  have hsorted := List.pairwise_iff_forall_sublist.1 (List.pairwise_mergeSort htrans htotal l) hab
  refine ⟨hsorted, fun hba => ?_⟩
  have hnodup' : (l.mergeSort le).Nodup := (List.mergeSort_perm l le).nodup_iff.2 hnodup
  have hmem : ∀ c ∈ [a, b], c ∈ l := fun c hc => List.mem_mergeSort.1 (hab.subset hc)
  have hne : a ≠ b := (List.pairwise_iff_forall_sublist.1 hnodup' hab)
  -- The two come in some order before sorting; were it the other one, sorting would have kept it.
  have : Std.Symm fun x y => [x, y].Sublist l ∨ [y, x].Sublist l := ⟨fun _ _ h => h.symm⟩
  have horder : l.Pairwise fun x y => [x, y].Sublist l ∨ [y, x].Sublist l :=
    List.pairwise_iff_forall_sublist.2 .inl
  rcases horder.forall (hmem a (by simp)) (hmem b (by simp)) hne with h | h
  · exact List.pairwise_iff_forall_sublist.1 hR h
  · exact absurd (List.pair_sublist_mergeSort htrans htotal hba h) (not_sublist_swap hnodup' hab)

end Sorting

namespace Script

variable {o : Options} {t : Tree}

/-! ### Parts that wait for their turn -/

/-- The part `x'` waits for its turn: at the node where the ways part it is in a part that stands
before that of `x` and has a later turn. -/
def Spot.Delayed (x' x : Spot) : Prop :=
  ∃ (way : List Step) (step step' : Step), step :: way <:+ x.way ∧ step' :: way <:+ x'.way ∧
    step.kind = step'.kind ∧ step.parts = step'.parts ∧
    step.part.turn < step'.part.turn ∧ step'.before.length < step.before.length

/-- **Of two parts the one that is read before stands before**, unless the other waits for its
turn. -/
theorem Spot.ReadBefore.hi_le_or_delayed {x x' : Spot} (h : t.Place x.way x.lo x.tree)
    (h' : t.Place x'.way x'.lo x'.tree) (hread : x.ReadBefore x') :
    x.hi ≤ x'.lo ∨ x'.Delayed x ∧ x'.hi ≤ x.lo := by
  obtain ⟨way, step, step', hsuffix, hsuffix', hkind, hparts, horder⟩ := hread
  obtain ⟨lo, u, hnode, -, -⟩ := h.exists_around ((List.suffix_cons step way).trans hsuffix)
  obtain ⟨-, hlo, hhi⟩ := hnode.of_step h hsuffix
  obtain ⟨-, hlo', hhi'⟩ := hnode.of_step h' hsuffix'
  unfold Spot.hi
  rcases Nat.lt_trichotomy step.before.length step'.before.length with hlt | heq | hgt
  · have hle := Tree.sizeAll_before_le hparts hlt
    exact .inl (by omega)
  · obtain rfl := Tree.step_eq_of_length hkind hparts heq
    rcases horder with hturn | ⟨-, hlt⟩
    · exact absurd hturn (Turn.lt_irrefl _)
    · exact absurd hlt (Nat.lt_irrefl _)
  · have hle := Tree.sizeAll_before_le hparts.symm hgt
    rcases horder with hturn | ⟨-, hlt⟩
    · exact .inr ⟨⟨way, step, step', hsuffix, hsuffix', hkind, hparts, hturn, hgt⟩, by omega⟩
    · exact absurd hlt (Nat.lt_asymm hgt)

/-! ### Lines -/

/-- The line of a candidate is that of a byte of its literal. -/
theorem MadeFrom.exists_offset {x : Spot} {c : Candidate} (h : MadeFrom o t x c) :
    ∃ p, x.lo ≤ p ∧ p < x.hi ∧ c.line = lineAt p t.text := by
  obtain ⟨y, -, hylo, hyhi, hcandidate⟩ := h.literal
  obtain ⟨a, b, htext, hlo⟩ := h.place.exists_text
  have hhi : y.hi = y.lo + bytes x.tree.text := by rw [hyhi, hylo, Spot.hi, Tree.size_eq]
  rw [htext] at hcandidate ⊢
  obtain ⟨htrimmed, lead, tail, houter, hline⟩ :=
    exists_lead (hylo.trans hlo.symm) hhi hcandidate
  refine ⟨y.lo + bytes lead, by omega, ?_, hline⟩
  have hpos : 0 < bytes c.text := by
    obtain ⟨d, rest, hd⟩ := List.exists_cons_of_ne_nil htrimmed.ne_nil
    rw [hd, Text.bytes_cons]
    have := d.utf8Size_pos
    omega
  rw [← hyhi, hhi, houter, Text.bytes_append, Text.bytes_append]
  omega

/-- A literal behind another one is not on an earlier line. -/
theorem MadeFrom.line_le {x x' : Spot} {c c' : Candidate} (h : MadeFrom o t x c)
    (h' : MadeFrom o t x' c') (hle : x.hi ≤ x'.lo) : c.line ≤ c'.line := by
  obtain ⟨p, -, hp, hline⟩ := h.exists_offset
  obtain ⟨p', hp', -, hline'⟩ := h'.exists_offset
  rw [hline, hline']
  exact Text.lineAt_mono _ (by omega)

/-! ### Candidates in order -/

/-- One literal with its candidate comes before another: it is on an earlier line and stands before
the other, or on the same line and is read before it. -/
structure InOrder (r r' : Spot × Candidate) : Prop where
  line_le : r.2.line ≤ r'.2.line
  readBefore : r.2.line = r'.2.line → r.1.ReadBefore r'.1
  /-- It stands before the other, unless the other waits for its turn and is on the same line. -/
  hi_le : r.1.hi ≤ r'.1.lo ∨ r.2.line = r'.2.line ∧ r'.1.Delayed r.1 ∧ r'.1.hi ≤ r.1.lo

/-- The candidates are made from recorded literals of the tree, one from each, in this order. -/
def ComeInOrder (o : Options) (t : Tree) (cs : List Candidate) : Prop :=
  ∃ found : List (Spot × Candidate), cs = found.map Prod.snd ∧
    (∀ r ∈ found, MadeFrom o t r.1 r.2) ∧ found.Pairwise InOrder

theorem ComeInOrder.filter {cs : List Candidate} (h : ComeInOrder o t cs) (p : Candidate → Bool) :
    ComeInOrder o t (cs.filter p) := by
  obtain ⟨found, rfl, hmade, horder⟩ := h
  exact ⟨found.filter (p ∘ Prod.snd), List.filter_map, fun r hr => hmade r (List.mem_filter.1 hr).1,
    horder.filter _⟩

/-- The recorded literals of a tree with their candidates, in the order of reading. -/
noncomputable def recordedInOrder (o : Options) (t : Tree) : List (Spot × Candidate) :=
  t.readOrder.filterMap fun x => (x.candidate? o t).map (x, ·)

theorem recordedInOrder_perm : (recordedInOrder o t).Perm (recorded o t) :=
  (Tree.readOrder_perm t).filterMap _

theorem map_snd_recordedInOrder : (recordedInOrder o t).map Prod.snd =
    (t.occurrences o .code none 0).filterMap (candidateOf? t) := by
  rw [recordedInOrder, occurrences_eq_readOrder, List.map_filterMap, List.filterMap_filterMap]
  congr 1
  funext x
  rw [Spot.candidate?]
  cases (x.occurrence? o).bind (candidateOf? t) <;> rfl

/-- What is recorded is read in order; none of it holds another. -/
theorem pairwise_recordedInOrder :
    (recordedInOrder o t).Pairwise fun r r' => r.1.ReadBefore r'.1 := by
  have hapart : (recordedInOrder o t).Pairwise fun r r' => r.1.Apart r'.1 :=
    (recordedInOrder_perm.pairwise_iff fun h => h.symm).2 pairwise_recorded
  have hread : (recordedInOrder o t).Pairwise fun r r' => Tree.ReadsOn r.1 r'.1 := by
    refine (Tree.pairwise_readOrder t).filterMap _ fun x x' hreads r hr r' hr' => ?_
    obtain ⟨c, -, rfl⟩ := Option.map_eq_some_iff.1 hr
    obtain ⟨c', -, rfl⟩ := Option.map_eq_some_iff.1 hr'
    exact hreads
  exact (hapart.and hread).imp fun ⟨hne, hreads⟩ => hreads.resolve_left hne.not_around

/-- **The candidates of a tree come in order.** -/
theorem comeInOrder_mergeSort (o : Options) (t : Tree) : ComeInOrder o t
    (((t.occurrences o .code none 0).filterMap (candidateOf? t)).mergeSort
      fun a b => a.line ≤ b.line) := by
  let le : Spot × Candidate → Spot × Candidate → Bool := fun r r' => r.2.line ≤ r'.2.line
  have hmem : ∀ r ∈ (recordedInOrder o t).mergeSort le, MadeFrom o t r.1 r.2 := fun r hr =>
    MadeFrom.of_mem_recorded (recordedInOrder_perm.mem_iff.1 (List.mem_mergeSort.1 hr))
  refine ⟨(recordedInOrder o t).mergeSort le, ?_, hmem, ?_⟩
  · rw [List.map_mergeSort (s := fun a b : Candidate => a.line ≤ b.line) (f := Prod.snd)
      fun _ _ _ _ => rfl, map_snd_recordedInOrder]
  · have hnodup : (recordedInOrder o t).Nodup :=
      recordedInOrder_perm.nodup_iff.2 (nodup_recorded o t).of_map
    have hapart : ((recordedInOrder o t).mergeSort le).Pairwise fun r r' => r.1.Apart r'.1 :=
      (((List.mergeSort_perm _ le).trans recordedInOrder_perm).pairwise_iff fun h => h.symm).2
        pairwise_recorded
    have htrans : ∀ r r' r'', le r r' = true → le r' r'' = true → le r r'' = true :=
      fun r r' r'' h h' => by simp only [le, decide_eq_true_eq] at *; omega
    have htotal : ∀ r r', (le r r' || le r' r) = true :=
      fun r r' => by simp only [le, Bool.or_eq_true, decide_eq_true_eq]; omega
    have hsorted := pairwise_mergeSort_stable htrans htotal hnodup
      (pairwise_recordedInOrder (o := o) (t := t))
    refine (hapart.and hsorted).imp_of_mem fun {r r'} hr hr' ⟨hne, hle, hstable⟩ => ?_
    have hmade := hmem r hr
    have hmade' := hmem r' hr'
    have hline : r.2.line ≤ r'.2.line := of_decide_eq_true hle
    have hread : r.2.line = r'.2.line → r.1.ReadBefore r'.1 := fun heq =>
      hstable (decide_eq_true heq.ge)
    refine ⟨hline, hread, ?_⟩
    by_cases heq : r.2.line = r'.2.line
    · rcases (hread heq).hi_le_or_delayed hmade.place hmade'.place with hhi | hdelayed
      · exact .inl hhi
      · exact .inr ⟨heq, hdelayed⟩
    · rcases hne.range with hhi | hhi
      · exact .inl hhi
      · have hline' := hmade'.line_le hmade hhi
        omega

end Script

open Script (Dialect Tree read strip ComeInOrder)

/-- **Candidates come in the order of the script**, by line and those of a line as they are read,
and the violations of a script are some of the candidates of what stripping leaves of it, in their
order. -/
theorem comeInOrder (o : Options) (dialect : Dialect) {s : List Char}
    (hmark : s.head? ≠ some '\ufeff') :
    (∀ t, read dialect s = .ok t → ∃ cs, candidates o dialect s = .ok cs ∧ ComeInOrder o t cs) ∧
      ∀ only found, classify o dialect s only = .ok found → ∃ out t cs, strip dialect s = .ok out ∧
        read dialect out = .ok t ∧ ComeInOrder o t cs ∧
        found = cs.map fun c => ⟨c.line, c.text⟩ := by
  have hcandidates : ∀ s t, s.head? ≠ some '\ufeff' → read dialect s = .ok t →
      ∃ cs, candidates o dialect s = .ok cs ∧ ComeInOrder o t cs := fun s t hmark hread =>
    ⟨_, Script.candidates_eq o t hmark hread, Script.comeInOrder_mergeSort o t⟩
  refine ⟨fun t hread => hcandidates s t hmark hread, fun only found hfound => ?_⟩
  cases hread : read dialect s with
  | error e => cases (classify_error hread).symm.trans hfound
  | ok t =>
    obtain ⟨out, hout⟩ : ∃ out, strip dialect s = .ok out := ⟨_, Script.strip_eq hmark hread⟩
    cases hread' : read dialect out with
    | error e => cases (classify_error_of_strip hout hread').symm.trans hfound
    | ok u =>
      obtain ⟨cs, hcs, horder⟩ := hcandidates out u (Script.head?_strip hmark hread hout) hread'
      have hreported := (classify_of_candidates hout hcs).symm.trans hfound
      rw [reported_of_pairwise (pairwise_candidates hcs)] at hreported
      exact ⟨out, u, _, hout, hread', horder.filter _, (Except.ok.inj hreported).symm⟩

/-- The attribute comes before the text. -/
theorem comeInOrder_greeting : Script.greeting.head? ≠ some '\ufeff' ∧ ∃ t cs,
    read .markup Script.greeting = .ok t ∧
      candidates ⟨["title"], [], [], []⟩ .markup Script.greeting = .ok cs ∧
      cs.map (·.text) = ["Hello".toList, "World".toList] ∧
      ComeInOrder ⟨["title"], [], [], []⟩ t cs := by
  let o : Options := ⟨["title"], [], [], []⟩
  have hmark : Script.greeting.head? ≠ some '\ufeff' := by decide +kernel
  have hfound : (read .markup Script.greeting).toOption.map (fun t =>
      let cs := (t.occurrences o .code none 0).filterMap (Script.candidateOf? t)
      (cs.map (·.line), cs.map (·.text))) =
      some ([1, 1], ["Hello".toList, "World".toList]) := by decide +kernel
  obtain ⟨t, ht, hfound⟩ := Option.map_eq_some_iff.1 hfound
  obtain ⟨hlines, htexts⟩ := Prod.mk.inj hfound
  have hread := eq_ok_of_toOption ht
  obtain ⟨cs, hcs, horder⟩ := (comeInOrder o .markup hmark).1 t hread
  refine ⟨hmark, t, cs, hread, hcs, ?_, horder⟩
  rw [Script.candidates_of_lines _ _ hmark hread hlines (by decide)] at hcs
  rw [← Except.ok.inj hcs, htexts]

/-- What a function returns is read after its body, though it stands before it. -/
example : (read .typedMarkup
    "<p>\x7b(): \x7b 'First text': string \x7d => 'Second text'\x7d</p>".toList).toOption.map
      (fun t => (t.occurrences ⟨[], [], [], []⟩ .code none 0).map (·.lo)) = some [36, 10] := by
  decide +kernel

/-- A loop whose body and condition hold a literal each. -/
def doLoop : List Char :=
  "do toast.error('One two'); while (toast.error('Three four'));".toList

/-- The literal of the condition comes first, though it stands behind that of the body. -/
theorem candidates_doLoop : doLoop.head? ≠ some '\ufeff' ∧
    ∃ (t : Tree) (found : List (Script.Spot × Candidate)), read .markup doLoop = .ok t ∧
      candidates ⟨[], ["toast.error"], [], []⟩ .markup doLoop = .ok (found.map Prod.snd) ∧
      (∀ r ∈ found, Script.MadeFrom ⟨[], ["toast.error"], [], []⟩ t r.1 r.2) ∧
      found.map (·.1.lo) = [46, 15] := by
  let o : Options := ⟨[], ["toast.error"], [], []⟩
  have hmark : doLoop.head? ≠ some '\ufeff' := by decide +kernel
  have hread : (read .markup doLoop).toOption.map (fun t =>
      let ys := t.occurrences o .code none 0
      ((ys.filterMap (Script.candidateOf? t)).map (·.line),
        (ys.filterMap (Script.candidateOf? t)).map (·.text),
        ys.filterMap fun y => (Script.candidateOf? t y).map fun c => (c.text, y.lo))) =
      some ([1, 1], ["Three four".toList, "One two".toList],
        [("Three four".toList, 46), ("One two".toList, 15)]) := by decide +kernel
  obtain ⟨t, ht, hfacts⟩ := Option.map_eq_some_iff.1 hread
  obtain ⟨hlines, hfacts⟩ := Prod.mk.inj hfacts
  obtain ⟨htexts, hplaces⟩ := Prod.mk.inj hfacts
  have hread := eq_ok_of_toOption ht
  have hcandidates := Script.candidates_of_lines _ _ hmark hread hlines (by decide)
  obtain ⟨found, hfound, hmade, -⟩ := Script.comeInOrder_mergeSort o t
  rw [Script.candidates_eq o t hmark hread] at hcandidates
  rw [hfound, Except.ok.injEq] at hcandidates
  refine ⟨hmark, t, found, hread, by rw [Script.candidates_eq o t hmark hread, hfound], hmade, ?_⟩
  -- The text of a candidate tells its literal, and so where that is.
  have hplace : ∀ r ∈ found, (r.2.text, r.1.lo) ∈
      [("Three four".toList, 46), ("One two".toList, 15)] := by
    intro r hr
    obtain ⟨y, hy, hlo, -, hcandidate⟩ := (hmade r hr).literal
    rw [← hplaces]
    refine List.mem_filterMap.2 ⟨y, ?_, ?_⟩
    · exact (Script.occurrences_perm o t).mem_iff.2
        (List.mem_filterMap.2 ⟨r.1, Tree.mem_spots.2 (hmade r hr).place, hy⟩)
    · rw [Script.candidateOf?, hcandidate, ← hlo]
      rfl
  rw [← hcandidates, List.map_map] at htexts
  obtain ⟨r, rest, rfl, hr, hrest⟩ := List.map_eq_cons_iff.1 htexts
  obtain ⟨r', rest, rfl, hr', hnil⟩ := List.map_eq_cons_iff.1 hrest
  obtain rfl := List.map_eq_nil_iff.1 hnil
  have hlo := hplace r (by simp)
  have hlo' := hplace r' (by simp)
  rw [Function.comp_apply] at hr hr'
  rw [hr] at hlo
  rw [hr'] at hlo'
  simp at hlo hlo'
  simp [hlo, hlo']

end Untranslated
