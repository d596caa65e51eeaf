import AimeeMemory.Context.Task
import AimeeMemory.Lib.Greedy
import Mathlib.Algebra.Order.BigOperators.Group.List
import Mathlib.Data.List.Sigma

/-!
# The pass over the sections

What the sections write of the candidates where none of their limits decides: each
candidate that a section admits, but for those that restate another one. Where all belong
to one section, the budget of tokens may decide as well.
-/

namespace AimeeMemory.Context

open AimeeMemory.Core AimeeMemory.Lib

variable {R : Type*} {b : Build R} {w : World R} {s : SectionSpec} {cands : List (Candidate R)}

/-- Two candidates say the same. -/
def restates (x y : Candidate R × ℕ) : Bool := assembleTextsNearDuplicate x.1.shown y.1.shown

/-- The candidates that restate none of those kept before them, with their places. -/
def unrestated (cands : List (Candidate R)) : List (Candidate R × ℕ) := greedy (related restates) cands.zipIdx

def tokensOf (cs : List (Candidate R × ℕ)) : ℕ := (cs.map (·.1.estimatedTokens)).sum

@[simp] theorem tokensOf_append (cs ds : List (Candidate R × ℕ)) : tokensOf (cs ++ ds) = tokensOf cs + tokensOf ds := by
  rw [tokensOf, List.map_append, List.sum_append, tokensOf, tokensOf]

@[simp] theorem tokensOf_singleton (c : Candidate R × ℕ) : tokensOf [c] = c.1.estimatedTokens := rfl

/-- What is not selected beside those chosen: what restates one of them, and in budget mode what takes more tokens than
are left. -/
def excludes (w : World R) (tokensUsed : ℕ) (chosen : List (Candidate R × ℕ)) (c : Candidate R × ℕ) : Bool :=
  related restates chosen c ||
    (w.contextBudgetEnabled && tokenBudget w < tokensUsed + tokensOf chosen + c.1.estimatedTokens)

/-- The candidates that are kept one after the other, with their places, where there is one budget for all. -/
def kept (w : World R) (cands : List (Candidate R)) : List (Candidate R × ℕ) := greedy (excludes w 0) cands.zipIdx

/-- A candidate that a section can select. -/
def SectionSpec.canSelect (s : SectionSpec) (c : Candidate R × ℕ) : Bool := c.1.id ≠ 0 ∧ s.admits c.1

/-- A section writes all it selected where its lines fit together. -/
theorem foldl_emitCandidate (cs : List (Candidate R × ℕ)) (e : Emission R)
    (hroom : ((e.sectionLen + (cs.map fun c => lineLen b c.1).sum : ℕ) : ℤ) ≤ s.maxChars) :
    (cs.foldl (emitCandidate b s) e).emitted = e.emitted ++ cs := by
  induction cs generalizing e with
  | nil => exact (List.append_nil _).symm
  | cons c cs ih =>
    rw [List.map_cons, List.sum_cons] at hroom
    have hstep : emitCandidate b s e c = ⟨e.emitted ++ [c], e.sectionLen + lineLen b c.1⟩ := by
      refine if_neg fun hover => ?_
      omega
    rw [List.foldl_cons, hstep, ih, List.append_assoc, List.singleton_append]
    rwa [Nat.add_assoc]

/-! ## Selection -/

/-- A section selects greedily where its count is not reached. -/
theorem foldl_selectStep (tokensUsed : ℕ) (cs : List (Candidate R × ℕ)) (sel : Selection R)
    (htokens : sel.tokens = tokensOf sel.chosen)
    (hcount : (greedyFrom (excludes w tokensUsed) sel.chosen (cs.filter s.canSelect)).length ≤ b.maxContextMems) :
    (cs.foldl (selectStep b w s tokensUsed) sel).chosen =
      greedyFrom (excludes w tokensUsed) sel.chosen (cs.filter s.canSelect) := by
  induction cs generalizing sel with
  | nil => rfl
  | cons c cs ih =>
    rw [List.foldl_cons]
    by_cases hcan : s.canSelect c = true
    · rw [List.filter_cons_of_pos hcan, greedyFrom] at hcount ⊢
      have hadmits : c.1.id ≠ 0 ∧ s.admits c.1 := of_decide_eq_true hcan
      cases hout : excludes w tokensUsed sel.chosen c with
      | true =>
        rw [hout, if_pos rfl] at hcount
        rw [if_pos rfl]
        have hstep : selectStep b w s tokensUsed sel c = sel := by
          refine if_neg fun h => ?_
          rw [excludes, ← htokens] at hout
          rcases Bool.or_eq_true_iff.1 hout with hsame | hover
          · exact h.2.2.2.2 hsame
          · exact h.2.2.2.1 (by simpa using hover)
        rw [hstep]
        exact ih sel htokens hcount
      | false =>
        rw [hout, if_neg Bool.false_ne_true] at hcount
        rw [if_neg Bool.false_ne_true]
        obtain ⟨hunrelated, hspare⟩ := Bool.or_eq_false_iff.1 hout
        have hroom : sel.chosen.length < b.maxContextMems := by
          have hprefix : sel.chosen ++ [c] <+: greedyFrom (excludes w tokensUsed) (sel.chosen ++ [c]) (cs.filter s.canSelect) :=
            prefix_greedyFrom _ _
          have hlength := hprefix.length_le
          rw [List.length_append, List.length_singleton] at hlength
          omega
        have hstep : selectStep b w s tokensUsed sel c = ⟨sel.chosen ++ [c], sel.tokens + c.1.estimatedTokens⟩ := by
          refine if_pos ⟨hroom, hadmits.1, hadmits.2, ?_, ?_⟩
          · rw [htokens]
            simpa using hspare
          · exact Bool.eq_false_iff.1 hunrelated
        rw [hstep]
        refine ih _ ?_ hcount
        rw [tokensOf_append, tokensOf_singleton, htokens]
    · rw [List.filter_cons_of_neg hcan] at hcount ⊢
      have hstep : selectStep b w s tokensUsed sel c = sel := by
        refine if_neg fun h => hcan (decide_eq_true ⟨h.2.1, h.2.2.1⟩)
      rw [hstep]
      exact ih sel htokens hcount

/-- Where all the tokens fit, what is excluded is what restates another. -/
theorem greedyFrom_excludes {tokensUsed : ℕ} {chosen cs : List (Candidate R × ℕ)}
    (hfits : w.contextBudgetEnabled → tokensUsed + tokensOf (greedyFrom (related restates) chosen cs) ≤ tokenBudget w) :
    greedyFrom (excludes w tokensUsed) chosen cs = greedyFrom (related restates) chosen cs := by
  refine greedyFrom_congr fun pre x post hsplit => ?_
  rw [excludes]
  cases hsame : related restates (greedyFrom (related restates) chosen pre) x with
  | true => rfl
  | false =>
    rw [Bool.false_or, Bool.and_eq_false_iff, decide_eq_false_iff_not]
    by_cases henabled : w.contextBudgetEnabled = true
    · -- this one is chosen too, so its tokens are among those that fit
      have hprefix : greedyFrom (related restates) chosen pre ++ [x] <+: greedyFrom (related restates) chosen cs := by
        rw [hsplit, greedyFrom_append, greedyFrom, hsame, if_neg Bool.false_ne_true]
        exact prefix_greedyFrom _ _
      obtain ⟨rest, hrest⟩ := hprefix
      have hall := hfits henabled
      rw [← hrest, tokensOf_append, tokensOf_append, tokensOf_singleton] at hall
      exact .inr (by omega)
    · exact .inl (Bool.eq_false_iff.2 henabled)

theorem kept_eq_unrestated (hfits : w.contextBudgetEnabled → tokensOf (unrestated cands) ≤ tokenBudget w) :
    kept w cands = unrestated cands := by
  refine greedyFrom_excludes fun henabled => ?_
  rw [Nat.zero_add]
  exact hfits henabled

/-! ## A section -/

/-- The section that a candidate belongs to: the first of the table that admits it. -/
def ownSection (table : List SectionSpec) (c : Candidate R × ℕ) : Option SectionSpec := table.find? (·.admits c.1)

/-- What a section writes where nothing is in the way: the candidates of its own that restate no other. -/
def ownCandidates (table : List SectionSpec) (cands : List (Candidate R)) (s : SectionSpec) : List (Candidate R × ℕ) :=
  (unrestated cands).filter fun c => ownSection table c = some s

/-- No limit of a section is reached, and candidates that say the same belong to one section and to no other. -/
structure RoomForAll (b : Build R) (w : World R) (table : List SectionSpec) (cands : List (Candidate R)) : Prop where
  ids_nodup : (cands.map (·.id)).Nodup
  ids_ne_zero : ∀ c ∈ cands, c.id ≠ 0
  restated : ∀ c ∈ cands, ∀ d ∈ cands, c.id ≠ d.id → assembleTextsNearDuplicate c.shown d.shown →
    ∃ s ∈ table, ∀ t ∈ table, (t.admits c ↔ t = s) ∧ (t.admits d ↔ t = s)
  count : ∀ s ∈ table, (ownCandidates table cands s).length ≤ b.maxContextMems
  tokens : w.contextBudgetEnabled → tokensOf (unrestated cands) ≤ tokenBudget w
  room : ∀ s ∈ table, (((ownCandidates table cands s).map fun c => lineLen b c.1).sum : ℕ) ≤ s.maxChars

variable {table done todo : List SectionSpec} {x y : Candidate R × ℕ}

theorem eq_of_id_eq (hnodup : (cands.map (·.id)).Nodup) (hx : x ∈ cands.zipIdx) (hy : y ∈ cands.zipIdx)
    (hid : x.1.id = y.1.id) : x = y := by
  obtain ⟨c, i⟩ := x
  obtain ⟨d, j⟩ := y
  have hc : cands[i]? = some c := List.mem_zipIdx_iff_getElem?.1 hx
  have hd : cands[j]? = some d := List.mem_zipIdx_iff_getElem?.1 hy
  obtain ⟨hi, rfl⟩ := List.getElem?_eq_some_iff.1 hc
  obtain ⟨hj, rfl⟩ := List.getElem?_eq_some_iff.1 hd
  have hplaces : i = j := by
    have hci : i < (cands.map (·.id)).length := by simpa using hi
    have hdj : j < (cands.map (·.id)).length := by simpa using hj
    have hids : (cands.map (·.id))[i] = (cands.map (·.id))[j] := by simpa using hid
    exact hnodup.getElem_inj_iff.1 hids
  subst hplaces
  rfl

theorem ownSection_eq_some (htable : table = done ++ s :: todo) (hnodup : table.Nodup) :
    ownSection table x = some s ↔ done.any (·.admits x.1) = false ∧ s.admits x.1 = true := by
  subst htable
  obtain ⟨-, hcons, hdisjoint⟩ := List.nodup_append.1 hnodup
  rw [ownSection, List.find?_append]
  cases hdone : done.find? (·.admits x.1) with
  | some t =>
    have hmem : t ∈ done := List.mem_of_find?_eq_some hdone
    have hany : done.any (·.admits x.1) = true := List.any_eq_true.2 ⟨t, hmem, by simpa using List.find?_some hdone⟩
    have hne : t ≠ s := hdisjoint t hmem s List.mem_cons_self
    simp [hany, hne]
  | none =>
    have hany : done.any (·.admits x.1) = false := by
      refine List.any_eq_false.2 fun t ht => ?_
      simpa using List.find?_eq_none.1 hdone t ht
    rw [hany, Option.none_or]
    cases hs : s.admits x.1 with
    | true => simp [List.find?_cons_of_pos, hs]
    | false =>
      rw [List.find?_cons_of_neg (by simp [hs])]
      have hnot : todo.find? (·.admits x.1) ≠ some s :=
        fun h => (List.nodup_cons.1 hcons).1 (List.mem_of_find?_eq_some h)
      simp [hnot]

/-- Candidates that say the same are admitted by the same sections. -/
theorem RoomForAll.admits_eq (h : RoomForAll b w table cands) (hx : x ∈ cands.zipIdx) (hy : y ∈ cands.zipIdx)
    (hsame : restates x y = true) : ∀ t ∈ table, t.admits x.1 = t.admits y.1 := by
  intro t ht
  by_cases hid : x.1.id = y.1.id
  · rw [eq_of_id_eq h.ids_nodup hx hy hid]
  · obtain ⟨s, -, hs⟩ := h.restated x.1 (List.fst_mem_of_mem_zipIdx hx) y.1 (List.fst_mem_of_mem_zipIdx hy) hid hsame
    exact Bool.eq_iff_iff.2 ((hs t ht).1.trans (hs t ht).2.symm)

/-- A candidate that is left out is admitted by one section alone. -/
theorem RoomForAll.admits_iff (h : RoomForAll b w table cands) (hx : x ∈ cands.zipIdx) (hnot : x ∉ unrestated cands) :
    ∃ s ∈ table, ∀ t ∈ table, (t.admits x.1 ↔ t = s) := by
  obtain ⟨y, hy, hsame⟩ := exists_same_of_notMem hx hnot
  have hymem : y ∈ cands.zipIdx := mem_of_mem_greedy hy
  have hid : x.1.id ≠ y.1.id := fun hid => hnot (eq_of_id_eq h.ids_nodup hx hymem hid ▸ hy)
  obtain ⟨s, hs, hadmits⟩ :=
    h.restated x.1 (List.fst_mem_of_mem_zipIdx hx) y.1 (List.fst_mem_of_mem_zipIdx hymem) hid hsame
  exact ⟨s, hs, fun t ht => (hadmits t ht).1⟩

/-- The candidates that restate no other, of the sections done. -/
def writtenBy (done : List SectionSpec) (cands : List (Candidate R)) : List (Candidate R × ℕ) :=
  (unrestated cands).filter fun c => done.any (·.admits c.1)

theorem mem_cands_of_mem_unrestated (h : x ∈ unrestated cands) : x ∈ cands.zipIdx := mem_of_mem_greedy h

theorem mem_writtenBy : x ∈ writtenBy done cands ↔ x ∈ unrestated cands ∧ done.any (·.admits x.1) = true := List.mem_filter

theorem eq_of_place_eq {c d : Candidate R} {i : ℕ} (hc : (c, i) ∈ cands.zipIdx) (hd : (d, i) ∈ cands.zipIdx) : c = d := by
  have hc' : cands[i]? = some c := List.mem_zipIdx_iff_getElem?.1 hc
  have hd' : cands[i]? = some d := List.mem_zipIdx_iff_getElem?.1 hd
  exact Option.some.inj (hc'.symm.trans hd')

/-- Candidates at these places have been consumed; the others stand as they stood. -/
theorem filter_consume (cands : List (Candidate R)) (places : List ℕ) :
    (consume cands places).zipIdx.filter s.canSelect =
      cands.zipIdx.filter fun c => c.2 ∉ places && s.canSelect c := by
  have hzip : (consume cands places).zipIdx =
      cands.zipIdx.map fun c => (if c.2 ∈ places then { c.1 with id := 0 } else c.1, c.2) := by
    refine List.ext_getElem (by simp [consume]) fun i h₁ h₂ => ?_
    simp [consume]
  rw [hzip, List.filter_map]
  have hkept : ∀ c ∈ cands.zipIdx.filter (fun c => c.2 ∉ places && s.canSelect c),
      (if c.2 ∈ places then { c.1 with id := 0 } else c.1, c.2) = c := by
    intro c hc
    have hplace : c.2 ∉ places := by simpa using (Bool.and_eq_true_iff.1 (List.mem_filter.1 hc).2).1
    rw [if_neg hplace]
  have hfilter : (s.canSelect ∘ fun c : Candidate R × ℕ => (if c.2 ∈ places then { c.1 with id := 0 } else c.1, c.2)) =
      fun c => c.2 ∉ places && s.canSelect c := by
    funext c
    by_cases hplace : c.2 ∈ places
    · simp [SectionSpec.canSelect, hplace]
    · simp [hplace]
  rw [hfilter, List.map_congr_left hkept, List.map_id']

/-- After the sections done: what they have written is consumed, counted and reported. -/
structure PassInv (w : World R) (cands : List (Candidate R)) (done : List SectionSpec) (p : SectionPass R) : Prop where
  consumed : ∃ places, p.cands = consume cands places ∧ ∀ i, i ∈ places ↔ ∃ c, (c, i) ∈ writtenBy done cands
  tokens : w.contextBudgetEnabled → p.tokensUsed = tokensOf (writtenBy done cands)
  emitted : ∀ c, c ∈ p.emitted ↔ ∃ i, (c, i) ∈ writtenBy done cands

/-- A section can select what is its own, and what it can select is its own. -/
theorem RoomForAll.canSelect_iff (h : RoomForAll b w table cands) (htable : table = done ++ s :: todo)
    (hnodup : table.Nodup) {places : List ℕ} (hplaces : ∀ i, i ∈ places ↔ ∃ c, (c, i) ∈ writtenBy done cands)
    (hx : x ∈ cands.zipIdx) : (x.2 ∉ places ∧ s.canSelect x = true) ↔ ownSection table x = some s := by
  have hid : x.1.id ≠ 0 := h.ids_ne_zero x.1 (List.fst_mem_of_mem_zipIdx hx)
  rw [ownSection_eq_some htable hnodup]
  constructor
  · rintro ⟨hplace, hcan⟩
    have hadmits : s.admits x.1 = true := (of_decide_eq_true hcan).2
    refine ⟨?_, hadmits⟩
    by_contra hdone
    have hany : done.any (·.admits x.1) = true := by simpa using hdone
    by_cases hkept : x ∈ unrestated cands
    · exact hplace ((hplaces x.2).2 ⟨x.1, mem_writtenBy.2 ⟨hkept, hany⟩⟩)
    · -- left out, so admitted by one section alone, and that is this one
      obtain ⟨s₀, -, hs₀⟩ := h.admits_iff hx hkept
      obtain ⟨t, ht, htadmits⟩ := List.any_eq_true.1 hany
      have hs : s = s₀ := (hs₀ s (by simp [htable])).1 hadmits
      have htable' : t ∈ table := by simp [htable, ht]
      have hts : t = s := ((hs₀ t htable').1 htadmits).trans hs.symm
      subst htable
      exact (List.nodup_append.1 hnodup).2.2 t ht s List.mem_cons_self hts
  · rintro ⟨hdone, hadmits⟩
    refine ⟨fun hplace => ?_, decide_eq_true ⟨hid, hadmits⟩⟩
    obtain ⟨c, hc⟩ := (hplaces x.2).1 hplace
    have hwritten := mem_writtenBy.1 hc
    have heq : c = x.1 := eq_of_place_eq (mem_cands_of_mem_unrestated hwritten.1) hx
    rw [heq, hdone] at hwritten
    exact absurd hwritten.2 (by simp)

theorem ownSection_congr (hsame : ∀ t ∈ table, t.admits x.1 = t.admits y.1) : ownSection table x = ownSection table y := by
  induction table with
  | nil => rfl
  | cons t table ih =>
    have htail := ih fun t ht => hsame t (List.mem_cons_of_mem _ ht)
    simp only [ownSection, List.find?_cons, hsame t List.mem_cons_self] at htail ⊢
    rw [htail]

/-- A section selects its own candidates, but for those that restate another. -/
theorem RoomForAll.greedy_eq (h : RoomForAll b w table cands) (htable : table = done ++ s :: todo) (hnodup : table.Nodup)
    {p : SectionPass R} (hp : PassInv w cands done p) :
    greedy (related restates) (p.cands.zipIdx.filter s.canSelect) = ownCandidates table cands s := by
  obtain ⟨places, hcands, hplaces⟩ := hp.consumed
  have hown : p.cands.zipIdx.filter s.canSelect = cands.zipIdx.filter fun c => ownSection table c = some s := by
    rw [hcands, filter_consume]
    refine List.filter_congr fun x hx => ?_
    rw [Bool.eq_iff_iff, Bool.and_eq_true, decide_eq_true_iff, decide_eq_true_iff]
    exact h.canSelect_iff htable hnodup hplaces hx
  rw [hown]
  refine (greedy_filter _ fun x hx y hy hsame => ?_).symm
  rw [ownSection_congr (h.admits_eq hx hy hsame)]

theorem mem_ownCandidates (htable : table = done ++ s :: todo) (hnodup : table.Nodup) :
    x ∈ ownCandidates table cands s ↔
      x ∈ unrestated cands ∧ done.any (·.admits x.1) = false ∧ s.admits x.1 = true := by
  rw [ownCandidates, List.mem_filter, decide_eq_true_iff, ownSection_eq_some htable hnodup]

/-- One section more has written its own candidates. -/
theorem mem_writtenBy_concat (htable : table = done ++ s :: todo) (hnodup : table.Nodup) :
    x ∈ writtenBy (done ++ [s]) cands ↔ x ∈ writtenBy done cands ∨ x ∈ ownCandidates table cands s := by
  rw [mem_writtenBy, mem_writtenBy, mem_ownCandidates htable hnodup, List.any_append, List.any_cons, List.any_nil,
    Bool.or_false]
  cases done.any (·.admits x.1) <;> cases s.admits x.1 <;> simp

theorem tokensOf_filter_or (p q : Candidate R × ℕ → Bool) (hdisjoint : ∀ x, p x = true → q x = false)
    (cs : List (Candidate R × ℕ)) :
    tokensOf (cs.filter fun x => p x || q x) = tokensOf (cs.filter p) + tokensOf (cs.filter q) := by
  induction cs with
  | nil => rfl
  | cons c cs ih =>
    have hcons : ∀ ds : List (Candidate R × ℕ), tokensOf (c :: ds) = c.1.estimatedTokens + tokensOf ds := fun _ => rfl
    cases hp : p c with
    | true =>
      rw [List.filter_cons_of_pos (by simp [hp]), List.filter_cons_of_pos hp,
        List.filter_cons_of_neg (by simp [hdisjoint c hp]), hcons, hcons, ih, Nat.add_assoc]
    | false =>
      rw [List.filter_cons_of_neg (p := p) (by simp [hp])]
      cases hq : q c with
      | true =>
        rw [List.filter_cons_of_pos (by simp [hq]), List.filter_cons_of_pos hq, hcons, hcons, ih]
        omega
      | false => rw [List.filter_cons_of_neg (by simp [hp, hq]), List.filter_cons_of_neg (by simp [hq]), ih]

theorem tokensOf_sublist {cs ds : List (Candidate R × ℕ)} (h : cs.Sublist ds) : tokensOf cs ≤ tokensOf ds :=
  List.Sublist.sum_le_sum (h.map _) fun _ _ => Nat.zero_le _

/-- The tokens of what one section more has written. -/
theorem tokensOf_writtenBy_concat (htable : table = done ++ s :: todo) (hnodup : table.Nodup) :
    tokensOf (writtenBy (done ++ [s]) cands) =
      tokensOf (writtenBy done cands) + tokensOf (ownCandidates table cands s) := by
  rw [writtenBy, writtenBy, ownCandidates, ← tokensOf_filter_or]
  · congr 2
    funext x
    rw [Bool.eq_iff_iff, Bool.or_eq_true, decide_eq_true_iff, ownSection_eq_some htable hnodup, List.any_append,
      List.any_cons, List.any_nil, Bool.or_false]
    cases done.any (·.admits x.1) <;> cases s.admits x.1 <;> simp
  · intro x hdone
    refine decide_eq_false fun hown => ?_
    rw [ownSection_eq_some htable hnodup, hdone] at hown
    exact absurd hown.1 (by simp)

/-- What a section selects and writes where there is room for all. -/
theorem RoomForAll.emitSection_eq (h : RoomForAll b w table cands) (htable : table = done ++ s :: todo)
    (hnodup : table.Nodup) {p : SectionPass R} (hp : PassInv w cands done p) :
    (emitSection b s (selectSection b w s p.tokensUsed p.cands)).emitted = (ownCandidates table cands s).reverse := by
  have hs : s ∈ table := by simp [htable]
  have hgreedy := h.greedy_eq htable hnodup hp
  have hselect : (selectSection b w s p.tokensUsed p.cands).chosen = ownCandidates table cands s := by
    have hexcludes : greedyFrom (excludes w p.tokensUsed) [] (p.cands.zipIdx.filter s.canSelect) =
        ownCandidates table cands s := by
      rw [← hgreedy, greedyFrom_excludes, greedy]
      intro henabled
      rw [← greedy, hgreedy, hp.tokens henabled, ← tokensOf_writtenBy_concat htable hnodup]
      exact (tokensOf_sublist List.filter_sublist).trans (h.tokens henabled)
    rw [selectSection, foldl_selectStep _ _ _ rfl, hexcludes]
    rw [hexcludes]
    exact h.count s hs
  rw [emitSection, hselect, foldl_emitCandidate, List.nil_append]
  rw [List.map_reverse, List.sum_reverse, Nat.zero_add]
  exact h.room s hs

/-- The places of candidates differ. -/
theorem zipIdx_nodup (cands : List (Candidate R)) : cands.zipIdx.Nodup :=
  List.Nodup.of_map _ (List.nodup_zipIdx_map_snd cands)

theorem consume_nil (cands : List (Candidate R)) : consume cands [] = cands := by
  refine List.ext_getElem (by simp [consume]) fun i h₁ h₂ => ?_
  simp [consume]

theorem consume_consume (cands : List (Candidate R)) (places places' : List ℕ) :
    consume (consume cands places) places' = consume cands (places ++ places') := by
  refine List.ext_getElem (by simp [consume]) fun i h₁ h₂ => ?_
  simp only [consume, List.getElem_mapIdx, List.mem_append]
  by_cases hi : i ∈ places <;> by_cases hi' : i ∈ places' <;> simp [hi, hi']

theorem PassInv.step (hp : PassInv w cands done p) (h : RoomForAll b w table cands) (htable : table = done ++ s :: todo)
    (hnodup : table.Nodup) : PassInv w cands (done ++ [s]) (sectionStep b w p s) := by
  have hemit := h.emitSection_eq htable hnodup hp
  have hconcat : ∀ x : Candidate R × ℕ, x ∈ writtenBy (done ++ [s]) cands ↔
      x ∈ writtenBy done cands ∨ x ∈ ownCandidates table cands s := fun _ => mem_writtenBy_concat htable hnodup
  refine ⟨?_, fun henabled => ?_, fun c => ?_⟩
  · obtain ⟨places, hcands, hplaces⟩ := hp.consumed
    refine ⟨places ++ (ownCandidates table cands s).reverse.map (·.2), ?_, fun i => ?_⟩
    · simp only [sectionStep, hemit]
      rw [hcands, consume_consume]
    · simp only [hconcat, List.mem_append, hplaces, List.mem_map, List.mem_reverse, exists_or]
      refine or_congr_right ⟨fun ⟨x, hx, hi⟩ => ⟨x.1, hi ▸ hx⟩, fun ⟨c, hc⟩ => ⟨(c, i), hc, rfl⟩⟩
  · have hsum : ((ownCandidates table cands s).reverse.map (·.1.estimatedTokens)).sum =
        tokensOf (ownCandidates table cands s) := by rw [List.map_reverse, List.sum_reverse, tokensOf]
    simp only [sectionStep, hemit, henabled, if_true, hsum]
    rw [hp.tokens henabled, tokensOf_writtenBy_concat htable hnodup]
  · simp only [sectionStep, hemit, List.mem_append, hp.emitted c, List.mem_map, List.mem_reverse, hconcat, exists_or]
    refine or_congr_right ⟨fun ⟨x, hx, hc⟩ => ⟨x.2, hc ▸ hx⟩, fun ⟨i, hi⟩ => ⟨(c, i), hi, rfl⟩⟩

theorem PassInv.run (h : RoomForAll b w table cands) (hnodup : table.Nodup) {p : SectionPass R}
    (htable : table = done ++ todo) (hp : PassInv w cands done p) :
    PassInv w cands table (todo.foldl (sectionStep b w) p) := by
  induction todo generalizing done p with
  | nil => rwa [htable, List.append_nil]
  | cons s todo ih =>
    refine ih ?_ (hp.step h htable hnodup)
    rw [htable, List.append_assoc, List.singleton_append]

/-- **Where there is room for all, the sections write each candidate that some section admits and that restates none
kept before it.** -/
theorem RoomForAll.mem_emitted (h : RoomForAll b w table cands) (hnodup : table.Nodup) (c : Candidate R) :
    c ∈ (sectionPass b w table cands).emitted ↔ ∃ i, (c, i) ∈ writtenBy table cands := by
  refine (PassInv.run h hnodup (List.nil_append table).symm ?_).emitted c
  refine ⟨⟨[], (consume_nil cands).symm, fun i => ?_⟩, fun _ => ?_, fun c => ?_⟩
  · simp [mem_writtenBy]
  · simp [writtenBy, tokensOf]
  · simp [mem_writtenBy]

/-! ## One section for all -/

/-- All candidates belong to the one section `s`, which has room for those that are kept. -/
structure OneSection (b : Build R) (w : World R) (table : List SectionSpec) (cands : List (Candidate R))
    (s : SectionSpec) : Prop where
  mem : s ∈ table
  ids_ne_zero : ∀ c ∈ cands, c.id ≠ 0
  admits_iff : ∀ c ∈ cands, ∀ t ∈ table, (t.admits c ↔ t = s)
  count : (kept w cands).length ≤ b.maxContextMems
  room : (((kept w cands).map fun c => lineLen b c.1).sum : ℕ) ≤ s.maxChars

/-- A section that can select nothing changes nothing. -/
theorem sectionStep_idle {p : SectionPass R} (hidle : ∀ c ∈ p.cands, c.id ≠ 0 → s.admits c = false) :
    (sectionStep b w p s).cands = p.cands ∧ (sectionStep b w p s).tokensUsed = p.tokensUsed ∧
      (sectionStep b w p s).emitted = p.emitted := by
  have hfilter : p.cands.zipIdx.filter s.canSelect = [] := by
    refine List.filter_eq_nil_iff.2 fun c hc hcan => ?_
    obtain ⟨hid, hadmits⟩ := of_decide_eq_true hcan
    rw [hidle c.1 (List.fst_mem_of_mem_zipIdx hc) hid] at hadmits
    cases hadmits
  have hselect : (selectSection b w s p.tokensUsed p.cands).chosen = [] := by
    rw [selectSection, foldl_selectStep _ _ _ rfl]
    · rw [hfilter, greedyFrom]
    · rw [hfilter, greedyFrom]
      exact Nat.zero_le _
  have hemit : (emitSection b s (selectSection b w s p.tokensUsed p.cands)).emitted = [] := by
    rw [emitSection, hselect]
    rfl
  simp only [sectionStep, hemit, List.map_nil, consume_nil, List.append_nil, List.sum_nil, Nat.add_zero, ite_self, and_self]

theorem foldl_sectionStep_idle (todo : List SectionSpec) {p : SectionPass R}
    (hidle : ∀ t ∈ todo, ∀ c ∈ p.cands, c.id ≠ 0 → t.admits c = false) :
    (todo.foldl (sectionStep b w) p).cands = p.cands ∧ (todo.foldl (sectionStep b w) p).tokensUsed = p.tokensUsed ∧
      (todo.foldl (sectionStep b w) p).emitted = p.emitted := by
  induction todo generalizing p with
  | nil => exact ⟨rfl, rfl, rfl⟩
  | cons t todo ih =>
    obtain ⟨hcands, htokens, hemitted⟩ := sectionStep_idle (b := b) (w := w) (hidle t List.mem_cons_self)
    have hrest : ∀ u ∈ todo, ∀ c ∈ (sectionStep b w p t).cands, c.id ≠ 0 → u.admits c = false := by
      rw [hcands]
      exact fun u hu => hidle u (List.mem_cons_of_mem _ hu)
    obtain ⟨hcands', htokens', hemitted'⟩ := ih hrest
    exact ⟨hcands'.trans hcands, htokens'.trans htokens, hemitted'.trans hemitted⟩

/-- A candidate that is not consumed stands as it stood. -/
theorem mem_consume {c : Candidate R} {places : List ℕ} (hc : c ∈ consume cands places) (hid : c.id ≠ 0) : c ∈ cands := by
  obtain ⟨i, hi, rfl⟩ := List.mem_mapIdx.1 hc
  split at hid
  · exact absurd rfl hid
  · rename_i hplace
    rw [if_neg hplace]
    exact List.getElem_mem hi

/-- **Where all candidates belong to one section with room for them, it writes each that is kept.** -/
theorem OneSection.mem_emitted (h : OneSection b w table cands s) (hnodup : table.Nodup) (c : Candidate R) :
    c ∈ (sectionPass b w table cands).emitted ↔ ∃ i, (c, i) ∈ kept w cands := by
  obtain ⟨done, todo, rfl⟩ := List.append_of_mem h.mem
  obtain ⟨-, hcons, hdisjoint⟩ := List.nodup_append.1 hnodup
  -- the sections before this one and those behind it find nothing
  have hother : ∀ t ∈ done ++ s :: todo, t ≠ s → ∀ c ∈ cands, t.admits c = false := by
    intro t ht hne c hc
    exact Bool.eq_false_iff.2 fun hadmits => hne ((h.admits_iff c hc t ht).1 hadmits)
  obtain ⟨hcands, htokens, hemitted⟩ := foldl_sectionStep_idle (b := b) (w := w) done
    (p := (⟨cands, 0, [], []⟩ : SectionPass R)) fun t ht c hc _ =>
      hother t (List.mem_append_left _ ht) (hdisjoint t ht s List.mem_cons_self) c hc
  have hfilter : cands.zipIdx.filter s.canSelect = cands.zipIdx := by
    refine List.filter_eq_self.2 fun c hc => decide_eq_true ?_
    have hmem := List.fst_mem_of_mem_zipIdx hc
    exact ⟨h.ids_ne_zero c.1 hmem, (h.admits_iff c.1 hmem s h.mem).2 rfl⟩
  have hselect : (selectSection b w s 0 cands).chosen = kept w cands := by
    have hkept : greedyFrom (excludes w 0) [] (cands.zipIdx.filter s.canSelect) = kept w cands := by
      rw [hfilter, kept, greedy]
    rw [selectSection, foldl_selectStep _ _ _ rfl, hkept]
    rw [hkept]
    exact h.count
  have hemit : (emitSection b s (selectSection b w s 0 cands)).emitted = (kept w cands).reverse := by
    rw [emitSection, hselect, foldl_emitCandidate, List.nil_append]
    rw [List.map_reverse, List.sum_reverse, Nat.zero_add]
    exact h.room
  rw [sectionPass, List.foldl_append, List.foldl_cons]
  have hbehind : ∀ t ∈ todo, ∀ c ∈ (sectionStep b w (done.foldl (sectionStep b w) ⟨cands, 0, [], []⟩) s).cands,
      c.id ≠ 0 → t.admits c = false := by
    intro t ht c hc hid
    have hne : t ≠ s := fun heq => (List.nodup_cons.1 hcons).1 (heq ▸ ht)
    refine hother t (List.mem_append_right _ (List.mem_cons_of_mem _ ht)) hne c ?_
    simp only [sectionStep, hcands] at hc
    exact mem_consume hc hid
  rw [(foldl_sectionStep_idle todo hbehind).2.2]
  simp only [sectionStep, hcands, htokens, hemitted, hemit, List.nil_append, List.mem_map, List.mem_reverse]
  constructor
  · rintro ⟨x, hx, rfl⟩
    exact ⟨x.2, hx⟩
  · rintro ⟨i, hi⟩
    exact ⟨(c, i), hi, rfl⟩

/-! ## Both -/

/-- There is room for all, or one section for all with room for those that are kept. -/
def RoomForKept (b : Build R) (w : World R) (table : List SectionSpec) (cands : List (Candidate R)) : Prop :=
  RoomForAll b w table cands ∨ ∃ s, OneSection b w table cands s

theorem RoomForKept.mem_emitted (h : RoomForKept b w table cands) (hnodup : table.Nodup) (c : Candidate R) :
    c ∈ (sectionPass b w table cands).emitted ↔ ∃ i, (c, i) ∈ kept w cands ∧ table.any (·.admits c) = true := by
  rcases h with hall | ⟨s, hone⟩
  · rw [hall.mem_emitted hnodup, kept_eq_unrestated hall.tokens]
    simp only [mem_writtenBy]
  · rw [hone.mem_emitted hnodup]
    refine exists_congr fun i => (and_iff_left_of_imp fun hkept => ?_).symm
    have hmem : c ∈ cands := List.fst_mem_of_mem_zipIdx (mem_of_mem_greedy hkept)
    exact List.any_eq_true.2 ⟨s, hone.mem, (hone.admits_iff c hmem s hone.mem).2 rfl⟩

end AimeeMemory.Context
