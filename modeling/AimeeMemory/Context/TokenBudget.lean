import AimeeMemory.Context.SectionTurn

/-!
# The token budget

In budget mode the sections together stay within one budget of tokens. A section counts
what it has selected, the pass what was written of that; what was written is consumed, and
no section selects it again.
-/

namespace AimeeMemory.Context

open AimeeMemory.Core AimeeMemory.Lib

variable {R : Type*} {b : Build R} {w : World R} {cands : List (Candidate R)} {ws : List (Candidate R × ℕ)}
  {p : SectionPass R} {s : SectionSpec} {x : Candidate R × ℕ}

/-- What each section of a table writes, from a state of the pass on. -/
def writtenBySections (b : Build R) (w : World R) : SectionPass R → List SectionSpec → List (List (Candidate R × ℕ))
  | _, [] => []
  | p, s :: table => written b w p s :: writtenBySections b w (sectionStep b w p s) table

/-! ## Near duplicates -/

theorem assembleTextsNearDuplicate_comm (t u : Text) : assembleTextsNearDuplicate t u = assembleTextsNearDuplicate u t := by
  simp only [assembleTextsNearDuplicate, or_comm (a := assembleTokenBits t = 0),
    or_comm (a := 56 ≤ popcount (assembleTokenBits t)), BitVec.or_comm (assembleTokenBits t),
    BitVec.and_comm (assembleTokenBits t)]

/-- No two candidates that a section writes say the same. -/
theorem written_unrestated : (written b w p s).Pairwise fun x y => restates x y = false :=
  List.Pairwise.sublist written_sublist (List.pairwise_reverse.2 (selectInv_selectSection b w s _ _).unrestated)

theorem nearDuplicate_of_mem_written {y : Candidate R × ℕ} (hx : x ∈ written b w p s) (hy : y ∈ written b w p s)
    (hne : x ≠ y) : assembleTextsNearDuplicate x.1.shown y.1.shown = false := by
  have hsymm : Std.Symm fun x y : Candidate R × ℕ => restates x y = false :=
    ⟨fun x y h => by rwa [restates, assembleTextsNearDuplicate_comm]⟩
  exact written_unrestated.forall hx hy hne

/-! ## The account -/

/-- The account of a pass over these candidates that has written `ws` so far, with their places. -/
structure Accounted (w : World R) (cands : List (Candidate R)) (ws : List (Candidate R × ℕ)) (p : SectionPass R) : Prop where
  consumed : p.cands = consume cands (ws.map (·.2))
  places_nodup : (ws.map (·.2)).Nodup
  mem : ∀ x ∈ ws, x ∈ cands.zipIdx
  emitted : p.emitted = ws.map (·.1)
  tokensUsed : w.contextBudgetEnabled → p.tokensUsed = tokensOf ws
  budget : w.contextBudgetEnabled → tokensOf ws ≤ tokenBudget w

theorem accounted_start [ScoreArith R] (hint : Text) : Accounted w (answerable b w hint) [] (passStart b w hint) where
  consumed := (consume_nil _).symm
  places_nodup := List.nodup_nil
  mem := nofun
  emitted := rfl
  tokensUsed _ := rfl
  budget _ := Nat.zero_le _

/-- What a section writes had not been written before. -/
theorem Accounted.fresh (h : Accounted w cands ws p) (hx : x ∈ written b w p s) :
    x ∈ cands.zipIdx ∧ x.2 ∉ ws.map (·.2) := by
  have hsel := selectInv_selectSection b w s p.tokensUsed p.cands
  have hselected : x ∈ selected b w p s := mem_selected_of_mem_written hx
  have hmem : x ∈ p.cands.zipIdx.filter s.canSelect :=
    List.mem_filter.2 ⟨hsel.sublist.subset hselected, hsel.canSelect x hselected⟩
  rw [h.consumed, filter_consume, List.mem_filter, Bool.and_eq_true] at hmem
  exact ⟨hmem.1, of_decide_eq_true hmem.2.1⟩

/-- The tokens of what a section writes stay within what is left of the budget. -/
theorem Accounted.tokensOf_written_le (h : Accounted w cands ws p) (henabled : w.contextBudgetEnabled) :
    tokensOf ws + tokensOf (written b w p s) ≤ tokenBudget w := by
  have hsel := selectInv_selectSection b w s p.tokensUsed p.cands
  have hle : tokensOf (written b w p s) ≤ tokensOf (selected b w p s) := by
    have hreverse : tokensOf (selected b w p s).reverse = tokensOf (selected b w p s) := by
      rw [tokensOf, List.map_reverse, List.sum_reverse, tokensOf]
    exact hreverse ▸ tokensOf_sublist written_sublist
  have hused := h.tokensUsed henabled
  have hbudget := hsel.budget henabled (hused ▸ h.budget henabled)
  rw [hsel.tokens, ← selected] at hbudget
  omega

theorem Accounted.step (h : Accounted w cands ws p) :
    Accounted w cands (ws ++ written b w p s) (sectionStep b w p s) where
  consumed := by
    rw [List.map_append, ← consume_consume, ← h.consumed]
    rfl
  places_nodup := by
    have hplaces : ((written b w p s).map (·.2)).Nodup := by
      have hselected := (selectInv_selectSection b w s p.tokensUsed p.cands).sublist.map (·.2)
      have hreverse : ((selected b w p s).reverse.map (·.2)).Nodup := by
        rw [List.map_reverse]
        exact List.nodup_reverse.2 ((List.nodup_zipIdx_map_snd _).sublist hselected)
      exact hreverse.sublist (written_sublist.map _)
    rw [List.map_append]
    refine h.places_nodup.append hplaces fun i hold hnew => ?_
    obtain ⟨x, hx, rfl⟩ := List.mem_map.1 hnew
    exact (h.fresh hx).2 hold
  mem x hx := by
    rcases List.mem_append.1 hx with hx | hx
    · exact h.mem x hx
    · exact (h.fresh hx).1
  emitted := by
    rw [List.map_append, ← h.emitted]
    rfl
  tokensUsed henabled := by
    have hstep : (sectionStep b w p s).tokensUsed = p.tokensUsed + tokensOf (written b w p s) := if_pos henabled
    rw [hstep, h.tokensUsed henabled, tokensOf_append]
  budget henabled := by
    rw [tokensOf_append]
    exact h.tokensOf_written_le henabled

theorem Accounted.run (table : List SectionSpec) (h : Accounted w cands ws p) :
    Accounted w cands (ws ++ (writtenBySections b w p table).flatten) (run (sectionStep b w) p table) := by
  induction table generalizing ws p with
  | nil =>
    rw [writtenBySections, List.flatten_nil, List.append_nil]
    exact h
  | cons s table ih =>
    rw [writtenBySections, List.flatten_cons, ← List.append_assoc]
    exact ih h.step

theorem mem_writtenBySections {table : List SectionSpec} {cs : List (Candidate R × ℕ)}
    (h : cs ∈ writtenBySections b w p table) : ∃ p' s, cs = written b w p' s := by
  induction table generalizing p with
  | nil => cases h
  | cons s table ih =>
    rcases List.mem_cons.1 h with rfl | h
    · exact ⟨p, s, rfl⟩
    · exact ih h

/-! ## The budget -/

variable [ScoreArith R]

/-- The pass of a hint is accounted for by what its sections write. -/
theorem accounted_taskPass (b : Build R) (w : World R) (hint : Text) :
    Accounted w (answerable b w hint) (writtenBySections b w (passStart b w hint) (planTable b hint)).flatten
      (taskPass b w hint) := by
  rw [taskPass_eq_run]
  exact (accounted_start hint).run (planTable b hint)

/-- **In budget mode the candidates written take no more tokens than the budget has, each is a retrieved one that no
section writes twice nor two sections write, and no two of a section say the same.** -/
theorem taskPass_within_budget (b : Build R) (w : World R) (hint : Text) (henabled : w.contextBudgetEnabled) :
    let sections := writtenBySections b w (passStart b w hint) (planTable b hint)
    ((taskPass b w hint).emitted = sections.flatten.map (·.1) ∧
      ((taskPass b w hint).emitted.map (·.estimatedTokens)).sum ≤ tokenBudget w) ∧
    ((∀ x ∈ sections.flatten, x ∈ (answerable b w hint).zipIdx) ∧ (sections.flatten.map (·.2)).Nodup) ∧
    ∀ cs ∈ sections, ∀ x ∈ cs, ∀ y ∈ cs, x ≠ y → assembleTextsNearDuplicate x.1.shown y.1.shown = false := by
  intro sections
  have haccount : Accounted w (answerable b w hint) sections.flatten (taskPass b w hint) := accounted_taskPass b w hint
  refine ⟨⟨haccount.emitted, ?_⟩, ⟨haccount.mem, haccount.places_nodup⟩, fun cs hcs x hx y hy hne => ?_⟩
  · rw [haccount.emitted, List.map_map]
    exact haccount.budget henabled
  · obtain ⟨p, s, rfl⟩ := mem_writtenBySections hcs
    exact nearDuplicate_of_mem_written hx hy hne

/-- A fact of seven tokens and one of eight, in a budget of ten. -/
def tightBudget : World ℚ where
  __ := bareWorld
  candidates source :=
    if source = .primary then
      [⟨1, text "L2", text "deploy", text "Deploy from staging.", text "fact", 0.9, 0⟩,
        ⟨2, text "L2", text "review", text "Review before merging.", text "fact", 0.8, 0⟩]
    else []
  contextBudgetEnabled := true
  contextBudgetTokens := 10

theorem answerable_tightBudget : answerable sampleBuild tightBudget (text "go") = rowCandidates tightBudget (text "go") :=
  answerable_of_sorted rfl (by decide +kernel)

/-- The first of the two is written, and the second finds no tokens left. -/
theorem tightBudget_written :
    (taskPass sampleBuild tightBudget (text "go")).emitted.map (·.id) = [1] ∧
      ((taskPass sampleBuild tightBudget (text "go")).emitted.map (·.estimatedTokens)).sum ≤ 10 := by
  refine ⟨?_, (taskPass_within_budget sampleBuild tightBudget (text "go") rfl).1.2⟩
  rw [taskPass, answerable_tightBudget]
  decide +kernel

end AimeeMemory.Context
