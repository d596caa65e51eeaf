import AimeeMemory.Context.TokenBudget

/-!
# What the later blocks are handed

The negative context and the deriver of facts come behind the sections and read the same
candidates. A candidate that was written has lost its id by then, and none are left where
the answer is withheld: the later blocks get what was retrieved iff neither has happened.
-/

namespace AimeeMemory.Context

open AimeeMemory.Core AimeeMemory.Lib

variable {R : Type*}

section Pass

variable {b : Build R} {w : World R} {cands : List (Candidate R)} {ws : List (Candidate R × ℕ)} {p q : SectionPass R}
  {s : SectionSpec}

/-- A section writes nothing iff none of what it selects fits. -/
theorem written_eq_nil_iff : written b w p s = [] ↔ ∀ x ∈ selected b w p s, s.maxChars < lineLen b x.1 := by
  rw [written_eq, greedy_overfull_eq_nil_iff]
  simp only [List.mem_reverse]

/-- What a section writes is decided by the candidates and the tokens used. -/
theorem written_congr (hcands : p.cands = q.cands) (htokens : p.tokensUsed = q.tokensUsed) :
    written b w p s = written b w q s := by
  rw [written, written, hcands, htokens]

/-- The sections write nothing iff, from the state before the first of them on, none of what they select fits. -/
theorem writtenBySections_eq_nil_iff (table : List SectionSpec) :
    (writtenBySections b w p table).flatten = [] ↔
      ∀ s ∈ table, ∀ x ∈ selected b w p s, s.maxChars < lineLen b x.1 := by
  simp only [← written_eq_nil_iff]
  induction table generalizing p with
  | nil => exact iff_of_true rfl nofun
  | cons s table ih =>
    rw [writtenBySections, List.flatten_cons, List.append_eq_nil_iff, List.forall_mem_cons, ih]
    refine and_congr_right fun hnil => forall₂_congr fun t _ => ?_
    -- a section that writes nothing leaves candidates and tokens as they were
    have hstep : written b w (sectionStep b w p s) t = written b w p t := by
      refine written_congr ?_ ?_
      · have hcands : (sectionStep b w p s).cands = consume p.cands ((written b w p s).map (·.2)) := rfl
        rw [hcands, hnil, List.map_nil, consume_nil]
      · have htokens : (sectionStep b w p s).tokensUsed =
            if w.contextBudgetEnabled then p.tokensUsed + tokensOf (written b w p s) else p.tokensUsed := rfl
        rw [htokens, hnil]
        exact ite_self _
    rw [hstep]

/-- A candidate that was written has no id any more. -/
theorem Accounted.ids_eq_iff (h : Accounted w cands ws p) (hids : ∀ c ∈ cands, c.id ≠ 0) :
    p.cands.map (·.id) = cands.map (·.id) ↔ ws = [] := by
  constructor
  · intro heq
    by_contra hne
    obtain ⟨x, hx⟩ := List.exists_mem_of_ne_nil ws hne
    have hplace : cands[x.2]? = some x.1 := List.mem_zipIdx_iff_getElem?.1 (h.mem x hx)
    obtain ⟨hlt, hget⟩ := List.getElem?_eq_some_iff.1 hplace
    have hat : (p.cands.map (·.id))[x.2]? = (cands.map (·.id))[x.2]? := by rw [heq]
    have hmem : x.2 ∈ ws.map (·.2) := List.mem_map_of_mem hx
    have hzero : (p.cands.map (·.id))[x.2]? = some 0 := by
      simp only [h.consumed, consume, List.getElem?_map, List.getElem?_mapIdx, hplace, Option.map_some, if_pos hmem]
    rw [hzero, List.getElem?_map, hplace, Option.map_some, Option.some_inj] at hat
    exact hids x.1 (hget ▸ List.getElem_mem hlt) hat.symm
  · rintro rfl
    rw [h.consumed, List.map_nil, consume_nil]

end Pass

variable [ScoreArith R] (b : Build R) (w : World R) (hint : Text)

/-- The candidates that the negative context is handed. -/
def negativeCandidates : List (Candidate R) := answerable b w hint

/-- The ids that the deriver is handed. -/
def deriverIds : List ℤ := (taskPass b w hint).cands.map (·.id)

/-- Whether the deriver runs. -/
def derives : Prop := w.deriveFactsEnabled ∧ memoryClassifyDeriverShape hint ≠ .unknown

/-- The derived facts of these ids. -/
def derivedFactsOf (ids : List ℤ) : List (Piece UInt8) :=
  match w.derivedFacts hint ids with
  | none => []
  | some json => [.checked [text "\n## Derived Facts\n" ++ json ++ text "\n"]]

instance : Decidable (derives w hint) := inferInstanceAs (Decidable (_ ∧ _))

/-- The context of a task, with what its later blocks are handed. -/
theorem appendTaskAwareContext_eq :
    appendTaskAwareContext b w hint =
      episodeSummaries b w hint ++ (taskPass b w hint).pieces ++
        appendNegativeContextBlock b w hint (negativeCandidates b w hint) ++
        (if (planFor hint : RetrievalPlan R).includeL3 then [appendKvSection b w "Failure Warnings" .failureWarnings 600 3]
          else []) ++
        (if derives w hint then derivedFactsOf w hint (deriverIds b w hint) else []) ++
        markerPieces w (retrieved b w hint).2 := by
  rw [appendTaskAwareContext]
  rfl

/-- The later blocks are handed the candidates that were retrieved, none of them without its id. -/
structure HandsOver : Prop where
  negative : negativeCandidates b w hint = (retrieved b w hint).1
  derived : derives w hint →
    deriverIds b w hint = (retrieved b w hint).1.map (·.id) ∧ ∀ id ∈ deriverIds b w hint, id ≠ 0

/-- Nothing is withheld of what was retrieved; and where the deriver runs, each candidate has an id, and no section finds
room for any of those that it selects. -/
structure LeavesAll : Prop where
  answered : (retrieved b w hint).2 → w.abstainEnabled → (retrieved b w hint).1 = []
  unwritten : derives w hint →
    (∀ c ∈ (retrieved b w hint).1, c.id ≠ 0) ∧
      ∀ s ∈ planTable b hint, ∀ x ∈ (selectSection b w s 0 (retrieved b w hint).1).chosen, s.maxChars < lineLen b x.1

theorem negativeCandidates_eq_iff :
    negativeCandidates b w hint = (retrieved b w hint).1 ↔
      ((retrieved b w hint).2 → w.abstainEnabled → (retrieved b w hint).1 = []) := by
  simp only [negativeCandidates, answerable]
  split
  · rename_i hwithheld
    exact ⟨fun h _ _ => h.symm, fun h => (h hwithheld.1 hwithheld.2).symm⟩
  · rename_i hanswered
    exact iff_of_true rfl fun hunreliable henabled => absurd ⟨hunreliable, henabled⟩ hanswered

/-- **The later blocks are handed what was retrieved iff nothing of it is withheld and, where the deriver runs, nothing of
it was written.** -/
theorem handsOver_iff : HandsOver b w hint ↔ LeavesAll b w hint := by
  have haccount := accounted_taskPass b w hint
  constructor
  · rintro ⟨hnegative, hderived⟩
    refine ⟨(negativeCandidates_eq_iff b w hint).1 hnegative, fun hruns => ?_⟩
    obtain ⟨hids, hnonzero⟩ := hderived hruns
    have hretrieved : ∀ c ∈ (retrieved b w hint).1, c.id ≠ 0 := by
      intro c hc
      exact hnonzero c.id (hids ▸ List.mem_map_of_mem hc)
    rw [← hnegative, negativeCandidates] at hretrieved hids ⊢
    exact ⟨hretrieved, (writtenBySections_eq_nil_iff _).1 ((haccount.ids_eq_iff hretrieved).1 hids)⟩
  · rintro ⟨hanswered, hunwritten⟩
    have hnegative := (negativeCandidates_eq_iff b w hint).2 hanswered
    refine ⟨hnegative, fun hruns => ?_⟩
    obtain ⟨hretrieved, hroom⟩ := hunwritten hruns
    rw [← hnegative, negativeCandidates] at hretrieved hroom ⊢
    have hids : deriverIds b w hint = (answerable b w hint).map (·.id) :=
      (haccount.ids_eq_iff hretrieved).2 ((writtenBySections_eq_nil_iff _).2 hroom)
    refine ⟨hids, fun id hid => ?_⟩
    obtain ⟨c, hc, rfl⟩ := List.mem_map.1 (hids ▸ hid)
    exact hretrieved c hc

/-- A fact that answers the hint, and a deriver that asks for its dates. -/
def deployCount : World ℚ where
  __ := bareWorld
  candidates source :=
    if source = .primary then [⟨7, text "L2", text "deploys", text "Deployed on Monday.", text "fact", 0.9, 3⟩] else []
  deriveFactsEnabled := true

/-- The deriver is handed the id zero for the fact that was written, and the negative context nothing of what is withheld. -/
theorem deployCount_lost :
    ¬ HandsOver sampleBuild deployCount (text "how many deploys") ∧
      ¬ HandsOver sampleBuild { deployCount with abstainEnabled := true } (text "how many outages") := by
  constructor
  · intro h
    have hids : deriverIds sampleBuild deployCount (text "how many deploys") = [0] := by decide +kernel
    have hruns : derives deployCount (text "how many deploys") := by decide +kernel
    exact (h.derived hruns).2 0 (hids ▸ List.mem_singleton_self 0) rfl
  · intro h
    have hgiven : (negativeCandidates sampleBuild { deployCount with abstainEnabled := true }
        (text "how many outages")).length = 0 := by decide +kernel
    have hretrieved : (retrieved sampleBuild { deployCount with abstainEnabled := true }
        (text "how many outages")).1.length = 1 := by decide +kernel
    rw [h.negative, hretrieved] at hgiven
    cases hgiven

end AimeeMemory.Context
