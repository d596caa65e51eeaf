import AimeeMemory.Context.SectionTurn

/-!
# The cap of a section

A section writes the candidates it selected from the last to the first, so the best one is
the last to find room. The cap drops no candidate for one of lower rank iff those of the
selected ones that fit alone fit together.
-/

namespace AimeeMemory.Context

open AimeeMemory.Core AimeeMemory.Lib

variable {R : Type*} (b : Build R) (w : World R)

/-- A selected candidate that is not written, where one of lower rank is, does not fit alone. -/
def KeepsHighest (p : SectionPass R) (s : SectionSpec) : Prop :=
  ∀ high low, [high, low].Sublist (selected b w p s) → low ∈ written b w p s → high ∉ written b w p s →
    s.maxChars < lineLen b high.1

/-- The selected candidates that fit alone fit together. -/
def SelectedFit (p : SectionPass R) (s : SectionSpec) : Prop :=
  FitTogether s.maxChars (fun c => lineLen b c.1) (selected b w p s)

instance (p : SectionPass R) (s : SectionSpec) : Decidable (SelectedFit b w p s) :=
  inferInstanceAs (Decidable (∀ x ∈ selected b w p s, lineLen b x.1 ≤ s.maxChars → _))

variable {b w}

theorem keepsHighest_iff (p : SectionPass R) (s : SectionSpec) : KeepsHighest b w p s ↔ SelectedFit b w p s := by
  have hnodup : (selected b w p s).reverse.Nodup := List.nodup_reverse.2 selected_nodup
  have hgives : KeepsHighest b w p s ↔
      NoneGivesWay s.maxChars (fun c => lineLen b c.1) (selected b w p s).reverse := by
    rw [KeepsHighest, NoneGivesWay, ← written_eq]
    constructor
    · intro h low high hbefore
      exact h high low (List.reverse_sublist.1 (by simpa using hbefore))
    · intro h high low hbefore
      exact h low high (by simpa using List.reverse_sublist.2 hbefore)
  rw [hgives, noneGivesWay_iff hnodup, SelectedFit]
  exact fitTogether_perm (List.reverse_perm _)

variable (b w) [ScoreArith R]

/-- **In each section the cap drops the lowest first iff the selected candidates that fit alone fit together.** -/
theorem taskPass_keepsHighest_iff (hint : Text) :
    Meets (sectionStep b w) (fun _ => KeepsHighest b w) (passStart b w hint) (planTable b hint) ↔
      Meets (sectionStep b w) (fun _ => SelectedFit b w) (passStart b w hint) (planTable b hint) := by
  constructor
  · intro h pre s post hsplit
    exact (keepsHighest_iff _ s).1 (h pre s post hsplit)
  · intro h pre s post hsplit
    exact (keepsHighest_iff _ s).2 (h pre s post hsplit)

/-- Four facts of 500 bytes, the better ones first. -/
def longFacts : World ℚ where
  __ := bareWorld
  candidates source :=
    if source = .primary then
      [⟨1, text "L2", text "a", List.replicate 500 97, text "fact", 0.9, 0⟩,
        ⟨2, text "L2", text "b", List.replicate 500 98, text "fact", 0.8, 0⟩,
        ⟨3, text "L2", text "c", List.replicate 500 99, text "fact", 0.7, 0⟩,
        ⟨4, text "L2", text "d", List.replicate 500 100, text "fact", 0.6, 0⟩]
    else []

theorem answerable_longFacts : answerable sampleBuild longFacts (text "go") = rowCandidates longFacts (text "go") :=
  answerable_of_sorted rfl (by decide +kernel)

/-- Three of them fit into their section, and the best one is the fourth to be written. -/
theorem longFacts_lose_highest :
    ¬ Meets (sectionStep sampleBuild longFacts) (fun _ => KeepsHighest sampleBuild longFacts)
      (passStart sampleBuild longFacts (text "go")) (planTable sampleBuild (text "go")) := by
  intro h
  have hfit : Meets (sectionStep sampleBuild longFacts) (fun _ => SelectedFit sampleBuild longFacts)
      (passStart sampleBuild longFacts (text "go")) (planTable sampleBuild (text "go")) :=
    fun pre s post hsplit => (keepsHighest_iff _ _).1 (h pre s post hsplit)
  rw [passStart, answerable_longFacts] at hfit
  exact absurd hfit (by decide +kernel)

end AimeeMemory.Context
