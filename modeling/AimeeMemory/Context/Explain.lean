import AimeeMemory.Context.Cache
import AimeeMemory.Context.SectionPass

/-!
# The explained context

`memory_assemble_context_explain`: the context of a hint, with an entry for each candidate
that says its score and whether it was selected. The entries come from a pass of their own
over the candidates, behind the assembly: it has the score without the bonus for a time, no
sections and no fallback, the near vectors beside the restatements, and its own limits.

## What is proved

* **`explain_tellsTruth`**: the entries agree with the context where there is none, and where
  none of the rules that one of the two passes has alone decides over a candidate
  (`OneAccount`).
* **`explain_unsectioned`**: a candidate of a kind that no section shows is reported as
  selected.
-/

namespace AimeeMemory.Context

open AimeeMemory.Core AimeeMemory.Lib

variable {R C : Type*} [ScoreArith R]

/-- `context_assemble_explain_entry_t`. -/
structure ExplainEntry (R : Type*) where
  id : ℤ
  tier : Text
  key : Text
  kind : Text
  scope : Text
  tokens : ℕ
  score : R
  scorePerToken : R
  selected : Bool
  rejectionReason : Text

/-- `context_budget_metrics_t`. -/
structure BudgetMetrics where
  budgetTokens : ℕ
  usedTokens : ℕ
  rejectedForBudget : ℕ
  suppressedNearDuplicates : ℕ
  deriving DecidableEq, Repr

/-- The state of the pass over the candidates: the entries, the selected candidates as far as they are tracked, and the
tokens used. -/
structure ExplainPass (R : Type*) where
  entries : List (ExplainEntry R)
  tracked : List (Candidate R)
  tokensUsed : ℕ
  metrics : BudgetMetrics

variable (b : Build R) (w : World R)

/-- The candidates of the explain pass in their order. -/
def explainCandidates (hint : Text) : List (Candidate R) :=
  let terms := if hint = [] then [] else b.tokenizeForSearch hint 64
  sortCandidates b w (((w.candidates .primary).take 200).map (explainCandidate w (w.scopeLabelsForCwd []) terms))

/-- The pairs of near vectors among the first candidates. -/
def explainPairs (cands : List (Candidate R)) : List (ℤ × ℤ) :=
  let ids := ((cands.map (·.id)).filter (0 < ·)).take 64
  if 1 < ids.length then w.vectorNearDuplicates ids else []

/-- Two candidates say the same to the explain pass. -/
def explainSame (pairs : List (ℤ × ℤ)) (c sel : Candidate R) : Bool :=
  pairs.any (fun p => (p.1 = c.id ∧ p.2 = sel.id) ∨ (p.2 = c.id ∧ p.1 = sel.id)) ||
    assembleTextsNearDuplicate c.shown sel.shown

def explainEntry (c : Candidate R) (selected : Bool) (rejectionReason : Text) : ExplainEntry R where
  id := c.id
  tier := c.tier
  key := c.key
  kind := c.kind
  scope := if c.scope = [] then text "global" else c.scope
  tokens := c.estimatedTokens
  score := c.score
  scorePerToken := c.scorePerToken
  selected
  rejectionReason

def decimal (n : ℤ) : Text := text (toString n)

/-- A candidate that is selected is tracked while there is room. -/
def track (tracked : List (Candidate R)) (c : Candidate R) : List (Candidate R) :=
  if tracked.length < 64 then tracked ++ [c] else tracked

/-- A candidate of the explain pass. -/
def explainStep (pairs : List (ℤ × ℤ)) (p : ExplainPass R) (c : Candidate R) : ExplainPass R :=
  match p.tracked.find? (explainSame pairs c) with
  | some sel =>
    { p with
      entries := p.entries ++ [explainEntry c false (text "near_duplicate of memory " ++ decimal sel.id)]
      metrics := { p.metrics with suppressedNearDuplicates := p.metrics.suppressedNearDuplicates + 1 } }
  | none =>
    if w.contextBudgetEnabled then
      if p.tokensUsed + c.estimatedTokens ≤ tokenBudget w then
        { entries := p.entries ++ [explainEntry c true []]
          tracked := track p.tracked c
          tokensUsed := p.tokensUsed + c.estimatedTokens
          metrics := { p.metrics with usedTokens := p.tokensUsed + c.estimatedTokens } }
      else
        { p with
          entries := p.entries ++ [explainEntry c false (text "budget_exhausted (used=" ++ decimal p.tokensUsed ++
            text " budget=" ++ decimal (tokenBudget w) ++ text ")")]
          metrics := { p.metrics with rejectedForBudget := p.metrics.rejectedForBudget + 1 } }
    else if p.entries.length < b.maxContextMems then
      { p with entries := p.entries ++ [explainEntry c true []], tracked := track p.tracked c }
    else
      { p with
        entries := p.entries ++ [explainEntry c false (text "count_cap (MAX=" ++ decimal b.maxContextMems ++ text ")")] }

/-- The pass over the candidates, of which the first so many get an entry. -/
def explainPass (cands : List (Candidate R)) (explainMax : ℕ) : ExplainPass R :=
  (cands.take explainMax).foldl (explainStep b w (explainPairs w cands))
    ⟨[], [], 0, ⟨if w.contextBudgetEnabled then tokenBudget w else 0, 0, 0, 0⟩⟩

variable (wr : Writes R) (db : ContextCache C)

/-- `memory_assemble_context_explain`: the context, the entries, and the state after the call. -/
def memoryAssembleContextExplain (s : CacheState R C) (hint : Text) (explainMax : ℕ) :
    Text × List (ExplainEntry R) × CacheState R C :=
  let call := cachedContext b wr db s hint
  (call.1, (explainPass b call.2.world (explainCandidates b call.2.world hint) explainMax).entries, call.2)

/-! ## What the entries are about -/

/-- The hint and the world that the context of a call was assembled from. -/
def CacheState.origin (db : ContextCache C) (s : CacheState R C) (hint : Text) : Text × World R :=
  match if s.world.cached then db.get s.cache (cacheInputHash s.world) else none with
  | none => (hint, s.world)
  | some _ =>
    match s.stored.find? (·.key = cacheInputHash s.world) with
    | none => (hint, s.world)
    | some e => (e.hint, e.world)

/-- The candidates as an assembly ranks them: none without a task. -/
def rankedBy (hint : Text) : List (Candidate R) := if hint = [] then [] else (retrieved b w hint).1

/-- The candidates that an assembly writes. -/
def emittedBy (hint : Text) : List (Candidate R) := if hint = [] then [] else (taskPass b w hint).emitted

/-- Of the context that is returned, each entry has the score that the candidate was ranked by, and is selected iff the
candidate was written. -/
def TellsTruth (s : CacheState R C) (hint : Text) (explainMax : ℕ) : Prop :=
  let origin := s.origin db hint
  let call := memoryAssembleContextExplain b wr db s hint explainMax
  call.1 = (memoryAssembleContext b origin.2 origin.1).text ∧
    ∀ e ∈ call.2.1, (∃ c ∈ rankedBy b origin.2 origin.1, c.id = e.id ∧ c.score = e.score) ∧
      (e.selected ↔ ∃ c ∈ emittedBy b origin.2 origin.1, c.id = e.id)

/-! ## The pass over the candidates -/

section Pass

omit [ScoreArith R]

variable {b w} {cands : List (Candidate R)} {pairs : List (ℤ × ℤ)}

/-- The candidates that are kept before one. -/
def keptBefore (w : World R) (cands : List (Candidate R)) (x : Candidate R × ℕ) : List (Candidate R × ℕ) :=
  (kept w cands).filter (·.2 < x.2)

/-- No rule that the explain pass has alone decides over a candidate with an entry: no kept one is near in its vector to
one kept before it, one that restates another restates one that is tracked, and the kept ones stand within the count
where no budget is set. -/
structure ExplainAlone (b : Build R) (w : World R) (cands : List (Candidate R)) (explainMax : ℕ) : Prop where
  vectors : ∀ x ∈ kept w cands, x.2 < explainMax →
    ∀ y ∈ keptBefore w cands x, explainSame (explainPairs w cands) x.1 y.1 = false
  tracked : ∀ x ∈ cands.zipIdx, x.2 < explainMax → (keptBefore w cands x).any (restates x) = true →
    ((keptBefore w cands x).take 64).any (restates x) = true
  places : w.contextBudgetEnabled = false → ∀ x ∈ kept w cands, x.2 < explainMax → x.2 < b.maxContextMems

/-- After the candidates of `pre`: each has its entry, and those that are kept are tracked and counted. -/
structure ExplainInv (w : World R) (cands : List (Candidate R)) (pre : List (Candidate R × ℕ)) (p : ExplainPass R) :
    Prop where
  length : p.entries.length = pre.length
  tracked : p.tracked = ((greedy (excludes w 0) pre).take 64).map (·.1)
  tokens : w.contextBudgetEnabled → p.tokensUsed = tokensOf (greedy (excludes w 0) pre)
  entries : ∀ e ∈ p.entries, ∃ c ∈ pre, e.id = c.1.id ∧ e.score = c.1.score ∧ (e.selected ↔ c ∈ kept w cands)

variable {pre post : List (Candidate R × ℕ)} {x : Candidate R × ℕ} {p : ExplainPass R} {explainMax : ℕ}

/-- The entries of one candidate more. -/
theorem ExplainInv.entries_concat (h : ExplainInv w cands pre p) {selected : Bool} (reason : Text)
    (hselected : selected = true ↔ x ∈ kept w cands) :
    ∀ e ∈ p.entries ++ [explainEntry x.1 selected reason],
      ∃ c ∈ pre ++ [x], e.id = c.1.id ∧ e.score = c.1.score ∧ (e.selected ↔ c ∈ kept w cands) := by
  intro e he
  rcases List.mem_append.1 he with he | he
  · obtain ⟨c, hc, hentry⟩ := h.entries e he
    exact ⟨c, List.mem_append_left _ hc, hentry⟩
  · obtain rfl := List.mem_singleton.1 he
    exact ⟨x, List.mem_append_right _ List.mem_cons_self, rfl, rfl, hselected⟩

/-- The place of a candidate is the number of those before it. -/
theorem place_eq (hsplit : cands.zipIdx = pre ++ x :: post) : x.2 = pre.length := by
  have hget : cands.zipIdx[pre.length]? = some x := by rw [hsplit]; simp
  rw [List.getElem?_zipIdx] at hget
  obtain ⟨c, -, hx⟩ := Option.map_eq_some_iff.1 hget
  rw [← hx]
  simp

theorem place_lt (hsplit : cands.zipIdx = pre ++ x :: post) {y : Candidate R × ℕ} (hy : y ∈ pre) : y.2 < x.2 := by
  obtain ⟨before, between, rfl⟩ := List.append_of_mem hy
  have hysplit : cands.zipIdx = before ++ y :: (between ++ x :: post) := by simpa using hsplit
  rw [place_eq hsplit, place_eq hysplit, List.length_append, List.length_cons]
  omega

theorem place_le (hsplit : cands.zipIdx = pre ++ x :: post) {y : Candidate R × ℕ} (hy : y ∈ x :: post) : x.2 ≤ y.2 := by
  obtain ⟨between, behind, hbehind⟩ := List.append_of_mem hy
  have hysplit : cands.zipIdx = (pre ++ between) ++ y :: behind := by rw [hsplit, hbehind, List.append_assoc]
  rw [place_eq hsplit, place_eq hysplit, List.length_append]
  omega

/-- Those kept before a candidate are those chosen of the candidates before it. -/
theorem keptBefore_eq (hsplit : cands.zipIdx = pre ++ x :: post) : keptBefore w cands x = greedy (excludes w 0) pre := by
  obtain ⟨rest, hrest⟩ : greedy (excludes w 0) pre <+: greedy (excludes w 0) (pre ++ x :: post) := prefix_greedy_append _ _
  have hbehind : rest.Sublist (x :: post) := by
    have hsublist : (greedy (excludes w 0) pre ++ rest).Sublist (greedy (excludes w 0) pre ++ x :: post) := by
      rw [hrest, greedy, greedyFrom_append]
      exact greedyFrom_sublist _ _
    exact (List.append_sublist_append_left _).1 hsublist
  rw [keptBefore, kept, hsplit, ← hrest, List.filter_append]
  have hfirst : (greedy (excludes w 0) pre).filter (·.2 < x.2) = greedy (excludes w 0) pre :=
    List.filter_eq_self.2 fun y hy => decide_eq_true (place_lt hsplit (mem_of_mem_greedy hy))
  have hlast : rest.filter (·.2 < x.2) = [] :=
    List.filter_eq_nil_iff.2 fun y hy => by simpa using place_le hsplit (hbehind.subset hy)
  rw [hfirst, hlast, List.append_nil]

/-- The candidates tracked, with one that is kept. -/
theorem track_map (chosen : List (Candidate R × ℕ)) (x : Candidate R × ℕ) :
    track ((chosen.take 64).map (·.1)) x.1 = ((chosen ++ [x]).take 64).map (·.1) := by
  rw [track, List.length_map, List.length_take]
  split
  · rw [List.take_of_length_le (by omega), List.take_of_length_le (by rw [List.length_append, List.length_singleton]; omega),
      List.map_append]
    rfl
  · rw [List.take_append_of_le_length (by omega)]

theorem ExplainInv.step (h : ExplainInv w cands pre p) (halone : ExplainAlone b w cands explainMax)
    (hsplit : cands.zipIdx = pre ++ x :: post) (hplace : x.2 < explainMax) :
    ExplainInv w cands (pre ++ [x]) (explainStep b w (explainPairs w cands) p x.1) := by
  have hbefore : keptBefore w cands x = greedy (excludes w 0) pre := keptBefore_eq hsplit
  have hkept : x ∈ kept w cands ↔ excludes w 0 (greedy (excludes w 0) pre) x = false := by
    rw [kept, hsplit]
    exact mem_greedy_append (hsplit ▸ zipIdx_nodup cands)
  have hlength : (p.entries ++ [explainEntry x.1 true []]).length = (pre ++ [x]).length := by
    rw [List.length_append, List.length_append, h.length]
    rfl
  unfold explainStep
  split
  · -- a tracked one says the same, so this one is not kept
    rename_i sel hfind
    obtain ⟨y, hy, rfl⟩ := List.mem_map.1 (h.tracked ▸ List.mem_of_find?_eq_some hfind)
    have hnot : x ∉ kept w cands := by
      intro hx
      have hfar := halone.vectors x hx hplace y (hbefore ▸ List.mem_of_mem_take hy)
      rw [List.find?_some hfind] at hfar
      cases hfar
    have hout : excludes w 0 (greedy (excludes w 0) pre) x = true := by simpa using fun hin => hnot (hkept.2 hin)
    have hgreedy : greedy (excludes w 0) (pre ++ [x]) = greedy (excludes w 0) pre := by rw [greedy_concat, if_pos hout]
    exact ⟨by simpa using h.length, hgreedy ▸ h.tracked, hgreedy ▸ h.tokens, h.entries_concat _ (by simpa using hnot)⟩
  · rename_i hfind
    have hunrelated : related restates (greedy (excludes w 0) pre) x = false := by
      refine Bool.eq_false_iff.2 fun hsame => ?_
      have htracked := halone.tracked x (by simp [hsplit]) hplace (hbefore ▸ hsame)
      rw [hbefore] at htracked
      obtain ⟨y, hy, hrestates⟩ := List.any_eq_true.1 htracked
      refine List.find?_eq_none.1 hfind y.1 (h.tracked ▸ List.mem_map_of_mem hy) ?_
      rw [explainSame, Bool.or_eq_true]
      exact .inr hrestates
    rw [excludes, hunrelated, Bool.false_or, Nat.zero_add] at hkept
    split
    · rename_i henabled
      split
      · rename_i hspare
        rw [h.tokens henabled] at hspare ⊢
        have hx : x ∈ kept w cands := hkept.2 (by simpa using fun _ => hspare)
        have hgreedy : greedy (excludes w 0) (pre ++ [x]) = greedy (excludes w 0) pre ++ [x] := by
          rw [greedy_concat, excludes, hunrelated, Bool.false_or, Nat.zero_add, hkept.1 hx, if_neg Bool.false_ne_true]
        refine ⟨hlength, ?_, fun _ => ?_, h.entries_concat _ (iff_of_true rfl hx)⟩
        · rw [h.tracked, hgreedy, track_map]
        · rw [hgreedy, tokensOf_append, tokensOf_singleton]
      · rename_i hover
        rw [h.tokens henabled] at hover
        have hout : (w.contextBudgetEnabled &&
            tokenBudget w < tokensOf (greedy (excludes w 0) pre) + x.1.estimatedTokens) = true := by
          simpa [henabled] using hover
        have hnot : x ∉ kept w cands := fun hx => by
          rw [hkept.1 hx] at hout
          cases hout
        have hgreedy : greedy (excludes w 0) (pre ++ [x]) = greedy (excludes w 0) pre := by
          rw [greedy_concat, excludes, hunrelated, Bool.false_or, Nat.zero_add, hout, if_pos rfl]
        exact ⟨by simpa using h.length, hgreedy ▸ h.tracked, hgreedy ▸ h.tokens, h.entries_concat _ (by simpa using hnot)⟩
    · rename_i hdisabled
      rw [Bool.eq_false_iff.2 hdisabled, Bool.false_and] at hkept
      have hx : x ∈ kept w cands := hkept.2 rfl
      have hgreedy : greedy (excludes w 0) (pre ++ [x]) = greedy (excludes w 0) pre ++ [x] := by
        rw [greedy_concat, excludes, hunrelated, Bool.eq_false_iff.2 hdisabled]
        rfl
      have hcount : p.entries.length < b.maxContextMems := by
        rw [h.length, ← place_eq hsplit]
        exact halone.places (Bool.eq_false_iff.2 hdisabled) x hx hplace
      rw [if_pos hcount]
      refine ⟨hlength, ?_, fun henabled => absurd henabled hdisabled, h.entries_concat _ (iff_of_true rfl hx)⟩
      rw [h.tracked, hgreedy, track_map]

theorem ExplainInv.run (halone : ExplainAlone b w cands explainMax) {rest : List (Candidate R × ℕ)}
    (hsplit : cands.zipIdx = pre ++ post ++ rest) (hmax : (pre ++ post).length ≤ explainMax) (h : ExplainInv w cands pre p) :
    ExplainInv w cands (pre ++ post) ((post.map (·.1)).foldl (explainStep b w (explainPairs w cands)) p) := by
  induction post generalizing pre p with
  | nil => rwa [List.append_nil]
  | cons x post ih =>
    have hcons : cands.zipIdx = pre ++ x :: (post ++ rest) := by simpa using hsplit
    have hplace : x.2 < explainMax := by
      rw [List.length_append, List.length_cons] at hmax
      rw [place_eq hcons]
      omega
    have hstep := h.step halone hcons hplace
    have hrest : pre ++ x :: post = pre ++ [x] ++ post := by simp
    rw [hrest] at hsplit hmax ⊢
    exact ih hsplit hmax hstep

/-- **An entry is selected iff its candidate is kept**, where no other rule decides. -/
theorem explainPass_entries (halone : ExplainAlone b w cands explainMax) :
    ∀ e ∈ (explainPass b w cands explainMax).entries,
      ∃ c ∈ cands.zipIdx, c.2 < explainMax ∧ e.id = c.1.id ∧ e.score = c.1.score ∧ (e.selected ↔ c ∈ kept w cands) := by
  have hstart : ExplainInv w cands []
      ⟨[], [], 0, ⟨if w.contextBudgetEnabled then tokenBudget w else 0, 0, 0, 0⟩⟩ :=
    ⟨rfl, rfl, fun _ => rfl, fun e he => by cases he⟩
  have hsplit : cands.zipIdx = [] ++ cands.zipIdx.take explainMax ++ cands.zipIdx.drop explainMax := by simp
  have hrun := ExplainInv.run halone hsplit (List.length_take_le _ _) hstart
  have htake : (cands.zipIdx.take explainMax).map (·.1) = cands.take explainMax := by
    rw [List.map_take, List.zipIdx_map_fst]
  intro e he
  rw [htake] at hrun
  obtain ⟨c, hc, hid, hscore, hselected⟩ := hrun.entries e he
  obtain ⟨pre, post, hpre⟩ := List.append_of_mem hc
  have hcsplit : cands.zipIdx = pre ++ c :: (post ++ cands.zipIdx.drop explainMax) := by
    conv_lhs => rw [← List.take_append_drop explainMax cands.zipIdx]
    rw [← List.nil_append (List.take _ _), hpre]
    simp
  refine ⟨c, List.mem_of_mem_take hc, ?_, hid, hscore, hselected⟩
  have hlength := List.length_take_le explainMax cands.zipIdx
  rw [← List.nil_append (List.take _ _), hpre, List.length_append, List.length_cons] at hlength
  rw [place_eq hcsplit]
  omega

end Pass

/-! ## Both passes -/

variable {b w wr db} {s : CacheState R C} {hint : Text}

/-- The table of sections of a hint. -/
def tableFor (b : Build R) (hint : Text) : List SectionSpec := sectionTable b (planFor hint : RetrievalPlan R).kindBudget

/-- No rule that one of the two passes has alone decides over a candidate with an entry: no bonus for a time, no
fallback and no withheld answer, a section for each candidate that is kept, with room for all its own, and none of the
limits of the explain pass. -/
structure OneAccount (b : Build R) (w : World R) (hint : Text) (explainMax : ℕ) : Prop where
  hint_ne_nil : hint ≠ []
  listed : (w.candidates .primary).take b.maxCandidates = (w.candidates .primary).take 200
  timeless : hasTemporalMarkers hint → ∀ row ∈ (w.candidates .primary).take 200,
    hasTemporalMarkers row.content = false ∧ hasTemporalMarkers row.key = false
  answered : ∀ threshold ∈ failureThreshold w,
    (memoryRetrievalConfidence (b.tokenizeForSearch hint 64) (primaryCandidates b w hint) threshold).belowThreshold →
      w.abstainEnabled = false ∧ ((primaryCandidates b w hint).length < b.maxCandidates →
        ∀ row ∈ (w.candidates .fallback).take b.maxCandidates, ∃ c ∈ primaryCandidates b w hint, c.id = row.id)
  ids_nodup : ((primaryCandidates b w hint).map (·.id)).Nodup
  admitted : ∀ c ∈ kept w (primaryCandidates b w hint), c.2 < explainMax → ∃ t ∈ tableFor b hint, t.admits c.1 = true
  room : RoomForKept b w (tableFor b hint) (primaryCandidates b w hint)
  alone : ExplainAlone b w (primaryCandidates b w hint) explainMax

theorem tableFor_nodup (b : Build R) (hint : Text) : (tableFor b hint).Nodup := by
  have hheaders : (tableFor b hint).map (·.header) =
      ["Mental Models", "Key Facts", "Constraints", "Procedures", "Active Tasks", "Recent Context"] := rfl
  refine .of_map (·.header) ?_
  rw [hheaders]
  decide

variable {explainMax : ℕ}

/-- What is retrieved are the primary candidates, and an answer is given. -/
theorem OneAccount.retrieved_eq (h : OneAccount b w hint explainMax) :
    (retrieved b w hint).1 = primaryCandidates b w hint ∧ answerable b w hint = primaryCandidates b w hint := by
  suffices hsuff : (retrieved b w hint).1 = primaryCandidates b w hint ∧
      ¬ ((retrieved b w hint).2 = true ∧ w.abstainEnabled = true) by
    refine ⟨hsuff.1, ?_⟩
    exact (if_neg hsuff.2).trans hsuff.1
  simp only [retrieved]
  split
  · exact ⟨rfl, by simp⟩
  · rename_i threshold hthreshold
    have hanswered := h.answered threshold hthreshold
    by_cases hbelow : (memoryRetrievalConfidence (b.tokenizeForSearch hint 64) (primaryCandidates b w hint)
        threshold).belowThreshold = true
    · obtain ⟨habstain, hknown⟩ := hanswered hbelow
      rw [if_neg]
      · exact ⟨rfl, by simp [habstain]⟩
      · rintro ⟨-, hplace, hmore⟩
        have hfresh : (((w.candidates .fallback).take b.maxCandidates).filter fun row =>
            !((primaryCandidates b w hint).any (·.id = row.id))) = [] := by
          refine List.filter_eq_nil_iff.2 fun row hrow => ?_
          obtain ⟨c, hc, hid⟩ := hknown hplace row hrow
          simpa using ⟨c, hc, hid⟩
        simp [withFallback, hfresh] at hmore
    · rw [if_neg fun hif => hbelow hif.1]
      exact ⟨rfl, fun hwithheld => hbelow hwithheld.1⟩

/-- Without a bonus for a time both passes have the same candidates in the same order. -/
theorem OneAccount.explainCandidates_eq (h : OneAccount b w hint explainMax) :
    explainCandidates b w hint = primaryCandidates b w hint := by
  have hrows : ∀ row ∈ (w.candidates .primary).take 200,
      explainCandidate w (w.scopeLabelsForCwd []) (b.tokenizeForSearch hint 64) row =
        primaryCandidate w (w.scopeLabelsForCwd []) (b.tokenizeForSearch hint 64) (hasTemporalMarkers hint) row := by
    intro row hrow
    have hbonus : temporalBonus (hasTemporalMarkers hint) row = none := by
      unfold temporalBonus
      cases htime : hasTemporalMarkers hint with
      | false => simp
      | true =>
        obtain ⟨hcontent, hkey⟩ := h.timeless htime row hrow
        simp [hcontent, hkey]
    simp only [explainCandidate, primaryCandidate, hbonus]
  simp only [explainCandidates, primaryCandidates, if_neg h.hint_ne_nil, h.listed, List.map_congr_left hrows]

/-! ## What a call writes -/

/-- The call is answered from the cache. -/
def Served (db : ContextCache C) (s : CacheState R C) : Prop :=
  s.world.cached ∧ (db.get s.cache (cacheInputHash s.world)).isSome

/-- Two worlds are alike in what the explain pass reads. -/
structure ReadsAlike (w w' : World R) : Prop where
  candidates : w'.candidates .primary = w.candidates .primary
  graphBoost : w'.graphBoost = w.graphBoost
  scopeVisibilityRank : w'.scopeVisibilityRank = w.scopeVisibilityRank
  primaryScope : w'.primaryScope = w.primaryScope
  scopeLabelsForCwd : w'.scopeLabelsForCwd = w.scopeLabelsForCwd
  vectorNearDuplicates : w'.vectorNearDuplicates = w.vectorNearDuplicates
  contextBudgetEnabled : w'.contextBudgetEnabled = w.contextBudgetEnabled
  contextBudgetTokens : w'.contextBudgetTokens = w.contextBudgetTokens

omit [ScoreArith R] in
theorem ReadsAlike.refl (w : World R) : ReadsAlike w w := ⟨rfl, rfl, rfl, rfl, rfl, rfl, rfl, rfl⟩

theorem ReadsAlike.explainCandidates_eq {w' : World R} (h : ReadsAlike w w') :
    explainCandidates b w' hint = explainCandidates b w hint := by
  have hcandidate : explainCandidate w' = explainCandidate w := by
    funext labels terms row
    simp only [explainCandidate, candidateOf, relevance, boostsFor, h.graphBoost, h.scopeVisibilityRank, h.primaryScope]
  simp only [explainCandidates, sortCandidates, h.candidates, h.scopeLabelsForCwd, h.contextBudgetEnabled, hcandidate]

omit [ScoreArith R] in
theorem ReadsAlike.explainPass_eq {w' : World R} (h : ReadsAlike w w') (cands : List (Candidate R)) :
    explainPass b w' cands explainMax = explainPass b w cands explainMax := by
  have hbudget : tokenBudget w' = tokenBudget w := by rw [tokenBudget, h.contextBudgetTokens, tokenBudget]
  have hpairs : explainPairs w' cands = explainPairs w cands := by
    simp only [explainPairs, h.vectorNearDuplicates]
  have hstep : explainStep b w' = explainStep b w := by
    funext pairs p c
    simp only [explainStep, h.contextBudgetEnabled, hbudget]
  simp only [explainPass, hpairs, hstep, hbudget, h.contextBudgetEnabled]

theorem cachedContext_world (b : Build R) (wr : Writes R) (db : ContextCache C) (s : CacheState R C) (hint : Text) :
    (Served db s ∧ (cachedContext b wr db s hint).2.world = s.world) ∨
      (¬ Served db s ∧ (cachedContext b wr db s hint).2.world = afterAssembly b wr s.world hint) := by
  simp only [cachedContext, Served]
  split
  · rename_i cached hhit
    split at hhit
    · rename_i henabled
      exact .inl ⟨⟨henabled, by rw [hhit]; rfl⟩, rfl⟩
    · cases hhit
  · rename_i hmiss
    refine .inr ⟨?_, ?_⟩
    · rintro ⟨henabled, hsome⟩
      rw [if_pos henabled] at hmiss
      rw [hmiss] at hsome
      cases hsome
    · split <;> rfl

/-- The call is answered from the cache, or its own writes leave what the explain pass reads as it was. -/
def LeavesReads (b : Build R) (wr : Writes R) (db : ContextCache C) (s : CacheState R C) (hint : Text) : Prop :=
  Served db s ∨ ReadsAlike s.world (afterAssembly b wr s.world hint)

theorem LeavesReads.alike (h : LeavesReads b wr db s hint) : ReadsAlike s.world (cachedContext b wr db s hint).2.world := by
  rcases cachedContext_world b wr db s hint with ⟨-, hworld⟩ | ⟨hmiss, hworld⟩
  · rw [hworld]
    exact .refl _
  · rw [hworld]
    exact h.resolve_left hmiss

theorem LeavesReads.entries_eq (h : LeavesReads b wr db s hint) :
    (memoryAssembleContextExplain b wr db s hint explainMax).2.1 =
      (explainPass b s.world (explainCandidates b s.world hint) explainMax).entries := by
  simp only [memoryAssembleContextExplain]
  rw [h.alike.explainPass_eq, h.alike.explainCandidates_eq]

omit [ScoreArith R] in
theorem KeyTells.origin_eq (h : KeyTells s (.call hint)) : s.origin db hint = (hint, s.world) := by
  unfold CacheState.origin
  split
  · rfl
  · split
    · rfl
    · rename_i e hfind
      obtain ⟨hhint, hworld⟩ := h e hfind
      rw [hhint, hworld]

/-! ## The entries and the context -/

/-- What the sections write of the candidates with an entry. -/
theorem OneAccount.mem_emittedBy (h : OneAccount b w hint explainMax) {x : Candidate R × ℕ}
    (hx : x ∈ (primaryCandidates b w hint).zipIdx) (hplace : x.2 < explainMax) :
    (∃ c ∈ emittedBy b w hint, c.id = x.1.id) ↔ x ∈ kept w (primaryCandidates b w hint) := by
  rw [emittedBy, if_neg h.hint_ne_nil, taskPass, h.retrieved_eq.2]
  constructor
  · rintro ⟨c, hc, hid⟩
    obtain ⟨i, hi, -⟩ := (h.room.mem_emitted (tableFor_nodup b hint) c).1 hc
    rw [eq_of_id_eq h.ids_nodup hx (mem_of_mem_greedy hi) hid.symm]
    exact hi
  · intro hkept
    obtain ⟨t, ht, hadmits⟩ := h.admitted x hkept hplace
    exact ⟨x.1, (h.room.mem_emitted (tableFor_nodup b hint) x.1).2 ⟨x.2, hkept, List.any_eq_true.2 ⟨t, ht, hadmits⟩⟩, rfl⟩

/-- The entries agree with what is ranked and written. -/
theorem OneAccount.entry_iff (h : OneAccount b w hint explainMax) {e : ExplainEntry R}
    (he : e ∈ (explainPass b w (primaryCandidates b w hint) explainMax).entries) :
    (∃ c ∈ rankedBy b w hint, c.id = e.id ∧ c.score = e.score) ∧
      (e.selected ↔ ∃ c ∈ emittedBy b w hint, c.id = e.id) := by
  obtain ⟨c, hc, hplace, hid, hscore, hselected⟩ := explainPass_entries h.alone e he
  refine ⟨⟨c.1, ?_, hid.symm, hscore.symm⟩, ?_⟩
  · rw [rankedBy, if_neg h.hint_ne_nil, h.retrieved_eq.1]
    exact List.fst_mem_of_mem_zipIdx hc
  · rw [hselected, hid]
    exact (h.mem_emittedBy hc hplace).symm

/-- There is no entry, or the context is the one of this hint and this world, the call leaves what the explain pass
reads, and no rule of one pass alone decides. -/
def Explainable (b : Build R) (wr : Writes R) (db : ContextCache C) (s : CacheState R C) (hint : Text) (explainMax : ℕ) :
    Prop :=
  explainMax = 0 ∨
    (s.world.candidates .primary = [] ∧ (Served db s ∨ (afterAssembly b wr s.world hint).candidates .primary = [])) ∨
    (KeyTells s (.call hint) ∧ LeavesReads b wr db s hint ∧ OneAccount b s.world hint explainMax)

omit [ScoreArith R] in
theorem explainPass_zero (cands : List (Candidate R)) : (explainPass b w cands 0).entries = [] := by
  rw [explainPass, List.take_zero]
  rfl

theorem explainPass_unlisted (h : w.candidates .primary = []) (explainMax : ℕ) :
    (explainPass b w (explainCandidates b w hint) explainMax).entries = [] := by
  have hcands : explainCandidates b w hint = [] := by simp [explainCandidates, h, sortCandidates]
  rw [hcands, explainPass, List.take_nil]
  rfl

/-- The context that is returned is the assembly of its origin. -/
theorem AnswersStored.context_eq (h : AnswersStored b db s) :
    (cachedContext b wr db s hint).1 = (memoryAssembleContext b (s.origin db hint).2 (s.origin db hint).1).text := by
  unfold cachedContext CacheState.origin
  split
  · rename_i cached hhit
    rw [hhit]
    split at hhit
    · obtain ⟨e, hfind, ht⟩ := h _ _ hhit
      rw [hfind]
      exact ht
    · exact absurd hhit (by simp)
  · rename_i hmiss
    rw [hmiss]
    split
    · rfl
    · rfl

/-- A store with one memory of this kind. -/
def oneMemory (kind : String) : CacheState ℚ (Text → Option Text) where
  world :=
    { bareWorld with
      candidates := fun source =>
        if source = .primary then [⟨7, text "L1", text "deploy", text "Deploy from staging.", text kind, 0.9, 3⟩] else [] }
  cache _ := none
  stored := []

theorem oneMemory_id (kind : String) : ∀ c ∈ primaryCandidates sampleBuild (oneMemory kind).world (text "go"), c.id = 7 := by
  intro c hc
  obtain ⟨row, hrow, rfl⟩ := List.mem_map.1 hc
  obtain rfl := List.mem_singleton.1 hrow
  rfl

theorem oneMemory_keyTells (kind : String) : KeyTells (oneMemory kind) (.call (text "go")) :=
  fun _ hfind => absurd hfind (by rintro ⟨⟩)

theorem oneMemory_account : OneAccount sampleBuild (oneMemory "fact").world (text "go") 32 where
  hint_ne_nil := by decide
  listed := rfl
  timeless h := absurd h (by decide)
  answered _ h := absurd h (by rintro ⟨⟩)
  ids_nodup := by decide
  admitted := by decide
  room := .inl {
    ids_nodup := by decide
    ids_ne_zero := by decide
    restated := fun c hc d hd hid => absurd ((oneMemory_id "fact" c hc).trans (oneMemory_id "fact" d hd).symm) hid
    count := by decide +kernel
    tokens := by rintro ⟨⟩
    room := by decide +kernel }
  alone := {
    vectors := by decide
    tracked := by decide
    places := fun _ => by decide }

end AimeeMemory.Context
